import Mathlib.Tactic.Linarith
import Reactors.Time.Value

/-!
# The normal form of a time

A time is brought to its normal form by trying the units from the longest one down and taking the
first that divides the time exactly, provided that the quotient is a magnitude of 64 bits.  The
unit that the time was written in divides it, so the unit that is found is at least as long and the
quotient is no larger than the magnitude that was written.  So the proviso always holds for
the longest unit that divides the time, and the normal form depends on the time alone and not on
how it was written.

## Main definitions

* `TimeUnit.LongestDividing` — a unit is the longest one that divides a number of nanoseconds.
* `TimeValue.inUnit?` — one step of the search.

## Main results

* `TimeUnit.LongestDividing.unique` — there is only one such unit.
* `TimeValue.exists_int64?_of_dvd` — the magnitude fits in every longer unit that divides the time.
* `TimeValue.exists_findSome?_eq` — what the search for a unit finds.
* `TimeValue.normalized_is_canonical` — equal times, and only these, have one normal form.
-/

namespace Reactors

/-! ### Units -/

namespace TimeUnit

theorem mem_scaled_iff {u : TimeUnit} : u ∈ scaled ↔ u ≠ .none := by
  cases u <;> decide

theorem nanos_pos {u : TimeUnit} (hu : u ∈ scaled) : 0 < u.nanos := by
  cases u with
  | none => exact absurd rfl (mem_scaled_iff.1 hu)
  | _ => decide

/-- Units are told apart by their lengths. -/
theorem nanos_injective {u w : TimeUnit} (h : u.nanos = w.nanos) : u = w := by
  revert h
  cases u <;> cases w <;> decide

/-- The search for a unit meets the longer units first. -/
theorem pairwise_scaled : scaled.Pairwise fun u w => w.nanos < u.nanos := by
  decide

/-- A unit is the longest of those with a scale that divide a number of nanoseconds. -/
structure LongestDividing (u : TimeUnit) (n : ℤ) : Prop where
  mem_scaled : u ∈ scaled
  dvd : u.nanos ∣ n
  longest : ∀ w ∈ scaled, w.nanos ∣ n → w.nanos ≤ u.nanos

theorem LongestDividing.unique {u w : TimeUnit} {n : ℤ} (hu : u.LongestDividing n)
    (hw : w.LongestDividing n) : u = w := by
  have hle : u.nanos ≤ w.nanos := hw.longest u hu.mem_scaled hu.dvd
  have hge : w.nanos ≤ u.nanos := hu.longest w hw.mem_scaled hw.dvd
  exact nanos_injective (le_antisymm hle hge)

end TimeUnit

namespace TimeValue

open TimeUnit

variable {t : TimeValue} {u : TimeUnit}

/-! ### Magnitudes -/

theorem mem_scaled_of_toNanos (h : t.toNanos ≠ 0) : t.unit ∈ scaled := by
  rw [mem_scaled_iff]
  intro hnone
  rw [toNanos, hnone] at h
  exact h (Int.mul_zero _)

/-- **The magnitude fits in every longer unit that divides the time.** -/
theorem exists_int64?_of_dvd (ht : t.toNanos ≠ 0) (hdvd : u.nanos ∣ t.toNanos)
    (hle : t.unit.nanos ≤ u.nanos) :
    ∃ m, Text.int64? (t.toNanos / u.nanos) = some m := by
  have hunit : 0 < t.unit.nanos := nanos_pos (mem_scaled_of_toNanos ht)
  obtain ⟨q, hq⟩ := hdvd
  have hdiv : t.toNanos / u.nanos = q := by
    rw [hq]
    exact Int.mul_ediv_cancel_left q (by omega)
  have hwritten : t.magnitude.toInt * t.unit.nanos = u.nanos * q := hq
  have hleast : -2 ^ 63 ≤ t.magnitude.toInt := t.magnitude.le_toInt
  have hgreatest : t.magnitude.toInt < 2 ^ 63 := t.magnitude.toInt_lt
  -- a larger quotient would stand for a longer time than any magnitude in the unit that is written
  have hlower : -2 ^ 63 ≤ q := by
    by_contra hlt
    nlinarith
  have hupper : q < 2 ^ 63 := by
    by_contra hge
    nlinarith
  refine ⟨Int64.ofInt q, ?_⟩
  rw [hdiv, Text.int64?, Int64.toInt_minValue, Int64.toInt_maxValue, if_pos (by omega)]

/-! ### The search for a unit -/

/-- The time in a unit that divides it, if the magnitude fits. -/
def inUnit? (t : TimeValue) (u : TimeUnit) : Option TimeValue :=
  if t.toNanos % u.nanos = 0 then
    (Text.int64? (t.toNanos / u.nanos)).map fun m => ⟨m, u⟩
  else Option.none

theorem inUnit?_eq_some_iff {t' : TimeValue} :
    t.inUnit? u = some t' ↔
      u.nanos ∣ t.toNanos ∧ ∃ m, Text.int64? (t.toNanos / u.nanos) = some m ∧ ⟨m, u⟩ = t' := by
  rw [inUnit?, Int.dvd_iff_emod_eq_zero]
  by_cases hdvd : t.toNanos % u.nanos = 0
  · rw [if_pos hdvd, Option.map_eq_some_iff, and_iff_right hdvd]
  · simp [hdvd]

/-- A time can be expressed in every unit from its own one up that divides it. -/
theorem exists_inUnit? (ht : t.toNanos ≠ 0) (hdvd : u.nanos ∣ t.toNanos)
    (hle : t.unit.nanos ≤ u.nanos) : ∃ t', t.inUnit? u = some t' := by
  obtain ⟨m, hm⟩ := exists_int64?_of_dvd ht hdvd hle
  exact ⟨⟨m, u⟩, inUnit?_eq_some_iff.2 ⟨hdvd, m, hm, rfl⟩⟩

/-- **What the search for a unit finds**: the longest unit that divides the time, and
the magnitude that belongs to it. -/
theorem exists_findSome?_eq (ht : t.toNanos ≠ 0) :
    ∃ u m, u.LongestDividing t.toNanos ∧ Text.int64? (t.toNanos / u.nanos) = some m ∧
      scaled.findSome? t.inUnit? = some ⟨m, u⟩ := by
  have hown : t.unit ∈ scaled := mem_scaled_of_toNanos ht
  obtain ⟨own, hself⟩ := exists_inUnit? ht (Int.dvd_mul_left _ _) le_rfl
  have hfound : (scaled.findSome? t.inUnit?).isSome = true :=
    List.findSome?_isSome_iff.2 ⟨t.unit, hown, by rw [hself, Option.isSome_some]⟩
  obtain ⟨t', ht'⟩ := Option.isSome_iff_exists.1 hfound
  obtain ⟨before, u, after, hsplit, hu, hbefore⟩ := List.findSome?_eq_some_iff.1 ht'
  obtain ⟨hdvd, m, hm, rfl⟩ := inUnit?_eq_some_iff.1 hu
  have hordered := pairwise_scaled
  rw [hsplit] at hown hordered
  obtain ⟨-, hafter, hlonger⟩ := List.pairwise_append.1 hordered
  -- the search has not come to the unit in which the time is written
  have hrest : t.unit ∈ u :: after := by
    refine (List.mem_append.1 hown).resolve_left fun hmem => ?_
    rw [hbefore t.unit hmem] at hself
    cases hself
  refine ⟨u, m, ⟨?_, hdvd, fun w hw hdvdw => ?_⟩, hm, ht'⟩
  · rw [hsplit]
    exact List.mem_append_right _ List.mem_cons_self
  · rw [hsplit, List.mem_append, List.mem_cons] at hw
    rcases hw with hw | rfl | hw
    · obtain ⟨t'', hsome⟩ := exists_inUnit? ht hdvdw (hlonger w hw t.unit hrest).le
      rw [hbefore w hw] at hsome
      cases hsome
    · exact le_rfl
    · exact ((List.pairwise_cons.1 hafter).1 w hw).le

/-! ### Normal forms -/

theorem normalized_of_toNanos_eq_zero (h : t.toNanos = 0) : t.normalized = zero := by
  rw [normalized, if_pos h]

theorem normalized_of_findSome?_eq {t' : TimeValue} (ht : t.toNanos ≠ 0)
    (h : scaled.findSome? t.inUnit? = some t') : t.normalized = t' := by
  have hsearch : t.normalized = (scaled.findSome? t.inUnit?).getD t := by
    rw [normalized, if_neg ht]
    rfl
  rw [hsearch, h, Option.getD_some]

theorem toNanos_of_int64? {n : ℤ} {m : Int64} (hdvd : u.nanos ∣ n)
    (hm : Text.int64? (n / u.nanos) = some m) : toNanos ⟨m, u⟩ = n := by
  rw [toNanos, Text.toInt_of_int64? hm, Int.ediv_mul_cancel hdvd]

/-- The normal form stands for the same time. -/
theorem toNanos_normalized (t : TimeValue) : t.normalized.toNanos = t.toNanos := by
  by_cases ht : t.toNanos = 0
  · rw [normalized_of_toNanos_eq_zero ht, ht]
    rfl
  · obtain ⟨u, m, hu, hm, hfound⟩ := exists_findSome?_eq ht
    rw [normalized_of_findSome?_eq ht hfound, toNanos_of_int64? hu.dvd hm]

/-- The normal form depends on the time alone. -/
theorem normalized_congr {a b : TimeValue} (h : a.toNanos = b.toNanos) :
    a.normalized = b.normalized := by
  by_cases ha : a.toNanos = 0
  · rw [normalized_of_toNanos_eq_zero ha, normalized_of_toNanos_eq_zero (h ▸ ha)]
  · have hb : b.toNanos ≠ 0 := h ▸ ha
    obtain ⟨u, m, hu, hm, hfound⟩ := exists_findSome?_eq ha
    obtain ⟨u', m', hu', hm', hfound'⟩ := exists_findSome?_eq hb
    rw [← h] at hu' hm'
    obtain rfl : u = u' := hu.unique hu'
    obtain rfl : m = m' := Option.some.inj (hm.symm.trans hm')
    rw [normalized_of_findSome?_eq ha hfound, normalized_of_findSome?_eq hb hfound']

/-- **The normal form of a time is canonical.**  It stands for the same time.  The zero time has
the zero without a unit as its normal form; for every other time the search finds something, and
this is the longest unit that divides the time, in which the magnitude fits.  A normal form is its
own normal form, and two values are equal exactly if their normal forms have the same magnitude
and unit. -/
theorem normalized_is_canonical (t : TimeValue) :
    t.normalized.toNanos = t.toNanos ∧
    (t.toNanos = 0 → t.normalized = zero) ∧
    (t.toNanos ≠ 0 → t.normalized.unit.LongestDividing t.toNanos ∧
      Text.int64? (t.toNanos / t.normalized.unit.nanos) = some t.normalized.magnitude ∧
      scaled.findSome? t.inUnit? = some t.normalized) ∧
    t.normalized.normalized = t.normalized ∧
    ∀ b, t.same b = true ↔
      t.normalized.magnitude = b.normalized.magnitude ∧ t.normalized.unit = b.normalized.unit := by
  refine ⟨toNanos_normalized t, normalized_of_toNanos_eq_zero, fun ht => ?_,
    normalized_congr (toNanos_normalized t), fun b => ?_⟩
  · obtain ⟨u, m, hu, hm, hfound⟩ := exists_findSome?_eq ht
    rw [normalized_of_findSome?_eq ht hfound]
    exact ⟨hu, hm, hfound⟩
  · rw [same, beq_iff_eq]
    constructor
    · intro hsame
      rw [normalized_congr hsame]
      exact ⟨rfl, rfl⟩
    · -- both values are as long as the common normal form
      rintro ⟨hmagnitude, hunit⟩
      calc t.toNanos = t.normalized.toNanos := (toNanos_normalized t).symm
        _ = b.normalized.toNanos := by rw [toNanos, toNanos, hmagnitude, hunit]
        _ = b.toNanos := toNanos_normalized b

/-- The normal form of 120 seconds is two minutes; that of a magnitude without a unit is zero. -/
theorem two_minutes_normalized :
    toNanos ⟨120, .sec⟩ ≠ 0 ∧ normalized ⟨120, .sec⟩ = ⟨2, .minute⟩ ∧
    LongestDividing .minute (toNanos ⟨120, .sec⟩) ∧
    toNanos ⟨7, .none⟩ = 0 ∧ normalized ⟨7, .none⟩ = zero := by
  have htime : toNanos ⟨120, .sec⟩ ≠ 0 := by decide
  have hnone : toNanos ⟨7, .none⟩ = 0 := by decide
  have hminutes : normalized ⟨120, .sec⟩ = ⟨2, .minute⟩ := by decide
  obtain ⟨-, -, hlongest, -⟩ := normalized_is_canonical ⟨120, .sec⟩
  obtain ⟨-, hzero, -⟩ := normalized_is_canonical ⟨7, .none⟩
  have hunit := (hlongest htime).1
  rw [hminutes] at hunit
  exact ⟨htime, hminutes, hunit, hnone, hzero hnone⟩

/-- The least magnitude of weeks has no longer unit, and does not overflow. -/
example : normalized ⟨Int64.minValue, .week⟩ = ⟨Int64.minValue, .week⟩ := by decide

end TimeValue
end Reactors

import Mathlib.Order.Compare
import Mathlib.Tactic.Linarith
import Reactors.Time.Value

/-!
# Spans of time

The span of a time counts whole seconds in a word of 64 bits and what is left in one of 32 bits.
The seconds are checked before they are put into their word, the rest is not; but a rest of a
division by `10 ^ 9` always fits.  So a span stands for exactly the nanoseconds of its time, and
there is one as long as the seconds fit.  Since the rest is less than a second, comparing spans by
their seconds first is comparing the nanoseconds.

## Main definitions

* `Duration.toNanos` — the nanoseconds of a span.
* `Duration.order` — spans are compared by their seconds, then by the rest.

## Main results

* `Duration.order_eq_compare` — the order of spans is that of their nanoseconds.
* `TimeValue.toNanos_bounds` — the nanoseconds of a time fit 128 bits with sign.
* `TimeValue.duration?_eq_some_iff` — the span of a time.
* `TimeValue.durations_are_exact` — which times have a span, what it is, and how spans compare.
-/

namespace Reactors

namespace Duration

/-- The nanoseconds that a span stands for. -/
def toNanos (d : Duration) : ℤ := d.seconds * 1000000000 + d.nanos

/-- Spans are compared by their whole seconds, and by the rest if these are the same. -/
def order (a b : Duration) : Ordering :=
  (compare a.seconds b.seconds).then (compare a.nanos b.nanos)

variable {a b : Duration}

theorem seconds_lt (d : Duration) : d.seconds < 2 ^ 64 := d.secondsWord.toNat_lt

/-- **The order of spans is that of their nanoseconds** if what is left is less than a second. -/
theorem order_eq_compare (ha : a.nanos < 1000000000) (hb : b.nanos < 1000000000) :
    a.order b = compare a.toNanos b.toNanos := by
  have hlt {c d : Duration} (hc : c.nanos < 1000000000) (h : c.seconds < d.seconds) :
      c.toNanos < d.toNanos := by
    unfold toNanos
    omega
  rw [order]
  rcases lt_trichotomy a.seconds b.seconds with h | h | h
  · rw [compare_lt_iff_lt.2 h, compare_lt_iff_lt.2 (hlt ha h)]
    rfl
  · rw [compare_eq_iff_eq.2 h, toNanos, toNanos, h]
    rcases lt_trichotomy a.nanos b.nanos with hn | hn | hn
    · rw [compare_lt_iff_lt.2 hn, compare_lt_iff_lt.2 (by omega)]
      rfl
    · rw [compare_eq_iff_eq.2 hn, compare_eq_iff_eq.2 (by omega)]
      rfl
    · rw [compare_gt_iff_gt.2 hn, compare_gt_iff_gt.2 (by omega)]
      rfl
  · rw [compare_gt_iff_gt.2 h, compare_gt_iff_gt.2 (hlt hb h)]
    rfl

end Duration

theorem TimeUnit.nanos_nonneg (u : TimeUnit) : 0 ≤ u.nanos := by cases u <;> decide

theorem TimeUnit.nanos_le_week (u : TimeUnit) : u.nanos ≤ TimeUnit.week.nanos := by
  cases u <;> decide

namespace TimeValue

/-- The nanoseconds of a time fit 128 bits with sign. -/
theorem toNanos_bounds (t : TimeValue) : -2 ^ 127 ≤ t.toNanos ∧ t.toNanos < 2 ^ 127 := by
  have hlow : -2 ^ 63 ≤ t.magnitude.toInt := t.magnitude.le_toInt
  have hhigh : t.magnitude.toInt < 2 ^ 63 := t.magnitude.toInt_lt
  have hnonneg : 0 ≤ t.unit.nanos := t.unit.nanos_nonneg
  have hweek : t.unit.nanos ≤ 604800 * 1000000000 := t.unit.nanos_le_week
  unfold toNanos
  constructor <;> nlinarith

variable {t : TimeValue} {d : Duration}

/-- The rest of the division fits its word, and the seconds fit theirs if there is a span at all:
**the span of a time stands for its nanoseconds**. -/
theorem duration?_eq_some_iff :
    t.duration? = some d ↔ d.toNanos = t.toNanos ∧ d.nanos < 1000000000 := by
  have hrest : (UInt32.ofNat (t.toNanos % 1000000000).toNat).toNat =
      (t.toNanos % 1000000000).toNat :=
    UInt32.toNat_ofNat_of_lt' (by omega : (t.toNanos % 1000000000).toNat < 2 ^ 32)
  rw [duration?]
  split_ifs with hneg
  · refine iff_of_false (fun h => by cases h) fun ⟨h, _⟩ => ?_
    unfold Duration.toNanos at h
    omega
  · rw [Option.map_eq_some_iff]
    constructor
    · rintro ⟨seconds, hseconds, rfl⟩
      have hfits : seconds.toNat = (t.toNanos / 1000000000).toNat :=
        Text.toNat_of_uint64? hseconds
      simp only [Duration.toNanos, Duration.seconds, Duration.nanos, hfits, hrest]
      omega
    · rintro ⟨h, hlt⟩
      unfold Duration.toNanos at h
      -- the nanoseconds of a span are a remainder, so that both parts are determined
      have hseconds : (t.toNanos / 1000000000).toNat = d.seconds := by omega
      have hnanos : (t.toNanos % 1000000000).toNat = d.nanos := by omega
      refine ⟨d.secondsWord, ?_, ?_⟩
      · rw [hseconds, Duration.seconds, Text.uint64?_toNat]
      · rw [hnanos, Duration.nanos, UInt32.ofNat_toNat]

/-- A time has a span if it is not negative and its whole seconds fit a word. -/
theorem isSome_duration?_iff :
    t.duration?.isSome = true ↔ 0 ≤ t.toNanos ∧ t.toNanos < 2 ^ 64 * 10 ^ 9 := by
  rw [Option.isSome_iff_exists]
  constructor
  · rintro ⟨d, hd⟩
    obtain ⟨h, hlt⟩ := duration?_eq_some_iff.1 hd
    have hseconds : d.seconds < 2 ^ 64 := d.seconds_lt
    unfold Duration.toNanos at h
    omega
  · rintro ⟨hnonneg, hlt⟩
    have hfits : (t.toNanos / 1000000000).toNat < UInt64.size := by
      have : UInt64.size = 2 ^ 64 := rfl
      omega
    rw [duration?, if_neg (by omega), Text.uint64?, if_pos hfits, Option.map_some]
    exact ⟨_, rfl⟩

/-- **Spans of time are exact.**  The nanoseconds of a time always fit 128 bits with sign.  A time
has a span if it is not negative and less than `2 ^ 64` seconds, and the seconds and nanoseconds of
the span make up exactly its own.  Times that have spans compare as their spans do. -/
theorem durations_are_exact (a : TimeValue) :
    (-2 ^ 127 ≤ a.toNanos ∧ a.toNanos < 2 ^ 127) ∧
    (a.duration?.isSome = true ↔ 0 ≤ a.toNanos ∧ a.toNanos < 2 ^ 64 * 10 ^ 9) ∧
    (∀ d, a.duration? = some d →
      (d.seconds : ℤ) * 10 ^ 9 + d.nanos = a.toNanos ∧ d.nanos < 10 ^ 9) ∧
    ∀ b d d', a.duration? = some d → b.duration? = some d' →
      a.order b = d.order d' ∧ (a.same b = true ↔ d = d') := by
  refine ⟨a.toNanos_bounds, isSome_duration?_iff, fun d hd => ?_, fun b d d' hd hd' => ?_⟩
  · obtain ⟨h, hlt⟩ := duration?_eq_some_iff.1 hd
    exact ⟨h, hlt⟩
  · obtain ⟨h, hlt⟩ := duration?_eq_some_iff.1 hd
    obtain ⟨h', hlt'⟩ := duration?_eq_some_iff.1 hd'
    -- a span makes up its time exactly, so that the nanoseconds decide both comparisons
    constructor
    · rw [order, ← h, ← h', Duration.order_eq_compare hlt hlt']
    · rw [same, beq_iff_eq]
      constructor
      · intro hsame
        have hspan : a.duration? = some d' :=
          duration?_eq_some_iff.2 ⟨h'.trans hsame.symm, hlt'⟩
        exact Option.some.inj (hd.symm.trans hspan)
      · rintro rfl
        exact h.symm.trans h'

/-- The spans of 1500 milliseconds and of two seconds make these up, and compare as they do. -/
theorem two_spans_exact :
    duration? ⟨1500, .msec⟩ = some ⟨1, 500000000⟩ ∧ duration? ⟨2, .sec⟩ = some ⟨2, 0⟩ ∧
    (1 : ℤ) * 10 ^ 9 + 500000000 = toNanos ⟨1500, .msec⟩ ∧
    order ⟨1500, .msec⟩ ⟨2, .sec⟩ = Duration.order ⟨1, 500000000⟩ ⟨2, 0⟩ := by
  have hshorter : duration? ⟨1500, .msec⟩ = some ⟨1, 500000000⟩ := by decide
  have hlonger : duration? ⟨2, .sec⟩ = some ⟨2, 0⟩ := by decide
  obtain ⟨-, -, hexact, hcompare⟩ := durations_are_exact ⟨1500, .msec⟩
  exact ⟨hshorter, hlonger, (hexact _ hshorter).1, (hcompare _ _ _ hshorter hlonger).1⟩

/-- So many weeks are more seconds than a word holds. -/
example : duration? ⟨Int64.maxValue, .week⟩ = none := by decide

end TimeValue
end Reactors

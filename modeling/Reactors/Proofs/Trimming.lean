import Mathlib.Data.List.TakeWhile
import Reactors.Text.Blank

/-!
# Trimmed texts

Trimming drops the blanks at the front and then, in a separate pass, those at the end.  What it
leaves is fixed by the text alone: it is the part that has blanks on both sides, and neither begins
nor ends with one.  So blanks that are put around a text are not seen behind the trimming, and
a change of letters that makes no blank and removes none can be done before it or after it.

## Main definitions

* `Text.TrimsTo` — a text without the blanks around it.

## Main results

* `Text.trim_eq_self` — a text without outer blanks is not trimmed.
* `Text.trim_append_of_blank` — blanks around a text do not matter.
* `Text.trimsTo_iff` — what trimming leaves.
* `Text.trim_map` — trimming after a change of letters.
-/

namespace Reactors
namespace Text

/-- What is left of a text without the blanks around it. -/
structure TrimsTo (s t : List Char) : Prop where
  around : ∃ before after, s = before ++ t ++ after ∧
    (∀ c ∈ before, isBlank c = true) ∧ ∀ c ∈ after, isBlank c = true
  first : ∀ c ∈ t.head?, isBlank c = false
  last : ∀ c ∈ t.getLast?, isBlank c = false

variable {s t before after : List Char} {c : Char}

/-- The graphic characters of ASCII are no blanks. -/
theorem isBlank_of_graphic (hlow : 33 ≤ c.toNat) (hhigh : c.toNat ≤ 126) : isBlank c = false := by
  simp only [isBlank, Bool.or_eq_false_iff, Bool.and_eq_false_iff, decide_eq_false_iff_not,
    beq_eq_false_iff_ne]
  omega

/-! ### Blanks at the end -/

theorem trimEnd_eq_self {s : List Char} (hlast : ∀ c ∈ s.getLast?, isBlank c = false) :
    trimEnd s = s := by
  induction s with
  | nil => rfl
  | cons c s ih =>
    cases s with
    | nil => simp [trimEnd, hlast c rfl]
    | cons d s =>
      have hbehind : trimEnd (d :: s) = d :: s := ih fun x hx => hlast x hx
      rw [trimEnd, hbehind]

theorem trimEnd_eq_nil (hafter : ∀ c ∈ after, isBlank c = true) : trimEnd after = [] := by
  induction after with
  | nil => rfl
  | cons c s ih =>
    rw [List.forall_mem_cons] at hafter
    rw [trimEnd, ih hafter.2]
    exact if_pos hafter.1

theorem trimEnd_append_of_blank (s : List Char) (hafter : ∀ c ∈ after, isBlank c = true) :
    trimEnd (s ++ after) = trimEnd s := by
  induction s with
  | nil => exact trimEnd_eq_nil hafter
  | cons c s ih => rw [List.cons_append, trimEnd, ih, trimEnd]

/-- Only blanks are dropped at the end. -/
theorem exists_trimEnd_append (s : List Char) :
    ∃ after, s = trimEnd s ++ after ∧ ∀ c ∈ after, isBlank c = true := by
  induction s with
  | nil => exact ⟨[], rfl, by simp⟩
  | cons c s ih =>
    obtain ⟨after, hs, hafter⟩ := ih
    cases hrest : trimEnd s with
    | nil =>
      rw [hrest, List.nil_append] at hs
      by_cases hc : isBlank c = true
      · refine ⟨c :: s, ?_, ?_⟩
        · simp [trimEnd, hrest, hc]
        · exact List.forall_mem_cons.2 ⟨hc, hs ▸ hafter⟩
      · refine ⟨s, ?_, hs ▸ hafter⟩
        simp [trimEnd, hrest, hc]
    | cons d r =>
      refine ⟨after, ?_, hafter⟩
      rw [trimEnd, hrest, hs, hrest]
      rfl

theorem head?_of_trimEnd (h : c ∈ (trimEnd s).head?) : c ∈ s.head? := by
  obtain ⟨after, hs, -⟩ := exists_trimEnd_append s
  rw [hs, List.head?_append, h]
  rfl

theorem getLast?_trimEnd (s : List Char) : ∀ c ∈ (trimEnd s).getLast?, isBlank c = false := by
  induction s with
  | nil => exact fun c hc => by cases hc
  | cons c s ih =>
    cases hrest : trimEnd s with
    | nil => by_cases hc : isBlank c = true <;> simp [trimEnd, hrest, hc]
    | cons d r =>
      have hlast : (trimEnd (c :: s)).getLast? = (trimEnd s).getLast? := by
        rw [trimEnd, hrest]
        exact List.getLast?_cons_cons
      rw [hlast]
      exact ih

/-! ### Blanks on both sides -/

theorem trim_cons_of_blank (hc : isBlank c = true) : trim (c :: s) = trim s := by
  rw [trim, trimStart, List.dropWhile_cons_of_pos hc]
  rfl

theorem trim_cons_of_not_blank (hc : isBlank c = false) : trim (c :: s) = trimEnd (c :: s) := by
  rw [trim, trimStart, List.dropWhile_cons_of_neg (by simp [hc])]

/-- A text that neither begins nor ends with a blank stays as it is. -/
theorem trim_eq_self {s : List Char} (hfirst : ∀ c ∈ s.head?, isBlank c = false)
    (hlast : ∀ c ∈ s.getLast?, isBlank c = false) : trim s = s := by
  cases s with
  | nil => rfl
  | cons c s => rw [trim_cons_of_not_blank (hfirst c rfl), trimEnd_eq_self hlast]

/-- Blanks around a text do not matter. -/
theorem trim_append_of_blank (s : List Char) (hbefore : ∀ c ∈ before, isBlank c = true)
    (hafter : ∀ c ∈ after, isBlank c = true) : trim (before ++ s ++ after) = trim s := by
  induction before with
  | nil =>
    induction s with
    | nil =>
      rw [List.append_nil, List.nil_append, trim, trimStart, List.dropWhile_eq_nil_iff.2 hafter]
      rfl
    | cons c s ih =>
      by_cases hc : isBlank c = true
      · simpa [trim_cons_of_blank hc] using ih
      · have hc' : isBlank c = false := by simpa using hc
        rw [List.nil_append, List.cons_append, trim_cons_of_not_blank hc', ← List.cons_append,
          trimEnd_append_of_blank _ hafter, trim_cons_of_not_blank hc']
  | cons c r ih =>
    rw [List.forall_mem_cons] at hbefore
    rw [List.cons_append, List.cons_append, trim_cons_of_blank hbefore.1, ih hbefore.2]

/-- **What trimming leaves** has blanks on both sides, and neither begins nor ends with one. -/
theorem trimsTo_iff : TrimsTo s t ↔ trim s = t := by
  constructor
  · rintro ⟨⟨before, after, rfl, hbefore, hafter⟩, hfirst, hlast⟩
    rw [trim_append_of_blank t hbefore hafter, trim_eq_self hfirst hlast]
  · rintro rfl
    obtain ⟨after, hend, hafter⟩ := exists_trimEnd_append (trimStart s)
    refine ⟨⟨s.takeWhile isBlank, after, ?_, fun c => List.mem_takeWhile_imp, hafter⟩, ?_,
      getLast?_trimEnd _⟩
    · rw [List.append_assoc, trim, ← hend]
      exact List.takeWhile_append_dropWhile.symm
    · intro c hc
      have hstart : (trimStart s).head? = some c := by
        rw [hend, List.head?_append, ← trim, hc]
        rfl
      have hnot := List.head?_dropWhile_not isBlank s
      rw [← trimStart, hstart] at hnot
      exact hnot

theorem trim_trimEnd (s : List Char) : trim (trimEnd s) = trim s := by
  obtain ⟨after, hs, hafter⟩ := exists_trimEnd_append s
  have hback := trim_append_of_blank (trimEnd s) (List.forall_mem_nil _) hafter
  rw [List.nil_append, ← hs] at hback
  exact hback.symm

/-- A text without blanks in front of another one keeps the trimming away from its end. -/
theorem trimEnd_append_of_not_blank (hs : ∀ c ∈ s, isBlank c = false) (t : List Char) :
    trimEnd (s ++ t) = s ++ trimEnd t := by
  induction s with
  | nil => rfl
  | cons c s ih =>
    rw [List.forall_mem_cons] at hs
    rw [List.cons_append, trimEnd, ih hs.2]
    cases hrest : s ++ trimEnd t with
    | nil => simp [hs.1, hrest]
    | cons d r => rw [List.cons_append, hrest]

theorem trim_append_of_not_blank (hne : s ≠ []) (hs : ∀ c ∈ s, isBlank c = false)
    (t : List Char) : trim (s ++ t) = s ++ trimEnd t := by
  cases s with
  | nil => exact absurd rfl hne
  | cons c s =>
    rw [List.cons_append, trim_cons_of_not_blank (hs c List.mem_cons_self), ← List.cons_append,
      trimEnd_append_of_not_blank hs]

/-! ### Changed letters -/

theorem trimEnd_map {f : Char → Char} (hf : ∀ c, isBlank (f c) = isBlank c) (s : List Char) :
    trimEnd (s.map f) = (trimEnd s).map f := by
  induction s with
  | nil => rfl
  | cons c s ih =>
    rw [List.map_cons, trimEnd, trimEnd, ih, hf]
    cases trimEnd s with
    | nil => by_cases hc : isBlank c = true <;> simp [hc]
    | cons d r => rfl

/-- Trimming after a change of letters is changing the letters after the trimming. -/
theorem trim_map {f : Char → Char} (hf : ∀ c, isBlank (f c) = isBlank c) (s : List Char) :
    trim (s.map f) = (trim s).map f := by
  have hblank : isBlank ∘ f = isBlank := funext hf
  rw [trim, trimStart, List.dropWhile_map, hblank, trimEnd_map hf]
  rfl

end Text
end Reactors

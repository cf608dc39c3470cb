import Mathlib.Data.List.Infix
import Reactors.Text.Blank
import Reactors.Text.Lines

/-!
# A text and its lines

Taking a text apart into lines drops the line feeds and the carriage returns right before them,
and nothing else.  So the lines hold every character of the text that is not blank, in its order,
and a piece of a line is a piece of the text.  In the other direction, lines that are set under
each other come back if none of them could be taken for something else: they have no line feed
in them, no carriage return at the end, and the last one is not empty.

A text either has no line feed, or it has a first one.  The proofs follow this, and not the
characters one by one (`byLines`).

## Main definitions

* `Text.withoutReturn` — a line without the carriage return at its end.
* `Text.visible` — a text without its blanks.

## Main results

* `Text.lines_append_newline` — the first line of a text.
* `Text.visible_lines` — lines hold the visible characters of the text.
* `Text.infix_of_mem_lines`, `Text.exists_infix_of_infix_joinLines` — pieces of lines.
* `Text.lines_joinLines` — lines that are set under each other come back.
-/

namespace Reactors
namespace Text

variable {s l r w : List Char} {ls : List (List Char)} {c : Char}

/-! ### Ends of lines -/

/-- A line without the carriage return at its end, which belongs to the end of the line. -/
def withoutReturn (l : List Char) : List Char :=
  if l.getLast? = some '\r' then l.dropLast else l

theorem withoutReturn_cons (h : l ≠ [] ∨ c ≠ '\r') :
    withoutReturn (c :: l) = c :: withoutReturn l := by
  cases l with
  | nil =>
    have hc : c ≠ '\r' := h.resolve_left fun hnil => hnil rfl
    simp [withoutReturn, hc]
  | cons d l =>
    unfold withoutReturn
    rw [List.getLast?_cons_cons, List.dropLast_cons_cons]
    split <;> rfl

theorem withoutReturn_append (hl : l ≠ []) (s : List Char) :
    withoutReturn (s ++ l) = s ++ withoutReturn l := by
  induction s with
  | nil => rfl
  | cons c s ih =>
    rw [List.cons_append, withoutReturn_cons (.inl (List.append_ne_nil_of_right_ne_nil s hl)), ih]
    rfl

theorem withoutReturn_eq_self (hl : l.getLast? ≠ some '\r') : withoutReturn l = l := if_neg hl

/-- What is dropped at the end of a line are carriage returns. -/
theorem exists_withoutReturn_append (l : List Char) :
    ∃ ending, l = withoutReturn l ++ ending ∧ ∀ c ∈ ending, c = '\r' := by
  unfold withoutReturn
  split
  · next hlast =>
    exact ⟨['\r'], (List.dropLast_append_getLast? _ hlast).symm, by simp⟩
  · exact ⟨[], (List.append_nil l).symm, List.forall_mem_nil _⟩

/-! ### Taking a text apart -/

/-- A character that ends no line stands at the front of the first line. -/
theorem lines_cons (hc : c ≠ '\n') (hreturn : c = '\r' → r.head? ≠ some '\n')
    (hr : lines r = l :: ls) : lines (c :: r) = (c :: l) :: ls := by
  rw [lines, hr]
  · exact hc
  · rintro r' rfl rfl
    exact hreturn rfl rfl

/-- A text without a line feed is a single line, with a carriage return at its end if it has one. -/
theorem lines_of_not_mem (hl : '\n' ∉ l) (hne : l ≠ []) : lines l = [l] := by
  induction l with
  | nil => exact absurd rfl hne
  | cons c l ih =>
    rw [List.mem_cons, not_or] at hl
    cases l with
    | nil =>
      rw [lines]
      · rfl
      · exact Ne.symm hl.1
      · rintro r' - ⟨⟩
    | cons d l =>
      refine lines_cons (Ne.symm hl.1) ?_ (ih hl.2 (List.cons_ne_nil d l))
      rintro - ⟨⟩
      exact hl.2 List.mem_cons_self

/-- What stands before the first line feed is the first line. -/
theorem lines_append_newline (hl : '\n' ∉ l) (r : List Char) :
    lines (l ++ '\n' :: r) = withoutReturn l :: lines r := by
  induction l with
  | nil => rfl
  | cons c l ih =>
    rw [List.mem_cons, not_or] at hl
    by_cases hend : l ≠ [] ∨ c ≠ '\r'
    · rw [withoutReturn_cons hend, List.cons_append]
      refine lines_cons (Ne.symm hl.1) ?_ (ih hl.2)
      rintro rfl
      cases l with
      | nil => simp at hend
      | cons d l =>
        rintro ⟨⟩
        exact hl.2 List.mem_cons_self
    · -- the carriage return goes with the line feed behind it
      push Not at hend
      obtain ⟨rfl, rfl⟩ := hend
      rfl

/-- What holds of texts without a line feed, and passes from the text behind a line to the whole,
holds of every text. -/
theorem byLines {P : List Char → Prop} (single : ∀ l, '\n' ∉ l → P l)
    (line : ∀ l r, '\n' ∉ l → P r → P (l ++ '\n' :: r)) (s : List Char) : P s := by
  induction hn : s.length using Nat.strongRecOn generalizing s with
  | ind n ih =>
    by_cases hs : '\n' ∈ s
    · obtain ⟨l, r, rfl, hl⟩ := List.eq_append_cons_of_mem hs
      refine line l r hl (ih r.length ?_ r rfl)
      rw [← hn, List.length_append, List.length_cons]
      omega
    · exact single s hs

/-- A line is a piece of its text, and has no line feed in it. -/
theorem infix_of_mem_lines (h : l ∈ lines s) : l <:+: s ∧ '\n' ∉ l := by
  induction s using byLines with
  | single s hs =>
    by_cases hne : s = []
    · subst hne
      cases h
    · rw [lines_of_not_mem hs hne, List.mem_singleton] at h
      subst h
      exact ⟨List.infix_rfl, hs⟩
  | line s r hs ih =>
    rw [lines_append_newline hs, List.mem_cons] at h
    rcases h with rfl | h
    · obtain ⟨ending, hending, -⟩ := exists_withoutReturn_append s
      have hbegins : withoutReturn s <+: s := ⟨ending, hending.symm⟩
      exact ⟨(hbegins.trans (List.prefix_append s _)).isInfix,
        fun hmem => hs (hbegins.subset hmem)⟩
    · obtain ⟨hwithin, hnone⟩ := ih h
      have hsuffix : r <:+ s ++ '\n' :: r := ⟨s ++ ['\n'], by simp⟩
      exact ⟨hwithin.trans hsuffix.isInfix, hnone⟩

/-! ### Visible characters -/

/-- A text without its blanks. -/
def visible (s : List Char) : List Char := s.filter (!isBlank ·)

theorem visible_append (s r : List Char) : visible (s ++ r) = visible s ++ visible r :=
  List.filter_append ..

theorem visible_eq_nil_iff : visible s = [] ↔ allBlank s = true := by
  simp [visible, allBlank]

theorem visible_withoutReturn (l : List Char) : visible (withoutReturn l) = visible l := by
  obtain ⟨ending, hl, hending⟩ := exists_withoutReturn_append l
  have hblank : visible ending = [] := by
    rw [visible_eq_nil_iff, allBlank, List.all_eq_true]
    rintro c hc
    rw [hending c hc]
    rfl
  conv_rhs => rw [hl, visible_append, hblank, List.append_nil]

/-- The lines of a text hold its visible characters. -/
theorem visible_lines (s : List Char) : (lines s).flatMap visible = visible s := by
  induction s using byLines with
  | single s hs =>
    by_cases hne : s = []
    · subst hne
      rfl
    · rw [lines_of_not_mem hs hne, List.flatMap_singleton]
  | line s r hs ih =>
    rw [lines_append_newline hs, List.flatMap_cons, ih, visible_withoutReturn, visible_append]
    rfl

/-- So do the lines that are set under each other. -/
theorem visible_joinLines (ls : List (List Char)) :
    visible (joinLines ls) = ls.flatMap visible := by
  induction ls with
  | nil => rfl
  | cons l ls ih =>
    cases ls with
    | nil => simp [joinLines]
    | cons l' ls =>
      rw [joinLines, visible_append, List.flatMap_cons, ← ih]
      · rfl
      · exact List.cons_ne_nil l' ls

/-! ### Setting lines under each other -/

theorem joinLines_cons_cons (l l' : List Char) (ls : List (List Char)) :
    joinLines (l :: l' :: ls) = l ++ '\n' :: joinLines (l' :: ls) := rfl

/-- A piece of a text without a line feed is on one side of a line feed. -/
theorem infix_append_newline (hw : '\n' ∉ w) (h : w <:+: l ++ '\n' :: r) :
    w <:+: l ∨ w <:+: r := by
  -- nothing but the empty piece begins where the line feed stands
  have hnil : ∀ {v : List Char}, '\n' ∉ v → v <+: '\n' :: r → v = [] := by
    intro v hv hbegins
    cases v with
    | nil => rfl
    | cons c v =>
      rw [(List.cons_prefix_cons.1 hbegins).1] at hv
      exact absurd List.mem_cons_self hv
  rw [List.infix_append_iff, List.infix_cons_iff] at h
  rcases h with h | (h | h) | ⟨w₁, w₂, rfl, h₁, h₂⟩
  · exact .inl h
  · exact .inl (hnil hw h ▸ List.nil_infix)
  · exact .inr h
  · rw [List.mem_append, not_or] at hw
    rw [hnil hw.2 h₂, List.append_nil]
    exact .inl h₁.isInfix

/-- A piece without a line feed of lines that are set under each other is a piece of a line. -/
theorem exists_infix_of_infix_joinLines (hw : '\n' ∉ w) (hne : w ≠ [])
    (h : w <:+: joinLines ls) : ∃ l ∈ ls, w <:+: l := by
  induction ls with
  | nil => exact absurd (List.infix_nil.1 h) hne
  | cons l ls ih =>
    cases ls with
    | nil => exact ⟨l, List.mem_cons_self, h⟩
    | cons l' ls =>
      rw [joinLines_cons_cons] at h
      rcases infix_append_newline hw h with h | h
      · exact ⟨l, List.mem_cons_self, h⟩
      · obtain ⟨l'', hmem, hl''⟩ := ih h
        exact ⟨l'', List.mem_cons_of_mem _ hmem, hl''⟩

/-- Lines that are set under each other come back, if each of them can be a line, and an empty one
does not come last. -/
theorem lines_joinLines (hline : ∀ l ∈ ls, '\n' ∉ l ∧ l.getLast? ≠ some '\r')
    (hlast : ls.getLast? ≠ some []) : lines (joinLines ls) = ls := by
  induction ls with
  | nil => rfl
  | cons l ls ih =>
    rw [List.forall_mem_cons] at hline
    cases ls with
    | nil => exact lines_of_not_mem hline.1.1 fun hnil => hlast (congrArg some hnil)
    | cons l' ls =>
      rw [List.getLast?_cons_cons] at hlast
      rw [joinLines_cons_cons, lines_append_newline hline.1.1, ih hline.2 hlast,
        withoutReturn_eq_self hline.1.2]

end Text
end Reactors

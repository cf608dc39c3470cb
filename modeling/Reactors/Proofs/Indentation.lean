import Mathlib.Data.List.Forall2
import Mathlib.Order.Bounds.Image
import Reactors.Program.Code
import Reactors.Proofs.TextLines
import Reactors.Proofs.Trimming

/-!
# Indentation of blocks

A block of code is shown from its first to its last line that is not blank, without the indentation
that these lines share.  That is the least number of blanks at the beginning of a line that is not
blank, so every such line loses blanks only, and one of them loses all it has.  What is visible
stays as it is, and lines keep their indentation against each other.

Blanks are counted as characters, but a line is cut at a byte.  The byte at which a character
begins is a boundary between characters, whatever the characters before it are.

Putting equally many blanks in front of every line changes nothing: the shared indentation grows
by their number.

## Main definitions

* `Program.indentations` — the indentations of the lines that are not blank.
* `Program.LosesMargin` — what is left of a line.
* `Program.Dedents` — the lines of a block without their shared indentation.
* `Program.cutByte` — the byte at which a line is cut.
* `Program.Indented` — a text with more blanks in front of every line.

## Main results

* `Program.exists_stripBlankLines_append` — the blank lines around a block.
* `Program.isLeast_sharedIndentation` — the shared indentation is the least one.
* `Program.losesMargin_cutMargin` — what is cut off a line.
* `Program.isValid_cutByte`, `Program.extract_cutByte` — lines are cut between characters.
* `Program.dedent_indented` — deeper blocks come to the same.
* `Program.dedent_keeps_code` — what becomes of a block.
-/

namespace Reactors
namespace Program

open Text

variable {s s' l t lead tail : List Char} {ls ls' : List (List Char)} {margin n : Nat}

theorem allBlank_iff : allBlank l = true ↔ ∀ c ∈ l, isBlank c = true := List.all_eq_true

theorem not_allBlank_of_visible_ne_nil (h : visible l ≠ []) : allBlank l = false := by
  rw [Ne, visible_eq_nil_iff] at h
  simpa using h

/-! ### Blank lines around a block -/

theorem dropWhile_append_of_blank {after : List (List Char)}
    (hafter : ∀ l ∈ after, allBlank l = true) (ls : List (List Char)) :
    (ls ++ after).reverse.dropWhile allBlank = ls.reverse.dropWhile allBlank := by
  rw [List.reverse_append, List.dropWhile_append_of_pos]
  simpa using hafter

/-- Only blank lines are dropped around a block. -/
theorem exists_stripBlankLines_append (ls : List (List Char)) :
    ∃ before after, ls = before ++ stripBlankLines ls ++ after ∧
      (∀ l ∈ before, allBlank l = true) ∧ ∀ l ∈ after, allBlank l = true := by
  refine ⟨ls.takeWhile allBlank, ((ls.dropWhile allBlank).reverse.takeWhile allBlank).reverse,
    ?_, fun l hl => List.mem_takeWhile_imp hl, fun l hl => ?_⟩
  · rw [List.append_assoc, stripBlankLines, ← List.reverse_append,
      List.takeWhile_append_dropWhile, List.reverse_reverse, List.takeWhile_append_dropWhile]
  · exact List.mem_takeWhile_imp (List.mem_reverse.1 hl)

theorem getLast?_stripBlankLines (ls : List (List Char)) :
    ∀ l ∈ (stripBlankLines ls).getLast?, allBlank l = false := by
  intro l hl
  have hnot := List.head?_dropWhile_not allBlank (ls.dropWhile allBlank).reverse
  rw [stripBlankLines, List.getLast?_reverse] at hl
  rw [hl] at hnot
  exact hnot

theorem head?_stripBlankLines (ls : List (List Char)) :
    ∀ l ∈ (stripBlankLines ls).head?, allBlank l = false := by
  intro l hl
  -- what is dropped behind the block does not reach its first line
  have hbegins : stripBlankLines ls <+: ls.dropWhile allBlank := by
    rw [← List.reverse_suffix, stripBlankLines, List.reverse_reverse]
    exact List.dropWhile_suffix _
  obtain ⟨rest, hrest⟩ := hbegins
  have hnot := List.head?_dropWhile_not allBlank ls
  rw [← hrest, List.head?_append, hl] at hnot
  exact hnot

theorem stripBlankLines_eq_nil_iff :
    stripBlankLines ls = [] ↔ ∀ l ∈ ls, allBlank l = true := by
  constructor
  · intro hnil
    obtain ⟨before, after, hls, hbefore, hafter⟩ := exists_stripBlankLines_append ls
    rw [hnil, List.append_nil] at hls
    rw [hls]
    exact List.forall_mem_append.2 ⟨hbefore, hafter⟩
  · intro hblank
    rw [stripBlankLines, List.dropWhile_eq_nil_iff.2 hblank]
    rfl

/-- A line that is not blank is in the block. -/
theorem mem_stripBlankLines (hl : l ∈ ls) (hshown : allBlank l = false) :
    l ∈ stripBlankLines ls := by
  obtain ⟨before, after, hls, hbefore, hafter⟩ := exists_stripBlankLines_append ls
  rw [hls, List.mem_append, List.mem_append] at hl
  rcases hl with (hl | hl) | hl
  · rw [hbefore l hl] at hshown
    cases hshown
  · exact hl
  · rw [hafter l hl] at hshown
    cases hshown

theorem mem_of_mem_stripBlankLines (hl : l ∈ stripBlankLines ls) : l ∈ ls := by
  obtain ⟨before, after, hls, -⟩ := exists_stripBlankLines_append ls
  rw [hls]
  exact List.mem_append_left _ (List.mem_append_right _ hl)

/-- Blank lines behind a text do not change the block. -/
theorem stripBlankLines_append_of_blank {after : List (List Char)}
    (hafter : ∀ l ∈ after, allBlank l = true) (ls : List (List Char)) :
    stripBlankLines (ls ++ after) = stripBlankLines ls := by
  rw [stripBlankLines, List.dropWhile_append]
  split
  · next hempty =>
    rw [List.dropWhile_eq_nil_iff.2 hafter]
    rw [stripBlankLines, List.isEmpty_iff.1 hempty]
  · rw [dropWhile_append_of_blank hafter]
    rfl

/-- The block has what is visible in the lines. -/
theorem visible_stripBlankLines (ls : List (List Char)) :
    (stripBlankLines ls).flatMap visible = ls.flatMap visible := by
  obtain ⟨before, after, hls, hbefore, hafter⟩ := exists_stripBlankLines_append ls
  have hnone : ∀ bs : List (List Char), (∀ l ∈ bs, allBlank l = true) → bs.flatMap visible = [] :=
    fun bs hbs => List.flatMap_eq_nil_iff.2 fun l hl => visible_eq_nil_iff.2 (hbs l hl)
  conv_rhs => rw [hls, List.flatMap_append, List.flatMap_append, hnone _ hbefore, hnone _ hafter,
    List.nil_append, List.append_nil]

/-! ### Shared indentation -/

/-- The indentations of the lines that are not blank. -/
def indentations (ls : List (List Char)) : Set Nat :=
  {n | ∃ l ∈ ls, allBlank l = false ∧ indentation l = n}

/-- The shared indentation is the least one of a line that is not blank. -/
theorem isLeast_sharedIndentation (h : ∃ l ∈ ls, allBlank l = false) :
    IsLeast (indentations ls) (sharedIndentation ls) := by
  obtain ⟨l, hl, hshown⟩ := h
  have hmem : ∀ k, k ∈ (ls.filter (!allBlank ·)).map indentation ↔ k ∈ indentations ls := by
    intro k
    simp [indentations, and_assoc]
  cases hmin : ((ls.filter (!allBlank ·)).map indentation).min? with
  | none =>
    have hempty := List.min?_eq_none_iff.1 hmin
    have hindent := (hmem (indentation l)).2 ⟨l, hl, hshown, rfl⟩
    rw [hempty] at hindent
    cases hindent
  | some k =>
    obtain ⟨hk, hleast⟩ := List.min?_eq_some_iff.1 hmin
    rw [sharedIndentation, hmin]
    exact ⟨(hmem k).1 hk, fun k' hk' => hleast k' ((hmem k').2 hk')⟩

theorem indentations_stripBlankLines (ls : List (List Char)) :
    indentations (stripBlankLines ls) = indentations ls := by
  ext k
  constructor
  · rintro ⟨l, hl, hrest⟩
    exact ⟨l, mem_of_mem_stripBlankLines hl, hrest⟩
  · rintro ⟨l, hl, hshown, hk⟩
    exact ⟨l, mem_stripBlankLines hl hshown, hshown, hk⟩

/-- Blanks in front of a line add to its indentation. -/
theorem indentation_append_of_blank (hlead : ∀ c ∈ lead, isBlank c = true) (l : List Char) :
    indentation (lead ++ l) = lead.length + indentation l := by
  rw [indentation, List.takeWhile_append_of_pos hlead, List.length_append]
  rfl

/-- What stands behind something visible does not count. -/
theorem indentation_append_of_not_blank (hl : allBlank l = false) (tail : List Char) :
    indentation (l ++ tail) = indentation l := by
  induction l with
  | nil => cases hl
  | cons c l ih =>
    by_cases hc : isBlank c = true
    · have hrest : allBlank l = false := by simpa [allBlank, hc] using hl
      have hfront : ∀ r, indentation (c :: r) = indentation r + 1 := fun r => by
        rw [indentation, List.takeWhile_cons_of_pos hc, List.length_cons]
        rfl
      rw [List.cons_append, hfront, hfront, ih hrest]
    · rw [List.cons_append, indentation, indentation, List.takeWhile_cons_of_neg hc,
        List.takeWhile_cons_of_neg hc]

/-! ### Cutting lines -/

/-- What is left of a line without a margin.  Nothing is left of a blank line; every other line
loses a margin of blanks and the blanks at its end. -/
inductive LosesMargin (margin : Nat) : List Char → List Char → Prop where
  | blank {l : List Char} (hl : allBlank l = true) : LosesMargin margin l []
  | cut {lead t tail : List Char} (hlength : lead.length = margin)
      (hlead : ∀ c ∈ lead, isBlank c = true) (htail : ∀ c ∈ tail, isBlank c = true)
      (ht : allBlank t = false) (hlast : ∀ c ∈ t.getLast?, isBlank c = false) :
      LosesMargin margin (lead ++ t ++ tail) t

theorem cutMargin_of_blank (hl : allBlank l = true) (margin : Nat) : cutMargin margin l = [] :=
  trimEnd_eq_nil fun c hc => allBlank_iff.1 hl c (List.mem_of_mem_drop hc)

/-- A line that is at least as indented as the margin loses no more than that. -/
theorem losesMargin_cutMargin (h : allBlank l = false → margin ≤ indentation l) :
    LosesMargin margin l (cutMargin margin l) := by
  cases hl : allBlank l with
  | true =>
    rw [cutMargin_of_blank hl]
    exact .blank hl
  | false =>
    have hmargin := h hl
    obtain ⟨tail, htail, hblank⟩ := exists_trimEnd_append (l.drop margin)
    have hsplit : l = l.take margin ++ cutMargin margin l ++ tail := by
      rw [List.append_assoc, cutMargin, ← htail, List.take_append_drop]
    -- the margin is no wider than the indentation, so that nothing but blanks is cut off
    have hlead : ∀ c ∈ l.take margin, isBlank c = true := by
      have hbegins : l.take margin <+: l.takeWhile isBlank := by
        rw [List.prefix_iff_eq_take.1 (List.takeWhile_prefix isBlank (l := l))]
        exact List.take_prefix_take_left hmargin
      exact fun c hc => List.mem_takeWhile_imp (hbegins.subset hc)
    have hlength : (l.take margin).length = margin := by
      have hle : indentation l ≤ l.length := (List.takeWhile_prefix isBlank).length_le
      rw [List.length_take]
      omega
    have hshown : allBlank (cutMargin margin l) = false := by
      refine not_allBlank_of_visible_ne_nil fun hnil => ?_
      have hvisible : visible l = [] := by
        rw [hsplit, visible_append, visible_append, hnil,
          visible_eq_nil_iff.2 (allBlank_iff.2 hlead), visible_eq_nil_iff.2 (allBlank_iff.2 hblank)]
        rfl
      rw [visible_eq_nil_iff, hl] at hvisible
      cases hvisible
    have hcut := LosesMargin.cut hlength hlead hblank hshown (getLast?_trimEnd (l.drop margin))
    rwa [← hsplit] at hcut

namespace LosesMargin

/-- Nothing visible is lost. -/
theorem visible_eq (h : LosesMargin margin l t) : visible t = visible l := by
  cases h with
  | blank hl => exact (visible_eq_nil_iff.2 hl).symm
  | cut _ hlead htail _ _ =>
    rw [visible_append, visible_append, visible_eq_nil_iff.2 (allBlank_iff.2 hlead),
      visible_eq_nil_iff.2 (allBlank_iff.2 htail), List.nil_append, List.append_nil]

theorem allBlank_eq (h : LosesMargin margin l t) : allBlank t = allBlank l := by
  rw [Bool.eq_iff_iff, ← visible_eq_nil_iff, ← visible_eq_nil_iff, h.visible_eq]

/-- A line that is not blank loses the margin of its indentation. -/
theorem indentation_eq (h : LosesMargin margin l t) (hl : allBlank l = false) :
    indentation l = margin + indentation t := by
  cases h with
  | blank hl' =>
    rw [hl'] at hl
    cases hl
  | cut hlength hlead _ ht _ =>
    rw [List.append_assoc, indentation_append_of_blank hlead, hlength,
      indentation_append_of_not_blank ht]

/-- A line that is indented by the margin alone begins with something visible. -/
theorem head?_eq (h : LosesMargin margin l t) (hl : allBlank l = false)
    (hmargin : indentation l = margin) : ∃ c ∈ t.head?, isBlank c = false := by
  have hnone : indentation t = 0 := by
    have := h.indentation_eq hl
    omega
  rw [← h.allBlank_eq] at hl
  cases t with
  | nil => cases hl
  | cons c r =>
    refine ⟨c, rfl, ?_⟩
    by_contra hc
    rw [Bool.not_eq_false] at hc
    rw [indentation, List.takeWhile_cons_of_pos hc] at hnone
    cases hnone

end LosesMargin

/-! ### Cutting at a byte -/

/-- The bytes at which the characters of a text begin, if the first one begins at `start`. -/
def characterBytes (start : Nat) : List Char → List Nat
  | [] => []
  | c :: r => start :: characterBytes (start + c.utf8Size) r

/-- The byte at which a line is cut: where the character behind the margin begins, or the end of
the line if there is none. -/
def cutByte (margin : Nat) (l : List Char) : Nat :=
  (characterBytes 0 l)[margin]?.getD (String.ofList l).utf8ByteSize

/-- The characters before the one that begins at a byte have as many bytes. -/
theorem getD_characterBytes (start margin : Nat) (l : List Char) :
    (characterBytes start l)[margin]?.getD (start + (String.ofList l).utf8ByteSize) =
      start + (String.ofList (l.take margin)).utf8ByteSize := by
  induction l generalizing start margin with
  | nil => simp [characterBytes]
  | cons c r ih =>
    cases margin with
    | zero => simp [characterBytes]
    | succ margin =>
      have hsize : ∀ r, (String.ofList (c :: r)).utf8ByteSize =
          c.utf8Size + (String.ofList r).utf8ByteSize := fun r => by
        rw [String.ofList_cons, String.utf8ByteSize_append, String.utf8ByteSize_singleton]
      rw [characterBytes, List.getElem?_cons_succ, List.take_succ_cons, hsize, hsize,
        ← Nat.add_assoc, ih, Nat.add_assoc]

theorem cutByte_eq (margin : Nat) (l : List Char) :
    cutByte margin l = (String.ofList (l.take margin)).utf8ByteSize := by
  have h := getD_characterBytes 0 margin l
  rwa [Nat.zero_add, Nat.zero_add] at h

/-- A line is not cut inside a character. -/
theorem isValid_cutByte (margin : Nat) (l : List Char) :
    String.Pos.Raw.IsValid (String.ofList l) ⟨cutByte margin l⟩ :=
  String.Pos.Raw.isValid_ofList.2 ⟨margin, cutByte_eq margin l⟩

/-- The bytes behind the cut are those of the characters behind the margin. -/
theorem extract_cutByte (margin : Nat) (l : List Char) :
    (String.ofList l).toByteArray.extract (cutByte margin l) (String.ofList l).utf8ByteSize =
      (String.ofList (l.drop margin)).toByteArray := by
  have hsplit : String.ofList l =
      String.ofList (l.take margin) ++ String.ofList (l.drop margin) := by
    rw [← String.ofList_append, List.take_append_drop]
  rw [cutByte_eq, hsplit, String.toByteArray_append, String.utf8ByteSize_append]
  exact ByteArray.extract_append_eq_right String.size_toByteArray.symm
    (by rw [String.size_toByteArray, String.size_toByteArray])

/-! ### Deeper blocks -/

/-- Blanks that are put in front of a line. -/
structure IsMargin (n : Nat) (margin : List Char) : Prop where
  length : margin.length = n
  blank : ∀ c ∈ margin, isBlank c = true
  line : '\n' ∉ margin

/-- A text with as many more blanks in front of every line.  They may also stand behind the last
line feed. -/
inductive Indented (n : Nat) : List Char → List Char → Prop where
  | empty : Indented n [] []
  | last {l margin : List Char} (hl : '\n' ∉ l) (hmargin : IsMargin n margin) :
      Indented n l (margin ++ l)
  | line {l margin s s' : List Char} (hl : '\n' ∉ l) (hmargin : IsMargin n margin)
      (rest : Indented n s s') : Indented n (l ++ '\n' :: s) (margin ++ l ++ '\n' :: s')

/-- A line with as many more blanks at its beginning; blank lines may be any. -/
inductive Shifted (n : Nat) : List Char → List Char → Prop where
  | blank {l l' : List Char} (hl : allBlank l = true) (hl' : allBlank l' = true) : Shifted n l l'
  | moved {l margin : List Char} (hl : allBlank l = false) (hmargin : IsMargin n margin) :
      Shifted n l (margin ++ l)

theorem allBlank_append (l t : List Char) : allBlank (l ++ t) = (allBlank l && allBlank t) :=
  List.all_append

theorem allBlank_withoutReturn (l : List Char) : allBlank (withoutReturn l) = allBlank l := by
  rw [Bool.eq_iff_iff, ← visible_eq_nil_iff, ← visible_eq_nil_iff, visible_withoutReturn]

theorem IsMargin.allBlank_append {m : List Char} (h : IsMargin n m) (l : List Char) :
    allBlank (m ++ l) = allBlank l := by
  rw [Program.allBlank_append, allBlank_iff.2 h.blank, Bool.true_and]

namespace Shifted

theorem allBlank_eq {l' : List Char} (h : Shifted n l l') : allBlank l' = allBlank l := by
  cases h with
  | blank hl hl' => rw [hl, hl']
  | moved _ hmargin => exact hmargin.allBlank_append l

theorem of_margin {m : List Char} (h : IsMargin n m) (l : List Char) : Shifted n l (m ++ l) := by
  cases hl : allBlank l with
  | true => exact .blank hl (by rw [h.allBlank_append, hl])
  | false => exact .moved hl h

/-- Blanks in front of a line are there whether or not it ends in a carriage return. -/
theorem of_withoutReturn {m : List Char} (h : IsMargin n m) (l : List Char) :
    Shifted n (withoutReturn l) (withoutReturn (m ++ l)) := by
  by_cases hne : l = []
  · subst hne
    refine .blank rfl ?_
    rw [allBlank_withoutReturn, h.allBlank_append]
    rfl
  · rw [withoutReturn_append hne]
    exact of_margin h _

end Shifted

/-- The lines of the deeper text are the shifted ones; a blank one may follow. -/
theorem exists_lines_of_indented (h : Indented n s s') : ∃ shifted after,
    lines s' = shifted ++ after ∧ List.Forall₂ (Shifted n) (lines s) shifted ∧
      ∀ l ∈ after, allBlank l = true := by
  induction h with
  | empty => exact ⟨[], [], rfl, .nil, List.forall_mem_nil _⟩
  | @last l m hl hmargin =>
    -- behind the last line feed there is a line only if something stands there
    by_cases hne : l = []
    · subst hne
      refine ⟨[], lines (m ++ []), rfl, .nil, fun x hx => allBlank_iff.2 fun c hc => ?_⟩
      have hwithin := (infix_of_mem_lines hx).1
      rw [List.append_nil] at hwithin
      exact hmargin.blank c (hwithin.subset hc)
    · have hnone : '\n' ∉ m ++ l := by
        rw [List.mem_append, not_or]
        exact ⟨hmargin.line, hl⟩
      refine ⟨[m ++ l], [], ?_, ?_, List.forall_mem_nil _⟩
      · rw [lines_of_not_mem hnone (List.append_ne_nil_of_right_ne_nil m hne), List.append_nil]
      · rw [lines_of_not_mem hl hne]
        exact .cons (.of_margin hmargin l) .nil
  | @line l m s s' hl hmargin _ ih =>
    obtain ⟨shifted, after, hlines, hshifted, hafter⟩ := ih
    have hnone : '\n' ∉ m ++ l := by
      rw [List.mem_append, not_or]
      exact ⟨hmargin.line, hl⟩
    refine ⟨withoutReturn (m ++ l) :: shifted, after, ?_, ?_, hafter⟩
    · rw [lines_append_newline hnone, hlines, List.cons_append]
    · rw [lines_append_newline hl]
      exact .cons (.of_withoutReturn hmargin l) hshifted

theorem forall₂_dropWhile_allBlank (h : List.Forall₂ (Shifted n) ls ls') :
    List.Forall₂ (Shifted n) (ls.dropWhile allBlank) (ls'.dropWhile allBlank) := by
  induction h with
  | nil => exact .nil
  | @cons l l' ls ls' hline hrest ih =>
    cases hl : allBlank l with
    | true =>
      rw [List.dropWhile_cons_of_pos hl, List.dropWhile_cons_of_pos (hline.allBlank_eq.trans hl)]
      exact ih
    | false =>
      rw [List.dropWhile_cons_of_neg (by simp [hl]),
        List.dropWhile_cons_of_neg (by simp [hline.allBlank_eq, hl])]
      exact .cons hline hrest

/-- The same lines are dropped around both blocks. -/
theorem forall₂_stripBlankLines (h : List.Forall₂ (Shifted n) ls ls') :
    List.Forall₂ (Shifted n) (stripBlankLines ls) (stripBlankLines ls') := by
  unfold stripBlankLines
  rw [List.forall₂_reverse_iff]
  refine forall₂_dropWhile_allBlank ?_
  rw [List.forall₂_reverse_iff]
  exact forall₂_dropWhile_allBlank h

theorem indentations_cons (l : List Char) (ls : List (List Char)) :
    indentations (l :: ls) = {k | allBlank l = false ∧ indentation l = k} ∪ indentations ls := by
  ext k
  simp [indentations]

theorem indentations_shifted (h : List.Forall₂ (Shifted n) ls ls') :
    indentations ls' = (n + ·) '' indentations ls := by
  induction h with
  | nil => simp [indentations]
  | @cons l l' ls ls' hline _ ih =>
    rw [indentations_cons, indentations_cons, Set.image_union, ih]
    refine congrArg (· ∪ _) ?_
    cases hline with
    | blank hl hl' => simp [hl, hl']
    | moved hl hmargin =>
      rw [hmargin.allBlank_append, indentation_append_of_blank hmargin.blank, hmargin.length]
      simp [hl]

/-- The shared indentation grows by the number of blanks. -/
theorem sharedIndentation_shifted (h : List.Forall₂ (Shifted n) ls ls')
    (hshown : ∃ l ∈ ls, allBlank l = false) :
    sharedIndentation ls' = n + sharedIndentation ls := by
  have hmono : Monotone (n + ·) := fun _ _ hle => Nat.add_le_add_left hle n
  have hleast := hmono.map_isLeast (isLeast_sharedIndentation hshown)
  rw [← indentations_shifted h] at hleast
  obtain ⟨l', hl', hshown', -⟩ := hleast.1
  exact (isLeast_sharedIndentation ⟨l', hl', hshown'⟩).unique hleast

/-- Behind the wider margin the lines are the same. -/
theorem map_cutMargin_shifted (h : List.Forall₂ (Shifted n) ls ls') (margin : Nat) :
    ls'.map (cutMargin (n + margin)) = ls.map (cutMargin margin) := by
  induction h with
  | nil => rfl
  | @cons l l' ls ls' hline _ ih =>
    rw [List.map_cons, List.map_cons, ih]
    refine congrArg (· :: _) ?_
    cases hline with
    | blank hl hl' => rw [cutMargin_of_blank hl, cutMargin_of_blank hl']
    | moved _ hmargin =>
      rw [cutMargin, ← hmargin.length, ← List.drop_drop, List.drop_left]
      rfl

/-- Deeper blocks come to the same. -/
theorem dedent_indented (h : Indented n s s') : dedent s' = dedent s := by
  obtain ⟨shifted, after, hlines, hshifted, hafter⟩ := exists_lines_of_indented h
  have hblock := forall₂_stripBlankLines hshifted
  rw [dedent, dedent, hlines, stripBlankLines_append_of_blank hafter]
  cases hkept : stripBlankLines (lines s) with
  | nil =>
    rw [hkept, List.forall₂_nil_left_iff] at hblock
    rw [hblock]
  | cons l ls =>
    have hshown : allBlank l = false := head?_stripBlankLines (lines s) l (by rw [hkept]; rfl)
    rw [hkept] at hblock
    rw [alignLines, alignLines, sharedIndentation_shifted hblock ⟨l, List.mem_cons_self, hshown⟩,
      map_cutMargin_shifted hblock]

/-! ### What becomes of a block -/

/-- The lines of a block without their shared indentation. -/
structure Dedents (s : List Char) (margin : Nat) (kept left : List (List Char)) : Prop where
  /-- The block is what is between the blank lines around it. -/
  around : ∃ before after, lines s = before ++ kept ++ after ∧
    (∀ l ∈ before, allBlank l = true) ∧ ∀ l ∈ after, allBlank l = true
  first : ∀ l ∈ kept.head?, allBlank l = false
  last : ∀ l ∈ kept.getLast?, allBlank l = false
  /-- The margin is the least indentation of a line that is not blank. -/
  least : IsLeast (indentations (lines s)) margin
  /-- What is left of the lines. -/
  cut : List.Forall₂ (LosesMargin margin) kept left

/-- No line loses more than it can. -/
theorem losesMargin_of_mem (hl : l ∈ ls) :
    LosesMargin (sharedIndentation ls) l (cutMargin (sharedIndentation ls) l) :=
  losesMargin_cutMargin fun hshown =>
    (isLeast_sharedIndentation ⟨l, hl, hshown⟩).2 ⟨l, hl, hshown, rfl⟩

/-- The shared indentation of a block, its lines, and what is left of them. -/
theorem dedents_block (h : ∃ l ∈ lines s, allBlank l = false) :
    Dedents s (sharedIndentation (stripBlankLines (lines s))) (stripBlankLines (lines s))
      (alignLines (stripBlankLines (lines s))) := by
  obtain ⟨l, hl, hshown⟩ := h
  have hleast := isLeast_sharedIndentation ⟨l, mem_stripBlankLines hl hshown, hshown⟩
  rw [indentations_stripBlankLines] at hleast
  refine ⟨exists_stripBlankLines_append _, head?_stripBlankLines _, getLast?_stripBlankLines _,
    hleast, ?_⟩
  rw [alignLines, List.forall₂_map_right_iff, List.forall₂_same]
  exact fun l hl => losesMargin_of_mem hl

/-- The block has the lines that are set under each other, and no others. -/
theorem lines_dedent (s : List Char) :
    lines (dedent s) = alignLines (stripBlankLines (lines s)) := by
  refine lines_joinLines (fun t ht => ?_) fun hlast => ?_
  · obtain ⟨l, hl, rfl⟩ := List.mem_map.1 ht
    obtain ⟨-, hnone⟩ := infix_of_mem_lines (mem_of_mem_stripBlankLines hl)
    refine ⟨fun hmem => hnone ?_, fun hend => ?_⟩
    · obtain ⟨tail, htail, -⟩ := exists_trimEnd_append (l.drop (sharedIndentation _))
      refine List.mem_of_mem_drop (i := sharedIndentation (stripBlankLines (lines s))) ?_
      rw [htail]
      exact List.mem_append_left _ hmem
    · cases getLast?_trimEnd _ _ hend
  · -- the last line is not blank, and what is left of it is not empty
    rw [alignLines, List.getLast?_map, Option.map_eq_some_iff] at hlast
    obtain ⟨l, hl, hnil⟩ := hlast
    have hshown := getLast?_stripBlankLines _ l hl
    rw [← (losesMargin_of_mem (List.mem_of_getLast? hl)).allBlank_eq, hnil] at hshown
    cases hshown

/-- One of the lines begins with something visible. -/
theorem exists_head?_alignLines (h : ∃ l ∈ ls, allBlank l = false) :
    ∃ t ∈ alignLines ls, ∃ c ∈ t.head?, isBlank c = false := by
  obtain ⟨l, hl, hshown, hleast⟩ := (isLeast_sharedIndentation h).1
  exact ⟨_, List.mem_map_of_mem hl, (losesMargin_of_mem hl).head?_eq hshown hleast⟩

/-- Lines keep their indentation against each other. -/
theorem forall₂_indentation_alignLines (ls : List (List Char)) :
    List.Forall₂ (fun l t => allBlank l = false →
      indentation l = sharedIndentation ls + indentation t) ls (alignLines ls) := by
  rw [alignLines, List.forall₂_map_right_iff, List.forall₂_same]
  exact fun l hl hshown => (losesMargin_of_mem hl).indentation_eq hshown

/-- What is visible in a text is visible in the block. -/
theorem visible_dedent (s : List Char) : visible (dedent s) = visible s := by
  rw [dedent, visible_joinLines, alignLines, List.flatMap_map, ← visible_lines s,
    ← visible_stripBlankLines]
  exact List.flatMap_congr fun l hl => (losesMargin_of_mem hl).visible_eq

/-- **What becomes of a block.**  Nothing is left if all lines are blank.  Otherwise the block is
what stands between the blank lines around it, set under each other; each line that is not blank
has lost as many blanks as the least indented one has, and the blanks at its end, and blank lines
are empty.  One line begins with something visible, the others keep their indentation against it,
and no line is cut inside a character.  What is visible stays as it is, and equally many blanks in
front of every line change nothing. -/
theorem dedent_keeps_code (s : List Char) :
    ((∀ l ∈ lines s, allBlank l = true) → dedent s = []) ∧
    ((∃ l ∈ lines s, allBlank l = false) → ∃ margin kept left, Dedents s margin kept left ∧
      dedent s = joinLines left ∧ lines (dedent s) = left ∧
      (∃ t ∈ left, ∃ c ∈ t.head?, isBlank c = false) ∧
      List.Forall₂ (fun l t => allBlank l = false → indentation l = margin + indentation t)
        kept left ∧
      ∀ l ∈ kept, String.Pos.Raw.IsValid (String.ofList l) ⟨cutByte margin l⟩ ∧
        (String.ofList l).toByteArray.extract (cutByte margin l) (String.ofList l).utf8ByteSize =
          (String.ofList (l.drop margin)).toByteArray) ∧
    visible (dedent s) = visible s ∧
    ∀ n s', Indented n s s' → dedent s' = dedent s := by
  refine ⟨fun hblank => ?_, fun hshown => ?_, visible_dedent s, fun n s' => dedent_indented⟩
  · rw [dedent, stripBlankLines_eq_nil_iff.2 hblank]
    rfl
  · obtain ⟨l, hl, hl'⟩ := hshown
    exact ⟨_, _, _, dedents_block ⟨l, hl, hl'⟩, rfl, lines_dedent s,
      exists_head?_alignLines ⟨l, mem_stripBlankLines hl hl', hl'⟩,
      forall₂_indentation_alignLines _,
      fun l _ => ⟨isValid_cutByte _ l, extract_cutByte _ l⟩⟩

/-- Two lines with a blank one between them and one before, indented by two and by three blanks,
of which one is wide. -/
def wideBlock : List Char :=
  ['\n', '\u3000', ' ', 'a', '\r', '\n', '\n', ' ', '\u3000', ' ', 'é', ' ']

/-- The block with one more blank in front of every line. -/
def deeperBlock : List Char :=
  ['\t', '\n', '\u3000', '\u3000', ' ', 'a', '\r', '\n', '\r', '\n', ' ', ' ', '\u3000', ' ', 'é',
    ' ']

theorem indented_deeperBlock : Indented 1 wideBlock deeperBlock := by
  have hmargin : ∀ c, isBlank c = true → c ≠ '\n' → IsMargin 1 [c] := fun c hc hline =>
    ⟨rfl, List.forall_mem_singleton.2 hc, fun hmem => hline (List.mem_singleton.1 hmem).symm⟩
  have hlast : Indented 1 [' ', '\u3000', ' ', 'é', ' '] [' ', ' ', '\u3000', ' ', 'é', ' '] :=
    .last (by decide) (hmargin ' ' rfl (by decide))
  have hthird := Indented.line (l := []) (by decide) (hmargin '\r' rfl (by decide)) hlast
  have hsecond := Indented.line (l := ['\u3000', ' ', 'a', '\r']) (by decide)
    (hmargin '\u3000' rfl (by decide)) hthird
  exact Indented.line (l := []) (by decide) (hmargin '\t' rfl (by decide)) hsecond

/-- The wide block loses two blanks in front of each line, at whatever depth it stands, and nothing
is left of two blank lines. -/
theorem wide_block_dedented :
    (∀ l ∈ lines [' ', '\n', '\u3000'], allBlank l = true) ∧
    dedent [' ', '\n', '\u3000'] = [] ∧
    (∃ l ∈ lines wideBlock, allBlank l = false) ∧
    (∃ margin kept left, Dedents wideBlock margin kept left ∧
      dedent wideBlock = joinLines left ∧ lines (dedent wideBlock) = left) ∧
    Indented 1 wideBlock deeperBlock ∧
    dedent deeperBlock = ['a', '\n', '\n', ' ', 'é'] := by
  have hblank : ∀ l ∈ lines [' ', '\n', '\u3000'], allBlank l = true := by decide
  have hshown : ∃ l ∈ lines wideBlock, allBlank l = false := by decide
  obtain ⟨margin, kept, left, hdedents, hdedent, hlines, -⟩ :=
    (dedent_keeps_code wideBlock).2.1 hshown
  refine ⟨hblank, (dedent_keeps_code _).1 hblank, hshown,
    ⟨margin, kept, left, hdedents, hdedent, hlines⟩, indented_deeperBlock, ?_⟩
  rw [(dedent_keeps_code wideBlock).2.2.2 1 deeperBlock indented_deeperBlock]
  decide

end Program
end Reactors

import Reactors.Proofs.Indentation

/-!
# Code between delimiters

Code is shown without its delimiters: what is shown is the body, the text between the first opening
delimiter and the first closing one behind it.  A body of several lines is shown as a block, and a
body of one line is trimmed.  That makes no difference, because a block in which only one line is
not blank is that line, trimmed.  So the number of lines, and with it the question what ends a
line, does not matter.

The body has no closing delimiter in it.  The block does not bring one about either: what it has in
one piece stood in one piece in a line of the body.

## Main definitions

* `Program.Delimited` — a text with an opening delimiter and a closing one behind it.
* `Program.Encloses` — the text between the first of them.

## Main results

* `Program.cutAt?_eq_some_iff` — the first place of a pair of characters.
* `Program.body?_eq_some_iff`, `Program.Delimited.exists_encloses` — the body of a code text.
* `Program.dedent_eq_trim` — blocks of one line.
* `Program.infix_of_infix_dedent` — pieces of a block.
* `Program.code_shown_as_block` — code as it is shown.
-/

namespace Reactors
namespace Program

open Text

variable {a b : Char} {s before after body w l : List Char}

/-! ### Delimiters -/

theorem cutAt?_cons (a b c : Char) (s : List Char) : cutAt? a b (c :: s) =
    if c = a ∧ s.head? = some b then some ([], s.tail)
    else (cutAt? a b s).map fun (before, after) => (c :: before, after) := by
  cases s with
  | nil => simp [cutAt?]
  | cons d r => simp [cutAt?]

/-- A text is split at the first place where a pair of different characters stands. -/
theorem cutAt?_eq_some_iff (hab : a ≠ b) : cutAt? a b s = some (before, after) ↔
    s = before ++ a :: b :: after ∧ ¬ [a, b] <:+: before := by
  induction s generalizing before with
  | nil =>
    refine iff_of_false (by simp [cutAt?]) ?_
    rintro ⟨hnil, -⟩
    exact absurd hnil.symm (List.append_ne_nil_of_right_ne_nil _ (List.cons_ne_nil _ _))
  | cons c s ih =>
    rw [cutAt?_cons]
    split
    · next hhere =>
      obtain ⟨rfl, hhead⟩ := hhere
      obtain ⟨r, rfl⟩ := List.head?_eq_some_iff.1 hhead
      constructor
      · rintro ⟨⟩
        exact ⟨rfl, by simp⟩
      · rintro ⟨hs, hnot⟩
        -- a later place would have this one in front of it
        rcases before with _ | ⟨x, _ | ⟨y, before⟩⟩
        · cases hs
          rfl
        · cases hs
          exact absurd rfl hab
        · cases hs
          exact absurd (List.prefix_append [_, _] before).isInfix hnot
    · next hlater =>
      rw [Option.map_eq_some_iff]
      constructor
      · rintro ⟨⟨before, after⟩, hcut, ⟨⟩⟩
        obtain ⟨rfl, hnot⟩ := ih.1 hcut
        refine ⟨rfl, fun hwithin => ?_⟩
        rcases List.infix_cons_iff.1 hwithin with hbegins | hwithin
        · obtain ⟨rfl, ⟨rest, rfl⟩⟩ := List.cons_prefix_cons.1 hbegins
          exact hlater ⟨rfl, rfl⟩
        · exact hnot hwithin
      · rintro ⟨hs, hnot⟩
        cases before with
        | nil =>
          cases hs
          exact absurd ⟨rfl, rfl⟩ hlater
        | cons x before =>
          cases hs
          exact ⟨(before, after), ih.2 ⟨rfl, fun h => hnot (h.trans (List.suffix_cons ..).isInfix)⟩,
            rfl⟩

/-- A pair that stands somewhere is found there or before. -/
theorem exists_cutAt? (a b : Char) (s after : List Char) :
    ∃ before rest, cutAt? a b (s ++ a :: b :: after) = some (before, rest) ∧ after <:+ rest := by
  induction s with
  | nil => exact ⟨[], after, by simp [cutAt?], List.suffix_rfl⟩
  | cons c s ih =>
    obtain ⟨before, rest, hcut, hrest⟩ := ih
    rw [List.cons_append, cutAt?_cons, hcut]
    split
    · refine ⟨[], _, rfl, ?_⟩
      cases s with
      | nil => exact List.suffix_cons b after
      | cons d s => exact ⟨s ++ [a, b], by simp⟩
    · exact ⟨c :: before, rest, rfl, hrest⟩

/-- There is an opening delimiter in a text, and a closing one behind it. -/
def Delimited (s : List Char) : Prop :=
  ∃ before body after, s = before ++ '{' :: '=' :: (body ++ '=' :: '}' :: after)

/-- A text encloses what stands between its first opening delimiter and the first closing one
behind it. -/
structure Encloses (s body : List Char) : Prop where
  placed : ∃ before after, s = before ++ '{' :: '=' :: (body ++ '=' :: '}' :: after) ∧
    ¬ ['{', '='] <:+: before
  unclosed : ¬ ['=', '}'] <:+: body

theorem body?_of_cutAt? {inner : List Char} (hopen : cutAt? '{' '=' s = some (before, inner))
    (hclose : cutAt? '=' '}' inner = some (body, after)) : body? s = some body := by
  rw [body?, hopen, Option.bind_eq_bind, Option.bind_some]
  dsimp only
  rw [hclose]
  rfl

/-- The body is what the text encloses. -/
theorem body?_eq_some_iff : body? s = some body ↔ Encloses s body := by
  constructor
  · intro h
    rw [body?, Option.bind_eq_bind, Option.bind_eq_some_iff] at h
    obtain ⟨⟨before, inner⟩, hopen, h⟩ := h
    dsimp only at h
    rw [Option.bind_eq_some_iff] at h
    obtain ⟨⟨body', after⟩, hclose, ⟨⟩⟩ := h
    obtain ⟨rfl, hfirst⟩ := (cutAt?_eq_some_iff (by decide)).1 hopen
    obtain ⟨rfl, hunclosed⟩ := (cutAt?_eq_some_iff (by decide)).1 hclose
    exact ⟨⟨before, after, rfl, hfirst⟩, hunclosed⟩
  · rintro ⟨⟨before, after, hs, hfirst⟩, hunclosed⟩
    exact body?_of_cutAt? ((cutAt?_eq_some_iff (by decide)).2 ⟨hs, hfirst⟩)
      ((cutAt?_eq_some_iff (by decide)).2 ⟨rfl, hunclosed⟩)

/-- A text with an opening delimiter and a closing one behind it has a body. -/
theorem Delimited.exists_encloses (h : Delimited s) : ∃ body, Encloses s body := by
  obtain ⟨before, body, after, rfl⟩ := h
  obtain ⟨before', inner, hopen, p, rfl⟩ :=
    exists_cutAt? '{' '=' before (body ++ '=' :: '}' :: after)
  obtain ⟨body', after', hclose, -⟩ := exists_cutAt? '=' '}' (p ++ body) after
  rw [List.append_assoc] at hclose
  exact ⟨body', body?_eq_some_iff.1 (body?_of_cutAt? hopen hclose)⟩

/-! ### Blocks of one line -/

theorem visible_trim (s : List Char) : visible (trim s) = visible s := by
  obtain ⟨⟨before, after, hs, hbefore, hafter⟩, -, -⟩ := trimsTo_iff.2 (rfl : trim s = trim s)
  conv_rhs => rw [hs, visible_append, visible_append, visible_eq_nil_iff.2 (allBlank_iff.2 hbefore),
    visible_eq_nil_iff.2 (allBlank_iff.2 hafter), List.nil_append, List.append_nil]

/-- A line by itself is shown without its outer blanks. -/
theorem alignLines_singleton (hl : allBlank l = false) : alignLines [l] = [trim l] := by
  have hmargin : sharedIndentation [l] = indentation l := by
    simp [sharedIndentation, hl]
  have hdrop : l.drop (indentation l) = trimStart l :=
    calc l.drop (indentation l)
        = (l.takeWhile isBlank ++ l.dropWhile isBlank).drop (l.takeWhile isBlank).length := by
          rw [List.takeWhile_append_dropWhile]
          rfl
      _ = trimStart l := List.drop_left
  rw [alignLines, hmargin, List.map_singleton, cutMargin, hdrop]
  rfl

/-- A block has a single line if no more than one line of the text is not blank. -/
theorem stripBlankLines_eq_singleton (h : ((lines s).filter (!allBlank ·)).length ≤ 1)
    {ls : List (List Char)} (hkept : stripBlankLines (lines s) = l :: ls) : ls = [] := by
  have hsub : (stripBlankLines (lines s)).Sublist (lines s) := by
    obtain ⟨before, after, hlines, -⟩ := exists_stripBlankLines_append (lines s)
    have hwithin : stripBlankLines (lines s) <:+: lines s := ⟨before, after, hlines.symm⟩
    exact hwithin.sublist
  have hcount := ((hsub.filter (!allBlank ·)).length_le).trans h
  have hfirst := head?_stripBlankLines (lines s) l (by rw [hkept]; rfl)
  rw [hkept, List.filter_cons_of_pos (by rw [hfirst]; rfl), List.length_cons] at hcount
  have hnone : ls.filter (!allBlank ·) = [] := List.length_eq_zero_iff.1 (by omega)
  by_contra hne
  -- the last line is not blank, and it is another one than the first
  have hlast := getLast?_stripBlankLines (lines s) (ls.getLast hne)
    (by rw [hkept, List.getLast?_cons_of_ne_nil hne, List.getLast?_eq_some_getLast hne]; rfl)
  have hmem : ls.getLast hne ∈ ls.filter (!allBlank ·) :=
    List.mem_filter.2 ⟨List.getLast_mem hne, by rw [hlast]; rfl⟩
  rw [hnone] at hmem
  cases hmem

/-- A block with no more than one line that is not blank is shown like a line. -/
theorem dedent_eq_trim (h : ((lines s).filter (!allBlank ·)).length ≤ 1) :
    dedent s = trim s := by
  have hvisible := visible_dedent s
  cases hkept : stripBlankLines (lines s) with
  | nil =>
    have hdedent : dedent s = [] := by
      rw [dedent, hkept]
      rfl
    rw [hdedent] at hvisible ⊢
    have hblank := allBlank_iff.1 (visible_eq_nil_iff.1 hvisible.symm)
    rw [trim, trimStart, List.dropWhile_eq_nil_iff.2 hblank]
    rfl
  | cons l ls =>
    obtain rfl := stripBlankLines_eq_singleton h hkept
    have hl := head?_stripBlankLines (lines s) l (by rw [hkept]; rfl)
    have hdedent : dedent s = trim l := by
      rw [dedent, hkept, alignLines_singleton hl]
      rfl
    have hmem : l ∈ lines s := mem_of_mem_stripBlankLines (by rw [hkept]; exact List.mem_cons_self)
    -- all that is visible stands in the one line, so that the text around it is blank
    obtain ⟨⟨before, after, rfl⟩, -⟩ := infix_of_mem_lines hmem
    rw [hdedent, visible_trim, visible_append, visible_append] at hvisible
    have hlength := congrArg List.length hvisible
    rw [List.length_append, List.length_append] at hlength
    have hbefore : visible before = [] := List.length_eq_zero_iff.1 (by omega)
    have hafter : visible after = [] := List.length_eq_zero_iff.1 (by omega)
    rw [hdedent, trim_append_of_blank l (allBlank_iff.1 (visible_eq_nil_iff.1 hbefore))
      (allBlank_iff.1 (visible_eq_nil_iff.1 hafter))]

/-! ### Pieces of a block -/

/-- What a block has in one piece, the text had in one piece. -/
theorem infix_of_infix_dedent (hw : '\n' ∉ w) (hne : w ≠ []) (h : w <:+: dedent s) :
    w <:+: s := by
  obtain ⟨t, ht, hwt⟩ := exists_infix_of_infix_joinLines hw hne h
  obtain ⟨l, hl, rfl⟩ := List.mem_map.1 ht
  obtain ⟨tail, htail, -⟩ := exists_trimEnd_append (l.drop (sharedIndentation _))
  have hbegins : cutMargin (sharedIndentation _) l <+: l.drop (sharedIndentation _) :=
    ⟨tail, htail.symm⟩
  exact ((hwt.trans hbegins.isInfix).trans (List.drop_suffix _ l).isInfix).trans
    (infix_of_mem_lines (mem_of_mem_stripBlankLines hl)).1

/-! ### Code as it is shown -/

/-- **Code as it is shown.**  A code text with delimiters in it encloses a body, and this is shown
as a block, however many lines it has.  It makes no difference that a body of one line is trimmed
instead: that comes to the same for every body with no more than one line that is not blank.  What
is shown has no closing delimiter in it. -/
theorem code_shown_as_block (code : String) :
    (Delimited (trim code.toList) → ∃ body, Encloses (trim code.toList) body) ∧
    (∀ body, Encloses (trim code.toList) body →
      codeText code = String.ofList (dedent body) ∧
      ¬ ['=', '}'] <:+: (codeText code).toList) ∧
    (∀ body, ((lines body).filter (!allBlank ·)).length ≤ 1 → dedent body = trim body) ∧
    ∀ body, (lines body).length ≤ 1 → dedent body = trim body := by
  refine ⟨Delimited.exists_encloses, fun body h => ?_, fun body => dedent_eq_trim,
    fun body h => dedent_eq_trim ((List.length_filter_le ..).trans h)⟩
  have hshown : showCode code.toList = dedent body := by
    rw [showCode, body?_eq_some_iff.2 h]
    dsimp only
    -- a body of one line is trimmed instead
    split
    · rfl
    · next hone =>
      exact (dedent_eq_trim ((List.length_filter_le ..).trans (Nat.not_lt.1 hone))).symm
  rw [codeText, hshown, String.toList_ofList]
  exact ⟨rfl, fun hclosed => h.unclosed (infix_of_infix_dedent (by decide) (by decide) hclosed)⟩

/-- A body of three lines, of which one is not blank. -/
def fencedBody : List Char := ['\n', '\u3000', 'x', ' ', '{', '=', ' ', 'y', '\r', '\n', ' ']

/-- The body between delimiters, with other text around them and more delimiters behind. -/
def fencedCode : String := String.ofList
  ([' ', 'a', '{', '='] ++ fencedBody ++ ['=', '}', ' ', '=', '}', '\n'])

/-- The three lines are shown as one, like a body of a single line. -/
theorem fenced_code_shown : Delimited (trim fencedCode.toList) ∧
    Encloses (trim fencedCode.toList) fencedBody ∧
    (lines fencedBody).length = 3 ∧ ((lines fencedBody).filter (!allBlank ·)).length ≤ 1 ∧
    (lines ['\r']).length ≤ 1 ∧ dedent ['\r'] = trim ['\r'] ∧
    dedent fencedBody = trim fencedBody ∧
    codeText fencedCode = String.ofList ['x', ' ', '{', '=', ' ', 'y'] := by
  have htrim : trim fencedCode.toList =
      ['a'] ++ '{' :: '=' :: (fencedBody ++ '=' :: '}' :: [' ', '=', '}']) := by
    rw [fencedCode, String.toList_ofList]
    decide
  have hencloses : Encloses (trim fencedCode.toList) fencedBody := by
    rw [htrim]
    exact body?_eq_some_iff.1 (by decide)
  have hfew : ((lines fencedBody).filter (!allBlank ·)).length ≤ 1 := by decide
  have hone : (lines ['\r']).length ≤ 1 := by decide
  obtain ⟨-, hshown, htrimmed, hsingle⟩ := code_shown_as_block fencedCode
  refine ⟨⟨_, _, _, htrim⟩, hencloses, by decide, hfew, hone, hsingle _ hone, htrimmed _ hfew, ?_⟩
  rw [(hshown fencedBody hencloses).1, htrimmed _ hfew]
  decide

end Program
end Reactors

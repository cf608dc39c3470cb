import Reactors.Text.Numeral

/-!
# The strings of TOML

Strings stand between double quotes, where a backslash begins an escape, or between single
quotes, where it does not.  Three quotes open a string that may run over several lines; a
line end right behind them is dropped, and every line end counts as a line feed.

Each scanner starts behind the opening quotes and returns the contents and the text behind
the closing ones.

## Main definitions

* `scanBasic`, `scanLiteral` — strings on one line.
* `scanBasicBlock`, `scanLiteralBlock` — strings on several lines.
* `scanQuoted` — a string of any of the four kinds.
-/

namespace Reactors
namespace Toml

/-! ### Characters -/

/-- Tab and the characters from the space on, without the delete character. -/
def isPlain (c : Char) : Bool := c == '\t' || (' ' ≤ c && c != '\x7F')

/-- The character that a letter behind a backslash stands for. -/
def shortEscape? : Char → Option Char
  | 'b' => some '\x08'
  | 't' => some '\t'
  | 'n' => some '\n'
  | 'f' => some '\x0C'
  | 'r' => some '\r'
  | '"' => some '"'
  | '\\' => some '\\'
  | _ => none

/-- The character with a hexadecimal number. -/
def numbered? (digits : List Char) : Option Char :=
  let n := Text.valueOfDigits 16 digits
  if digits.all Text.isHexDigit ∧ n.isValidChar then some (Char.ofNat n) else none

/-- Puts a character in front of the contents of a string. -/
def prepend (c : Char) : Option (List Char × List Char) → Option (List Char × List Char)
  | some (s, rest) => some (c :: s, rest)
  | none => none

/-- What is left behind a string does not depend on a character put in front of its contents. -/
theorem rest_of_prepend {c : Char} {x : Option (List Char × List Char)} {s rest : List Char}
    (h : prepend c x = some (s, rest)) : ∃ t, x = some (t, rest) := by
  cases x with
  | none => cases h
  | some p =>
    obtain ⟨t, r⟩ := p
    simp only [prepend, Option.some.injEq, Prod.mk.injEq] at h
    exact ⟨t, by rw [h.2]⟩

/-! ### Strings on one line -/

/-- A string between double quotes. -/
def scanBasic : List Char → Option (List Char × List Char)
  | [] => none
  | '"' :: r => some ([], r)
  | '\\' :: 'u' :: a :: b :: c :: d :: r =>
    match numbered? [a, b, c, d] with
    | some x => prepend x (scanBasic r)
    | none => none
  | '\\' :: 'U' :: a :: b :: c :: d :: e :: f :: g :: h :: r =>
    match numbered? [a, b, c, d, e, f, g, h] with
    | some x => prepend x (scanBasic r)
    | none => none
  | '\\' :: c :: r =>
    match shortEscape? c with
    | some x => prepend x (scanBasic r)
    | none => none
  | c :: r => if isPlain c then prepend c (scanBasic r) else none

/-- A string between single quotes. -/
def scanLiteral : List Char → Option (List Char × List Char)
  | [] => none
  | '\'' :: r => some ([], r)
  | c :: r => if isPlain c then prepend c (scanLiteral r) else none

/-! ### Strings on several lines -/

/-- Whether a text starts with blanks and the end of a line. -/
def startsLineEnd : List Char → Bool
  | ' ' :: r => startsLineEnd r
  | '\t' :: r => startsLineEnd r
  | '\n' :: _ => true
  | '\r' :: '\n' :: _ => true
  | _ => false

/-- A string between three double quotes, up to two more of which may stand at its end.  A
backslash at the end of a line drops it and all blanks and line ends behind; `dropping` is set
while these are dropped. -/
def scanBasicBlock (dropping : Bool) : List Char → Option (List Char × List Char)
  | [] => none
  | '"' :: '"' :: '"' :: '"' :: '"' :: r => some (['"', '"'], r)
  | '"' :: '"' :: '"' :: '"' :: r => some (['"'], r)
  | '"' :: '"' :: '"' :: r => some ([], r)
  | '\\' :: 'u' :: a :: b :: c :: d :: r =>
    match numbered? [a, b, c, d] with
    | some x => prepend x (scanBasicBlock false r)
    | none => none
  | '\\' :: 'U' :: a :: b :: c :: d :: e :: f :: g :: h :: r =>
    match numbered? [a, b, c, d, e, f, g, h] with
    | some x => prepend x (scanBasicBlock false r)
    | none => none
  | '\\' :: c :: r =>
    if startsLineEnd (c :: r) then scanBasicBlock true (c :: r)
    else match shortEscape? c with
      | some x => prepend x (scanBasicBlock false r)
      | none => none
  | '\r' :: '\n' :: r =>
    if dropping then scanBasicBlock true r else prepend '\n' (scanBasicBlock false r)
  | c :: r =>
    if dropping && (c == ' ' || c == '\t' || c == '\n') then scanBasicBlock true r
    else if isPlain c || c == '\n' then prepend c (scanBasicBlock false r)
    else none

/-- A string between three single quotes, up to two more of which may stand at its end. -/
def scanLiteralBlock : List Char → Option (List Char × List Char)
  | [] => none
  | '\'' :: '\'' :: '\'' :: '\'' :: '\'' :: r => some (['\'', '\''], r)
  | '\'' :: '\'' :: '\'' :: '\'' :: r => some (['\''], r)
  | '\'' :: '\'' :: '\'' :: r => some ([], r)
  | '\r' :: '\n' :: r => prepend '\n' (scanLiteralBlock r)
  | c :: r => if isPlain c || c == '\n' then prepend c (scanLiteralBlock r) else none

/-! ### What is left is shorter -/

/-- If a scan leaves less than `n` characters, so does the scan with a character in front. -/
theorem length_lt_of_prepend {c : Char} {x : Option (List Char × List Char)}
    {s rest : List Char} {n m : Nat} (hnm : n ≤ m)
    (ih : ∀ {t : List Char}, x = some (t, rest) → rest.length < n)
    (h : prepend c x = some (s, rest)) : rest.length < m := by
  obtain ⟨t, ht⟩ := rest_of_prepend h
  exact Nat.lt_of_lt_of_le (ih ht) hnm

theorem length_scanBasic {s t rest : List Char} (h : scanBasic s = some (t, rest)) :
    rest.length < s.length := by
  fun_induction scanBasic s generalizing t with
  | case1 => cases h
  | case2 r => cases h; simp
  | case3 a b c d r x _ ih => exact length_lt_of_prepend (by simp; omega) ih h
  | case4 => cases h
  | case5 a b c d e f g i r x _ ih => exact length_lt_of_prepend (by simp; omega) ih h
  | case6 => cases h
  | case7 c r _ _ x _ ih => exact length_lt_of_prepend (by simp; omega) ih h
  | case8 => cases h
  | case9 c r _ _ _ _ _ ih => exact length_lt_of_prepend (by simp) ih h
  | case10 => cases h

theorem length_scanLiteral {s t rest : List Char} (h : scanLiteral s = some (t, rest)) :
    rest.length < s.length := by
  fun_induction scanLiteral s generalizing t with
  | case1 => cases h
  | case2 r => cases h; simp
  | case3 c r _ _ ih => exact length_lt_of_prepend (by simp) ih h
  | case4 => cases h

theorem length_scanBasicBlock {dropping : Bool} {s t rest : List Char}
    (h : scanBasicBlock dropping s = some (t, rest)) : rest.length < s.length := by
  fun_induction scanBasicBlock dropping s generalizing t with
  | case1 => cases h
  | case2 r => cases h; simp; omega
  | case3 => cases h; simp; omega
  | case4 => cases h; simp; omega
  | case5 dropping a b c d r x _ ih => exact length_lt_of_prepend (by simp; omega) ih h
  | case6 => cases h
  | case7 dropping a b c d e f g i r x _ ih => exact length_lt_of_prepend (by simp; omega) ih h
  | case8 => cases h
  | case9 dropping c r _ _ _ ih => exact Nat.lt_succ_of_lt (ih h)
  | case10 dropping c r _ _ _ x _ ih => exact length_lt_of_prepend (by simp; omega) ih h
  | case11 => cases h
  | case12 r ih => exact Nat.lt_succ_of_lt (Nat.lt_succ_of_lt (ih h))
  | case13 dropping r _ ih => exact length_lt_of_prepend (by simp; omega) ih h
  | case14 dropping c r _ _ _ _ _ _ _ _ ih => exact Nat.lt_succ_of_lt (ih h)
  | case15 dropping c r _ _ _ _ _ _ _ _ _ ih => exact length_lt_of_prepend (by simp) ih h
  | case16 => cases h

theorem length_scanLiteralBlock {s t rest : List Char}
    (h : scanLiteralBlock s = some (t, rest)) : rest.length < s.length := by
  fun_induction scanLiteralBlock s generalizing t with
  | case1 => cases h
  | case2 => cases h; simp; omega
  | case3 => cases h; simp; omega
  | case4 => cases h; simp; omega
  | case5 r ih => exact length_lt_of_prepend (by simp; omega) ih h
  | case6 c r _ _ _ _ _ ih => exact length_lt_of_prepend (by simp) ih h
  | case7 => cases h

end Toml
end Reactors

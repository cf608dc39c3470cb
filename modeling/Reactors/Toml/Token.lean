import Reactors.Toml.Quoted

/-!
# The tokens of a TOML text

A text is cut into marks, strings and words.  Words are what keys without quotes and values
without quotes are made of; points are tokens of their own, because they join the parts of a
key as well as those of a number.  A date and a time of day that one space separates are
one word.  Blanks are kept: two brackets next to each other differ from two with a blank
between them.

The cutting stops with the token `bad` at the first character that starts no token.

## Main definitions

* `Token` — the tokens.
* `tokens` — the tokens of a text.
-/

namespace Reactors
namespace Toml

/-- A token of a TOML text. -/
inductive Token where
  | blank
  | newline
  | comment
  | openList
  | closeList
  | openTable
  | closeTable
  | comma
  | equals
  | dot
  /-- A string; `block` tells those that may run over several lines. -/
  | text (block : Bool) (value : String)
  | word (chars : List Char)
  /-- No token starts here. -/
  | bad

/-! ### Marks -/

/-- The token that a single character is. -/
def mark? : Char → Option Token
  | ' ' => some .blank
  | '\t' => some .blank
  | '\n' => some .newline
  | '[' => some .openList
  | ']' => some .closeList
  | '{' => some .openTable
  | '}' => some .closeTable
  | ',' => some .comma
  | '=' => some .equals
  | '.' => some .dot
  | _ => none

/-! ### Words -/

/-- The characters of keys without quotes. -/
def isKeyChar (c : Char) : Bool :=
  Text.isDigit c || ('a' ≤ c && c ≤ 'z') || ('A' ≤ c && c ≤ 'Z') || c == '-' || c == '_'

/-- The characters of words: those of keys, and what numbers and times have besides. -/
def isWordChar (c : Char) : Bool := isKeyChar c || c == '+' || c == ':'

/-- Whether a word is shaped like a date. -/
def isDateShaped : List Char → Bool
  | [a, b, c, d, '-', m, n, '-', x, y] => [a, b, c, d, m, n, x, y].all Text.isDigit
  | _ => false

/-- What belongs to a word besides its own characters: the time of day behind a date and a space.
-/
def timeBehind (word rest : List Char) : List Char :=
  match rest with
  | ' ' :: d :: r =>
    if isDateShaped word && Text.isDigit d then ' ' :: d :: r.takeWhile isWordChar else []
  | _ => []

/-! ### Strings -/

/-- The token of a string that opens with a quote, and the text behind it. -/
def quoted? : List Char → Option (Token × List Char)
  | '"' :: '"' :: '"' :: '\n' :: r => block (scanBasicBlock false r)
  | '"' :: '"' :: '"' :: '\r' :: '\n' :: r => block (scanBasicBlock false r)
  | '"' :: '"' :: '"' :: r => block (scanBasicBlock false r)
  | '\'' :: '\'' :: '\'' :: '\n' :: r => block (scanLiteralBlock r)
  | '\'' :: '\'' :: '\'' :: '\r' :: '\n' :: r => block (scanLiteralBlock r)
  | '\'' :: '\'' :: '\'' :: r => block (scanLiteralBlock r)
  | '"' :: r => line (scanBasic r)
  | '\'' :: r => line (scanLiteral r)
  | _ => none
where
  /-- The token of a string on several lines. -/
  block (scanned : Option (List Char × List Char)) : Option (Token × List Char) :=
    scanned.map fun (s, rest) => (.text true (String.ofList s), rest)
  /-- The token of a string on one line. -/
  line (scanned : Option (List Char × List Char)) : Option (Token × List Char) :=
    scanned.map fun (s, rest) => (.text false (String.ofList s), rest)

theorem length_quoted? {s rest : List Char} {t : Token} (h : quoted? s = some (t, rest)) :
    rest.length < s.length := by
  unfold quoted? at h
  split at h <;>
    (try simp only [quoted?.block, quoted?.line, Option.map_eq_some_iff, Prod.exists,
      Prod.mk.injEq] at h) <;>
    (try obtain ⟨u, v, hu, -, rfl⟩ := h)
  · have := length_scanBasicBlock hu; simp only [List.length_cons]; omega
  · have := length_scanBasicBlock hu; simp only [List.length_cons]; omega
  · have := length_scanBasicBlock hu; simp only [List.length_cons]; omega
  · have := length_scanLiteralBlock hu; simp only [List.length_cons]; omega
  · have := length_scanLiteralBlock hu; simp only [List.length_cons]; omega
  · have := length_scanLiteralBlock hu; simp only [List.length_cons]; omega
  · have := length_scanBasic hu; simp only [List.length_cons]; omega
  · have := length_scanLiteral hu; simp only [List.length_cons]; omega

/-! ### Cutting a text -/

/-- The tokens of a text, up to and with the first bad one. -/
def tokens : List Char → List Token
  | [] => []
  | '\r' :: '\n' :: r => .newline :: tokens r
  | c :: r =>
    match mark? c with
    | some t => t :: tokens r
    | none =>
      if c = '#' then .comment :: tokens (r.dropWhile isPlain)
      else if c = '"' ∨ c = '\'' then
        match _h : quoted? (c :: r) with
        | some (t, rest) => t :: tokens rest
        | none => [.bad]
      else if isWordChar c then
        let word := c :: r.takeWhile isWordChar
        let behind := timeBehind word (r.dropWhile isWordChar)
        .word (word ++ behind) :: tokens ((r.dropWhile isWordChar).drop behind.length)
      else [.bad]
termination_by s => s.length
decreasing_by
  · simp only [List.length_cons]; omega
  · simp
  · have := (List.dropWhile_suffix (l := r) isPlain).length_le
    simp only [List.length_cons]; omega
  · exact length_quoted? _h
  · have := (List.dropWhile_suffix (l := r) isWordChar).length_le
    simp only [List.length_cons, List.length_drop]; omega

end Toml
end Reactors

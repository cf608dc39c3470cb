import Reactors.Document
import Reactors.Decimal.Rounding
import Reactors.Text.Numeral

/-!
# The tokens of a JSON text

A JSON text is cut into brackets, separators, strings and words, where a word is a
number or one of the three literals.  The cutting stops with the token `bad` at the
first character that starts none of these.

## Main definitions

* `Token` — the tokens.
* `scanString` — the inside of a string, up to its closing quote.
* `assemble` — the characters of a string, surrogate pairs put together.
* `number?` — the value of a number.
* `tokens` — the tokens of a text.
-/

namespace Reactors
namespace Json

/-- A token of a JSON text. -/
inductive Token where
  | openTable
  | closeTable
  | openList
  | closeList
  | comma
  | colon
  /-- A string; one that holds half a surrogate pair has no text. -/
  | text (value : Option String)
  /-- A number or a literal. -/
  | scalar (value : Document)
  /-- No token starts here. -/
  | bad

/-! ### Strings -/

/-- What a string is made of: characters, and the 16-bit units that are written by number. -/
inductive Piece where
  | char (c : Char)
  | unit (n : Nat)

/-- The character that a letter behind a backslash stands for. -/
def shortEscape? : Char → Option Char
  | '"' => some '"'
  | '\\' => some '\\'
  | '/' => some '/'
  | 'b' => some '\x08'
  | 'f' => some '\x0C'
  | 'n' => some '\n'
  | 'r' => some '\r'
  | 't' => some '\t'
  | _ => none

/-- The pieces of a string up to its closing quote, and the text behind it.  Control characters
must be escaped. -/
def scanString : List Char → Option (List Piece × List Char)
  | [] => none
  | '"' :: r => some ([], r)
  | '\\' :: 'u' :: a :: b :: c :: d :: r =>
    if [a, b, c, d].all Text.isHexDigit then
      (scanString r).map fun (ps, rest) =>
        (.unit (Text.valueOfDigits 16 [a, b, c, d]) :: ps, rest)
    else none
  | '\\' :: c :: r =>
    match shortEscape? c with
    | some e => (scanString r).map fun (ps, rest) => (.char e :: ps, rest)
    | none => none
  | c :: r =>
    if c < ' ' then none
    else (scanString r).map fun (ps, rest) => (.char c :: ps, rest)

theorem length_scanString {s rest : List Char} {ps : List Piece}
    (h : scanString s = some (ps, rest)) : rest.length < s.length := by
  fun_induction scanString s generalizing ps with
  | case1 => cases h
  | case2 r =>
    simp only [Option.some.injEq, Prod.mk.injEq] at h
    simp [← h.2]
  | case3 a b c d r _ ih =>
    obtain ⟨⟨qs, t⟩, ht, he⟩ := Option.map_eq_some_iff.1 h
    cases he
    have := ih ht
    simp only [List.length_cons]
    omega
  | case4 => cases h
  | case5 c r _ e _ ih =>
    obtain ⟨⟨qs, t⟩, ht, he⟩ := Option.map_eq_some_iff.1 h
    cases he
    have := ih ht
    simp only [List.length_cons]
    omega
  | case6 => cases h
  | case7 => cases h
  | case8 c r _ _ _ _ ih =>
    obtain ⟨⟨qs, t⟩, ht, he⟩ := Option.map_eq_some_iff.1 h
    cases he
    have := ih ht
    simp only [List.length_cons]
    omega

/-- The first half of a surrogate pair. -/
def isHighSurrogate (n : Nat) : Bool := 0xD800 ≤ n && n < 0xDC00

/-- The second half of a surrogate pair. -/
def isLowSurrogate (n : Nat) : Bool := 0xDC00 ≤ n && n < 0xE000

/-- The characters that pieces stand for; a surrogate must be one of a pair. -/
def assemble : List Piece → Option (List Char)
  | [] => some []
  | .char c :: ps => (assemble ps).map (c :: ·)
  | .unit n :: .unit m :: ps =>
    -- two units make one character only if they are the two halves of a pair
    if isHighSurrogate n then
      if isLowSurrogate m then
        (assemble ps).map
          (Char.ofNat (0x10000 + (n - 0xD800) * 0x400 + (m - 0xDC00)) :: ·)
      else none
    else if isLowSurrogate n then none
    else (assemble (.unit m :: ps)).map (Char.ofNat n :: ·)
  | .unit n :: ps =>
    if isHighSurrogate n || isLowSurrogate n then none
    else (assemble ps).map (Char.ofNat n :: ·)

/-! ### Numbers -/

/-- The whole part of a number: digits, no zero in front of others. -/
def isWhole : List Char → Bool
  | [] => false
  | ['0'] => true
  | c :: _ => c != '0'

/-- Splits off a fraction: the digits behind a point. -/
def splitFraction? : List Char → Option (List Char × List Char)
  | '.' :: r =>
    let digits := r.takeWhile Text.isDigit
    if digits.isEmpty then none else some (digits, r.dropWhile Text.isDigit)
  | s => some ([], s)

/-- The exponent that ends a number, zero if there is none. -/
def exponent? : List Char → Option Int
  | [] => some 0
  | 'e' :: r => Text.readInteger? r
  | 'E' :: r => Text.readInteger? r
  | _ => none

/-- A floating point number; one beyond the largest finite number is illegible. -/
def ofNearest (x : Binary64) : Document := if x.isFinite then .float x else .illegible

/-- The value of a number.  Without fraction and exponent it is an integer, apart from minus
zero; an integer must not be beyond the largest finite number either.

All decimals are taken to be read exactly, to the nearest floating point number.  This is an
assumption about the texts: a faster reader may miss the nearest number by one place where many
digits are written or the exponent is large. -/
def number? (word : List Char) : Option Document := do
  let negative := word.head? == some '-'
  let unsigned := if negative then word.drop 1 else word
  let whole := unsigned.takeWhile Text.isDigit
  let behind := unsigned.dropWhile Text.isDigit
  if !isWhole whole then none
  let (fraction, tail) ← splitFraction? behind
  let exponent ← exponent? tail
  let digits := Text.valueOfDigits 10 (whole ++ fraction)
  let nearest := Decimal.nearest negative digits (exponent - fraction.length)
  if !behind.isEmpty || (negative && digits == 0) then pure (ofNearest nearest)
  else if !nearest.isFinite then pure .illegible
  else pure (.integer (if negative then -(digits : Int) else digits))

/-! ### Words -/

/-- The characters that words are made of. -/
def isWordChar (c : Char) : Bool :=
  Text.isDigit c || ('a' ≤ c && c ≤ 'z') || ('A' ≤ c && c ≤ 'Z') ||
    c == '-' || c == '+' || c == '.'

/-- The value of a word. -/
def word? (word : List Char) : Option Document :=
  if word = ['n', 'u', 'l', 'l'] then some .null
  else if word = ['t', 'r', 'u', 'e'] then some (.bool true)
  else if word = ['f', 'a', 'l', 's', 'e'] then some (.bool false)
  else number? word

/-! ### Cutting a text -/

/-- The four characters that may stand between tokens. -/
def isSpace (c : Char) : Bool := c == ' ' || c == '\n' || c == '\r' || c == '\t'

/-- The token that a single character is. -/
def mark? : Char → Option Token
  | '{' => some .openTable
  | '}' => some .closeTable
  | '[' => some .openList
  | ']' => some .closeList
  | ',' => some .comma
  | ':' => some .colon
  | _ => none

theorem length_dropWhile_le (p : Char → Bool) (s : List Char) :
    (s.dropWhile p).length ≤ s.length :=
  (List.dropWhile_suffix p).length_le

/-- The tokens of a text, up to and with the first bad one. -/
def tokens : List Char → List Token
  | [] => []
  | c :: r =>
    if isSpace c then tokens r
    else match mark? c with
    | some t => t :: tokens r
    | none =>
      if c = '"' then
        match _h : scanString r with
        | some (ps, rest) => .text ((assemble ps).map String.ofList) :: tokens rest
        | none => [.bad]
      else if isWordChar c then
        match word? (c :: r.takeWhile isWordChar) with
        | some d => .scalar d :: tokens (r.dropWhile isWordChar)
        | none => [.bad]
      else [.bad]
termination_by s => s.length
decreasing_by
  · simp
  · simp
  · have := length_scanString _h; simp only [List.length_cons]; omega
  · have := length_dropWhile_le isWordChar r; simp only [List.length_cons]; omega

end Json
end Reactors

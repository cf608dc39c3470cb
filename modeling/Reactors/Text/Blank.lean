/-!
# Blank characters and trimming

Blank characters are those with the Unicode property `White_Space`: twenty-five
code points.  The zero-width space and the byte order mark are not among them,
nor are the separators U+001C to U+001F.

Trimming works on `List Char`, the form in which every reader of this library
looks at its text.

## Main definitions

* `isBlank` — the character class.
* `trimStart`, `trimEnd`, `trim` — a text without its outer blanks.
-/

namespace Reactors
namespace Text

/-! ### The character class -/

/-- A character with the Unicode property `White_Space`. -/
def isBlank (c : Char) : Bool :=
  let n := c.toNat
  (9 ≤ n && n ≤ 13) || n == 0x20 || n == 0x85 || n == 0xA0 || n == 0x1680 ||
    (0x2000 ≤ n && n ≤ 0x200A) || n == 0x2028 || n == 0x2029 || n == 0x202F ||
    n == 0x205F || n == 0x3000

/-- A text of blanks only; the empty text is one. -/
def allBlank (s : List Char) : Bool := s.all isBlank

/-! ### Trimming -/

/-- The text from its first character that is not blank. -/
def trimStart (s : List Char) : List Char := s.dropWhile isBlank

/-- The text up to its last character that is not blank. -/
def trimEnd : List Char → List Char
  | [] => []
  | c :: r =>
    match trimEnd r with
    | [] => if isBlank c then [] else [c]
    | d :: t => c :: d :: t

/-- The text from its first to its last character that is not blank. -/
def trim (s : List Char) : List Char := trimEnd (trimStart s)

/-- Whether a string holds nothing but blanks. -/
def isBlankString (s : String) : Bool := allBlank s.toList

end Text
end Reactors

/-!
# Lines of a text

A line ends at a line feed; a carriage return right before the line feed belongs
to the line's end.  A carriage return elsewhere is an ordinary character, also at
the very end of the text.  An end of line that closes the text opens no further,
empty line.

## Main definitions

* `lines` — the lines of a text, without their ends.
* `joinLines` — lines set under each other, one line feed between two.
-/

namespace Reactors
namespace Text

/-- The lines of a text, without the characters that end them. -/
def lines : List Char → List (List Char)
  | [] => []
  | '\n' :: r => [] :: lines r
  | '\r' :: '\n' :: r => [] :: lines r
  | c :: r =>
    match lines r with
    | [] => [[c]]
    | l :: ls => (c :: l) :: ls

/-- Lines set under each other, with one line feed between two of them. -/
def joinLines : List (List Char) → List Char
  | [] => []
  | [l] => l
  | l :: ls => l ++ '\n' :: joinLines ls

end Text
end Reactors

import Reactors.Text.Combining
import Reactors.Text.Graphic

/-!
# Quoted strings in reports

Strings are shown between double quotes, in printable ASCII: tab, carriage return,
line feed, both quotes and the backslash are written with a backslash, the other
characters from the space to the tilde stand for themselves, and every other
character is written by its number, in hexadecimal between braces.

File paths are shown in the same double quotes.  They keep single quotes and characters beyond
ASCII as they are, unless these are combining marks or no graphic characters.

## Main definitions

* `quoted` — a string as the reports show it.
* `quotedPath` — a file path as the messages show it.
-/

namespace Reactors
namespace Text

/-! ### Numbered characters -/

/-- A character by its number: `\u`, then the number in hexadecimal between braces. -/
def numbered (c : Char) : List Char :=
  ['\\', 'u', '{'] ++ Nat.toDigits 16 c.toNat ++ ['}']

/-! ### Strings -/

/-- One character inside the quotes. -/
def escape (c : Char) : List Char :=
  if c = '\t' then ['\\', 't']
  else if c = '\r' then ['\\', 'r']
  else if c = '\n' then ['\\', 'n']
  else if c = '\'' ∨ c = '"' ∨ c = '\\' then ['\\', c]
  else if ' ' ≤ c ∧ c ≤ '~' then [c]
  else numbered c

/-- A string between double quotes, in printable ASCII. -/
def quoted (s : String) : String :=
  String.ofList ('"' :: s.toList.flatMap escape ++ ['"'])

/-! ### Paths -/

/-- One character of a path inside the quotes. -/
def escapeInPath (c : Char) : List Char :=
  if c = '\x00' then ['\\', '0']
  else if c = '\t' then ['\\', 't']
  else if c = '\r' then ['\\', 'r']
  else if c = '\n' then ['\\', 'n']
  else if c = '"' ∨ c = '\\' then ['\\', c]
  else if isCombining c || !isGraphic c then numbered c
  else [c]

/-- A file path between double quotes. -/
def quotedPath (path : String) : String :=
  String.ofList ('"' :: path.toList.flatMap escapeInPath ++ ['"'])

end Text
end Reactors

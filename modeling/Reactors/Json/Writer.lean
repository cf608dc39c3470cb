import Reactors.Document
import Reactors.Decimal.Form
import Reactors.Text.Numeral

/-!
# Writing JSON

A document is written either without blanks or indented by two spaces a level.  Strings
escape the two quotes and the backslash, five controls by a letter and the other characters
below the space by number; everything else stands for itself.  What has no JSON form is
written as null.

## Main definitions

* `compact` — the document without blanks.
* `pretty` — the document on indented lines.
-/

namespace Reactors
namespace Json

/-! ### Scalars -/

/-- One character of a string. -/
def escapeChar (c : Char) : List Char :=
  if c = '"' then ['\\', '"']
  else if c = '\\' then ['\\', '\\']
  else if c = '\x08' then ['\\', 'b']
  else if c = '\x0C' then ['\\', 'f']
  else if c = '\n' then ['\\', 'n']
  else if c = '\r' then ['\\', 'r']
  else if c = '\t' then ['\\', 't']
  else if c < ' ' then
    ['\\', 'u', '0', '0', Nat.digitChar (c.toNat / 16), Nat.digitChar (c.toNat % 16)]
  else [c]

/-- A string between its quotes. -/
def writeString (s : String) : List Char := '"' :: s.toList.flatMap escapeChar ++ ['"']

/-- A scalar; containers are not written here. -/
def writeScalar : Document → List Char
  | .bool true => ['t', 'r', 'u', 'e']
  | .bool false => ['f', 'a', 'l', 's', 'e']
  | .integer n => (Text.integer n).toList
  | .float x => if x.isFinite then (Decimal.Form.stored.write x).toList else ['n', 'u', 'l', 'l']
  | .text s => writeString s
  | _ => ['n', 'u', 'l', 'l']

/-- The name of an entry; an illegible one is left empty. -/
def writeName (name : Option String) : List Char := writeString (name.getD "")

/-! ### Without blanks -/

mutual

/-- A document without blanks. -/
def write : Document → List Char
  | .list [] => ['[', ']']
  | .list (d :: ds) => '[' :: (write d ++ writeItems ds)
  | .table [] => ['{', '}']
  | .table ((k, d) :: es) => '{' :: (writeName k ++ ':' :: (write d ++ writeEntries es))
  | d => writeScalar d

/-- Further items of a list, and its end. -/
def writeItems : List Document → List Char
  | [] => [']']
  | d :: ds => ',' :: (write d ++ writeItems ds)

/-- Further entries of a table, and its end. -/
def writeEntries : List (Option String × Document) → List Char
  | [] => ['}']
  | (k, d) :: es => ',' :: (writeName k ++ ':' :: (write d ++ writeEntries es))

end

/-- A document on one line, without blanks. -/
def compact (d : Document) : String := String.ofList (write d)

/-! ### On lines -/

/-- The start of a line at a level. -/
def newLine (level : Nat) : List Char := '\n' :: List.replicate (2 * level) ' '

mutual

/-- A document on lines; `level` is that of the line on which it starts. -/
def writeLines (level : Nat) : Document → List Char
  | .list [] => ['[', ']']
  | .list (d :: ds) =>
    '[' :: (newLine (level + 1) ++ writeLines (level + 1) d ++ writeItemLines level ds)
  | .table [] => ['{', '}']
  | .table ((k, d) :: es) =>
    '{' :: (newLine (level + 1) ++ writeName k ++
      ':' :: ' ' :: (writeLines (level + 1) d ++ writeEntryLines level es))
  | d => writeScalar d

/-- Further items of a list whose first line is at `level`, and its end. -/
def writeItemLines (level : Nat) : List Document → List Char
  | [] => newLine level ++ [']']
  | d :: ds =>
    ',' :: (newLine (level + 1) ++ writeLines (level + 1) d ++ writeItemLines level ds)

/-- Further entries of a table whose first line is at `level`, and its end. -/
def writeEntryLines (level : Nat) : List (Option String × Document) → List Char
  | [] => newLine level ++ ['}']
  | (k, d) :: es =>
    ',' :: (newLine (level + 1) ++ writeName k ++
      ':' :: ' ' :: (writeLines (level + 1) d ++ writeEntryLines level es))

end

/-- A document on lines, each level indented by two more spaces. -/
def pretty (d : Document) : String := String.ofList (writeLines 0 d)

end Json
end Reactors

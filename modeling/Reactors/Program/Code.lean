import Reactors.Text.Blank
import Reactors.Text.Lines

/-!
# Code blocks

Code of the target language is kept with its delimiters, an opening brace with an equals
sign and the same in reverse.  It is shown without them: a single line without its outer
blanks, a block without the blank lines around it and without the indentation that all its
lines share.

## Main definitions

* `cutAt?` — splits a text at a pair of characters.
* `dedent` — a block without its shared indentation.
* `codeText` — code as it is shown.
-/

namespace Reactors
namespace Program

open Text (isBlank allBlank trim trimEnd lines joinLines)

/-! ### Delimiters -/

/-- Splits a text around the first place where two characters stand next to each other. -/
def cutAt? (a b : Char) : List Char → Option (List Char × List Char)
  | c :: d :: r =>
    if c = a ∧ d = b then some ([], r)
    else (cutAt? a b (d :: r)).map fun (before, after) => (c :: before, after)
  | _ => none

/-- What stands between the first opening delimiter and the first closing one behind it. -/
def body? (s : List Char) : Option (List Char) := do
  let (_, inner) ← cutAt? '{' '=' s
  let (body, _) ← cutAt? '=' '}' inner
  return body

/-! ### Indentation -/

/-- The number of blanks that a line starts with. -/
def indentation (line : List Char) : Nat := (line.takeWhile isBlank).length

/-- Lines without the blank ones before the first and behind the last other line. -/
def stripBlankLines (ls : List (List Char)) : List (List Char) :=
  ((ls.dropWhile allBlank).reverse.dropWhile allBlank).reverse

/-- The least indentation of a line that is not blank. -/
def sharedIndentation (ls : List (List Char)) : Nat :=
  ((ls.filter (!allBlank ·)).map indentation).min?.getD 0

/-- A line without as many characters at its beginning and without the blanks at its end. -/
def cutMargin (margin : Nat) (line : List Char) : List Char := trimEnd (line.drop margin)

/-- Lines without their shared indentation and the blanks at their ends. -/
def alignLines (ls : List (List Char)) : List (List Char) :=
  ls.map (cutMargin (sharedIndentation ls))

/-- A block of lines without blank lines around it, shared indentation and blanks at the ends of
lines. -/
def dedent (block : List Char) : List Char :=
  joinLines (alignLines (stripBlankLines (lines block)))

/-! ### Code as it is shown -/

/-- Code without its delimiters; without a pair of them all of it, trimmed. -/
def showCode (s : List Char) : List Char :=
  match body? (trim s) with
  | none => trim s
  | some body => if 1 < (lines body).length then dedent body else trim body

/-- Code as it is shown. -/
def codeText (code : String) : String := String.ofList (showCode code.toList)

end Program
end Reactors

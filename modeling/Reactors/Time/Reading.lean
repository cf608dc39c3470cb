import Reactors.Time.Value

/-!
# Reading time values

A time value is written as a whole number with an optional sign and a unit behind it, with
blanks before, between and behind.  Zero may stand without a unit.

## Main definitions

* `TimeValue.splitMagnitude` — the number in front and what follows it.
* `TimeValue.read` — the reader; of several faults the first in the order of the text is
  reported, a missing unit last.
-/

namespace Reactors
namespace TimeValue

/-- Splits a text behind its longest beginning of an optional sign and ASCII digits. -/
def splitMagnitude : List Char → List Char × List Char
  | [] => ([], [])
  | c :: r =>
    if c = '+' ∨ c = '-' then (c :: r.takeWhile Text.isDigit, r.dropWhile Text.isDigit)
    else ((c :: r).takeWhile Text.isDigit, (c :: r).dropWhile Text.isDigit)

/-- Reads the magnitude of a time value. -/
def readMagnitude (digits : List Char) : Except TimeError Int64 :=
  match (Text.readInteger? digits).bind Text.int64? with
  | some m => .ok m
  | Option.none => .error (.invalidMagnitude (String.ofList digits))

/-- Reads a time value. -/
def read (text : String) : Except TimeError TimeValue := do
  let s := Text.trim text.toList
  if s.isEmpty then throw .empty
  let (digits, rest) := splitMagnitude s
  let magnitude ← readMagnitude digits
  let unit ← TimeUnit.read rest
  checked magnitude unit

end TimeValue
end Reactors

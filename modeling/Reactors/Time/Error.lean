import Reactors.Text.Numeral

/-!
# What is wrong with a time value

## Main definitions

* `TimeError` — the ways in which a text or a pair of magnitude and unit is no time value.
* `TimeError.message` — the wording.
-/

namespace Reactors

/-- Why something is no time value. -/
inductive TimeError where
  /-- The text holds nothing but blanks. -/
  | empty
  /-- The digits in front are missing or do not fit 64 bits. -/
  | invalidMagnitude (digits : String)
  /-- The word behind the number is no spelling of a unit. -/
  | unknownUnit (word : String)
  /-- A number other than zero stands without a unit. -/
  | missingUnit (magnitude : Int64)
  deriving DecidableEq, Repr

/-- The wording of the error. -/
def TimeError.message : TimeError → String
  | .empty => "Empty time value"
  | .invalidMagnitude digits => "Invalid magnitude: " ++ digits
  | .unknownUnit word => "Unknown time unit: " ++ word
  | .missingUnit m => "Missing time unit for non-zero magnitude " ++ Text.integer m.toInt

end Reactors

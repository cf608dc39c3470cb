import Reactors.Instance.Defect
import Reactors.Time.Error

/-!
# What is wrong with a document

## Main definitions

* `DecodeError` — why a document does not hold what it should.
* `DecodeError.message` — the wording.
-/

namespace Reactors

/-- Why a document does not hold a value of the kind that is read from it. -/
inductive DecodeError where
  /-- The text breaks the rules of its format, or has another shape. -/
  | malformed
  /-- A time value breaks the rules of time values. -/
  | time (cause : TimeError)
  /-- The instances do not form a tree. -/
  | tree (defect : TreeDefect)
  deriving DecidableEq, Repr

/-- The wording of the error. -/
def DecodeError.message : DecodeError → String
  | .malformed => "malformed document"
  | .time cause => cause.message
  | .tree defect => defect.message

end Reactors

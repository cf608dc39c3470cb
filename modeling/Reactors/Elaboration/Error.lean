import Reactors.Program.Definitions
import Reactors.Text.Numeral

/-!
# Errors of elaboration

Elaboration stops at its first error, and no part of the tree is kept.  Instances are named by
their paths.

## Main definitions

* `TriggerField` — the fields of triggers that hold expressions.
* `ElaborationError` — the causes.
* `ElaborationError.message` — the wording.
* `ErrorKind`, `ElaborationError.kind` — the cause without its details.
-/

namespace Reactors

/-- A field of a trigger whose expression has to be resolved. -/
inductive TriggerField where
  | offset
  | period
  | minDelay
  | minSpacing
  | width
  deriving DecidableEq, Repr

namespace TriggerField

/-- The name of the field in a design. -/
def name : TriggerField → String
  | .offset => "offset"
  | .period => "period"
  | .minDelay => "min_delay"
  | .minSpacing => "min_spacing"
  | .width => "width"

/-- What the field has to hold. -/
def expected : TriggerField → String
  | .width => "non-negative integer"
  | _ => "time value"

end TriggerField

/-- Why a program cannot be elaborated. -/
inductive ElaborationError where
  /-- A definition instantiates itself by way of the others; the first and the last name of the
  cycle are the same. -/
  | cyclicInstantiation (cycle : List String)
  /-- An instance is to be made of a reactor without definition. -/
  | unresolvedReactor (path reactor : String)
  /-- A parameter is used that does not exist; the whole expression is quoted. -/
  | unresolvedParameter (path parameter quoted : String)
  /-- A trigger is to be made without an instance to own it. -/
  | missingParent (trigger : String)
  /-- A field of a trigger holds something else than it has to. -/
  | typeMismatch (path trigger : String) (field : TriggerField) (found : String)
  /-- An instance lies too deep. -/
  | depthLimitExceeded (path : String) (limit : Nat)
  /-- Two sites or two triggers of an instance have one name. -/
  | duplicateName (path name : String)
  /-- The definitions do not make a program. -/
  | invalidProgram (cause : ProgramError)
  deriving DecidableEq, Repr

namespace ElaborationError

/-- The wording of the error. -/
def message : ElaborationError → String
  | .cyclicInstantiation cycle => "Cyclic instantiation: " ++ " -> ".intercalate cycle
  | .unresolvedReactor path reactor =>
    "Unresolved reactor '" ++ reactor ++ "' instantiated at " ++ path
  | .unresolvedParameter path parameter quoted =>
    "Unresolved parameter '" ++ parameter ++ "' in " ++ path ++ " (in expression `" ++ quoted ++
      "`)"
  | .missingParent trigger =>
    "Cannot create trigger '" ++ trigger ++ "' with no parent reactor instance"
  | .typeMismatch path trigger field found =>
    "Type mismatch for " ++ trigger ++ "." ++ field.name ++ " in " ++ path ++ ": expected " ++
      field.expected ++ ", found " ++ found
  | .depthLimitExceeded path limit =>
    "Instance " ++ path ++ " exceeds the maximum hierarchy depth of " ++ Text.natural limit
  | .duplicateName path name => "Duplicate name '" ++ name ++ "' in " ++ path
  | .invalidProgram cause => "Invalid program: " ++ cause.message

end ElaborationError

/-- The causes without their details. -/
inductive ErrorKind where
  | cyclicInstantiation
  | unresolvedReactor
  | unresolvedParameter
  | missingParent
  | typeMismatch
  | depthLimitExceeded
  | duplicateName
  | invalidProgram
  deriving DecidableEq, Repr

namespace ElaborationError

/-- The kind of the error, whatever its wording. -/
def kind : ElaborationError → ErrorKind
  | .cyclicInstantiation _ => .cyclicInstantiation
  | .unresolvedReactor _ _ => .unresolvedReactor
  | .unresolvedParameter _ _ _ => .unresolvedParameter
  | .missingParent _ => .missingParent
  | .typeMismatch _ _ _ _ => .typeMismatch
  | .depthLimitExceeded _ _ => .depthLimitExceeded
  | .duplicateName _ _ => .duplicateName
  | .invalidProgram _ => .invalidProgram

/-- Whether the error points at a caller's mistake rather than at the program. -/
def isInternal : ElaborationError → Bool
  | .missingParent _ => true
  | _ => false

end ElaborationError
end Reactors

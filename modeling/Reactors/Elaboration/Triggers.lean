import Reactors.Config
import Reactors.Instance.Basic

/-!
# Elaborating triggers

The triggers of an instance are the startup timer and what its definition declares.
Their timing and width are fixed here, from literals or from the instance's own parameters.

## Main definitions

* `Elaborator` — the settings of an elaboration.
* `Owner` — what is known of an instance when its triggers are made.
* `Elaborator.timeField`, `Elaborator.widthField` — resolved fields.
* `Elaborator.triggers` — all triggers of an instance.
* `ownTrigger`, `ownTriggers` — triggers of an instance that may be missing.
-/

namespace Reactors

/-- The settings of an elaboration: the configuration, and how errors quote expressions. -/
structure Elaborator where
  config : Config
  quote : ExprPrinter

/-- The instance that declares a trigger: its path and its resolved parameters. -/
structure Owner where
  path : String
  parameters : Scope

namespace Elaborator

/-! ### Fields -/

/-- What a reference in a field of a trigger stands for. -/
def reference (e : Elaborator) (owner : Owner) (name : String) :
    Except ElaborationError Value :=
  match owner.parameters.get? name with
  | some p => .ok p.value.initial
  | none => .error (.unresolvedParameter owner.path name (e.quote (.paramRef name)))

/-- A field that holds something else than a time. -/
def notATime (e : Elaborator) (owner : Owner) (trigger : String) (field : TriggerField)
    (found : Expr) : ElaborationError :=
  .typeMismatch owner.path trigger field (e.quote found)

/-- The time that an expression in a field stands for: a time, the integer zero, or a parameter
whose value is one of these. -/
def timeOf (e : Elaborator) (owner : Owner) (trigger : String) (field : TriggerField) :
    Expr → Except ElaborationError TimeValue
  | .paramRef name => do
    let v ← e.reference owner name
    match v.asTime? with
    | some t => .ok t
    | none => .error (e.notATime owner trigger field v.toExpr)
  | .time t => .ok t
  | .int n => if n = 0 then .ok .zero else .error (e.notATime owner trigger field (.int n))
  | found => .error (e.notATime owner trigger field found)

/-- The time in a field, or a default if the field is left out. -/
def timeField (e : Elaborator) (owner : Owner) (trigger : String) (field : TriggerField)
    (default : TimeValue) : Option Expr → Except ElaborationError TimeValue
  | none => .ok default
  | some expr => e.timeOf owner trigger field expr

/-- The integer that an expression in a width stands for, if it is one. -/
def integerOf (e : Elaborator) (owner : Owner) : Expr → Except ElaborationError (Option Int64)
  | .paramRef name => (e.reference owner name).map Value.asInt?
  | .int n => .ok (some n)
  | _ => .ok none

/-- An integer that can count channels. -/
def channels? (n : Int64) : Option UInt64 :=
  if 0 ≤ n.toInt then some (UInt64.ofNat n.toInt.toNat) else none

/-- The width that an expression stands for. -/
def widthOf (e : Elaborator) (owner : Owner) (port : String) (expr : Expr) :
    Except ElaborationError UInt64 := do
  match (← e.integerOf owner expr).bind channels? with
  | some width => .ok width
  | none => .error (.typeMismatch owner.path port .width (e.quote expr))

/-- A field that may be left out. -/
def optionalField {α : Type} (resolve : Expr → Except ElaborationError α) :
    Option Expr → Except ElaborationError (Option α)
  | none => .ok none
  | some expr => (resolve expr).map some

/-! ### Single triggers -/

/-- The timer that every instance has from the start. -/
def startup (e : Elaborator) : Trigger :=
  ⟨e.config.startupName, .timer ⟨e.config.defaultOffset, e.config.defaultPeriod, true⟩⟩

/-- A declared timer. -/
def timer (e : Elaborator) (owner : Owner) (d : TimerDecl) : Except ElaborationError Trigger := do
  let offset ← e.timeField owner d.name .offset e.config.defaultOffset d.offset
  let period ← e.timeField owner d.name .period e.config.defaultPeriod d.period
  return ⟨d.name, .timer ⟨offset, period, false⟩⟩

/-- A declared action. -/
def action (e : Elaborator) (owner : Owner) (d : ActionDecl) :
    Except ElaborationError Trigger := do
  let minDelay ← e.timeField owner d.name .minDelay .zero d.minDelay
  let minSpacing ← optionalField (e.timeOf owner d.name .minSpacing) d.minSpacing
  return ⟨d.name, .action ⟨d.origin, minDelay, minSpacing⟩⟩

/-- A declared port. -/
def port (e : Elaborator) (owner : Owner) (direction : PortDirection) (d : PortDecl) :
    Except ElaborationError Trigger := do
  let width ← optionalField (e.widthOf owner d.name) d.width
  return ⟨d.name, .port ⟨direction, width⟩⟩

/-! ### All triggers -/

/-- The first name that came before in the list. -/
def firstRepeated? (seen : List String) : List Trigger → Option String
  | [] => none
  | t :: ts => if t.name ∈ seen then some t.name else firstRepeated? (t.name :: seen) ts

/-- The triggers that a definition declares: inputs, outputs, timers and actions. -/
def declaredTriggers (e : Elaborator) (owner : Owner) (r : ReactorDecl) :
    Except ElaborationError (List Trigger) := do
  let inputs ← r.inputs.mapM (e.port owner .input)
  let outputs ← r.outputs.mapM (e.port owner .output)
  let timers ← r.timers.mapM (e.timer owner)
  let actions ← r.actions.mapM (e.action owner)
  return inputs ++ outputs ++ timers ++ actions

/-- The triggers of an instance, the startup timer first; no two may have one name. -/
def triggers (e : Elaborator) (owner : Owner) (r : ReactorDecl) :
    Except ElaborationError (List Trigger) := do
  let declared ← e.declaredTriggers owner r
  let all := e.startup :: declared
  match firstRepeated? [] all with
  | some name => .error (.duplicateName owner.path name)
  | none => return all

end Elaborator

/-! ### Triggers of an instance that may be missing -/

/-- What the triggers of an instance need to know of it. -/
def Instance.owner (i : Instance) : Owner := ⟨i.path, i.parameters⟩

/-- Makes a trigger for an instance; without one, an error that names the trigger. -/
def ownTrigger (parent : Option Instance) (name : String)
    (make : Owner → Except ElaborationError Trigger) :
    Except ElaborationError TriggerInstance :=
  match parent with
  | some i => (make i.owner).map (·.ownedBy i.id)
  | none => .error (.missingParent name)

/-- Makes the triggers of an instance; without one, an error that names the startup timer. -/
def ownTriggers (e : Elaborator) (parent : Option Instance) (r : ReactorDecl) :
    Except ElaborationError (List TriggerInstance) :=
  match parent with
  | some i => (e.triggers i.owner r).map fun ts => ts.map (·.ownedBy i.id)
  | none => .error (.missingParent e.config.startupName)

end Reactors

import Reactors.Program.Declarations
import Reactors.Text.Numeral

/-!
# Triggers

What can set a reaction off: timers, actions and ports.  They have a name in common and differ
in the rest.

## Main definitions

* `Timer`, `Action`, `Port` — triggers with their timing and width resolved.
* `Trigger` — a trigger by itself; `TriggerInstance` — one that belongs to an instance.
* `Trigger.text` — the trigger in the dump of a tree.
-/

namespace Reactors

/-- A timer. -/
structure Timer where
  offset : TimeValue
  /-- Zero for a timer that fires once. -/
  period : TimeValue
  /-- Whether this is the timer that every instance has from the start. -/
  startup : Bool
  deriving DecidableEq, Repr

/-- An action. -/
structure Action where
  origin : ActionOrigin
  minDelay : TimeValue
  minSpacing : Option TimeValue
  deriving DecidableEq, Repr

/-- Which way a port leads. -/
inductive PortDirection where
  | input
  | output
  deriving DecidableEq, Repr

/-- A port; one with a width has that many channels. -/
structure Port where
  direction : PortDirection
  width : Option UInt64
  deriving DecidableEq, Repr

/-- The part in which triggers differ. -/
inductive TriggerKind where
  | timer (timer : Timer)
  | action (action : Action)
  | port (port : Port)
  deriving DecidableEq, Repr

/-- A trigger. -/
structure Trigger where
  name : String
  kind : TriggerKind
  deriving DecidableEq, Repr

/-- A trigger and the instance that declares it. -/
structure TriggerInstance extends Trigger where
  /-- The number of the instance. -/
  parent : Nat
  deriving DecidableEq, Repr

/-- The trigger as one of the instance with this number. -/
def Trigger.ownedBy (t : Trigger) (parent : Nat) : TriggerInstance := ⟨t, parent⟩

/-! ### Views -/

/-- Whether the timer fires again and again. -/
def Timer.isPeriodic (t : Timer) : Bool := !t.period.isZero

/-- Whether the port has channels. -/
def Port.isMultiport (p : Port) : Bool := p.width.isSome

namespace Trigger

/-- The timer, if the trigger is one. -/
def timer? (t : Trigger) : Option Timer :=
  match t.kind with
  | .timer timer => some timer
  | _ => none

/-- The action, if the trigger is one. -/
def action? (t : Trigger) : Option Action :=
  match t.kind with
  | .action action => some action
  | _ => none

/-- The port, if the trigger is one. -/
def port? (t : Trigger) : Option Port :=
  match t.kind with
  | .port port => some port
  | _ => none

end Trigger

/-! ### Text -/

/-- An origin in words. -/
def ActionOrigin.word : ActionOrigin → String
  | .logical => "logical"
  | .physical => "physical"

/-- A direction in words. -/
def PortDirection.word : PortDirection → String
  | .input => "input"
  | .output => "output"

/-- The text of a timer with this name. -/
def Timer.text (name : String) (t : Timer) : String :=
  if t.startup then "startup " ++ name
  else
    "timer " ++ name ++ "(offset = " ++ t.offset.text ++ ", period = " ++ t.period.text ++ ")"

/-- The text of an action with this name. -/
def Action.text (name : String) (a : Action) : String :=
  let spacing := match a.minSpacing with
    | some t => ", min_spacing = " ++ t.text
    | none => ""
  a.origin.word ++ " action " ++ name ++ "(min_delay = " ++ a.minDelay.text ++ spacing ++ ")"

/-- The text of a port with this name. -/
def Port.text (name : String) (p : Port) : String :=
  match p.width with
  | some width => p.direction.word ++ "[" ++ Text.natural width.toNat ++ "] " ++ name
  | none => p.direction.word ++ " " ++ name

/-- The text of a trigger. -/
def Trigger.text (t : Trigger) : String :=
  match t.kind with
  | .timer timer => timer.text t.name
  | .action action => action.text t.name
  | .port port => port.text t.name

/-! ### Comparison -/

/-- Equality of timers, times compared as times. -/
def Timer.same (a b : Timer) : Bool :=
  a.offset.same b.offset && a.period.same b.period && a.startup == b.startup

/-- Equality of actions, times compared as times. -/
def Action.same (a b : Action) : Bool :=
  a.origin == b.origin && a.minDelay.same b.minDelay &&
    sameOption TimeValue.same a.minSpacing b.minSpacing

/-- Equality of kinds, times compared as times. -/
def TriggerKind.same : TriggerKind → TriggerKind → Bool
  | .timer a, .timer b => a.same b
  | .action a, .action b => a.same b
  | .port a, .port b => a == b
  | _, _ => false

/-- Equality of the triggers of instances, times compared as times. -/
def TriggerInstance.same (a b : TriggerInstance) : Bool :=
  a.parent == b.parent && a.name == b.name && a.kind.same b.kind

end Reactors

import Reactors.Elaboration.Parameters
import Reactors.Instance.Trigger

/-!
# Instances

An instance of a reactor: its place in the hierarchy, its parameters and its triggers.
Instances are numbered; parents and children are named by number.

## Main definitions

* `Instance` — an instance.
* `Instance.scopeOf` — what an optional parent supplies.
* `Instance.trigger?`, `Instance.timers`, `Instance.actions`, `Instance.ports` — its triggers.
-/

namespace Reactors

/-- An instance of a reactor. -/
structure Instance where
  id : Nat
  /-- The name of the site; the root has the name of its reactor. -/
  name : String
  reactor : String
  /-- The enclosing instance; the root has none. -/
  parent : Option Nat
  /-- The distance from the root. -/
  depth : Nat
  /-- The names from the root down to the instance, with a point between two. -/
  path : String
  /-- The contained instances, in the order of their sites. -/
  children : List Nat
  parameters : Scope
  triggers : List TriggerInstance

namespace Instance

/-- Whether no instance encloses this one. -/
def isRoot (i : Instance) : Bool := i.parent.isNone

/-- The parameters of a parent; without a parent there are none. -/
def scopeOf (parent : Option Instance) : Scope := parent.elim .empty Instance.parameters

/-- The parameter with this name. -/
def parameter? (i : Instance) (name : String) : Option Parameter := i.parameters.get? name

/-! ### Triggers -/

/-- The first trigger with this name. -/
def trigger? (i : Instance) (name : String) : Option TriggerInstance :=
  i.triggers.find? (·.name == name)

/-- The triggers of one kind, with what is particular to them. -/
def triggersOf {α : Type} (view : Trigger → Option α) (i : Instance) :
    List (TriggerInstance × α) :=
  i.triggers.filterMap fun t => (view t.toTrigger).map (t, ·)

/-- The timers. -/
def timers (i : Instance) : List (TriggerInstance × Timer) := i.triggersOf Trigger.timer?

/-- The actions. -/
def actions (i : Instance) : List (TriggerInstance × Action) := i.triggersOf Trigger.action?

/-- The ports. -/
def ports (i : Instance) : List (TriggerInstance × Port) := i.triggersOf Trigger.port?

/-- The first timer that is marked as the startup timer. -/
def startup? (i : Instance) : Option Timer := (i.timers.map Prod.snd).find? (·.startup)

/-! ### Comparison -/

/-- Equality of instances; times are compared as times, floating point numbers as numbers, and
parameters without regard to their order. -/
def same (a b : Instance) : Bool :=
  a.id == b.id && a.name == b.name && a.reactor == b.reactor && a.parent == b.parent &&
    a.depth == b.depth && a.path == b.path && a.children == b.children &&
    a.parameters.same Parameter.same b.parameters &&
    sameList TriggerInstance.same a.triggers b.triggers

end Instance
end Reactors

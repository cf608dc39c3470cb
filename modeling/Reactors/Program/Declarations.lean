import Reactors.OrderedMap
import Reactors.Program.Expr

/-!
# Programs

A program is a list of reactor definitions and the name of the main one.  A definition
declares parameters, ports, timers and actions, and the sites at which it instantiates other
reactors; these are named, not contained, so that a program is a flat list.

## Main definitions

* `ReactorDecl`, `Program` — definitions and programs.
* `ReactorDecl.withParameter`, `ReactorDecl.withTimer`, `ReactorDecl.withInstance` — building
  definitions step by step.
* `Program.reactor?` — a definition by its name.
* `Program.same` — equality of programs by what they mean.
-/

namespace Reactors

/-! ### Declarations -/

/-- A parameter with its default. -/
structure ParameterDecl where
  name : String
  type : Option TypeExpr
  default : Expr

/-- A site at which a reactor is instantiated, with the parameters it overrides. -/
structure Site where
  name : String
  reactor : String
  overrides : OrderedMap Expr

/-- A timer; a field that is left out takes the configured default. -/
structure TimerDecl where
  name : String
  offset : Option Expr
  period : Option Expr

/-- Where the events of an action come from. -/
inductive ActionOrigin where
  | logical
  | physical
  deriving DecidableEq, Repr

/-- An action. -/
structure ActionDecl where
  name : String
  origin : ActionOrigin
  minDelay : Option Expr
  minSpacing : Option Expr
  type : Option TypeExpr

/-- A port; one with a width has that many channels. -/
structure PortDecl where
  name : String
  type : Option TypeExpr
  width : Option Expr

/-- The definition of a reactor. -/
structure ReactorDecl where
  name : String
  parameters : List ParameterDecl
  inputs : List PortDecl
  outputs : List PortDecl
  timers : List TimerDecl
  actions : List ActionDecl
  sites : List Site

/-- A program: the name of the main reactor, and the definitions. -/
structure Program where
  main : String
  reactors : List ReactorDecl

/-! ### Building definitions -/

namespace ReactorDecl

/-- A definition that declares nothing. -/
def named (name : String) : ReactorDecl := ⟨name, [], [], [], [], [], []⟩

/-- The definition with one more parameter. -/
def withParameter (r : ReactorDecl) (name : String) (default : Expr) : ReactorDecl :=
  { r with parameters := r.parameters ++ [⟨name, none, default⟩] }

/-- The definition with one more timer. -/
def withTimer (r : ReactorDecl) (name : String) (offset period : Option Expr) : ReactorDecl :=
  { r with timers := r.timers ++ [⟨name, offset, period⟩] }

/-- The definition with one more site. -/
def withInstance (r : ReactorDecl) (name reactor : String) (overrides : List (String × Expr)) :
    ReactorDecl :=
  { r with sites := r.sites ++ [⟨name, reactor, .ofList overrides⟩] }

/-- The first parameter with this name. -/
def parameter? (r : ReactorDecl) (name : String) : Option ParameterDecl :=
  r.parameters.find? (·.name == name)

end ReactorDecl

/-- The first definition with this name. -/
def Program.reactor? (p : Program) (name : String) : Option ReactorDecl :=
  p.reactors.find? (·.name == name)

/-! ### Equality by meaning -/

/-- Whether two lists agree item by item under a comparison. -/
def sameList {α : Type} (eq : α → α → Bool) : List α → List α → Bool
  | [], [] => true
  | a :: as, b :: bs => eq a b && sameList eq as bs
  | _, _ => false

/-- Whether two values that may be missing agree under a comparison. -/
def sameOption {α : Type} (eq : α → α → Bool) : Option α → Option α → Bool
  | none, none => true
  | some a, some b => eq a b
  | _, _ => false

/-- Equality of parameters by meaning. -/
def ParameterDecl.same (a b : ParameterDecl) : Bool :=
  a.name == b.name && a.type == b.type && a.default.same b.default

/-- Equality of sites by meaning; the order of the overrides does not count. -/
def Site.same (a b : Site) : Bool :=
  a.name == b.name && a.reactor == b.reactor && a.overrides.same Expr.same b.overrides

/-- Equality of timers by meaning. -/
def TimerDecl.same (a b : TimerDecl) : Bool :=
  a.name == b.name && sameOption Expr.same a.offset b.offset &&
    sameOption Expr.same a.period b.period

/-- Equality of actions by meaning. -/
def ActionDecl.same (a b : ActionDecl) : Bool :=
  a.name == b.name && a.origin == b.origin && sameOption Expr.same a.minDelay b.minDelay &&
    sameOption Expr.same a.minSpacing b.minSpacing && a.type == b.type

/-- Equality of ports by meaning. -/
def PortDecl.same (a b : PortDecl) : Bool :=
  a.name == b.name && a.type == b.type && sameOption Expr.same a.width b.width

/-- Equality of definitions by meaning. -/
def ReactorDecl.same (a b : ReactorDecl) : Bool :=
  a.name == b.name && sameList ParameterDecl.same a.parameters b.parameters &&
    sameList PortDecl.same a.inputs b.inputs && sameList PortDecl.same a.outputs b.outputs &&
    sameList TimerDecl.same a.timers b.timers && sameList ActionDecl.same a.actions b.actions &&
    sameList Site.same a.sites b.sites

/-- Equality of programs by meaning. -/
def Program.same (p q : Program) : Bool :=
  p.main == q.main && sameList ReactorDecl.same p.reactors q.reactors

end Reactors

import Reactors.Elaboration.Error
import Reactors.Value

/-!
# Resolving parameters

An instance resolves its parameters once, when it is made: every declared parameter takes
the override of the site, or else its default, evaluated among the parameters of the enclosing
instance.  The root has no enclosing instance, so its scope is empty.

A reference contributes the first element of an array that has one and the whole value
otherwise, also inside a list.

## Main definitions

* `Scope` — the parameters of an instance by name.
* `Expr.evaluate` — the value of an expression, or the first parameter it misses.
* `Site.overridesOf` — what an optional site supplies.
* `resolveParameters` — the parameters of a new instance.
-/

namespace Reactors

/-- The parameters of an instance by name. -/
abbrev Scope := OrderedMap Parameter

/-! ### Evaluation -/

namespace Expr

mutual

/-- The value of an expression in a scope, or the name of the first parameter that the scope does
not have. -/
def evaluate (scope : Scope) : Expr → Except String Value
  | .int n => .ok (.int n)
  | .float x => .ok (.float x)
  | .bool b => .ok (.bool b)
  | .str s => .ok (.str s)
  | .time t => .ok (.time t)
  | .code c => .ok (.code c)
  | .paramRef name =>
    match scope.get? name with
    | some p => .ok p.value.initial
    | none => .error name
  | .list items => (evaluateItems scope items).map .array

/-- The values of the items of a list, from left to right. -/
def evaluateItems (scope : Scope) : List Expr → Except String (List Value)
  | [] => .ok []
  | e :: es =>
    match evaluate scope e with
    | .error name => .error name
    | .ok v => (evaluateItems scope es).map (v :: ·)

end

end Expr

/-! ### The parameters of an instance -/

/-- The overrides of a site; without a site there are none. -/
def Site.overridesOf (site : Option Site) : OrderedMap Expr := site.elim .empty Site.overrides

/-- The first override that the definition does not declare. -/
def undeclaredOverride? (r : ReactorDecl) (overrides : OrderedMap Expr) :
    Option (String × Expr) :=
  overrides.entries.find? fun e => (r.parameter? e.1).isNone

/-- The expression that a declared parameter takes, and where it comes from. -/
def chosen (overrides : OrderedMap Expr) (p : ParameterDecl) : Expr × Provenance :=
  match overrides.get? p.name with
  | some e => (e, .override)
  | none => (p.default, .default)

/-- The value of one declared parameter. -/
def resolveParameter (quote : ExprPrinter) (path : String) (overrides : OrderedMap Expr)
    (scope : Scope) (p : ParameterDecl) : Except ElaborationError Parameter :=
  let (e, provenance) := chosen overrides p
  match e.evaluate scope with
  | .ok value => .ok ⟨p.name, value, provenance⟩
  | .error missing => .error (.unresolvedParameter path missing (quote e))

/-- Resolves declared parameters in order; of a name declared twice the last value counts. -/
def resolveDeclared (quote : ExprPrinter) (path : String) (overrides : OrderedMap Expr)
    (scope : Scope) : Scope → List ParameterDecl → Except ElaborationError Scope
  | resolved, [] => .ok resolved
  | resolved, p :: ps =>
    match resolveParameter quote path overrides scope p with
    | .error e => .error e
    | .ok value => resolveDeclared quote path overrides scope (resolved.set p.name value) ps

/-- The parameters of a new instance at a path; an override of a parameter that is not declared
is an error. -/
def resolveParameters (quote : ExprPrinter) (path : String) (r : ReactorDecl)
    (overrides : OrderedMap Expr) (scope : Scope) : Except ElaborationError Scope :=
  match undeclaredOverride? r overrides with
  | some (name, e) => .error (.unresolvedParameter path name (quote e))
  | none => resolveDeclared quote path overrides scope .empty r.parameters

end Reactors

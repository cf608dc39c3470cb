import Reactors.Elaboration.Parameters

/-!
# What expressions and parameters stand for

The value of an expression is the expression with every reference replaced by what the scope
says.  Evaluating it fails exactly when some reference has nothing to stand for, and then the
first one from the left is at fault.  In the same way the parameters of an instance are its
declared names with the values of the expressions chosen for them.

## Main definitions

* `Expr.refs` — the parameters that an expression refers to.
* `Expr.valueIn` — the expression with its references replaced.
* `ReactorDecl.parametersIn` — the parameters of an instance.

## Main results

* `Expr.evaluate_eq` — evaluation is replacement, or names the first missing parameter.
* `Expr.evaluate_eq_error_iff` — which reference is at fault.
* `resolveParameters_eq_ok` — when the parameters of an instance resolve, and to what.
-/

namespace Reactors
namespace Expr

/-! ### Expressions -/

mutual

/-- The parameters that an expression refers to, from left to right. -/
def refs : Expr → List String
  | .int _ => []
  | .float _ => []
  | .bool _ => []
  | .str _ => []
  | .time _ => []
  | .code _ => []
  | .paramRef name => [name]
  | .list items => itemRefs items

/-- The parameters that the items of a list refer to. -/
def itemRefs : List Expr → List String
  | [] => []
  | e :: es => refs e ++ itemRefs es

end

mutual

/-- An expression with every reference replaced by what its parameter yields in a scope.  A
reference to something else is replaced by an empty array; such an expression has no value. -/
def valueIn (scope : Scope) : Expr → Value
  | .int n => .int n
  | .float x => .float x
  | .bool b => .bool b
  | .str s => .str s
  | .time t => .time t
  | .code c => .code c
  | .paramRef name => ((scope.get? name).map fun p => p.value.initial).getD (.array [])
  | .list items => .array (itemValues scope items)

/-- The items of a list with their references replaced. -/
def itemValues (scope : Scope) : List Expr → List Value
  | [] => []
  | e :: es => valueIn scope e :: itemValues scope es

end

/-- The first parameter in a list that a scope does not have. -/
def missing? (scope : Scope) (names : List String) : Option String :=
  names.find? fun name => (scope.get? name).isNone

theorem missing?_append (scope : Scope) (as bs : List String) :
    missing? scope (as ++ bs) = (missing? scope as).or (missing? scope bs) := by
  rw [missing?, List.find?_append]
  rfl

theorem missing?_eq_none_iff {scope : Scope} {names : List String} :
    missing? scope names = none ↔ ∀ name ∈ names, name ∈ scope.keys := by
  rw [missing?, List.find?_eq_none]
  refine forall₂_congr fun name _ => ?_
  rw [Option.isNone_iff_eq_none, OrderedMap.get?_eq_none_iff]
  exact Decidable.not_not

mutual

/-- **Evaluation is replacement.**  It yields the expression with its references replaced, or the
first reference from the left that the scope has no parameter for. -/
theorem evaluate_eq (scope : Scope) : ∀ e : Expr,
    e.evaluate scope = (missing? scope e.refs).elim (.ok (e.valueIn scope)) .error
  | .int _ => rfl
  | .float _ => rfl
  | .bool _ => rfl
  | .str _ => rfl
  | .time _ => rfl
  | .code _ => rfl
  | .paramRef name => by
    rw [evaluate, refs, valueIn, missing?, List.find?_singleton]
    cases scope.get? name with
    | none => rfl
    | some p => rfl
  | .list items => by
    rw [evaluate, evaluateItems_eq scope items, refs, valueIn]
    cases missing? scope (itemRefs items) with
    | none => rfl
    | some name => rfl

theorem evaluateItems_eq (scope : Scope) : ∀ es : List Expr,
    evaluateItems scope es =
      (missing? scope (itemRefs es)).elim (.ok (itemValues scope es)) .error
  | [] => rfl
  | e :: es => by
    rw [evaluateItems, evaluate_eq scope e, evaluateItems_eq scope es, itemRefs, itemValues,
      missing?_append]
    cases missing? scope e.refs with
    | some name => rfl
    | none =>
      cases missing? scope (itemRefs es) with
      | some name => rfl
      | none => rfl

end

/-- An expression has a value exactly when all its references have something to stand for. -/
theorem evaluate_eq_ok {scope : Scope} {e : Expr} {v : Value} :
    e.evaluate scope = .ok v ↔ (∀ name ∈ e.refs, name ∈ scope.keys) ∧ v = e.valueIn scope := by
  rw [evaluate_eq, ← missing?_eq_none_iff]
  cases missing? scope e.refs with
  | none => simp [eq_comm]
  | some name => simp

/-- Evaluation fails at a reference exactly if it stands for nothing and all references on the left
of it stand for something. -/
theorem evaluate_eq_error_iff {scope : Scope} {x : Expr} {name : String} :
    x.evaluate scope = .error name ↔
      ∃ before after, x.refs = before ++ name :: after ∧
        (∀ earlier ∈ before, earlier ∈ scope.keys) ∧ name ∉ scope.keys := by
  have hmissing : x.evaluate scope = .error name ↔ missing? scope x.refs = some name := by
    rw [evaluate_eq]
    cases missing? scope x.refs <;> simp
  rw [hmissing, missing?, List.find?_eq_some_iff_append]
  simp only [Bool.not_eq_true', Option.isNone_iff_eq_none, Option.isNone_eq_false_iff,
    Option.isSome_iff_exists, OrderedMap.get?_eq_none_iff, ← OrderedMap.mem_keys_iff]
  constructor
  · rintro ⟨hname, before, after, hrefs, hbefore⟩
    exact ⟨before, after, hrefs, hbefore, hname⟩
  · rintro ⟨before, after, hrefs, hbefore, hname⟩
    exact ⟨hname, before, after, hrefs, hbefore⟩

end Expr

/-! ### Parameters -/

/-- The value that a declared parameter has in a new instance. -/
def ParameterDecl.boundIn (overrides : OrderedMap Expr) (scope : Scope) (p : ParameterDecl) :
    Parameter :=
  ⟨p.name, (chosen overrides p).1.valueIn scope, (chosen overrides p).2⟩

/-- The parameters of an instance of a definition, created with overrides in a scope: of a name
declared twice the last declaration counts. -/
def ReactorDecl.parametersIn (r : ReactorDecl) (overrides : OrderedMap Expr) (scope : Scope) :
    Scope :=
  OrderedMap.ofList (r.parameters.map fun p => (p.name, p.boundIn overrides scope))

theorem resolveParameter_eq_ok {quote : ExprPrinter} {path : String}
    {overrides : OrderedMap Expr} {scope : Scope} {p : ParameterDecl} {value : Parameter} :
    resolveParameter quote path overrides scope p = .ok value ↔
      (∀ name ∈ (chosen overrides p).1.refs, name ∈ scope.keys) ∧
        value = p.boundIn overrides scope := by
  rw [resolveParameter, ← Expr.missing?_eq_none_iff]
  dsimp only
  rw [Expr.evaluate_eq]
  cases Expr.missing? scope (chosen overrides p).1.refs with
  | none => simp [ParameterDecl.boundIn, eq_comm]
  | some name => simp

theorem resolveDeclared_eq_ok {quote : ExprPrinter} {path : String}
    {overrides : OrderedMap Expr} {scope resolved own : Scope} {ps : List ParameterDecl} :
    resolveDeclared quote path overrides scope resolved ps = .ok own ↔
      (∀ p ∈ ps, ∀ name ∈ (chosen overrides p).1.refs, name ∈ scope.keys) ∧
        own = (ps.map fun p => (p.name, p.boundIn overrides scope)).foldl
          (fun m e => m.set e.1 e.2) resolved := by
  induction ps generalizing resolved with
  | nil => simp [resolveDeclared, eq_comm]
  | cons p ps ih =>
    rw [resolveDeclared, List.map_cons, List.foldl_cons, List.forall_mem_cons]
    cases hp : resolveParameter quote path overrides scope p with
    | error cause =>
      refine iff_of_false (by simp) fun h => ?_
      have hok : resolveParameter quote path overrides scope p = .ok _ :=
        resolveParameter_eq_ok.2 ⟨h.1.1, rfl⟩
      rw [hp] at hok
      cases hok
    | ok value =>
      obtain ⟨hrefs, rfl⟩ := resolveParameter_eq_ok.1 hp
      rw [ih, and_iff_right hrefs]

theorem undeclaredOverride?_eq_none_iff {r : ReactorDecl} {overrides : OrderedMap Expr} :
    undeclaredOverride? r overrides = none ↔
      ∀ name ∈ overrides.keys, ∃ p ∈ r.parameters, p.name = name := by
  rw [undeclaredOverride?, List.find?_eq_none, OrderedMap.keys, List.forall_mem_map]
  refine forall₂_congr fun entry _ => ?_
  rw [ReactorDecl.parameter?, Option.isNone_iff_eq_none, List.find?_eq_none]
  simp

/-- The parameters of an instance resolve exactly when every override is of a declared parameter
and every reference in an expression chosen for a declared parameter has something to stand
for; they are then the declared ones with the values of these expressions. -/
theorem resolveParameters_eq_ok {quote : ExprPrinter} {path : String} {r : ReactorDecl}
    {overrides : OrderedMap Expr} {scope own : Scope} :
    resolveParameters quote path r overrides scope = .ok own ↔
      (∀ name ∈ overrides.keys, ∃ p ∈ r.parameters, p.name = name) ∧
      (∀ p ∈ r.parameters, ∀ name ∈ (chosen overrides p).1.refs, name ∈ scope.keys) ∧
        own = r.parametersIn overrides scope := by
  rw [resolveParameters, ← undeclaredOverride?_eq_none_iff]
  cases undeclaredOverride? r overrides with
  | some entry => simp
  | none =>
    dsimp only
    rw [resolveDeclared_eq_ok, and_iff_right rfl]
    rfl

end Reactors

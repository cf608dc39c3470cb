import Reactors.Proofs.Evaluation

/-!
# Evaluation is substitution

Values are written as literals, which are the expressions without references.  So what evaluation
yields can be said among expressions: every reference is replaced by a literal, that of the first
element if the parameter holds an array that has one, and that of the whole value otherwise.  Only
the value of the reference is stripped in this way; the lists around it stay.

An expression that refers to a parameter that is not there has no value.  The error names the
first such reference from the left and quotes the outermost expression, however deep inside it the
reference stands.

## Main definitions

* `Value.referenceLiteral`, `Scope.literal?` — what a reference is replaced by.
* `Expr.substitute` — an expression with its references replaced.

## Main results

* `Expr.toExpr_valueIn` — the literal of the value of an expression.
* `Value.evaluate_toExpr`, `Value.toExpr_injective` — a literal stands for its value alone.
* `evaluation_substitutes` — evaluation and substitution.
-/

namespace Reactors

/-! ### Literals in place of references -/

/-- The literal that a reference to a parameter with this value stands for. -/
def Value.referenceLiteral : Value → Expr
  | .array (v :: _) => v.toExpr
  | v => v.toExpr

theorem Value.toExpr_initial (v : Value) : v.initial.toExpr = v.referenceLiteral := by
  cases v with
  | array items => cases items <;> rfl
  | _ => rfl

/-- The literal that a reference stands for in a scope, if the scope has the parameter. -/
def Scope.literal? (scope : Scope) (name : String) : Option Expr :=
  (scope.get? name).map fun p => p.value.referenceLiteral

namespace Expr

mutual

/-- An expression with its references replaced by literals, at any depth.  References without a
literal are left alone. -/
def substitute (literal? : String → Option Expr) : Expr → Expr
  | .paramRef name => (literal? name).getD (.paramRef name)
  | .list items => .list (substituteItems literal? items)
  | .int n => .int n
  | .float x => .float x
  | .bool b => .bool b
  | .str s => .str s
  | .time t => .time t
  | .code c => .code c

/-- The items of a list with their references replaced. -/
def substituteItems (literal? : String → Option Expr) : List Expr → List Expr
  | [] => []
  | x :: xs => substitute literal? x :: substituteItems literal? xs

end

mutual

/-- Nothing is replaced in an expression if none of its references has a literal. -/
theorem substitute_eq_self {literal? : String → Option Expr} :
    ∀ x : Expr, (∀ name ∈ x.refs, literal? name = none) → x.substitute literal? = x
  | .int _ => fun _ => rfl
  | .float _ => fun _ => rfl
  | .bool _ => fun _ => rfl
  | .str _ => fun _ => rfl
  | .time _ => fun _ => rfl
  | .code _ => fun _ => rfl
  | .paramRef name => by
    intro h
    rw [refs, List.forall_mem_singleton] at h
    rw [substitute, h, Option.getD_none]
  | .list items => by
    intro h
    rw [substitute, substituteItems_eq_self items h]

theorem substituteItems_eq_self {literal? : String → Option Expr} :
    ∀ xs : List Expr, (∀ name ∈ itemRefs xs, literal? name = none) →
      substituteItems literal? xs = xs
  | [] => fun _ => rfl
  | x :: xs => by
    intro h
    rw [itemRefs, List.forall_mem_append] at h
    rw [substituteItems, substitute_eq_self x h.1, substituteItems_eq_self xs h.2]

end

mutual

/-- **The literal of the value of an expression** is the expression with every reference replaced
by the literal of its parameter. -/
theorem toExpr_valueIn {scope : Scope} : ∀ x : Expr, (∀ name ∈ x.refs, name ∈ scope.keys) →
    (x.valueIn scope).toExpr = x.substitute scope.literal?
  | .int _ => fun _ => rfl
  | .float _ => fun _ => rfl
  | .bool _ => fun _ => rfl
  | .str _ => fun _ => rfl
  | .time _ => fun _ => rfl
  | .code _ => fun _ => rfl
  | .paramRef name => by
    intro h
    rw [refs, List.forall_mem_singleton, OrderedMap.mem_keys_iff] at h
    obtain ⟨p, hp⟩ := h
    rw [valueIn, substitute, Scope.literal?, hp, Option.map_some, Option.map_some,
      Option.getD_some, Option.getD_some, Value.toExpr_initial]
  | .list items => by
    intro h
    rw [valueIn, Value.toExpr, substitute, itemExprs_itemValues items h]

theorem itemExprs_itemValues {scope : Scope} :
    ∀ xs : List Expr, (∀ name ∈ itemRefs xs, name ∈ scope.keys) →
      Value.itemExprs (itemValues scope xs) = substituteItems scope.literal? xs
  | [] => fun _ => rfl
  | x :: xs => by
    intro h
    rw [itemRefs, List.forall_mem_append] at h
    rw [itemValues, Value.itemExprs, substituteItems, toExpr_valueIn x h.1,
      itemExprs_itemValues xs h.2]

end

end Expr

/-! ### Literals as expressions -/

namespace Value

mutual

/-- A literal has no references. -/
theorem refs_toExpr : ∀ v : Value, v.toExpr.refs = []
  | .int _ => rfl
  | .float _ => rfl
  | .bool _ => rfl
  | .str _ => rfl
  | .time _ => rfl
  | .code _ => rfl
  | .array items => itemRefs_itemExprs items

theorem itemRefs_itemExprs : ∀ vs : List Value, Expr.itemRefs (itemExprs vs) = []
  | [] => rfl
  | v :: vs => by
    rw [itemExprs, Expr.itemRefs, refs_toExpr v, itemRefs_itemExprs vs, List.append_nil]

end

mutual

/-- A literal has its value in every scope. -/
theorem valueIn_toExpr (scope : Scope) : ∀ v : Value, v.toExpr.valueIn scope = v
  | .int _ => rfl
  | .float _ => rfl
  | .bool _ => rfl
  | .str _ => rfl
  | .time _ => rfl
  | .code _ => rfl
  | .array items => by rw [toExpr, Expr.valueIn, itemValues_itemExprs scope items]

theorem itemValues_itemExprs (scope : Scope) :
    ∀ vs : List Value, Expr.itemValues scope (itemExprs vs) = vs
  | [] => rfl
  | v :: vs => by
    rw [itemExprs, Expr.itemValues, valueIn_toExpr scope v, itemValues_itemExprs scope vs]

end

/-- Evaluation undoes the writing of a value as a literal. -/
theorem evaluate_toExpr (scope : Scope) (v : Value) : v.toExpr.evaluate scope = .ok v := by
  rw [Expr.evaluate_eq_ok, refs_toExpr, valueIn_toExpr]
  exact ⟨fun _ h => absurd h List.not_mem_nil, rfl⟩

/-- Different values have different literals. -/
theorem toExpr_injective {v w : Value} (h : v.toExpr = w.toExpr) : v = w := by
  have heval := congrArg (Expr.evaluate .empty) h
  rw [evaluate_toExpr, evaluate_toExpr] at heval
  exact Except.ok.inj heval

end Value

/-! ### Errors -/

/-- The error for a parameter whose expression has no value quotes this expression as a whole. -/
theorem resolveParameter_of_evaluate_eq_error {quote : ExprPrinter} {path : String}
    {overrides : OrderedMap Expr} {scope : Scope} {d : ParameterDecl} {name : String}
    (h : (chosen overrides d).1.evaluate scope = .error name) :
    resolveParameter quote path overrides scope d =
      .error (.unresolvedParameter path name (quote (chosen overrides d).1)) := by
  unfold resolveParameter
  dsimp only
  rw [h]

/-! ### Evaluation -/

/-- **Evaluation is substitution.**  An expression whose references all name parameters has the
value whose literal is the expression with every reference replaced, and no other.  Where some
references do not, the first of them from the left is the one that is reported, and the error for a
parameter with this expression quotes it from its outside.  So an expression without references
is the literal of its value, whatever the scope, and a literal has the value that it is written
for. -/
theorem evaluation_substitutes (scope : Scope) :
    (∀ x : Expr, (∀ name ∈ x.refs, name ∈ scope.keys) →
      ∃ v, x.evaluate scope = .ok v ∧ v.toExpr = x.substitute scope.literal? ∧
        ∀ w : Value, w.toExpr = x.substitute scope.literal? → w = v) ∧
    (∀ x : Expr, (∃ name ∈ x.refs, name ∉ scope.keys) →
      ∃ before name after, x.refs = before ++ name :: after ∧
        (∀ earlier ∈ before, earlier ∈ scope.keys) ∧ name ∉ scope.keys ∧
        x.evaluate scope = .error name ∧
        ∀ quote path overrides d, (chosen overrides d).1 = x →
          resolveParameter quote path overrides scope d =
            .error (.unresolvedParameter path name (quote x))) ∧
    (∀ x : Expr, x.refs = [] → ∃ v, x.evaluate scope = .ok v ∧ v.toExpr = x) ∧
    ∀ v : Value, v.toExpr.evaluate scope = .ok v := by
  refine ⟨fun x hrefs => ?_, fun x ⟨lost, hlost, hnone⟩ => ?_,
    fun x hrefs => ?_, Value.evaluate_toExpr scope⟩
  · have hliteral := x.toExpr_valueIn hrefs
    refine ⟨x.valueIn scope, Expr.evaluate_eq_ok.2 ⟨hrefs, rfl⟩, hliteral, fun w hw => ?_⟩
    -- two values with one literal are equal
    exact Value.toExpr_injective (hw.trans hliteral.symm)
  · -- a success would need the lost reference as well
    cases heval : x.evaluate scope with
    | ok v => exact absurd ((Expr.evaluate_eq_ok.1 heval).1 lost hlost) hnone
    | error name =>
      obtain ⟨before, after, hrefs, hbefore, hname⟩ := Expr.evaluate_eq_error_iff.1 heval
      refine ⟨before, name, after, hrefs, hbefore, hname, rfl, fun quote path overrides d h => ?_⟩
      subst h
      exact resolveParameter_of_evaluate_eq_error heval
  · have hnone : ∀ (P : String → Prop), ∀ name ∈ x.refs, P name := by
      rw [hrefs]
      exact fun _ _ h => by cases h
    refine ⟨x.valueIn scope, Expr.evaluate_eq_ok.2 ⟨hnone _, rfl⟩, ?_⟩
    rw [x.toExpr_valueIn (hnone _), x.substitute_eq_self (hnone _)]

/-- A scope with a row of two rates and a row without any. -/
def rateRows : Scope :=
  .ofList [("rates", ⟨"rates", .array [.int 5, .int 6], .default⟩),
    ("spares", ⟨"spares", .array [], .override⟩)]

/-- Of the rates the first one is taken and of the empty row the whole, inside the lists around
them; a reference that is lost is reported however deep it stands. -/
theorem rate_rows_substituted :
    (∃ v, (Expr.list [.paramRef "rates", .list [.paramRef "spares"]]).evaluate rateRows = .ok v ∧
      v.toExpr = .list [.int 5, .list [.list []]]) ∧
    ∃ name, name ∉ rateRows.keys ∧
      (Expr.list [.paramRef "rates", .list [.paramRef "lost"]]).evaluate rateRows =
        .error name := by
  obtain ⟨hvalue, herror, -, -⟩ := evaluation_substitutes rateRows
  constructor
  · obtain ⟨v, hv, hliteral, -⟩ :=
      hvalue (.list [.paramRef "rates", .list [.paramRef "spares"]]) (by decide)
    exact ⟨v, hv, hliteral⟩
  · obtain ⟨_, name, _, -, -, hname, heval, -⟩ :=
      herror (.list [.paramRef "rates", .list [.paramRef "lost"]]) ⟨"lost", by decide, by decide⟩
    exact ⟨name, hname, heval⟩

end Reactors

import Reactors.Proofs.Runs
import Reactors.Proofs.TriggerFields

/-!
# Faults of single instances

Resolving the parameters of an instance and making its triggers can fail.  The error then names
the instance by its path and says what is wrong with it: an override without declaration, a
reference that stands for nothing, a field of the wrong kind, or a name that comes twice.  Each of
these is a fact about the definition of the instance and the parameters that it is made with; it
has nothing to do with the instances around and inside.

## Main definitions

* `ParameterFault` — what can be wrong with the parameters of an instance, and the error for it.
* `ReactorDecl.HasField` — the fields of triggers that a definition fills in.
* `FieldFault`, `TriggerFault` — what can be wrong with one field and with the triggers.

## Main results

* `resolveParameters_eq_error`, `Elaborator.triggers_eq_error` — errors name such faults.
-/

namespace Reactors

/-- A list of fallible steps fails because one of them does. -/
theorem exists_of_mapM_eq_error {ε α β : Type} {f : α → Except ε β} {as : List α} {cause : ε}
    (h : as.mapM f = .error cause) : ∃ a ∈ as, f a = .error cause := by
  induction as with
  | nil => cases h
  | cons a as ih =>
    rw [List.mapM_cons, bind_eq_error] at h
    rcases h with hfirst | ⟨b, -, hrest⟩
    · exact ⟨a, List.mem_cons_self, hfirst⟩
    · rcases bind_eq_error.1 hrest with hlater | ⟨bs, -, hdone⟩
      · obtain ⟨a', ha', herror⟩ := ih hlater
        exact ⟨a', List.mem_cons_of_mem _ ha', herror⟩
      · cases hdone

/-! ### Parameters -/

/-- What can be wrong with the parameters of an instance at a path, and the error that says so. -/
inductive ParameterFault (quote : ExprPrinter) (path : String) (r : ReactorDecl)
    (overrides : OrderedMap Expr) (scope : Scope) : ElaborationError → Prop where
  /-- An override is of a parameter that is not declared. -/
  | undeclared {name : String} {x : Expr} (hover : (name, x) ∈ overrides.entries)
      (hname : ∀ p ∈ r.parameters, p.name ≠ name) :
      ParameterFault quote path r overrides scope (.unresolvedParameter path name (quote x))
  /-- The expression chosen for a parameter refers to one that the instance around does not have. -/
  | missing {p : ParameterDecl} {name : String} (hp : p ∈ r.parameters)
      (href : name ∈ (chosen overrides p).1.refs) (hname : name ∉ scope.keys) :
      ParameterFault quote path r overrides scope
        (.unresolvedParameter path name (quote (chosen overrides p).1))

/-- An expression without a value refers to a parameter that the scope does not have. -/
theorem Expr.evaluate_eq_error {scope : Scope} {x : Expr} {name : String}
    (h : x.evaluate scope = .error name) : name ∈ x.refs ∧ name ∉ scope.keys := by
  obtain ⟨before, after, hrefs, -, hname⟩ := evaluate_eq_error_iff.1 h
  rw [hrefs]
  exact ⟨List.mem_append_right before List.mem_cons_self, hname⟩

section

variable {quote : ExprPrinter} {path : String} {overrides : OrderedMap Expr}
  {scope resolved : Scope} {cause : ElaborationError}

theorem resolveParameter_eq_error {p : ParameterDecl}
    (h : resolveParameter quote path overrides scope p = .error cause) :
    ∃ name, name ∈ (chosen overrides p).1.refs ∧ name ∉ scope.keys ∧
      cause = .unresolvedParameter path name (quote (chosen overrides p).1) := by
  unfold resolveParameter at h
  dsimp only at h
  split at h
  · cases h
  · next name hname =>
    cases h
    obtain ⟨href, hmissing⟩ := Expr.evaluate_eq_error hname
    exact ⟨name, href, hmissing, rfl⟩

theorem resolveDeclared_eq_error {ps : List ParameterDecl}
    (h : resolveDeclared quote path overrides scope resolved ps = .error cause) :
    ∃ p ∈ ps, resolveParameter quote path overrides scope p = .error cause := by
  induction ps generalizing resolved with
  | nil => cases h
  | cons p ps ih =>
    unfold resolveDeclared at h
    split at h
    · next hp =>
      cases h
      exact ⟨p, List.mem_cons_self, hp⟩
    · obtain ⟨q, hq, herror⟩ := ih h
      exact ⟨q, List.mem_cons_of_mem _ hq, herror⟩

/-- The parameters of an instance fail to resolve because something is wrong with them. -/
theorem resolveParameters_eq_error {r : ReactorDecl}
    (h : resolveParameters quote path r overrides scope = .error cause) :
    ParameterFault quote path r overrides scope cause := by
  unfold resolveParameters at h
  split at h
  · next name x hover =>
    cases h
    refine .undeclared (List.mem_of_find?_eq_some hover) ?_
    intro p hp hname
    have hnone := List.find?_some hover
    rw [Option.isNone_iff_eq_none, ReactorDecl.parameter?, List.find?_eq_none] at hnone
    exact hnone p hp (by simpa using hname)
  · obtain ⟨p, hp, herror⟩ := resolveDeclared_eq_error h
    obtain ⟨name, href, hname, rfl⟩ := resolveParameter_eq_error herror
    exact .missing hp href hname

end

/-! ### Fields of triggers -/

/-- The values that can stand in a field. -/
def TriggerField.Admits (field : TriggerField) : Value → Prop :=
  if field = .width then Value.IsCount else Value.IsTime

/-- An expression with the value of a parameter in place of a reference to it. -/
def Expr.resolvedIn (scope : Scope) : Expr → Expr
  | .paramRef name => ((Expr.paramRef name).valueIn scope).toExpr
  | x => x

/-- The expression that is quoted when a field is of the wrong kind.  A timing field that refers to
a parameter is quoted with the value, a width as it is written. -/
def TriggerField.blamed (field : TriggerField) (scope : Scope) (x : Expr) : Expr :=
  if field = .width then x else x.resolvedIn scope

/-- What can be wrong with a field, and the error that says so. -/
inductive FieldFault (e : Elaborator) (owner : Owner) (trigger : String) (field : TriggerField)
    (x : Expr) : ElaborationError → Prop where
  /-- The field refers to a parameter that the instance does not have. -/
  | missing {name : String} (hx : x = .paramRef name) (hname : name ∉ owner.parameters.keys) :
      FieldFault e owner trigger field x (.unresolvedParameter owner.path name (e.quote x))
  /-- The field stands for a value that is of no use there. -/
  | wrongKind (hrefs : ∀ name, x = .paramRef name → name ∈ owner.parameters.keys)
      (hkind : ¬ field.Admits (x.valueIn owner.parameters)) :
      FieldFault e owner trigger field x
        (.typeMismatch owner.path trigger field (e.quote (field.blamed owner.parameters x)))

/-- The trigger of a definition with this name has an expression in this field. -/
inductive ReactorDecl.HasField (r : ReactorDecl) : String → TriggerField → Expr → Prop where
  | width {d : PortDecl} {x : Expr} (hd : d ∈ r.inputs ++ r.outputs) (hx : d.width = some x) :
      r.HasField d.name .width x
  | offset {d : TimerDecl} {x : Expr} (hd : d ∈ r.timers) (hx : d.offset = some x) :
      r.HasField d.name .offset x
  | period {d : TimerDecl} {x : Expr} (hd : d ∈ r.timers) (hx : d.period = some x) :
      r.HasField d.name .period x
  | minDelay {d : ActionDecl} {x : Expr} (hd : d ∈ r.actions) (hx : d.minDelay = some x) :
      r.HasField d.name .minDelay x
  | minSpacing {d : ActionDecl} {x : Expr} (hd : d ∈ r.actions) (hx : d.minSpacing = some x) :
      r.HasField d.name .minSpacing x

namespace Elaborator

variable {e : Elaborator} {owner : Owner} {trigger : String} {field : TriggerField}
  {cause : ElaborationError}

theorem reference_eq_error {name : String} (h : e.reference owner name = .error cause) :
    name ∉ owner.parameters.keys ∧
      cause = .unresolvedParameter owner.path name (e.quote (.paramRef name)) := by
  unfold reference at h
  split at h
  · cases h
  · next hnone =>
    cases h
    exact ⟨OrderedMap.get?_eq_none_iff.1 hnone, rfl⟩

/-- A timing field fails because something is wrong with it. -/
theorem timeOf_eq_error (hfield : field ≠ .width) {x : Expr}
    (h : e.timeOf owner trigger field x = .error cause) :
    FieldFault e owner trigger field x cause := by
  -- a field of the wrong kind is quoted with its value
  have hwrong : (∀ name, x = .paramRef name → name ∈ owner.parameters.keys) →
      ¬ (x.valueIn owner.parameters).IsTime →
      FieldFault e owner trigger field x
        (e.notATime owner trigger field (x.resolvedIn owner.parameters)) := by
    intro hrefs hkind
    have hfault : FieldFault e owner trigger field x _ :=
      .wrongKind hrefs (by rwa [TriggerField.Admits, if_neg hfield])
    rwa [TriggerField.blamed, if_neg hfield] at hfault
  cases x with
  | paramRef name =>
    rw [timeOf] at h
    rcases bind_eq_error.1 h with hmissing | ⟨v, hv, hkind⟩
    · obtain ⟨hname, rfl⟩ := reference_eq_error hmissing
      exact .missing rfl hname
    · obtain ⟨hname, rfl⟩ := reference_eq_ok.1 hv
      split at hkind
      · cases hkind
      · next hnone =>
        cases hkind
        refine hwrong (fun _ heq => by cases heq; exact hname) ?_
        simp [Value.isTime_iff, hnone]
  | time t => cases h
  | int n =>
    rw [timeOf] at h
    split at h
    · cases h
    · next hn =>
      cases h
      exact hwrong (by simp) (by simpa [Expr.valueIn, Value.IsTime] using hn)
  | _ =>
    cases h
    exact hwrong (by simp) (by simp [Expr.valueIn, Value.IsTime])

theorem timeField_eq_error (hfield : field ≠ .width) {default : TimeValue} {x? : Option Expr}
    (h : e.timeField owner trigger field default x? = .error cause) :
    ∃ x, x? = some x ∧ FieldFault e owner trigger field x cause := by
  cases x? with
  | none => cases h
  | some x => exact ⟨x, rfl, timeOf_eq_error hfield h⟩

/-- A width fails because something is wrong with it. -/
theorem widthOf_eq_error {x : Expr} (h : e.widthOf owner trigger x = .error cause) :
    FieldFault e owner trigger .width x cause := by
  have hwrong : (∀ name, x = .paramRef name → name ∈ owner.parameters.keys) →
      ¬ (x.valueIn owner.parameters).IsCount →
      FieldFault e owner trigger .width x
        (.typeMismatch owner.path trigger .width (e.quote x)) := by
    intro hrefs hkind
    exact .wrongKind hrefs hkind
  rw [widthOf] at h
  rcases bind_eq_error.1 h with hinteger | ⟨n, hn, hkind⟩
  · cases x with
    | paramRef name =>
      rw [integerOf, map_eq_error] at hinteger
      obtain ⟨hname, rfl⟩ := reference_eq_error hinteger
      exact .missing rfl hname
    | _ => cases hinteger
  · obtain ⟨hrefs, rfl⟩ := integerOf_eq_ok.1 hn
    split at hkind
    · cases hkind
    · next hnone =>
      cases hkind
      exact hwrong hrefs (by simp [isCount_iff, hnone])

theorem optionalField_eq_error {α : Type} {resolve : Expr → Except ElaborationError α}
    {x? : Option Expr} (h : optionalField resolve x? = .error cause) :
    ∃ x, x? = some x ∧ resolve x = .error cause := by
  cases x? with
  | none => cases h
  | some x => exact ⟨x, rfl, map_eq_error.1 h⟩

end Elaborator

/-! ### Triggers -/

/-- What can be wrong with the triggers of an instance, and the error that says so. -/
inductive TriggerFault (e : Elaborator) (owner : Owner) (r : ReactorDecl) :
    ElaborationError → Prop where
  | field {trigger : String} {field : TriggerField} {x : Expr} {cause : ElaborationError}
      (hfield : r.HasField trigger field x) (hfault : FieldFault e owner trigger field x cause) :
      TriggerFault e owner r cause
  /-- Two triggers have one name, the startup timer being one of them. -/
  | repeated {name : String}
      (hname : List.Duplicate name (e.config.startupName :: r.triggerNames)) :
      TriggerFault e owner r (.duplicateName owner.path name)

namespace Elaborator

variable {e : Elaborator} {owner : Owner} {r : ReactorDecl} {cause : ElaborationError}

theorem timer_eq_error {d : TimerDecl} (hd : d ∈ r.timers)
    (h : e.timer owner d = .error cause) : TriggerFault e owner r cause := by
  rw [timer] at h
  rcases bind_eq_error.1 h with hoffset | ⟨_, -, h⟩
  · obtain ⟨x, hx, hfault⟩ := timeField_eq_error (by simp) hoffset
    exact .field (.offset hd hx) hfault
  rcases bind_eq_error.1 h with hperiod | ⟨_, -, h⟩
  · obtain ⟨x, hx, hfault⟩ := timeField_eq_error (by simp) hperiod
    exact .field (.period hd hx) hfault
  cases h

theorem action_eq_error {d : ActionDecl} (hd : d ∈ r.actions)
    (h : e.action owner d = .error cause) : TriggerFault e owner r cause := by
  rw [action] at h
  rcases bind_eq_error.1 h with hdelay | ⟨_, -, h⟩
  · obtain ⟨x, hx, hfault⟩ := timeField_eq_error (by simp) hdelay
    exact .field (.minDelay hd hx) hfault
  rcases bind_eq_error.1 h with hspacing | ⟨_, -, h⟩
  · obtain ⟨x, hx, herror⟩ := optionalField_eq_error hspacing
    exact .field (.minSpacing hd hx) (timeOf_eq_error (by simp) herror)
  cases h

theorem port_eq_error {direction : PortDirection} {d : PortDecl} (hd : d ∈ r.inputs ++ r.outputs)
    (h : e.port owner direction d = .error cause) : TriggerFault e owner r cause := by
  rw [port] at h
  rcases bind_eq_error.1 h with hwidth | ⟨_, -, h⟩
  · obtain ⟨x, hx, herror⟩ := optionalField_eq_error hwidth
    exact .field (.width hd hx) (widthOf_eq_error herror)
  cases h

/-- A declared trigger cannot be made because something is wrong with one of its fields. -/
theorem declaredTriggers_eq_error (h : e.declaredTriggers owner r = .error cause) :
    TriggerFault e owner r cause := by
  rw [declaredTriggers] at h
  rcases bind_eq_error.1 h with hinputs | ⟨_, -, h⟩
  · obtain ⟨d, hd, herror⟩ := exists_of_mapM_eq_error hinputs
    exact port_eq_error (List.mem_append_left _ hd) herror
  rcases bind_eq_error.1 h with houtputs | ⟨_, -, h⟩
  · obtain ⟨d, hd, herror⟩ := exists_of_mapM_eq_error houtputs
    exact port_eq_error (List.mem_append_right _ hd) herror
  rcases bind_eq_error.1 h with htimers | ⟨_, -, h⟩
  · obtain ⟨d, hd, herror⟩ := exists_of_mapM_eq_error htimers
    exact timer_eq_error hd herror
  rcases bind_eq_error.1 h with hactions | ⟨_, -, h⟩
  · obtain ⟨d, hd, herror⟩ := exists_of_mapM_eq_error hactions
    exact action_eq_error hd herror
  cases h

/-- The triggers of an instance cannot be made because something is wrong with them. -/
theorem triggers_eq_error (h : e.triggers owner r = .error cause) :
    TriggerFault e owner r cause := by
  rw [triggers] at h
  rcases bind_eq_error.1 h with hdeclared | ⟨declared, hdeclared, hnames⟩
  · exact declaredTriggers_eq_error hdeclared
  · dsimp only at hnames
    split at hnames
    · next name hname =>
      cases hnames
      rw [firstRepeated?_eq] at hname
      have hduplicate := duplicate_of_firstRepeatedName? hname
      rw [List.map_cons, names_of_declaredTriggers hdeclared] at hduplicate
      exact .repeated hduplicate
    · cases hnames

end Elaborator
end Reactors

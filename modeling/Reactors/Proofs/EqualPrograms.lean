import Reactors.Proofs.AgreeingRuns
import Reactors.Proofs.TriggerFields

/-!
# Elaboration of equal programs

Two programs are equal if they mean the same: times may be written in other units, overrides in
another order, and zero with another sign.  Elaboration does not see the difference.  Every
branch that it takes depends on names, on whether an override or a parameter is there, on whether
a value is a time, a zero or a count, and on the first item of an array, and all of these are
the same in equal programs.  So every step of the two runs agrees: they go on with results that
are equal, or stop with errors of one kind.

Errors may differ in their details.  Of two undeclared overrides the first is reported, and a
time is quoted as it is written.

## Main definitions

* `SameOutcome` — results that are related, or errors of one kind.
* `Trigger.Alike` — equality of triggers by meaning.
* `Component.Alike` — components whose instances are equal wherever they are laid out.
* `sameRuns` — the parts of two runs are equal, or errors of one kind.

## Main results

* `resolveParameters_agree`, `Elaborator.triggers_agree` — the steps at one instance.
* `sameRuns_respected` — the steps respect equality, and so does the unrolling.
* `elaborate_respects_same` — the elaboration of equal programs.
-/

namespace Reactors

/-- Two outcomes of elaboration agree: they are results that are related, or errors of one
kind. -/
abbrev SameOutcome {α β : Type} (R : α → β → Prop) :
    Except ElaborationError α → Except ElaborationError β → Prop :=
  Agree (fun x y => x.kind = y.kind) R

/-! ### Parameters -/

section

variable {quote : ExprPrinter} {path : String} {overrides overrides' : OrderedMap Expr}
  {scope scope' : Scope}

/-- Of two equal declarations with equal overrides equal expressions are chosen, from the same
place. -/
theorem chosen_same (hover : overrides.Matches (Expr.same · · = true) overrides')
    {p q : ParameterDecl} (h : p.same q = true) :
    (chosen overrides p).1.same (chosen overrides' q).1 = true ∧
      (chosen overrides p).2 = (chosen overrides' q).2 := by
  obtain ⟨hname, -, hdefault⟩ := ParameterDecl.same_iff.1 h
  have hget := hover p.name
  rw [chosen, chosen, ← hname]
  generalize overrides.get? p.name = x?, overrides'.get? p.name = y? at hget ⊢
  cases hget with
  | none => exact ⟨hdefault, rfl⟩
  | some hxy => exact ⟨hxy, rfl⟩

theorem resolveParameter_agree (hover : overrides.Matches (Expr.same · · = true) overrides')
    (hscope : Scope.Equal scope scope') {p q : ParameterDecl} (h : p.same q = true) :
    SameOutcome (Parameter.same · · = true)
      (resolveParameter quote path overrides scope p)
      (resolveParameter quote path overrides' scope' q) := by
  obtain ⟨hexpr, hprovenance⟩ := chosen_same hover h
  have hvalue := Expr.evaluate_agree hscope _ _ hexpr
  have hname : p.name = q.name := (ParameterDecl.same_iff.1 h).1
  rw [resolveParameter, resolveParameter]
  dsimp only
  generalize (chosen overrides p).1.evaluate scope = v,
    (chosen overrides' q).1.evaluate scope' = w at hvalue ⊢
  cases hvalue with
  | error _ => exact .error rfl
  | ok hvw => exact .ok (Parameter.same_iff.2 ⟨hname, hvw, hprovenance⟩)

theorem resolveDeclared_agree (hover : overrides.Matches (Expr.same · · = true) overrides')
    (hscope : Scope.Equal scope scope') {ps qs : List ParameterDecl}
    (h : List.Forall₂ (ParameterDecl.same · · = true) ps qs) {resolved resolved' : Scope}
    (hresolved : Scope.Equal resolved resolved') :
    SameOutcome Scope.Equal (resolveDeclared quote path overrides scope resolved ps)
      (resolveDeclared quote path overrides' scope' resolved' qs) := by
  induction h generalizing resolved resolved' with
  | nil => exact .ok hresolved
  | @cons p q ps qs hpq _ ih =>
    have hname : p.name = q.name := (ParameterDecl.same_iff.1 hpq).1
    have hvalue : SameOutcome _ (resolveParameter quote path overrides scope p) _ :=
      resolveParameter_agree hover hscope hpq
    rw [resolveDeclared, resolveDeclared, ← hname]
    generalize resolveParameter quote path overrides scope p = a,
      resolveParameter quote path overrides' scope' q = b at hvalue ⊢
    cases hvalue with
    | error hkind => exact .error hkind
    | ok hab => exact ih (hresolved.set p.name hab)

/-- The parameters of instances of equal definitions, with equal overrides in equal scopes. -/
theorem resolveParameters_agree {r r' : ReactorDecl}
    (hparameters : List.Forall₂ (ParameterDecl.same · · = true) r.parameters r'.parameters)
    (hover : overrides.Matches (Expr.same · · = true) overrides')
    (hscope : Scope.Equal scope scope') :
    SameOutcome Scope.Equal (resolveParameters quote path r overrides scope)
      (resolveParameters quote path r' overrides' scope') := by
  have hnames : r.parameters.map ParameterDecl.name = r'.parameters.map ParameterDecl.name :=
    map_eq_of_forall₂ hparameters fun _ _ h => (ParameterDecl.same_iff.1 h).1
  -- which undeclared override comes first depends on the order, but not whether there is one
  have hundeclared : undeclaredOverride? r overrides = none ↔
      undeclaredOverride? r' overrides' = none := by
    simp only [undeclaredOverride?_eq_none_iff, hover.mem_keys_iff, ← List.mem_map, hnames]
  rw [resolveParameters, resolveParameters]
  cases h : undeclaredOverride? r overrides with
  | none =>
    rw [hundeclared.1 h]
    exact resolveDeclared_agree hover hscope hparameters .empty
  | some entry =>
    cases h' : undeclaredOverride? r' overrides' with
    | none =>
      rw [hundeclared.2 h'] at h
      cases h
    | some entry' => exact .error rfl

end

/-! ### Triggers -/

/-- Equality of triggers by meaning. -/
def Trigger.Alike (t t' : Trigger) : Prop := t.name = t'.name ∧ t.kind.same t'.kind = true

namespace Elaborator

variable {e : Elaborator} {owner owner' : Owner} {trigger : String} {field : TriggerField}

theorem reference_agree (hscope : Scope.Equal owner.parameters owner'.parameters)
    (name : String) :
    SameOutcome (Value.same · · = true) (e.reference owner name) (e.reference owner' name) := by
  have hname := hscope name
  rw [reference, reference]
  generalize owner.parameters.get? name = p?, owner'.parameters.get? name = q? at hname ⊢
  cases hname with
  | none => exact .error rfl
  | some hpq => exact .ok (Value.initial_same (Parameter.same_iff.1 hpq).2.1)

theorem timeOf_agree (hscope : Scope.Equal owner.parameters owner'.parameters) {x y : Expr}
    (h : x.same y = true) :
    SameOutcome (TimeValue.same · · = true) (e.timeOf owner trigger field x)
      (e.timeOf owner' trigger field y) := by
  cases Expr.Same.of_same h with
  | paramRef name =>
    refine (reference_agree hscope name).bind fun v w hvw => ?_
    have htime := Value.asTime?_rel hvw
    generalize v.asTime? = s?, w.asTime? = t? at htime ⊢
    cases htime with
    | none => exact .error rfl
    | some hst => exact .ok hst
  | int n =>
    rw [timeOf, timeOf]
    split
    · exact .ok (TimeValue.same_refl _)
    · exact .error rfl
  | time hst => exact .ok hst
  | _ => exact .error rfl

theorem integerOf_agree (hscope : Scope.Equal owner.parameters owner'.parameters) {x y : Expr}
    (h : x.same y = true) :
    SameOutcome (· = ·) (e.integerOf owner x) (e.integerOf owner' y) := by
  cases Expr.Same.of_same h with
  | paramRef name => exact (reference_agree hscope name).map fun _ _ => Value.asInt?_eq
  | _ => exact .ok rfl

theorem widthOf_agree (hscope : Scope.Equal owner.parameters owner'.parameters) {x y : Expr}
    (h : x.same y = true) (port : String) :
    SameOutcome (· = ·) (e.widthOf owner port x) (e.widthOf owner' port y) := by
  refine (integerOf_agree hscope h).bind fun n m hnm => ?_
  subst hnm
  cases n.bind channels? with
  | none => exact .error rfl
  | some width => exact .ok rfl

theorem timeField_agree (hscope : Scope.Equal owner.parameters owner'.parameters)
    {x? y? : Option Expr} (h : Option.Rel (Expr.same · · = true) x? y?) (default : TimeValue) :
    SameOutcome (TimeValue.same · · = true) (e.timeField owner trigger field default x?)
      (e.timeField owner' trigger field default y?) := by
  cases h with
  | none => exact .ok (TimeValue.same_refl default)
  | some hxy => exact timeOf_agree hscope hxy

theorem optionalField_agree {α : Type} {R : α → α → Prop}
    {resolve resolve' : Expr → Except ElaborationError α}
    (hstep : ∀ x y, Expr.same x y = true → SameOutcome R (resolve x) (resolve' y))
    {x? y? : Option Expr} (h : Option.Rel (Expr.same · · = true) x? y?) :
    SameOutcome (Option.Rel R) (optionalField resolve x?) (optionalField resolve' y?) := by
  cases h with
  | none => exact .ok .none
  | some hxy => exact (hstep _ _ hxy).map fun _ _ => .some

theorem timer_agree (hscope : Scope.Equal owner.parameters owner'.parameters)
    {d d' : TimerDecl} (h : d.same d' = true) :
    SameOutcome Trigger.Alike (e.timer owner d) (e.timer owner' d') := by
  obtain ⟨hname, hoffset, hperiod⟩ := TimerDecl.same_iff.1 h
  rw [timer, timer, ← hname]
  refine (timeField_agree hscope hoffset _).bind fun s s' hs => ?_
  refine (timeField_agree hscope hperiod _).bind fun t t' ht => ?_
  exact .ok ⟨rfl, by simp [TriggerKind.same, Timer.same, hs, ht]⟩

theorem action_agree (hscope : Scope.Equal owner.parameters owner'.parameters)
    {d d' : ActionDecl} (h : d.same d' = true) :
    SameOutcome Trigger.Alike (e.action owner d) (e.action owner' d') := by
  obtain ⟨hname, horigin, hdelay, hspacing, -⟩ := ActionDecl.same_iff.1 h
  rw [action, action, ← hname, ← horigin]
  refine (timeField_agree hscope hdelay _).bind fun s s' hs => ?_
  refine (optionalField_agree (fun _ _ => timeOf_agree hscope) hspacing).bind fun t? t?' ht => ?_
  exact .ok ⟨rfl, by simp [TriggerKind.same, Action.same, sameOption_iff, hs, ht]⟩

theorem port_agree (hscope : Scope.Equal owner.parameters owner'.parameters)
    (direction : PortDirection) {d d' : PortDecl} (h : d.same d' = true) :
    SameOutcome Trigger.Alike (e.port owner direction d) (e.port owner' direction d') := by
  obtain ⟨hname, -, hwidth⟩ := PortDecl.same_iff.1 h
  rw [port, port, ← hname]
  refine (optionalField_agree (fun _ _ h => widthOf_agree hscope h _) hwidth).bind
    fun w? w?' hw => ?_
  have hw : w? = w?' := by
    cases hw with
    | none => rfl
    | some hw => rw [hw]
  exact .ok ⟨rfl, by simp [TriggerKind.same, hw]⟩

/-- The triggers of instances of equal definitions with equal parameters. -/
theorem triggers_agree (hscope : Scope.Equal owner.parameters owner'.parameters)
    {r r' : ReactorDecl} (h : r.same r' = true) :
    SameOutcome (List.Forall₂ Trigger.Alike) (e.triggers owner r) (e.triggers owner' r') := by
  obtain ⟨-, -, hinputs, houtputs, htimers, hactions, -⟩ := ReactorDecl.same_iff.1 h
  have hdeclared : SameOutcome (List.Forall₂ Trigger.Alike) (e.declaredTriggers owner r)
      (e.declaredTriggers owner' r') := by
    refine (Agree.mapM hinputs fun _ _ => port_agree hscope _).bind fun is is' hi => ?_
    refine (Agree.mapM houtputs fun _ _ => port_agree hscope _).bind fun os os' ho => ?_
    refine (Agree.mapM htimers fun _ _ => timer_agree hscope).bind fun ts ts' ht => ?_
    refine (Agree.mapM hactions fun _ _ => action_agree hscope).bind fun as as' ha => ?_
    exact .ok (List.rel_append (List.rel_append (List.rel_append hi ho) ht) ha)
  refine hdeclared.bind fun ts ts' hts => ?_
  have hstartup : Trigger.Alike e.startup e.startup :=
    ⟨rfl, by simp [startup, TriggerKind.same, Timer.same, TimeValue.same_refl]⟩
  have hall : List.Forall₂ Trigger.Alike (e.startup :: ts) (e.startup :: ts') :=
    .cons hstartup hts
  dsimp only
  rw [firstRepeated?_eq_of_names (map_eq_of_forall₂ hall fun _ _ h => h.1)]
  cases firstRepeated? [] (e.startup :: ts') with
  | none => exact .ok hall
  | some name => exact .error rfl

end Elaborator

/-! ### Components -/

/-- Two components have the same name and are of one size, and wherever they are laid out their
instances are equal. -/
structure Component.Alike (c c' : Component) : Prop where
  name : c.name = c'.name
  size : c.size = c'.size
  layout : ∀ id parent depth path, List.Forall₂ (Instance.same · · = true)
    (c.layout id parent depth path) (c'.layout id parent depth path)

namespace Component

theorem alike_iff {c c' : Component} :
    c.Alike c' ↔ c.Related (Instance.same · · = true) c' :=
  ⟨fun h => ⟨h.name, h.size, h.layout⟩, fun h => ⟨h.name, h.size, h.layout⟩⟩

/-- Components made of equal parts are alike. -/
theorem alike_mk (name reactor : String) {parameters parameters' : Scope}
    (hscope : Scope.Equal parameters parameters') {triggers triggers' : List Trigger}
    (htriggers : List.Forall₂ Trigger.Alike triggers triggers') {cs cs' : List Component}
    (h : List.Forall₂ Alike cs cs') :
    Alike (mk name reactor parameters triggers cs)
      (mk name reactor parameters' triggers' cs') := by
  have hcs : List.Forall₂ (Related (Instance.same · · = true)) cs cs' :=
    h.imp fun _ _ => alike_iff.1
  refine alike_iff.2 (related_mk (fun id parent depth path children => ?_) hcs)
  have howned : List.Forall₂ (TriggerInstance.same · · = true)
      (triggers.map (·.ownedBy id)) (triggers'.map (·.ownedBy id)) := by
    rw [List.forall₂_map_left_iff, List.forall₂_map_right_iff]
    refine htriggers.imp fun t t' ht => ?_
    simp [TriggerInstance.same, Trigger.ownedBy, ht.1, ht.2]
  simp [Instance.same, OrderedMap.same_iff.2 hscope, sameList_iff.2 howned]

end Component

/-! ### Definitions -/

namespace Definitions

variable {t t' : Definitions}

/-- In tables of equal definitions a name stands for none in both, or for equal ones. -/
theorem get?_same (h : List.Forall₂ (ReactorDecl.same · · = true) t.reactors t'.reactors)
    (name : String) : Option.Rel (ReactorDecl.same · · = true) (t.get? name) (t'.get? name) := by
  rw [get?, get?]
  generalize t.reactors = rs, t'.reactors = rs' at h
  induction h with
  | nil => exact .none
  | @cons r r' rs rs' hr _ ih =>
    rw [List.find?_cons, List.find?_cons, ← (ReactorDecl.same_iff.1 hr).1]
    cases r.name == name with
    | true => exact .some hr
    | false => exact ih

end Definitions

/-! ### Unrolling -/

/-- The parts of two runs are equal, and their errors are of one kind. -/
def sameRuns : RunRelation where
  error cause cause' := cause.kind = cause'.kind
  definition d d' := d.same d' = true
  overrides overrides overrides' := overrides.Matches (Expr.same · · = true) overrides'
  scope := Scope.Equal
  triggers _ := List.Forall₂ Trigger.Alike
  component := Component.Alike

/-- The steps for equal definitions in tables of equal definitions agree. -/
theorem sameRuns_respected {t t' : Definitions}
    (htable : List.Forall₂ (ReactorDecl.same · · = true) t.reactors t'.reactors)
    (e : Elaborator) : sameRuns.Respected e e t t' where
  limit := rfl
  error _ := rfl
  name _ _ h := (ReactorDecl.same_iff.1 h).1
  sites d d' h := by
    obtain ⟨-, -, -, -, -, -, hsites⟩ := ReactorDecl.same_iff.1 h
    refine hsites.imp fun s s' hs => ?_
    obtain ⟨hname, hreactor, hover⟩ := Site.same_iff.1 hs
    exact ⟨hname, hreactor, hreactor ▸ Definitions.get?_same htable s.reactor, hover⟩
  parameters d d' _ _ _ _ _ h hover hscope :=
    resolveParameters_agree (ReactorDecl.same_iff.1 h).2.1 hover hscope
  triggers _ _ _ _ _ h hscope := by
    refine Elaborator.triggers_agree ?_ h
    exact hscope
  component d _ name _ _ _ _ _ _ _ hscope hts hcs := Component.alike_mk name d.name hscope hts hcs

/-! ### Programs -/

/-- The trees of components that are alike are equal. -/
theorem Component.Alike.toTree_same {c c' : Component} (h : c.Alike c') :
    c.toTree.same c'.toTree = true := by
  have hlayout := h.layout 0 none 0 c.name
  rw [InstanceTree.same, sameList_iff]
  show List.Forall₂ _ (c.layout 0 none 0 c.name) (c'.layout 0 none 0 c'.name)
  rwa [← h.name]

/-- The main reactors of one name in tables of equal definitions are elaborated alike. -/
theorem Elaborator.elaborate_agree {e : Elaborator} {t t' : Definitions}
    (htable : List.Forall₂ (ReactorDecl.same · · = true) t.reactors t'.reactors) (main : String) :
    SameOutcome (InstanceTree.same · · = true) (e.elaborate t main) (e.elaborate t' main) := by
  have hrun := (sameRuns_respected htable e).elaborate (Definitions.get?_same htable main)
    .empty .empty
  refine hrun.imp fun tree tree' h => ?_
  obtain ⟨c, c', hc, rfl, rfl⟩ := h
  exact hc.toTree_same

/-- Equal programs both have a table, of equal definitions, or both have none. -/
theorem Program.definitions_agree {p q : Program} (h : p.same q = true) :
    (∃ cause cause', p.definitions = .error cause ∧ q.definitions = .error cause') ∨
      ∃ t t', p.definitions = .ok t ∧ q.definitions = .ok t' ∧
        List.Forall₂ (ReactorDecl.same · · = true) t.reactors t'.reactors := by
  obtain ⟨-, hreactors⟩ := Program.same_iff.1 h
  have hnames : p.reactors.map ReactorDecl.name = q.reactors.map ReactorDecl.name :=
    map_eq_of_forall₂ hreactors fun _ _ h => (ReactorDecl.same_iff.1 h).1
  cases ht : p.definitions with
  | error cause =>
    cases ht' : q.definitions with
    | error cause' => exact Or.inl ⟨cause, cause', rfl, rfl⟩
    | ok t' =>
      -- distinct names in `q` are distinct names in `p`
      have hdistinct : (p.reactors.map ReactorDecl.name).Nodup := by
        rw [hnames, ← definitions_eq_ok.1 ht']
        exact t'.distinct
      have hok : p.definitions = .ok ⟨p.reactors, hdistinct⟩ := definitions_eq_ok.2 rfl
      rw [ht] at hok
      cases hok
  | ok t =>
    have hdistinct : (q.reactors.map ReactorDecl.name).Nodup := by
      rw [← hnames, ← definitions_eq_ok.1 ht]
      exact t.distinct
    refine Or.inr ⟨t, ⟨q.reactors, hdistinct⟩, rfl, definitions_eq_ok.2 rfl, ?_⟩
    rw [definitions_eq_ok.1 ht]
    exact hreactors

/-- **Elaboration respects equality.**  Of two equal programs either both have trees, and these are
equal, or neither has one, and the errors are of one kind; and this under every
configuration. -/
theorem elaborate_respects_same {p q : Program} (h : p.same q = true) (config : Config) :
    (∃ tree tree', elaborate p config = .ok tree ∧ elaborate q config = .ok tree' ∧
        tree.same tree' = true) ∨
      ∃ cause cause', elaborate p config = .error cause ∧ elaborate q config = .error cause' ∧
        cause.kind = cause'.kind := by
  have hmain : p.main = q.main := (Program.same_iff.1 h).1
  rw [elaborate, elaborate, ← hmain]
  rcases Program.definitions_agree h with ⟨cause, cause', ht, ht'⟩ | ⟨t, t', ht, ht', htable⟩
  · rw [ht, ht']
    exact Or.inr ⟨_, _, rfl, rfl, rfl⟩
  · rw [ht, ht']
    -- equal tables find equal definitions, so that the runs agree in every step
    have hagree : SameOutcome (InstanceTree.same · · = true)
        (Elaborator.elaborate ⟨config, Expr.text⟩ t p.main)
        (Elaborator.elaborate ⟨config, Expr.text⟩ t' p.main) :=
      Elaborator.elaborate_agree htable p.main
    dsimp only
    generalize Elaborator.elaborate ⟨config, Expr.text⟩ t p.main = a,
      Elaborator.elaborate ⟨config, Expr.text⟩ t' p.main = b at hagree ⊢
    cases hagree with
    | ok hsame => exact Or.inl ⟨_, _, rfl, rfl, hsame⟩
    | error hkind => exact Or.inr ⟨_, _, rfl, rfl, hkind⟩

/-- A main reactor with one sensor, whose site has the given overrides. -/
def sensorWith (overrides : List (String × Expr)) : Program where
  main := "Main"
  reactors :=
    [(ReactorDecl.named "Main").withInstance "a" "Sensor" overrides,
      (((ReactorDecl.named "Sensor").withParameter "every" (.time .zero)).withParameter "drift"
        (.int 0)).withTimer "tick" none (some (.paramRef "every"))]

/-- A second may be written as a thousand milliseconds, and zero with a sign, in any order.  Of two
overrides without declaration either one is reported, by one kind of error. -/
theorem sensors_respect_same :
    (∃ tree tree',
      elaborate (sensorWith [("every", .time ⟨1, .sec⟩), ("drift", .float (.zero false))]) {} =
        .ok tree ∧
      elaborate (sensorWith [("drift", .float (.zero true)), ("every", .time ⟨1000, .msec⟩)]) {} =
        .ok tree' ∧ tree.same tree' = true) ∧
    ∃ cause cause',
      elaborate (sensorWith [("colour", .int 1), ("size", .int 2)]) {} = .error cause ∧
      elaborate (sensorWith [("size", .int 2), ("colour", .int 1)]) {} = .error cause' ∧
        cause.kind = cause'.kind := by
  constructor
  · have hsame : (sensorWith [("every", .time ⟨1, .sec⟩), ("drift", .float (.zero false))]).same
        (sensorWith [("drift", .float (.zero true)), ("every", .time ⟨1000, .msec⟩)]) = true := by
      decide +kernel
    obtain ⟨tree, h⟩ : ∃ tree, elaborate
        (sensorWith [("every", .time ⟨1, .sec⟩), ("drift", .float (.zero false))]) {} = .ok tree :=
      exists_elaborate_of_within (by decide +kernel)
    refine (elaborate_respects_same hsame {}).resolve_right ?_
    rintro ⟨cause, _, herror, -⟩
    rw [h] at herror
    cases herror
  · have hsame : (sensorWith [("colour", .int 1), ("size", .int 2)]).same
        (sensorWith [("size", .int 2), ("colour", .int 1)]) = true := by decide +kernel
    have hfails : (elaborateWithin 2 (sensorWith [("colour", .int 1), ("size", .int 2)])
        {}).toBool = false := by decide +kernel
    refine (elaborate_respects_same hsame {}).resolve_left ?_
    rintro ⟨tree, _, htree, -⟩
    rw [elaborate_eq_within] at htree
    have hruns : elaborateWithin 2 (sensorWith [("colour", .int 1), ("size", .int 2)]) {} =
        .ok tree := htree
    rw [hruns] at hfails
    cases hfails

end Reactors

import Reactors.Proofs.ConfigurationFrame
import Reactors.Proofs.FieldReferences

/-!
# The triggers of an instance

The triggers of an instance are the startup timer, the inputs, the outputs, the timers and the
actions, in the order of their declarations.  They are named like their declarations and belong to
the instance.  A timing field that is left out has a default; one that is filled in holds a time,
the integer zero, or a reference to a parameter of the instance, whose first value counts.  If two
triggers have one name, then the error names the first one whose name came before.

## Main definitions

* `Expr.GivesTime`, `Expr.GivesWidth`, `FieldTime` — the times and widths that fields have.
* `TimerDecl.Makes`, `ActionDecl.Makes`, `PortDecl.Makes` — the triggers that declarations
  make.
* `Instance.Lists` — the triggers of an instance, in order.
* `Elaborator.MakesEach` — each trigger can be made by itself.

## Main results

* `Elaborator.timeOf_eq_ok_iff_gives`, `Elaborator.widthOf_eq_ok_iff_gives` — single fields.
* `Elaborator.lists_iff` — what an instance lists is what its declarations make.
* `Elaborator.exists_of_firstRepeated?_eq_some` — the name that is found to be repeated.
* `own_triggers_listed` — the triggers of an instance.
-/

namespace Reactors

/-! ### Fields -/

/-- The first value of a parameter in a scope: its first element if it is an array, and its value
otherwise. -/
def Scope.FirstValue (scope : Scope) (name : String) (v : Value) : Prop :=
  ∃ q, scope.get? name = some q ∧ q.value.first? = some v

/-- The time that an expression gives to a field. -/
inductive Expr.GivesTime (scope : Scope) : Expr → TimeValue → Prop where
  | literal (t : TimeValue) : GivesTime scope (.time t) t
  | zero : GivesTime scope (.int 0) .zero
  | reference {name : String} {v : Value} {t : TimeValue} (hv : Scope.FirstValue scope name v)
      (ht : v.asTime? = some t) : GivesTime scope (.paramRef name) t

/-- The width that an expression gives to a port. -/
inductive Expr.GivesWidth (scope : Scope) : Expr → UInt64 → Prop where
  | literal {n : Int64} {width : UInt64} (hwidth : (width.toNat : Int) = n.toInt) :
      GivesWidth scope (.int n) width
  | reference {name : String} {n : Int64} {width : UInt64}
      (hv : Scope.FirstValue scope name (.int n)) (hwidth : (width.toNat : Int) = n.toInt) :
      GivesWidth scope (.paramRef name) width

/-- The time of a field with a default. -/
inductive FieldTime (scope : Scope) (default : TimeValue) : Option Expr → TimeValue → Prop where
  | omitted : FieldTime scope default none default
  | given {x : Expr} {t : TimeValue} (ht : x.GivesTime scope t) : FieldTime scope default (some x) t

/-- What a reference yields is of some kind exactly if the first value behind it is of this kind,
unless the kind has arrays in it. -/
theorem Value.view_initial_eq_some {α : Type} (view : Value → Option α)
    (harray : ∀ items, view (.array items) = none) {v : Value} {a : α} :
    view v.initial = some a ↔ ∃ w, v.first? = some w ∧ view w = some a := by
  rw [initial]
  cases hfirst : v.first? with
  | some w => simp
  | none =>
    -- only an array has no first value
    cases v with
    | array items => simp [harray]
    | _ => cases hfirst

/-- A view of what a reference stands for. -/
theorem Expr.view_paramRef_eq_some {α : Type} (view : Value → Option α)
    (harray : ∀ items, view (.array items) = none) {scope : Scope} {name : String} {a : α} :
    (∀ other ∈ (Expr.paramRef name).refs, other ∈ scope.keys) ∧
        view ((Expr.paramRef name).valueIn scope) = some a ↔
      ∃ v, scope.FirstValue name v ∧ view v = some a := by
  rw [refs, List.forall_mem_singleton, OrderedMap.mem_keys_iff, valueIn]
  cases hget : scope.get? name with
  | none => simp [Scope.FirstValue, hget]
  | some q => simp [Scope.FirstValue, hget, Value.view_initial_eq_some view harray]

namespace Elaborator

variable {e : Elaborator} {owner : Owner} {trigger : String} {field : TriggerField}

theorem timeOf_eq_ok_iff_gives {x : Expr} {t : TimeValue} :
    e.timeOf owner trigger field x = .ok t ↔ x.GivesTime owner.parameters t := by
  rw [timeOf_eq_ok]
  cases x with
  | paramRef name =>
    rw [Expr.view_paramRef_eq_some Value.asTime? fun _ => rfl]
    constructor
    · rintro ⟨v, hv, ht⟩
      exact .reference hv ht
    · rintro (_ | _ | ⟨hv, ht⟩)
      exact ⟨_, hv, ht⟩
  | time _ =>
    constructor
    · rintro ⟨-, ht⟩
      cases ht
      exact .literal _
    · rintro ⟨⟩
      exact ⟨List.forall_mem_nil _, rfl⟩
  | int n =>
    constructor
    · rintro ⟨-, ht⟩
      by_cases hn : n = 0
      · cases hn
        cases ht
        exact .zero
      · simp [Expr.valueIn, Value.asTime?, hn] at ht
    · rintro ⟨⟩
      exact ⟨List.forall_mem_nil _, rfl⟩
  | _ =>
    refine iff_of_false ?_ ?_
    · rintro ⟨-, ⟨⟩⟩
    · rintro ⟨⟩

theorem channels?_eq_some_iff {n : Int64} {width : UInt64} :
    channels? n = some width ↔ (width.toNat : Int) = n.toInt := by
  have hwidth : width.toNat < 2 ^ 64 := width.toNat_lt
  have hn : n.toInt < 2 ^ 63 := n.toInt_lt
  rw [channels?]
  split
  · next hcount =>
    rw [Option.some.injEq, ← UInt64.toNat_inj, UInt64.toNat_ofNat']
    omega
  · next hcount => exact iff_of_false (by simp) (by omega)

theorem widthOf_eq_ok_iff_gives {x : Expr} {width : UInt64} :
    e.widthOf owner trigger x = .ok width ↔ x.GivesWidth owner.parameters width := by
  rw [widthOf_eq_ok]
  cases x with
  | paramRef name =>
    rw [Expr.view_paramRef_eq_some (fun v => v.asInt?.bind channels?) fun _ => rfl]
    constructor
    · rintro ⟨v, hv, hwidth⟩
      obtain ⟨n, hn, hwidth⟩ := Option.bind_eq_some_iff.1 hwidth
      cases v with
      | int m =>
        cases hn
        exact .reference hv (channels?_eq_some_iff.1 hwidth)
      | _ => cases hn
    · rintro (_ | ⟨hv, hwidth⟩)
      exact ⟨_, hv, channels?_eq_some_iff.2 hwidth⟩
  | int n =>
    constructor
    · rintro ⟨-, hwidth⟩
      exact .literal (channels?_eq_some_iff.1 hwidth)
    · rintro ⟨hwidth⟩
      exact ⟨List.forall_mem_nil _, channels?_eq_some_iff.2 hwidth⟩
  | _ =>
    refine iff_of_false ?_ ?_
    · rintro ⟨-, ⟨⟩⟩
    · rintro ⟨⟩

theorem timeField_eq_ok_iff {default : TimeValue} {x? : Option Expr} {t : TimeValue} :
    e.timeField owner trigger field default x? = .ok t ↔
      FieldTime owner.parameters default x? t := by
  cases x? with
  | none =>
    constructor
    · rintro ⟨⟩
      exact .omitted
    · rintro ⟨⟩
      rfl
  | some x =>
    rw [timeField, timeOf_eq_ok_iff_gives]
    constructor
    · exact .given
    · rintro (_ | ht)
      exact ht

/-- A field without a default is resolved if it is filled in. -/
theorem optionalField_eq_ok_iff {α : Type} {resolve : Expr → Except ElaborationError α}
    {x? : Option Expr} {a? : Option α} :
    optionalField resolve x? = .ok a? ↔ Option.Rel (fun x a => resolve x = .ok a) x? a? := by
  cases x? with
  | none =>
    constructor
    · rintro ⟨⟩
      exact .none
    · rintro ⟨⟩
      rfl
  | some x =>
    rw [optionalField, map_eq_ok]
    constructor
    · rintro ⟨a, hx, rfl⟩
      exact .some hx
    · rintro (hx | _)
      exact ⟨_, hx, rfl⟩

end Elaborator

/-! ### Declarations -/

/-- The timer that a declaration makes: a field that is left out has the configured default. -/
inductive TimerDecl.Makes (c : Config) (scope : Scope) (d : TimerDecl) : Trigger → Prop where
  | mk {offset period : TimeValue} (hoffset : FieldTime scope c.defaultOffset d.offset offset)
      (hperiod : FieldTime scope c.defaultPeriod d.period period) :
      Makes c scope d ⟨d.name, .timer ⟨offset, period, false⟩⟩

/-- The action that a declaration makes: the delay is zero if it is left out, and there is a
spacing only if it is filled in. -/
inductive ActionDecl.Makes (scope : Scope) (d : ActionDecl) : Trigger → Prop where
  | mk {minDelay : TimeValue} {minSpacing : Option TimeValue}
      (hdelay : FieldTime scope .zero d.minDelay minDelay)
      (hspacing : Option.Rel (Expr.GivesTime scope) d.minSpacing minSpacing) :
      Makes scope d ⟨d.name, .action ⟨d.origin, minDelay, minSpacing⟩⟩

/-- The port that a declaration makes: there is a width only if it is filled in. -/
inductive PortDecl.Makes (scope : Scope) (direction : PortDirection) (d : PortDecl) :
    Trigger → Prop where
  | mk {width : Option UInt64} (hwidth : Option.Rel (Expr.GivesWidth scope) d.width width) :
      Makes scope direction d ⟨d.name, .port ⟨direction, width⟩⟩

/-- The triggers of an instance of a definition: the startup timer with the configured name and
defaults, the inputs, the outputs, the timers and the actions, all of the instance. -/
inductive Instance.Lists (c : Config) (i : Instance) (r : ReactorDecl) :
    List TriggerInstance → Prop where
  | mk {inputs outputs timers actions : List Trigger}
      (hinputs : List.Forall₂ (PortDecl.Makes i.parameters .input) r.inputs inputs)
      (houtputs : List.Forall₂ (PortDecl.Makes i.parameters .output) r.outputs outputs)
      (htimers : List.Forall₂ (TimerDecl.Makes c i.parameters) r.timers timers)
      (hactions : List.Forall₂ (ActionDecl.Makes i.parameters) r.actions actions) :
      Lists c i r <|
        (⟨c.startupName, .timer ⟨c.defaultOffset, c.defaultPeriod, true⟩⟩ ::
          (inputs ++ outputs ++ timers ++ actions)).map (·.ownedBy i.id)

/-- The instance with other triggers. -/
def Instance.withTriggers (i : Instance) (ts : List TriggerInstance) : Instance :=
  { i with triggers := ts }

namespace Elaborator

variable {e : Elaborator} {owner : Owner} {r : ReactorDecl}

/-- Every trigger that a definition declares can be made by itself. -/
structure MakesEach (e : Elaborator) (owner : Owner) (r : ReactorDecl) : Prop where
  inputs : ∀ d ∈ r.inputs, ∃ t, e.port owner .input d = .ok t
  outputs : ∀ d ∈ r.outputs, ∃ t, e.port owner .output d = .ok t
  timers : ∀ d ∈ r.timers, ∃ t, e.timer owner d = .ok t
  actions : ∀ d ∈ r.actions, ∃ t, e.action owner d = .ok t

theorem timer_eq_ok_iff {d : TimerDecl} {t : Trigger} :
    e.timer owner d = .ok t ↔ d.Makes e.config owner.parameters t := by
  rw [timer_eq_ok]
  simp only [timeField_eq_ok_iff]
  constructor
  · rintro ⟨offset, period, hoffset, hperiod, rfl⟩
    exact .mk hoffset hperiod
  · rintro ⟨hoffset, hperiod⟩
    exact ⟨_, _, hoffset, hperiod, rfl⟩

theorem action_eq_ok_iff {d : ActionDecl} {t : Trigger} :
    e.action owner d = .ok t ↔ d.Makes owner.parameters t := by
  rw [action_eq_ok]
  simp only [timeField_eq_ok_iff, optionalField_eq_ok_iff, timeOf_eq_ok_iff_gives]
  constructor
  · rintro ⟨minDelay, minSpacing, hdelay, hspacing, rfl⟩
    exact .mk hdelay hspacing
  · rintro ⟨hdelay, hspacing⟩
    exact ⟨_, _, hdelay, hspacing, rfl⟩

theorem port_eq_ok_iff {direction : PortDirection} {d : PortDecl} {t : Trigger} :
    e.port owner direction d = .ok t ↔ d.Makes owner.parameters direction t := by
  rw [port_eq_ok]
  simp only [optionalField_eq_ok_iff, widthOf_eq_ok_iff_gives]
  constructor
  · rintro ⟨width, hwidth, rfl⟩
    exact .mk hwidth
  · rintro ⟨hwidth⟩
    exact ⟨_, hwidth, rfl⟩

/-- A list of triggers is what an instance lists exactly if it is made of the startup timer and the
declared triggers. -/
theorem lists_iff {i : Instance} {ts : List TriggerInstance} :
    i.Lists e.config r ts ↔ ∃ declared, e.declaredTriggers i.owner r = .ok declared ∧
      ts = (e.startup :: declared).map (·.ownedBy i.id) := by
  simp only [declaredTriggers_eq_ok, mapM_eq_ok, port_eq_ok_iff, timer_eq_ok_iff,
    action_eq_ok_iff]
  constructor
  · rintro ⟨hinputs, houtputs, htimers, hactions⟩
    exact ⟨_, ⟨_, _, _, _, hinputs, houtputs, htimers, hactions, rfl⟩, rfl⟩
  · rintro ⟨_, ⟨_, _, _, _, hinputs, houtputs, htimers, hactions, rfl⟩, rfl⟩
    exact .mk hinputs houtputs htimers hactions

theorem MakesEach.exists_declaredTriggers (h : e.MakesEach owner r) :
    ∃ declared, e.declaredTriggers owner r = .ok declared := by
  obtain ⟨inputs, hinputs⟩ := exists_mapM_iff.2 h.inputs
  obtain ⟨outputs, houtputs⟩ := exists_mapM_iff.2 h.outputs
  obtain ⟨timers, htimers⟩ := exists_mapM_iff.2 h.timers
  obtain ⟨actions, hactions⟩ := exists_mapM_iff.2 h.actions
  exact ⟨_, declaredTriggers_eq_ok.2
    ⟨inputs, outputs, timers, actions, hinputs, houtputs, htimers, hactions, rfl⟩⟩

/-! ### Names -/

/-- A repeated name that is found came before, and no two names before it are equal. -/
theorem exists_of_firstRepeated?_eq_some {seen : List String} {ts : List Trigger} {name : String}
    (h : firstRepeated? seen ts = some name) :
    ∃ before t after, ts = before ++ t :: after ∧ t.name = name ∧
      (before.map Trigger.name).Nodup ∧ (∀ earlier ∈ before, earlier.name ∉ seen) ∧
      (name ∈ seen ∨ name ∈ before.map Trigger.name) := by
  rw [firstRepeated?_eq] at h
  obtain ⟨names, names', hnames, hdistinct, hfresh, hrepeated⟩ :=
    exists_of_firstRepeatedName?_eq_some h
  obtain ⟨before, rest, rfl, rfl, hrest⟩ := List.map_eq_append_iff.1 hnames
  obtain ⟨t, after, rfl, hname, -⟩ := List.map_eq_cons_iff.1 hrest
  refine ⟨before, t, after, rfl, hname, hdistinct, ?_, hrepeated⟩
  intro earlier hearlier
  exact hfresh earlier.name (List.mem_map_of_mem hearlier)

/-! ### Making all triggers -/

/-- The triggers of an instance whose declared triggers can be made: only names can go wrong. -/
theorem ownTriggers_of_declaredTriggers {i : Instance} {declared : List Trigger}
    (h : e.declaredTriggers i.owner r = .ok declared) :
    ownTriggers e (some i) r = (firstRepeated? [] (e.startup :: declared)).elim
      (.ok ((e.startup :: declared).map (·.ownedBy i.id)))
      fun name => .error (.duplicateName i.path name) := by
  rw [ownTriggers, triggers, h]
  cases hrepeated : firstRepeated? [] (e.startup :: declared) with
  | none => simp [bind, Except.bind, hrepeated, pure, Except.pure, Except.map]
  | some name => simp [bind, Except.bind, hrepeated, Except.map, Instance.owner]

/-- The triggers of an instance are what it lists, if no two of them have one name. -/
theorem ownTriggers_eq_ok_iff {i : Instance} {ts : List TriggerInstance} :
    ownTriggers e (some i) r = .ok ts ↔
      i.Lists e.config r ts ∧ (ts.map (·.name)).Nodup := by
  rw [lists_iff]
  constructor
  · intro h
    rw [ownTriggers, map_eq_ok] at h
    obtain ⟨all, hall, rfl⟩ := h
    obtain ⟨declared, hdeclared, hdistinct, rfl⟩ := triggers_eq_ok.1 hall
    refine ⟨⟨declared, hdeclared, rfl⟩, ?_⟩
    rw [← names_of_declaredTriggers hdeclared] at hdistinct
    rw [List.map_map]
    exact hdistinct
  · rintro ⟨⟨declared, hdeclared, rfl⟩, hdistinct⟩
    rw [List.map_map] at hdistinct
    have hnone : firstRepeated? [] (e.startup :: declared) = none :=
      firstRepeated?_eq_none_iff.2 ⟨hdistinct, fun _ _ => List.not_mem_nil⟩
    rw [ownTriggers_of_declaredTriggers hdeclared, hnone]
    rfl

/-- The one timer of an instance that is marked as the startup timer. -/
theorem startups_of_lists {i : Instance} {ts : List TriggerInstance}
    (h : i.Lists e.config r ts) :
    (i.withTriggers ts).timers.filter (·.2.startup) =
      [(e.startup.ownedBy i.id, ⟨e.config.defaultOffset, e.config.defaultPeriod, true⟩)] := by
  obtain ⟨declared, hdeclared, rfl⟩ := lists_iff.1 h
  have hothers : (i.withTriggers (declared.map (·.ownedBy i.id))).timers.filter
      (·.2.startup) = [] := by
    rw [List.filter_eq_nil_iff]
    rintro ⟨t, timer⟩ hmem
    obtain ⟨_, ht, htimer⟩ := List.mem_filterMap.1 hmem
    obtain ⟨t', ht', rfl⟩ := List.mem_map.1 ht
    obtain ⟨_, htimer', hpair⟩ := Option.map_eq_some_iff.1 htimer
    cases hpair
    rw [startup_of_declaredTriggers hdeclared t' ht' timer htimer']
    exact Bool.false_ne_true
  exact congrArg (List.cons _) hothers

end Elaborator

/-! ### Instances -/

/-- A trigger of an instance is found by its name if no two triggers have one name. -/
theorem Instance.trigger?_of_mem {i : Instance} (h : (i.triggers.map (·.name)).Nodup)
    {t : TriggerInstance} (ht : t ∈ i.triggers) : i.trigger? t.name = some t := by
  cases hfind : i.trigger? t.name with
  | none => exact absurd (beq_self_eq_true t.name) (List.find?_eq_none.1 hfind t ht)
  | some t' =>
    have hname := List.find?_some hfind
    have ht' : t' ∈ i.triggers := List.mem_of_find?_eq_some hfind
    rw [List.inj_on_of_nodup_map h ht' ht (beq_iff_eq.1 hname)]

/-- **The triggers of an instance.**  They are what the instance lists, if no two of them have one
name.  Then all of them belong to the instance, each is found by its name, and the startup timer
is the only one that is marked as such.  If each trigger can be made by itself but two have one
name, then the error names the first trigger whose name came before. -/
theorem own_triggers_listed (e : Elaborator) (i : Instance) (r : ReactorDecl) :
    (∀ ts, ownTriggers e (some i) r = .ok ts ↔
      i.Lists e.config r ts ∧ (ts.map (·.name)).Nodup) ∧
    (∀ ts, ownTriggers e (some i) r = .ok ts →
      (∀ t ∈ ts, t.parent = i.id ∧ (i.withTriggers ts).trigger? t.name = some t) ∧
      (i.withTriggers ts).timers.filter (·.2.startup) =
        [(e.startup.ownedBy i.id, ⟨e.config.defaultOffset, e.config.defaultPeriod, true⟩)]) ∧
    (e.MakesEach i.owner r → ∃ ts, i.Lists e.config r ts ∧ (¬ (ts.map (·.name)).Nodup →
      ∃ before t after, ts = before ++ t :: after ∧ (before.map (·.name)).Nodup ∧
        t.name ∈ before.map (·.name) ∧
        ownTriggers e (some i) r = .error (.duplicateName i.path t.name))) := by
  refine ⟨fun ts => Elaborator.ownTriggers_eq_ok_iff, fun ts h => ?_, fun heach => ?_⟩
  · obtain ⟨hlists, hdistinct⟩ := Elaborator.ownTriggers_eq_ok_iff.1 h
    refine ⟨fun t ht => ⟨?_, Instance.trigger?_of_mem hdistinct ht⟩,
      Elaborator.startups_of_lists hlists⟩
    obtain ⟨declared, -, rfl⟩ := Elaborator.lists_iff.1 hlists
    obtain ⟨t', -, rfl⟩ := List.mem_map.1 ht
    rfl
  · obtain ⟨declared, hdeclared⟩ := heach.exists_declaredTriggers
    refine ⟨_, Elaborator.lists_iff.2 ⟨declared, hdeclared, rfl⟩, fun hclash => ?_⟩
    rw [Elaborator.ownTriggers_of_declaredTriggers hdeclared]
    -- each trigger can be made, so that only the comparison of the names is left to fail
    cases hrepeated : Elaborator.firstRepeated? [] (e.startup :: declared) with
    | none =>
      have hdistinct := (Elaborator.firstRepeated?_eq_none_iff.1 hrepeated).1
      rw [List.map_map] at hclash
      exact absurd hdistinct hclash
    | some name =>
      obtain ⟨before, t, after, hsplit, rfl, hdistinct, -, hnew | hbefore⟩ :=
        Elaborator.exists_of_firstRepeated?_eq_some hrepeated
      · cases hnew
      · refine ⟨before.map (·.ownedBy i.id), t.ownedBy i.id, after.map (·.ownedBy i.id), ?_, ?_,
          ?_, rfl⟩
        · rw [hsplit, List.map_append, List.map_cons]
        · rw [List.map_map]
          exact hdistinct
        · rw [List.map_map]
          exact hbefore

/-- A reactor with one trigger of each kind, whose fields are left out or given in all ways. -/
def sampler : ReactorDecl where
  name := "Sampler"
  parameters := []
  inputs := [⟨"x", none, some (.int 2)⟩]
  outputs := [⟨"y", none, none⟩]
  timers := [⟨"t", some (.int 0), some (.paramRef "row")⟩]
  actions := [⟨"a", .physical, none, some (.time ⟨1, .sec⟩), none⟩]
  sites := []

/-- The triggers of the delay line as a sampler. -/
def samplerTriggers : List TriggerInstance :=
  [⟨⟨"startup", .timer ⟨.zero, .zero, true⟩⟩, 0⟩,
    ⟨⟨"x", .port ⟨.input, some 2⟩⟩, 0⟩,
    ⟨⟨"y", .port ⟨.output, none⟩⟩, 0⟩,
    ⟨⟨"t", .timer ⟨.zero, ⟨5, .msec⟩, false⟩⟩, 0⟩,
    ⟨⟨"a", .action ⟨.physical, .zero, some ⟨1, .sec⟩⟩⟩, 0⟩]

/-- The delay line has the triggers of a sampler.  With one more timer, which is named like the
input, each trigger can be made, but not all of them together. -/
theorem sampler_triggers_listed :
    ownTriggers plainElaborator (some delayLine) sampler = .ok samplerTriggers ∧
    delayLine.Lists {} sampler samplerTriggers ∧
    (∀ t ∈ samplerTriggers,
      t.parent = 0 ∧ (delayLine.withTriggers samplerTriggers).trigger? t.name = some t) ∧
    plainElaborator.MakesEach delayLine.owner (sampler.withTimer "x" none none) ∧
    (∃ before t after, delayLine.Lists {} (sampler.withTimer "x" none none)
        (before ++ t :: after) ∧ t.name ∈ before.map (·.name)) ∧
    ownTriggers plainElaborator (some delayLine) (sampler.withTimer "x" none none) =
      .error (.duplicateName "Main" "x") := by
  have hrun : ownTriggers plainElaborator (some delayLine) sampler = .ok samplerTriggers := rfl
  have hfails : ownTriggers plainElaborator (some delayLine) (sampler.withTimer "x" none none) =
      .error (.duplicateName "Main" "x") := rfl
  have heach : plainElaborator.MakesEach delayLine.owner (sampler.withTimer "x" none none) := by
    refine ⟨?_, ?_, ?_, ?_⟩
    · exact List.forall_mem_singleton.2 ⟨_, rfl⟩
    · exact List.forall_mem_singleton.2 ⟨_, rfl⟩
    · exact List.forall_mem_cons.2 ⟨⟨_, rfl⟩, List.forall_mem_singleton.2 ⟨_, rfl⟩⟩
    · exact List.forall_mem_singleton.2 ⟨_, rfl⟩
  obtain ⟨hlists, hfound, -⟩ := own_triggers_listed plainElaborator delayLine sampler
  obtain ⟨hlists', -, hclash⟩ :=
    own_triggers_listed plainElaborator delayLine (sampler.withTimer "x" none none)
  obtain ⟨ts, hts, herror⟩ := hclash heach
  have hrepeated : ¬ (ts.map (·.name)).Nodup := fun hdistinct => by
    have hok := (hlists' ts).2 ⟨hts, hdistinct⟩
    rw [hfails] at hok
    cases hok
  obtain ⟨before, t, after, rfl, -, hbefore, -⟩ := herror hrepeated
  exact ⟨hrun, ((hlists _).1 hrun).1, (hfound _ hrun).1, heach, ⟨before, t, after, hts, hbefore⟩,
    hfails⟩

end Reactors

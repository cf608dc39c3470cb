import Reactors.Proofs.Evaluation
import Reactors.Proofs.Expansion
import Reactors.Proofs.RepeatedNames

/-!
# What the fields of triggers stand for

A timing field or a width is resolved against the parameters of the instance that declares it.
It is accepted when its references have something to stand for and its value is of the
right kind: a time or the integer zero, and a non-negative integer.

## Main definitions

* `Value.IsTime`, `Value.IsCount` — the values that can stand in a timing field and in a width.
* `Expr.HoldsIn` — an expression stands for a value of some kind.
* `ReactorDecl.timingFields`, `ReactorDecl.widths`, `ReactorDecl.triggerNames` — what a
  definition says about its triggers.

## Main results

* `Elaborator.timeOf_eq_ok`, `Elaborator.widthOf_eq_ok` — the fields that are accepted.
* `Elaborator.exists_triggers_iff` — when the triggers of an instance can be made.
-/

namespace Reactors

/-! ### Values of the right kind -/

/-- The values that are durations. -/
def Value.IsTime : Value → Prop
  | .time _ => True
  | .int n => n = 0
  | _ => False

/-- The values that can count channels. -/
def Value.IsCount : Value → Prop
  | .int n => 0 ≤ n.toInt
  | _ => False

theorem Value.isTime_iff {v : Value} : v.IsTime ↔ ∃ t, v.asTime? = some t := by
  cases v with
  | int n => by_cases h : n = 0 <;> simp [IsTime, asTime?, h]
  | time t => simp [IsTime, asTime?]
  | _ => simp [IsTime, asTime?]

/-- The references of an expression have something to stand for in a scope, and its value there is
of a certain kind. -/
def Expr.HoldsIn (scope : Scope) (kind : Value → Prop) (e : Expr) : Prop :=
  (∀ name ∈ e.refs, name ∈ scope.keys) ∧ kind (e.valueIn scope)

/-! ### Lists of steps -/

/-- A list of fallible steps succeeds exactly when each of them does. -/
theorem mapM_eq_ok {ε α β : Type} {f : α → Except ε β} {as : List α} {bs : List β} :
    as.mapM f = .ok bs ↔ List.Forall₂ (fun a b => f a = .ok b) as bs := by
  induction as generalizing bs with
  | nil =>
    rw [List.mapM_nil, List.forall₂_nil_left_iff]
    simp [pure, Except.pure, eq_comm]
  | cons a as ih =>
    rw [List.mapM_cons, List.forall₂_cons_left_iff]
    simp only [bind_eq_ok, pure, Except.pure, Except.ok.injEq, ih]
    constructor
    · rintro ⟨b, hb, bs', hbs, rfl⟩
      exact ⟨b, bs', hb, hbs, rfl⟩
    · rintro ⟨b, bs', hb, hbs, rfl⟩
      exact ⟨b, hb, bs', hbs, rfl⟩

/-- Partners can be found for all items of a list when they can be found for each of them. -/
theorem exists_forall₂_iff {α β : Type} {R : α → β → Prop} {as : List α} :
    (∃ bs, List.Forall₂ R as bs) ↔ ∀ a ∈ as, ∃ b, R a b := by
  refine ⟨fun ⟨bs, h⟩ a ha => ?_, fun h => ?_⟩
  · obtain ⟨b, -, hab⟩ := exists_of_forall₂_left h ha
    exact ⟨b, hab⟩
  · induction as with
    | nil => exact ⟨[], .nil⟩
    | cons a as ih =>
      obtain ⟨b, hab⟩ := h a List.mem_cons_self
      obtain ⟨bs, hbs⟩ := ih fun a' ha' => h a' (List.mem_cons_of_mem _ ha')
      exact ⟨b :: bs, .cons hab hbs⟩

namespace Elaborator

variable {e : Elaborator} {owner : Owner} {trigger : String} {field : TriggerField}

/-! ### Single fields -/

theorem reference_eq_ok {name : String} {v : Value} :
    e.reference owner name = .ok v ↔
      name ∈ owner.parameters.keys ∧ v = (Expr.paramRef name).valueIn owner.parameters := by
  rw [reference, OrderedMap.mem_keys_iff, Expr.valueIn]
  cases owner.parameters.get? name with
  | none => simp
  | some p => simp [eq_comm]

/-- A timing field is accepted when it stands for a time or the integer zero. -/
theorem timeOf_eq_ok {x : Expr} {t : TimeValue} :
    e.timeOf owner trigger field x = .ok t ↔
      (∀ name ∈ x.refs, name ∈ owner.parameters.keys) ∧
        (x.valueIn owner.parameters).asTime? = some t := by
  cases x with
  | paramRef name =>
    rw [timeOf, bind_eq_ok]
    simp only [reference_eq_ok, Expr.refs, List.forall_mem_singleton]
    constructor
    · rintro ⟨v, ⟨hname, rfl⟩, h⟩
      refine ⟨hname, ?_⟩
      split at h
      · next t' ht => cases h; exact ht
      · cases h
    · rintro ⟨hname, h⟩
      exact ⟨_, ⟨hname, rfl⟩, by rw [h]⟩
  | time t' => simp [timeOf, Expr.refs, Expr.valueIn, Value.asTime?]
  | int n => by_cases h : n = 0 <;> simp [timeOf, Expr.refs, Expr.valueIn, Value.asTime?, h]
  | _ => simp [timeOf, Expr.valueIn, Value.asTime?]

theorem exists_timeOf_iff {x : Expr} :
    (∃ t, e.timeOf owner trigger field x = .ok t) ↔ x.HoldsIn owner.parameters Value.IsTime := by
  simp only [timeOf_eq_ok, Expr.HoldsIn, Value.isTime_iff, exists_and_left]

theorem integerOf_eq_ok {x : Expr} {n : Option Int64} :
    e.integerOf owner x = .ok n ↔
      (∀ name, x = .paramRef name → name ∈ owner.parameters.keys) ∧
        n = (x.valueIn owner.parameters).asInt? := by
  cases x with
  | paramRef name =>
    rw [integerOf]
    cases hv : e.reference owner name with
    | error cause =>
      refine iff_of_false (by simp [Except.map]) fun h => ?_
      have hok : e.reference owner name = .ok _ := reference_eq_ok.2 ⟨h.1 name rfl, rfl⟩
      rw [hv] at hok
      cases hok
    | ok v =>
      obtain ⟨hname, rfl⟩ := reference_eq_ok.1 hv
      simp [Except.map, hname, eq_comm]
  | int m => simp [integerOf, Expr.valueIn, Value.asInt?, eq_comm]
  | _ => simp [integerOf, Expr.valueIn, Value.asInt?, eq_comm]

/-- A width is accepted when it stands for a non-negative integer. -/
theorem widthOf_eq_ok {port : String} {x : Expr} {width : UInt64} :
    e.widthOf owner port x = .ok width ↔
      (∀ name ∈ x.refs, name ∈ owner.parameters.keys) ∧
        (x.valueIn owner.parameters).asInt?.bind channels? = some width := by
  -- a list has references too, but is refused before they are looked up
  have hfinish : e.widthOf owner port x = .ok width ↔
      (∀ name, x = .paramRef name → name ∈ owner.parameters.keys) ∧
        (x.valueIn owner.parameters).asInt?.bind channels? = some width := by
    rw [widthOf, bind_eq_ok]
    simp only [integerOf_eq_ok]
    constructor
    · rintro ⟨n, ⟨hname, rfl⟩, h⟩
      refine ⟨hname, ?_⟩
      split at h
      · next width' hw => cases h; exact hw
      · cases h
    · rintro ⟨hname, h⟩
      exact ⟨_, ⟨hname, rfl⟩, by rw [h]⟩
  rw [hfinish]
  cases x with
  | paramRef name => simp [Expr.refs]
  | int n => simp [Expr.refs]
  | _ => simp [Expr.valueIn, Value.asInt?]

theorem isCount_iff {v : Value} : v.IsCount ↔ ∃ width, v.asInt?.bind channels? = some width := by
  cases v with
  | int n => by_cases h : 0 ≤ n.toInt <;> simp [Value.IsCount, Value.asInt?, channels?, h]
  | _ => simp [Value.IsCount, Value.asInt?]

theorem exists_widthOf_iff {port : String} {x : Expr} :
    (∃ width, e.widthOf owner port x = .ok width) ↔
      x.HoldsIn owner.parameters Value.IsCount := by
  simp only [widthOf_eq_ok, Expr.HoldsIn, isCount_iff, exists_and_left]

theorem exists_timeField_iff {default : TimeValue} {field? : Option Expr} :
    (∃ t, e.timeField owner trigger field default field? = .ok t) ↔
      ∀ x ∈ field?.toList, x.HoldsIn owner.parameters Value.IsTime := by
  cases field? with
  | none => simp [timeField]
  | some x => simp [timeField, exists_timeOf_iff]

theorem exists_optionalField_iff {α : Type} {resolve : Expr → Except ElaborationError α}
    {field? : Option Expr} :
    (∃ a, optionalField resolve field? = .ok a) ↔ ∀ x ∈ field?.toList, ∃ a, resolve x = .ok a := by
  cases field? with
  | none => simp [optionalField]
  | some x =>
    rw [optionalField, Option.toList_some, List.forall_mem_singleton]
    cases hx : resolve x with
    | error cause => simp [Except.map]
    | ok a => simp [Except.map]

end Elaborator

/-! ### Declarations -/

/-- The timing fields of a timer that are filled in. -/
def TimerDecl.fields (d : TimerDecl) : List Expr := d.offset.toList ++ d.period.toList

/-- The timing fields of an action that are filled in. -/
def ActionDecl.fields (d : ActionDecl) : List Expr := d.minDelay.toList ++ d.minSpacing.toList

namespace ReactorDecl

/-- All timing fields of a definition. -/
def timingFields (r : ReactorDecl) : List Expr :=
  r.timers.flatMap TimerDecl.fields ++ r.actions.flatMap ActionDecl.fields

/-- The widths of all ports of a definition. -/
def widths (r : ReactorDecl) : List Expr :=
  (r.inputs ++ r.outputs).flatMap fun d => d.width.toList

/-- The names of the triggers that a definition declares. -/
def triggerNames (r : ReactorDecl) : List String :=
  r.inputs.map PortDecl.name ++ r.outputs.map PortDecl.name ++ r.timers.map TimerDecl.name ++
    r.actions.map ActionDecl.name

end ReactorDecl

namespace Elaborator

variable {e : Elaborator} {owner : Owner}

/-! ### Single triggers -/

theorem timer_eq_ok {d : TimerDecl} {t : Trigger} :
    e.timer owner d = .ok t ↔ ∃ offset period,
      e.timeField owner d.name .offset e.config.defaultOffset d.offset = .ok offset ∧
      e.timeField owner d.name .period e.config.defaultPeriod d.period = .ok period ∧
      t = ⟨d.name, .timer ⟨offset, period, false⟩⟩ := by
  simp only [timer, bind_eq_ok, pure, Except.pure, Except.ok.injEq]
  constructor
  · rintro ⟨offset, ho, period, hp, rfl⟩
    exact ⟨offset, period, ho, hp, rfl⟩
  · rintro ⟨offset, period, ho, hp, rfl⟩
    exact ⟨offset, ho, period, hp, rfl⟩

theorem action_eq_ok {d : ActionDecl} {t : Trigger} :
    e.action owner d = .ok t ↔ ∃ minDelay minSpacing,
      e.timeField owner d.name .minDelay .zero d.minDelay = .ok minDelay ∧
      optionalField (e.timeOf owner d.name .minSpacing) d.minSpacing = .ok minSpacing ∧
      t = ⟨d.name, .action ⟨d.origin, minDelay, minSpacing⟩⟩ := by
  simp only [action, bind_eq_ok, pure, Except.pure, Except.ok.injEq]
  constructor
  · rintro ⟨minDelay, hd, minSpacing, hs, rfl⟩
    exact ⟨minDelay, minSpacing, hd, hs, rfl⟩
  · rintro ⟨minDelay, minSpacing, hd, hs, rfl⟩
    exact ⟨minDelay, hd, minSpacing, hs, rfl⟩

theorem port_eq_ok {direction : PortDirection} {d : PortDecl} {t : Trigger} :
    e.port owner direction d = .ok t ↔ ∃ width,
      optionalField (e.widthOf owner d.name) d.width = .ok width ∧
      t = ⟨d.name, .port ⟨direction, width⟩⟩ := by
  simp only [port, bind_eq_ok, pure, Except.pure, Except.ok.injEq]
  exact exists_congr fun width => and_congr_right fun _ => eq_comm

theorem exists_timer_iff {d : TimerDecl} :
    (∃ t, e.timer owner d = .ok t) ↔
      ∀ x ∈ d.fields, x.HoldsIn owner.parameters Value.IsTime := by
  rw [TimerDecl.fields, List.forall_mem_append]
  simp only [timer_eq_ok]
  constructor
  · rintro ⟨_, offset, period, ho, hp, -⟩
    exact ⟨exists_timeField_iff.1 ⟨offset, ho⟩, exists_timeField_iff.1 ⟨period, hp⟩⟩
  · rintro ⟨ho, hp⟩
    obtain ⟨offset, ho⟩ := exists_timeField_iff.2 ho
    obtain ⟨period, hp⟩ := exists_timeField_iff.2 hp
    exact ⟨_, offset, period, ho, hp, rfl⟩

theorem exists_action_iff {d : ActionDecl} :
    (∃ t, e.action owner d = .ok t) ↔
      ∀ x ∈ d.fields, x.HoldsIn owner.parameters Value.IsTime := by
  rw [ActionDecl.fields, List.forall_mem_append]
  simp only [action_eq_ok]
  constructor
  · rintro ⟨_, minDelay, minSpacing, hd, hs, -⟩
    refine ⟨exists_timeField_iff.1 ⟨minDelay, hd⟩, fun x hx => ?_⟩
    exact exists_timeOf_iff.1 (exists_optionalField_iff.1 ⟨minSpacing, hs⟩ x hx)
  · rintro ⟨hd, hs⟩
    obtain ⟨minDelay, hd⟩ := exists_timeField_iff.2 hd
    obtain ⟨minSpacing, hs⟩ := exists_optionalField_iff.2 fun x hx => exists_timeOf_iff.2 (hs x hx)
    exact ⟨_, minDelay, minSpacing, hd, hs, rfl⟩

theorem exists_port_iff {direction : PortDirection} {d : PortDecl} :
    (∃ t, e.port owner direction d = .ok t) ↔
      ∀ x ∈ d.width.toList, x.HoldsIn owner.parameters Value.IsCount := by
  simp only [port_eq_ok]
  constructor
  · rintro ⟨_, width, hw, -⟩ x hx
    exact exists_widthOf_iff.1 (exists_optionalField_iff.1 ⟨width, hw⟩ x hx)
  · intro h
    obtain ⟨width, hw⟩ := exists_optionalField_iff.2 fun x hx => exists_widthOf_iff.2 (h x hx)
    exact ⟨_, width, hw, rfl⟩

/-! ### All triggers -/

/-- Triggers made one for each declaration bear the names of their declarations. -/
theorem names_of_mapM {α : Type} {make : α → Except ElaborationError Trigger}
    {name : α → String} (hname : ∀ d t, make d = .ok t → t.name = name d) {ds : List α}
    {ts : List Trigger} (h : ds.mapM make = .ok ts) : ts.map Trigger.name = ds.map name := by
  have hpairs := mapM_eq_ok.1 h
  clear h
  induction hpairs with
  | nil => rfl
  | cons hdt _ ih => rw [List.map_cons, List.map_cons, hname _ _ hdt, ih]

theorem exists_mapM_iff {ε α β : Type} {f : α → Except ε β} {as : List α} :
    (∃ bs, as.mapM f = .ok bs) ↔ ∀ a ∈ as, ∃ b, f a = .ok b := by
  simp only [mapM_eq_ok, exists_forall₂_iff]

theorem declaredTriggers_eq_ok {r : ReactorDecl} {ts : List Trigger} :
    e.declaredTriggers owner r = .ok ts ↔ ∃ inputs outputs timers actions,
      r.inputs.mapM (e.port owner .input) = .ok inputs ∧
      r.outputs.mapM (e.port owner .output) = .ok outputs ∧
      r.timers.mapM (e.timer owner) = .ok timers ∧
      r.actions.mapM (e.action owner) = .ok actions ∧
      ts = inputs ++ outputs ++ timers ++ actions := by
  simp only [declaredTriggers, bind_eq_ok, pure, Except.pure, Except.ok.injEq]
  constructor
  · rintro ⟨inputs, hi, outputs, ho, timers, ht, actions, ha, rfl⟩
    exact ⟨inputs, outputs, timers, actions, hi, ho, ht, ha, rfl⟩
  · rintro ⟨inputs, outputs, timers, actions, hi, ho, ht, ha, rfl⟩
    exact ⟨inputs, hi, outputs, ho, timers, ht, actions, ha, rfl⟩

/-- The declared triggers bear the names of their declarations. -/
theorem names_of_declaredTriggers {r : ReactorDecl} {ts : List Trigger}
    (h : e.declaredTriggers owner r = .ok ts) : ts.map Trigger.name = r.triggerNames := by
  obtain ⟨inputs, outputs, timers, actions, hi, ho, ht, ha, rfl⟩ := declaredTriggers_eq_ok.1 h
  have hport : ∀ direction (d : PortDecl) t, e.port owner direction d = .ok t → t.name = d.name :=
    fun _ _ _ h => by obtain ⟨_, -, rfl⟩ := port_eq_ok.1 h; rfl
  have htimer : ∀ (d : TimerDecl) t, e.timer owner d = .ok t → t.name = d.name :=
    fun _ _ h => by obtain ⟨_, _, -, -, rfl⟩ := timer_eq_ok.1 h; rfl
  have haction : ∀ (d : ActionDecl) t, e.action owner d = .ok t → t.name = d.name :=
    fun _ _ h => by obtain ⟨_, _, -, -, rfl⟩ := action_eq_ok.1 h; rfl
  rw [List.map_append, List.map_append, List.map_append, names_of_mapM (hport _) hi,
    names_of_mapM (hport _) ho, names_of_mapM htimer ht, names_of_mapM haction ha]
  rfl

theorem exists_declaredTriggers_iff {r : ReactorDecl} :
    (∃ ts, e.declaredTriggers owner r = .ok ts) ↔
      (∀ x ∈ r.timingFields, x.HoldsIn owner.parameters Value.IsTime) ∧
        ∀ x ∈ r.widths, x.HoldsIn owner.parameters Value.IsCount := by
  have hports : ∀ direction (ds : List PortDecl),
      (∃ ts, ds.mapM (e.port owner direction) = .ok ts) ↔
        ∀ d ∈ ds, ∀ x ∈ d.width.toList, x.HoldsIn owner.parameters Value.IsCount := by
    intro direction ds
    rw [exists_mapM_iff]
    exact forall₂_congr fun d _ => exists_port_iff
  have htimers : (∃ ts, r.timers.mapM (e.timer owner) = .ok ts) ↔
      ∀ d ∈ r.timers, ∀ x ∈ d.fields, x.HoldsIn owner.parameters Value.IsTime := by
    rw [exists_mapM_iff]
    exact forall₂_congr fun d _ => exists_timer_iff
  have hactions : (∃ ts, r.actions.mapM (e.action owner) = .ok ts) ↔
      ∀ d ∈ r.actions, ∀ x ∈ d.fields, x.HoldsIn owner.parameters Value.IsTime := by
    rw [exists_mapM_iff]
    exact forall₂_congr fun d _ => exists_action_iff
  -- the fields of a definition are those of its declarations, kind by kind
  rw [ReactorDecl.timingFields, ReactorDecl.widths, List.flatMap_append]
  simp only [List.forall_mem_append, List.forall_mem_flatMap]
  rw [← htimers, ← hactions, ← hports .input, ← hports .output]
  simp only [declaredTriggers_eq_ok]
  constructor
  · rintro ⟨_, inputs, outputs, timers, actions, hi, ho, ht, ha, -⟩
    exact ⟨⟨⟨timers, ht⟩, ⟨actions, ha⟩⟩, ⟨inputs, hi⟩, ⟨outputs, ho⟩⟩
  · rintro ⟨⟨⟨timers, ht⟩, ⟨actions, ha⟩⟩, ⟨inputs, hi⟩, ⟨outputs, ho⟩⟩
    exact ⟨_, inputs, outputs, timers, actions, hi, ho, ht, ha, rfl⟩

theorem firstRepeated?_eq_none_iff {seen : List String} {ts : List Trigger} :
    firstRepeated? seen ts = none ↔
      (ts.map Trigger.name).Nodup ∧ ∀ name ∈ ts.map Trigger.name, name ∉ seen := by
  rw [firstRepeated?_eq, firstRepeatedName?_eq_none_iff]

/-- Whether a name comes twice can be told from the names. -/
theorem firstRepeated?_eq_of_names {ts ts' : List Trigger}
    (h : ts.map Trigger.name = ts'.map Trigger.name) (seen : List String) :
    firstRepeated? seen ts = firstRepeated? seen ts' := by
  rw [firstRepeated?_eq, firstRepeated?_eq, h]

/-- Names that were seen before but do not come again make no difference. -/
theorem firstRepeated?_eq_of_seen {ts : List Trigger} {seen seen' : List String}
    (h : ∀ name ∈ ts.map Trigger.name, name ∈ seen ↔ name ∈ seen') :
    firstRepeated? seen ts = firstRepeated? seen' ts := by
  rw [firstRepeated?_eq, firstRepeated?_eq, firstRepeatedName?_eq_of_seen h]

/-- The triggers of an instance: the startup timer and the declared ones, of which no two have
one name. -/
theorem triggers_eq_ok {r : ReactorDecl} {ts : List Trigger} :
    e.triggers owner r = .ok ts ↔ ∃ declared, e.declaredTriggers owner r = .ok declared ∧
      (e.config.startupName :: r.triggerNames).Nodup ∧ ts = e.startup :: declared := by
  simp only [triggers, bind_eq_ok]
  refine exists_congr fun declared => and_congr_right fun hdeclared => ?_
  have hnames : (e.startup :: declared).map Trigger.name =
      e.config.startupName :: r.triggerNames := by
    rw [List.map_cons, names_of_declaredTriggers hdeclared]
    rfl
  -- the check compares the names of the triggers, which are those of the declarations
  rw [← hnames]
  split
  · next name hrepeated =>
    refine iff_of_false (by simp) fun h => ?_
    rw [firstRepeated?_eq_none_iff.2 ⟨h.1, fun _ _ => List.not_mem_nil⟩] at hrepeated
    cases hrepeated
  · next hnone =>
    rw [and_iff_right (firstRepeated?_eq_none_iff.1 hnone).1]
    simp [pure, Except.pure, eq_comm]

/-- The triggers of an instance can be made exactly when all fields stand for values of the right
kind and no two names are equal, that of the startup timer included. -/
theorem exists_triggers_iff {r : ReactorDecl} :
    (∃ ts, e.triggers owner r = .ok ts) ↔
      (∀ x ∈ r.timingFields, x.HoldsIn owner.parameters Value.IsTime) ∧
      (∀ x ∈ r.widths, x.HoldsIn owner.parameters Value.IsCount) ∧
        (e.config.startupName :: r.triggerNames).Nodup := by
  rw [← and_assoc, ← exists_declaredTriggers_iff (e := e)]
  simp only [triggers_eq_ok]
  constructor
  · rintro ⟨_, declared, hdeclared, hdistinct, -⟩
    exact ⟨⟨declared, hdeclared⟩, hdistinct⟩
  · rintro ⟨⟨declared, hdeclared⟩, hdistinct⟩
    exact ⟨_, declared, hdeclared, hdistinct, rfl⟩

end Elaborator
end Reactors

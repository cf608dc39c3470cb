import Reactors.Proofs.DeclarationCounts
import Reactors.Proofs.StoredPrograms

/-!
# Where the times of triggers come from

The times of a trigger come on three ways: from the defaults of the configuration, from
literals in its declaration, and from the parameters of the instance, whose values come from
literals again, through overrides along the way down.  A configuration that passes its check has
no negative defaults.  Nothing checks the sign of a literal.  So a trigger has a negative time
exactly if some timing field stands for one, and then this time is written in the program.

## Main definitions

* `InstanceTree.timings` — the times of all triggers of a tree.
* `TimedBy` — times are those that some fields stand for, and defaults.
* `Scope.TimesIn` — all times in the parameters of a scope have some property.
* `Program.Written` — all times that a site hands down are written in the program.

## Main results

* `Elaborator.triggers_timed` — the times of the triggers of an instance.
* `Expr.times_valueIn`, `ReactorDecl.timesIn_parametersIn` — times on their way through scopes.
* `elaborate_timings_nonneg_iff` — when no time is negative.
-/

namespace Reactors

/-- The times of the triggers of an instance. -/
def Instance.timings (i : Instance) : List TimeValue := i.triggers.flatMap (·.kind.times)

/-- The times of the triggers of a tree. -/
def InstanceTree.timings (t : InstanceTree) : List TimeValue := t.instances.flatMap Instance.timings

/-! ### Times of triggers -/

/-- Times that are those some fields stand for in a scope, and defaults: every time is a default or
what a field stands for, and all fields stand for one of the times. -/
structure TimedBy (defaults : List TimeValue) (scope : Scope) (fields : List Expr)
    (times : List TimeValue) : Prop where
  origin : ∀ t ∈ times, t ∈ defaults ∨ ∃ x ∈ fields, (x.valueIn scope).asTime? = some t
  taken : ∀ x ∈ fields, ∃ t ∈ times, (x.valueIn scope).asTime? = some t

namespace TimedBy

variable {defaults : List TimeValue} {scope : Scope} {fields fields' : List Expr}
  {times times' : List TimeValue}

theorem of_defaults (h : ∀ t ∈ times, t ∈ defaults) : TimedBy defaults scope [] times :=
  ⟨fun t ht => Or.inl (h t ht), fun _ hx => by cases hx⟩

theorem of_field {x : Expr} {t : TimeValue} (h : (x.valueIn scope).asTime? = some t) :
    TimedBy defaults scope [x] [t] := by
  constructor
  · intro t' ht'
    rw [List.mem_singleton.1 ht']
    exact Or.inr ⟨x, List.mem_singleton_self x, h⟩
  · intro x' hx'
    rw [List.mem_singleton.1 hx']
    exact ⟨t, List.mem_singleton_self t, h⟩

theorem append (h : TimedBy defaults scope fields times)
    (h' : TimedBy defaults scope fields' times') :
    TimedBy defaults scope (fields ++ fields') (times ++ times') := by
  constructor
  · intro t ht
    rcases List.mem_append.1 ht with ht | ht
    · exact (h.origin t ht).imp_right fun ⟨x, hx, hxt⟩ => ⟨x, List.mem_append_left _ hx, hxt⟩
    · exact (h'.origin t ht).imp_right fun ⟨x, hx, hxt⟩ => ⟨x, List.mem_append_right _ hx, hxt⟩
  · intro x hx
    rcases List.mem_append.1 hx with hx | hx
    · obtain ⟨t, ht, hxt⟩ := h.taken x hx
      exact ⟨t, List.mem_append_left _ ht, hxt⟩
    · obtain ⟨t, ht, hxt⟩ := h'.taken x hx
      exact ⟨t, List.mem_append_right _ ht, hxt⟩

/-- Triggers that are made one for each declaration have the times of all of them. -/
theorem of_mapM {α : Type} {make : α → Except ElaborationError Trigger} {fieldsOf : α → List Expr}
    (hmake : ∀ d t, make d = .ok t → TimedBy defaults scope (fieldsOf d) t.kind.times)
    {ds : List α} {ts : List Trigger} (h : ds.mapM make = .ok ts) :
    TimedBy defaults scope (ds.flatMap fieldsOf) (ts.flatMap (·.kind.times)) := by
  have hpairs := mapM_eq_ok.1 h
  clear h
  induction hpairs with
  | nil => exact of_defaults fun _ ht => by cases ht
  | cons hdt _ ih =>
    rw [List.flatMap_cons, List.flatMap_cons]
    exact (hmake _ _ hdt).append ih

/-- What holds of the defaults holds of all times exactly if it holds of the times that the fields
stand for. -/
theorem forall_iff (h : TimedBy defaults scope fields times) {P : TimeValue → Prop}
    (hdefaults : ∀ t ∈ defaults, P t) :
    (∀ t ∈ times, P t) ↔ ∀ x ∈ fields, ∀ t, (x.valueIn scope).asTime? = some t → P t := by
  constructor
  · intro hP x hx t hxt
    obtain ⟨t', ht', hxt'⟩ := h.taken x hx
    rw [hxt, Option.some.injEq] at hxt'
    exact hxt' ▸ hP t' ht'
  · intro hP t ht
    rcases h.origin t ht with hdefault | ⟨x, hx, hxt⟩
    · exact hdefaults t hdefault
    · exact hP x hx t hxt

end TimedBy

/-- The times that triggers have where no field gives one. -/
def Config.defaultTimes (c : Config) : List TimeValue := [c.defaultOffset, c.defaultPeriod, .zero]

/-- No default is negative in a configuration that passes its check. -/
theorem Config.defaultTimes_nonneg {c : Config} (h : c.validate = .ok ()) :
    ∀ t ∈ c.defaultTimes, 0 ≤ t.toNanos := by
  have hdefaults : 0 ≤ c.defaultOffset.toNanos ∧ 0 ≤ c.defaultPeriod.toNanos := by
    unfold validate at h
    split at h
    · cases h
    · split at h
      · cases h
      · omega
  intro t ht
  simp only [defaultTimes, List.mem_cons, List.not_mem_nil, or_false] at ht
  rcases ht with rfl | rfl | rfl
  · exact hdefaults.1
  · exact hdefaults.2
  · decide

namespace Elaborator

variable {e : Elaborator} {owner : Owner}

theorem timeField_timed {trigger : String} {field : TriggerField} {default t : TimeValue}
    {x? : Option Expr} (hdefault : default ∈ e.config.defaultTimes)
    (h : e.timeField owner trigger field default x? = .ok t) :
    TimedBy e.config.defaultTimes owner.parameters x?.toList [t] := by
  cases x? with
  | none =>
    rw [timeField, Except.ok.injEq] at h
    refine .of_defaults fun t' ht' => ?_
    rw [List.mem_singleton.1 ht', ← h]
    exact hdefault
  | some x => exact .of_field (timeOf_eq_ok.1 h).2

theorem optionalField_timed {trigger : String} {field : TriggerField} {x? : Option Expr}
    {t? : Option TimeValue} (h : optionalField (e.timeOf owner trigger field) x? = .ok t?) :
    TimedBy e.config.defaultTimes owner.parameters x?.toList t?.toList := by
  cases x? with
  | none =>
    rw [optionalField, Except.ok.injEq] at h
    rw [← h]
    exact .of_defaults fun _ ht => by cases ht
  | some x =>
    rw [optionalField, map_eq_ok] at h
    obtain ⟨t, ht, rfl⟩ := h
    exact .of_field (timeOf_eq_ok.1 ht).2

theorem timer_timed {d : TimerDecl} {t : Trigger} (h : e.timer owner d = .ok t) :
    TimedBy e.config.defaultTimes owner.parameters d.fields t.kind.times := by
  obtain ⟨offset, period, hoffset, hperiod, rfl⟩ := timer_eq_ok.1 h
  have hfirst := timeField_timed (by simp [Config.defaultTimes]) hoffset
  have hsecond := timeField_timed (by simp [Config.defaultTimes]) hperiod
  exact hfirst.append hsecond

theorem action_timed {d : ActionDecl} {t : Trigger} (h : e.action owner d = .ok t) :
    TimedBy e.config.defaultTimes owner.parameters d.fields t.kind.times := by
  obtain ⟨minDelay, minSpacing, hdelay, hspacing, rfl⟩ := action_eq_ok.1 h
  have hfirst := timeField_timed (by simp [Config.defaultTimes]) hdelay
  exact hfirst.append (optionalField_timed hspacing)

/-- Ports have no times. -/
theorem port_timed {direction : PortDirection} {d : PortDecl} {t : Trigger}
    (h : e.port owner direction d = .ok t) :
    TimedBy e.config.defaultTimes owner.parameters [] t.kind.times := by
  obtain ⟨_, -, rfl⟩ := port_eq_ok.1 h
  exact .of_defaults fun _ ht => by cases ht

/-- The times of the triggers of an instance are what the timing fields of its definition stand for
among its parameters, and defaults. -/
theorem triggers_timed {r : ReactorDecl} {ts : List Trigger} (h : e.triggers owner r = .ok ts) :
    TimedBy e.config.defaultTimes owner.parameters r.timingFields (ts.flatMap (·.kind.times)) := by
  obtain ⟨declared, hdeclared, -, rfl⟩ := triggers_eq_ok.1 h
  obtain ⟨inputs, outputs, timers, actions, hi, ho, ht, ha, rfl⟩ :=
    declaredTriggers_eq_ok.1 hdeclared
  have hstartup : TimedBy e.config.defaultTimes owner.parameters [] e.startup.kind.times :=
    .of_defaults fun t ht => by
      simp only [startup, TriggerKind.times, List.mem_cons, List.not_mem_nil, or_false] at ht
      rcases ht with rfl | rfl <;> simp [Config.defaultTimes]
  -- a port has no times, and none of its expressions is a timing field
  have hports {direction : PortDirection} {ds : List PortDecl} {ts : List Trigger}
      (hds : ds.mapM (e.port owner direction) = .ok ts) :
      TimedBy e.config.defaultTimes owner.parameters [] (ts.flatMap (·.kind.times)) := by
    have hfields : (ds.flatMap fun _ => ([] : List Expr)) = [] :=
      List.flatMap_eq_nil_iff.2 fun _ _ => rfl
    rw [← hfields]
    exact .of_mapM (fun _ _ => port_timed) hds
  have htimers : TimedBy e.config.defaultTimes owner.parameters
      (r.timers.flatMap TimerDecl.fields) (timers.flatMap (·.kind.times)) :=
    .of_mapM (fun _ _ => timer_timed) ht
  have hactions : TimedBy e.config.defaultTimes owner.parameters
      (r.actions.flatMap ActionDecl.fields) (actions.flatMap (·.kind.times)) :=
    .of_mapM (fun _ _ => action_timed) ha
  have hall := hstartup.append
    ((((hports hi).append (hports ho)).append htimers).append hactions)
  rw [List.flatMap_cons, List.flatMap_append, List.flatMap_append, List.flatMap_append]
  exact hall

end Elaborator

/-! ### Times on their way through scopes -/

/-- All times in the parameters of a scope have a property. -/
def Scope.TimesIn (P : TimeValue → Prop) (scope : Scope) : Prop :=
  ∀ name q, scope.get? name = some q → ∀ t ∈ q.value.times, P t

theorem Scope.timesIn_empty (P : TimeValue → Prop) : Scope.TimesIn P .empty := by
  intro name q hq
  cases hq

/-- The first element of an array has no other times than the array. -/
theorem Value.mem_times_of_initial {v : Value} {t : TimeValue} (h : t ∈ v.initial.times) :
    t ∈ v.times := by
  cases v with
  | array items =>
    cases items with
    | nil => exact h
    | cons item items => exact List.mem_append_left _ h
  | _ => exact h

/-- A value that is a time has this time in it, unless it is the integer zero. -/
theorem Value.mem_times_of_asTime? {v : Value} {t : TimeValue} (h : v.asTime? = some t) :
    t = .zero ∨ t ∈ v.times := by
  cases v with
  | time t' =>
    cases h
    exact Or.inr (List.mem_singleton_self t)
  | int n =>
    by_cases hn : n = 0
    · simp only [asTime?, hn, if_true, Option.some.injEq] at h
      exact Or.inl h.symm
    · simp [asTime?, hn] at h
  | _ => cases h

namespace Expr

variable {P : TimeValue → Prop} {scope : Scope}

mutual

/-- The times in the value of an expression are written in the expression or come from the
scope. -/
theorem times_valueIn (hscope : scope.TimesIn P) :
    ∀ x : Expr, (∀ t ∈ x.times, P t) → ∀ t ∈ (x.valueIn scope).times, P t
  | .int _ => fun hx => hx
  | .float _ => fun hx => hx
  | .bool _ => fun hx => hx
  | .str _ => fun hx => hx
  | .time _ => fun hx => hx
  | .code _ => fun hx => hx
  | .paramRef name => by
    intro _ t ht
    rw [valueIn] at ht
    cases hq : scope.get? name with
    | none =>
      rw [hq] at ht
      cases ht
    | some q =>
      rw [hq] at ht
      exact hscope name q hq t (Value.mem_times_of_initial ht)
  | .list items => times_itemValues hscope items

theorem times_itemValues (hscope : scope.TimesIn P) :
    ∀ xs : List Expr, (∀ t ∈ itemTimes xs, P t) →
      ∀ t ∈ Value.itemTimes (itemValues scope xs), P t
  | [] => fun hxs => hxs
  | x :: xs => by
    intro hxs
    rw [itemTimes, List.forall_mem_append] at hxs
    rw [itemValues, Value.itemTimes, List.forall_mem_append]
    exact ⟨times_valueIn hscope x hxs.1, times_itemValues hscope xs hxs.2⟩

end

end Expr

/-- The times in the parameters of an instance come from its overrides, from the defaults of its
definition or from the scope around it. -/
theorem ReactorDecl.timesIn_parametersIn {P : TimeValue → Prop} {r : ReactorDecl}
    {overrides : OrderedMap Expr} {scope : Scope}
    (hdefaults : ∀ d ∈ r.parameters, ∀ t ∈ d.default.times, P t)
    (hover : ∀ x ∈ overrides.values, ∀ t ∈ x.times, P t) (hscope : scope.TimesIn P) :
    (r.parametersIn overrides scope).TimesIn P := by
  intro name q hq
  rw [get?_parametersIn] at hq
  obtain ⟨d, hd, rfl⟩ := Option.map_eq_some_iff.1 hq
  have hmem : d ∈ r.parameters := List.mem_reverse.1 (List.mem_of_find?_eq_some hd)
  refine Expr.times_valueIn hscope _ ?_
  rw [chosen]
  cases hget : overrides.get? d.name with
  | none => exact hdefaults d hmem
  | some x =>
    exact hover x (List.mem_map_of_mem (OrderedMap.get?_eq_some_iff.1 hget))

/-! ### Elaborated trees -/

/-- The times of an expression of a definition are times of the program. -/
theorem Program.mem_times {p : Program} {r : ReactorDecl} (hr : r ∈ p.reactors) {x : Expr}
    (hx : x ∈ r.exprs) {t : TimeValue} (ht : t ∈ x.times) : t ∈ p.times :=
  List.mem_flatMap.2 ⟨x, List.mem_flatMap.2 ⟨r, hr, hx⟩, ht⟩

/-- The times that a site hands down, in overrides and in the scope, are written in the program. -/
structure Program.Written (p : Program) (overrides : OrderedMap Expr) (scope : Scope) : Prop where
  overrides : ∀ x ∈ overrides.values, ∀ t ∈ x.times, t ∈ p.times
  scope : scope.TimesIn (· ∈ p.times)

namespace Program.Written

variable {p : Program} {r : ReactorDecl} {overrides : OrderedMap Expr} {scope : Scope}

/-- Nothing is handed down to the main instance. -/
theorem empty (p : Program) : p.Written .empty .empty where
  overrides _ hx := by cases hx
  scope := Scope.timesIn_empty _

/-- The times in the parameters of an instance are written in the program as well. -/
theorem parametersIn (h : p.Written overrides scope) (hr : r ∈ p.reactors) :
    (r.parametersIn overrides scope).TimesIn (· ∈ p.times) := by
  refine r.timesIn_parametersIn (fun d hd t ht => ?_) h.overrides h.scope
  refine Program.mem_times hr ?_ ht
  simp only [ReactorDecl.exprs, List.mem_append]
  exact Or.inl (Or.inl (Or.inl (List.mem_map_of_mem hd)))

/-- So are those that its sites hand down. -/
theorem inside (h : p.Written overrides scope) (hr : r ∈ p.reactors) {s : Site}
    (hs : s ∈ r.sites) : p.Written s.overrides (r.parametersIn overrides scope) := by
  refine ⟨fun x hx t ht => Program.mem_times hr ?_ ht, h.parametersIn hr⟩
  simp only [ReactorDecl.exprs, List.mem_append, List.mem_flatMap]
  exact Or.inr ⟨s, hs, hx⟩

end Program.Written

/-- The times of the triggers of an instance are defaults and what the timing fields of the
definition of its reactor stand for, and the times in its parameters are written in the program. -/
theorem exists_timed {p : Program} {config : Config} {tree : InstanceTree}
    (h : elaborate p config = .ok tree) {i : Instance} (hi : i ∈ tree.instances) :
    ∃ r ∈ p.reactors, p.reactor? i.reactor = some r ∧
      TimedBy config.defaultTimes i.parameters r.timingFields i.timings ∧
      i.parameters.TimesIn (· ∈ p.times) := by
  -- what is written in the program is all that sites hand down
  obtain ⟨t, r, b, _, path, _, overrides, scope, htable, hget, hmem, hwritten, hb, houtermost⟩ :=
    exists_outermost h (fun _ => p.Written) (fun _ _ => .empty p)
      (fun r hr overrides scope hwritten s hs d _ => hwritten.inside hr hs) hi
  obtain ⟨-, own, children, ts, hown, -, hts, rfl⟩ := Elaborator.expand_eq_ok.1 hb
  obtain ⟨-, -, rfl⟩ := resolveParameters_eq_ok.1 hown
  have hparameters : i.parameters = r.parametersIn overrides scope :=
    congrArg Instance.parameters houtermost
  have htriggers : i.triggers = ts.map (·.ownedBy i.id) := congrArg Instance.triggers houtermost
  refine ⟨r, hmem, ?_, ?_, hparameters ▸ hwritten.parametersIn hmem⟩
  · rw [Program.reactor?_eq_get? htable]
    exact hget
  · unfold Instance.timings
    rw [htriggers, hparameters, List.flatMap_map]
    exact Elaborator.triggers_timed hts

/-- **When no time is negative.**  Under a configuration that passes its check, no trigger of an
elaborated tree has a negative time exactly if no timing field stands for one among the parameters
of any instance; and all negative times are written in the program, as defaults of parameters,
as overrides or in the fields themselves. -/
theorem elaborate_timings_nonneg_iff {p : Program} {config : Config} {tree : InstanceTree}
    (h : elaborate p config = .ok tree) (hconfig : config.validate = .ok ()) :
    ((∀ t ∈ tree.timings, 0 ≤ t.toNanos) ↔
      ∀ i ∈ tree.instances, ∀ r, p.reactor? i.reactor = some r → ∀ x ∈ r.timingFields,
        ∀ t, (x.valueIn i.parameters).asTime? = some t → 0 ≤ t.toNanos) ∧
    ∀ t ∈ tree.timings, t.toNanos < 0 → t ∈ p.times := by
  have hdefaults := Config.defaultTimes_nonneg hconfig
  unfold InstanceTree.timings
  constructor
  · rw [List.forall_mem_flatMap]
    -- the defaults are not negative, so that at each instance only its fields count
    refine forall₂_congr fun i hi => ?_
    obtain ⟨r, -, hr, htimed, -⟩ := exists_timed h hi
    rw [htimed.forall_iff hdefaults]
    simp [hr]
  · rw [List.forall_mem_flatMap]
    intro i hi t ht hneg
    obtain ⟨r, hmem, -, htimed, hparameters⟩ := exists_timed h hi
    -- a negative time is no default, so a field stands for it with what the program writes
    rcases htimed.origin t ht with hdefault | ⟨x, hx, hxt⟩
    · exact absurd (hdefaults t hdefault) (Int.not_le.2 hneg)
    · rcases Value.mem_times_of_asTime? hxt with rfl | hvalue
      · exact absurd hneg (by decide)
      · refine Expr.times_valueIn hparameters x (fun t' ht' => ?_) t hvalue
        refine Program.mem_times hmem ?_ ht'
        simp only [ReactorDecl.exprs, List.mem_append]
        exact Or.inl (Or.inr hx)

/-- A main reactor with a parameter, which a relay hands on to the timer of a sensor as its
period. -/
def relayedPeriod (period : TimeValue) : Program where
  main := "Main"
  reactors :=
    [((ReactorDecl.named "Main").withParameter "base" (.time period)).withInstance "a" "Relay"
        [("every", .paramRef "base")],
      ((ReactorDecl.named "Relay").withParameter "every" (.time ⟨2, .sec⟩)).withInstance "b"
        "Sensor" [("every", .paramRef "every")],
      ((ReactorDecl.named "Sensor").withParameter "every" (.time ⟨3, .sec⟩)).withTimer "tick" none
        (some (.paramRef "every"))]

/-- A period of a second is handed on, and no time is negative. -/
theorem relayed_period_nonneg : ∃ tree, elaborate (relayedPeriod ⟨1, .sec⟩) {} = .ok tree ∧
    Config.validate {} = .ok () ∧ ∀ t ∈ tree.timings, 0 ≤ t.toNanos := by
  have hruns : ∃ tree, elaborate (relayedPeriod ⟨1, .sec⟩) {} = .ok tree :=
    exists_elaborate_of_within (by decide +kernel)
  obtain ⟨tree, h⟩ := hruns
  have hconfig : Config.validate {} = .ok () := by decide +kernel
  refine ⟨tree, h, hconfig, fun t ht => ?_⟩
  by_contra hneg
  have hwritten := (elaborate_timings_nonneg_iff h hconfig).2 t ht (Int.not_le.1 hneg)
  have hprogram : ∀ t ∈ (relayedPeriod ⟨1, .sec⟩).times, 0 ≤ t.toNanos := by decide
  exact hneg (hprogram t hwritten)

/-- A main reactor with a timer that has an offset. -/
def offsetTimer (offset : TimeValue) : Program where
  main := "Main"
  reactors := [(ReactorDecl.named "Main").withTimer "t" (some (.time offset)) none]

/-- A negative offset is not refused. -/
theorem negative_offset_kept : ∃ tree, elaborate (offsetTimer ⟨-5, .msec⟩) {} = .ok tree ∧
    Config.validate {} = .ok () ∧ ∃ t ∈ tree.timings, t.toNanos < 0 := by
  have hrun : ((elaborate (offsetTimer ⟨-5, .msec⟩) {}).toOption.any fun tree =>
      tree.timings.any fun t => t.toNanos < 0) = true := by
    rw [elaborate_eq_within]
    decide +kernel
  have hruns : ∃ tree, elaborate (offsetTimer ⟨-5, .msec⟩) {} = .ok tree :=
    exists_elaborate_of_within (by decide +kernel)
  obtain ⟨tree, h⟩ := hruns
  rw [h, Except.toOption, Option.any_some, List.any_eq_true] at hrun
  obtain ⟨t, ht, hneg⟩ := hrun
  exact ⟨tree, h, by decide +kernel, t, ht, of_decide_eq_true hneg⟩

end Reactors

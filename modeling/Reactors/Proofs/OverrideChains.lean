import Mathlib.Logic.Function.Iterate
import Reactors.Proofs.ComparedRuns
import Reactors.Proofs.Layout
import Reactors.Proofs.TriggerLists

/-!
# Parameters handed down

In a chain of reactors that each hand a parameter on to the next one, every level reads the resolved
parameter of the level above, and a reference yields the first element of an array that has
one.  So each level strips one level of arrays off the value at the top, whatever the defaults below
say, and a timer at the bottom strips one more.

## Main definitions

* `HandsDown` — a chain of reactors that hand one parameter down.
* `Parameter.handed` — a parameter as it arrives one level below.
* `Component.Carries` — the components of a chain.

## Main results

* `Elaborator.exists_expand_of_handsDown` — how a chain is unrolled.
* `Component.Carries.get?_layout` — the instances of a chain.
* `overrides_handed_down` — the parameter at all levels, and the timer at the bottom.
-/

namespace Reactors

/-! ### Outcomes -/

theorem map_map {ε α β γ : Type} (x : Except ε α) (f : α → β) (g : β → γ) :
    (x.map f).map g = x.map fun a => g (f a) := by
  cases x <;> rfl

theorem exists_map_eq_ok_iff {ε α β : Type} {x : Except ε α} {f : α → β} :
    (∃ b, x.map f = .ok b) ↔ ∃ a, x = .ok a := by
  simp only [map_eq_ok]
  constructor
  · rintro ⟨_, a, ha, -⟩
    exact ⟨a, ha⟩
  · rintro ⟨a, ha⟩
    exact ⟨f a, a, ha, rfl⟩

theorem exists_mapM_toList_iff {ε α β : Type} {f : α → Except ε β} {o : Option α} :
    (∃ bs, o.toList.mapM f = .ok bs) ↔ ∀ a ∈ o, ∃ b, f a = .ok b := by
  rw [Elaborator.exists_mapM_iff]
  exact forall_congr' fun a => imp_congr_left Option.mem_toList

/-! ### One parameter -/

/-- The scope with one parameter. -/
def Scope.only (q : Parameter) : Scope := .ofList [(q.name, q)]

theorem OrderedMap.get?_singleton {α : Type} (key : String) (v : α) :
    (ofList [(key, v)]).get? key = some v := get?_set_self .empty key v

theorem Scope.get?_only (q : Parameter) : (Scope.only q).get? q.name = some q :=
  OrderedMap.get?_singleton q.name q

theorem Scope.keys_only (q : Parameter) : (Scope.only q).keys = [q.name] := rfl

namespace Parameter

/-- A parameter as it arrives one level below, where a reference to it overrides the default. -/
def handed (q : Parameter) : Parameter := ⟨q.name, q.value.initial, .override⟩

theorem name_iterate_handed (n : Nat) (q : Parameter) : (handed^[n] q).name = q.name := by
  induction n with
  | zero => rfl
  | succ n ih => rw [Function.iterate_succ_apply', handed, ih]

theorem value_iterate_handed (n : Nat) (q : Parameter) :
    (handed^[n] q).value = Value.initial^[n] q.value := by
  induction n with
  | zero => rfl
  | succ n ih => rw [Function.iterate_succ_apply', Function.iterate_succ_apply', handed, ih]

end Parameter

/-! ### Chains -/

/-- A definition declares one parameter, and nothing else but timers and sites. -/
def ReactorDecl.Declares (p : String) (timers : List TimerDecl) (sites : List Site)
    (r : ReactorDecl) : Prop :=
  ∃ name type default, r = ⟨name, [⟨p, type, default⟩], [], [], timers, [], sites⟩

theorem ReactorDecl.Declares.sites_eq {p : String} {timers : List TimerDecl} {sites : List Site}
    {r : ReactorDecl} (hr : r.Declares p timers sites) : r.sites = sites := by
  obtain ⟨_, _, _, rfl⟩ := hr
  rfl

/-- A chain of definitions hands a parameter down: each one overrides it, at its only site, by a
reference to its own, and nothing else is declared but timers at the bottom.  The chain is
given by its first definition and by the sites and the definitions below. -/
inductive HandsDown (p : String) (timers : List TimerDecl) :
    ReactorDecl → List (String × ReactorDecl) → Prop where
  | last {r : ReactorDecl} (hr : r.Declares p timers []) : HandsDown p timers r []
  | next {r r' : ReactorDecl} {site : String} {links : List (String × ReactorDecl)}
      (hr : r.Declares p [] [⟨site, r'.name, .ofList [(p, .paramRef p)]⟩])
      (h : HandsDown p timers r' links) : HandsDown p timers r ((site, r') :: links)

theorem HandsDown.declares {p : String} {timers : List TimerDecl} {r : ReactorDecl}
    {links : List (String × ReactorDecl)} (h : HandsDown p timers r links) :
    ∃ timers' sites, r.Declares p timers' sites := by
  cases h with
  | last hr => exact ⟨timers, [], hr⟩
  | next hr h => exact ⟨[], _, hr⟩

/-- The path from a start along the sites of a chain. -/
def pathAlong (path : String) (links : List (String × ReactorDecl)) : String :=
  links.foldl (fun path l => Elaborator.sitePath path l.1) path

/-- A component that is made of a chain: every level has its parameter, and the lowest one has
certain triggers. -/
inductive Component.Carries (ts : List Trigger) :
    Parameter → ReactorDecl → List (String × ReactorDecl) → Component → Prop where
  | last {q : Parameter} {r : ReactorDecl} {name : String} :
      Carries ts q r [] (.mk name r.name (.only q) ts [])
  | next {q : Parameter} {r r' : ReactorDecl} {name site : String}
      {links : List (String × ReactorDecl)} {own : List Trigger} {c : Component}
      (h : Carries ts q.handed r' links c) :
      Carries ts q r ((site, r') :: links) (.mk name r.name (.only q) own [c])

namespace Elaborator

variable {e : Elaborator} {t : Definitions} {around : List String} {path name p : String}
  {r d : ReactorDecl} {overrides : OrderedMap Expr} {scope own : Scope} {timers : List TimerDecl}

/-! ### One level -/

/-- A definition that is not too deep and whose parameters resolve is unrolled by unrolling its
sites and making its triggers. -/
theorem expand_of_parameters (hdepth : around.length ≤ e.config.maxDepth)
    (hown : resolveParameters e.quote path r overrides scope = .ok own) :
    e.expand t around path name r overrides scope = (do
      let children ← e.expandSites t (around ++ [r.name]) path own [] r.sites
      let triggers ← e.triggers ⟨path, own⟩ r
      return ⟨name, r.name, own, triggers, children⟩) := by
  rw [expand, if_neg (Nat.not_lt.2 hdepth), hown]
  rfl

/-- Without sites, only the triggers are left to be made. -/
theorem expand_of_no_sites (hdepth : around.length ≤ e.config.maxDepth)
    (hown : resolveParameters e.quote path r overrides scope = .ok own) (hsites : r.sites = []) :
    e.expand t around path name r overrides scope =
      (e.triggers ⟨path, own⟩ r).map (.mk name r.name own · []) := by
  rw [expand_of_parameters hdepth hown, hsites, expandSites]
  cases e.triggers ⟨path, own⟩ r with
  | error cause => rfl
  | ok ts => rfl

/-- With one site and with known triggers, only the definition inside is left to be unrolled. -/
theorem expand_of_one_site {s : Site} {ts : List Trigger}
    (hdepth : around.length ≤ e.config.maxDepth)
    (hown : resolveParameters e.quote path r overrides scope = .ok own) (hsites : r.sites = [s])
    (hget : t.get? s.reactor = some d) (hnew : d.name ∉ around ++ [r.name])
    (hts : e.triggers ⟨path, own⟩ r = .ok ts) :
    e.expand t around path name r overrides scope =
      (e.expand t (around ++ [r.name]) (sitePath path s.name) s.name d s.overrides own).map
        fun c => .mk name r.name own ts [c] := by
  rw [expand_of_parameters hdepth hown, hsites, hts, expandSites_eq_unrollSites, unrollSites,
    if_neg List.not_mem_nil, hget]
  dsimp only
  rw [if_neg hnew, unrollSites]
  cases e.expand t (around ++ [r.name]) (sitePath path s.name) s.name d s.overrides own with
  | error cause => rfl
  | ok c => rfl

/-! ### The levels of a chain -/

/-- The parameter arrives at the next level. -/
theorem resolveParameters_handed {sites : List Site} (hr : r.Declares p timers sites)
    {q : Parameter} (hq : q.name = p) :
    resolveParameters e.quote path r (.ofList [(p, .paramRef p)]) (.only q) =
      .ok (.only q.handed) := by
  subst hq
  obtain ⟨_, type, default, rfl⟩ := hr
  have hchosen : chosen (.ofList [(q.name, .paramRef q.name)]) ⟨q.name, type, default⟩ =
      (.paramRef q.name, .override) := by
    rw [chosen, OrderedMap.get?_singleton]
  refine resolveParameters_eq_ok.2 ⟨?_, ?_, ?_⟩
  · exact List.forall_mem_singleton.2 ⟨_, List.mem_singleton_self _, rfl⟩
  · rw [List.forall_mem_singleton, hchosen, Expr.refs, List.forall_mem_singleton, Scope.keys_only]
    exact List.mem_singleton_self _
  · have hvalue : (Expr.paramRef q.name).valueIn (.only q) = q.value.initial := by
      rw [Expr.valueIn, Scope.get?_only]
      rfl
    rw [ReactorDecl.parametersIn, List.map_singleton, ParameterDecl.boundIn, hchosen, hvalue]
    rfl

/-- The triggers of a level are the startup timer and the timers. -/
theorem triggers_of_declares {sites : List Site} (hr : r.Declares p timers sites)
    (hnames : (e.config.startupName :: timers.map TimerDecl.name).Nodup) (owner : Owner) :
    e.triggers owner r = (timers.mapM (e.timer owner)).map (e.startup :: ·) := by
  have hdeclared : e.declaredTriggers owner r = timers.mapM (e.timer owner) := by
    obtain ⟨_, _, _, rfl⟩ := hr
    simp only [declaredTriggers, List.mapM_nil]
    cases timers.mapM (e.timer owner) with
    | error cause => rfl
    | ok ts => exact congrArg Except.ok (List.append_nil ts)
  have htriggerNames : r.triggerNames = timers.map TimerDecl.name := by
    obtain ⟨_, _, _, rfl⟩ := hr
    exact List.append_nil _
  cases hts : timers.mapM (e.timer owner) with
  | error cause =>
    rw [triggers, hdeclared, hts]
    rfl
  | ok ts => exact triggers_eq_ok.2 ⟨ts, hdeclared.trans hts, htriggerNames ▸ hnames, rfl⟩

/-- **How a chain is unrolled.**  What is left to be made are the timers at the bottom, where the
parameter has been handed down as many times as there are links.  The induction is on the chain; the
parameter of the level above is all that a level needs. -/
theorem exists_expand_of_handsDown {links : List (String × ReactorDecl)}
    (h : HandsDown p timers r links)
    (hnames : (e.config.startupName :: timers.map TimerDecl.name).Nodup)
    (around : List String) (path name : String) (q : Parameter) (hq : q.name = p)
    (hown : resolveParameters e.quote path r overrides scope = .ok (.only q))
    (hdepth : around.length + links.length ≤ e.config.maxDepth)
    (hlinks : ∀ l ∈ links, t.get? l.2.name = some l.2)
    (hdistinct : (around ++ r.name :: links.map (·.2.name)).Nodup) :
    ∃ build : List Trigger → Component, (∀ ts, (build ts).Carries ts q r links) ∧
      e.expand t around path name r overrides scope =
        (timers.mapM (e.timer
          ⟨pathAlong path links, .only (Parameter.handed^[links.length] q)⟩)).map
          fun ts => build (e.startup :: ts) := by
  induction h generalizing around path name overrides scope q with
  | last hr =>
    refine ⟨(.mk name _ (.only q) · []), fun ts => .last, ?_⟩
    rw [expand_of_no_sites (Nat.le_of_add_right_le hdepth) hown hr.sites_eq,
      triggers_of_declares hr hnames]
    exact map_map _ _ _
  | @next r r' site links hr h ih =>
    -- the chain below starts from the parameter as it is handed down
    obtain ⟨timers', sites, hr'⟩ := h.declares
    have hown' : resolveParameters e.quote (sitePath path site) r' (.ofList [(p, .paramRef p)])
        (.only q) = .ok (.only q.handed) := resolveParameters_handed hr' hq
    have hstartup : e.triggers ⟨path, .only q⟩ r = .ok [e.startup] :=
      triggers_of_declares hr (List.nodup_singleton _) _
    have hdistinct' : ((around ++ [r.name]) ++ r'.name :: links.map (·.2.name)).Nodup := by
      rwa [List.append_assoc, List.singleton_append]
    have hnew : r'.name ∉ around ++ [r.name] := fun hmem =>
      List.disjoint_of_nodup_append hdistinct' hmem List.mem_cons_self
    have hdepth' : (around ++ [r.name]).length + links.length ≤ e.config.maxDepth := by
      rw [List.length_append, List.length_singleton, Nat.add_assoc, Nat.add_comm 1]
      exact hdepth
    rw [List.forall_mem_cons] at hlinks
    obtain ⟨build, hbuild, hrun⟩ := ih (around ++ [r.name]) (sitePath path site) site q.handed hq
      hown' hdepth' hlinks.2 hdistinct'
    refine ⟨fun ts => .mk name r.name (.only q) [e.startup] [build ts], fun ts => .next (hbuild ts),
      ?_⟩
    rw [expand_of_one_site (Nat.le_of_add_right_le hdepth) hown hr.sites_eq hlinks.1 hnew hstartup,
      hrun]
    exact map_map _ _ _

/-! ### The timer at the bottom -/

theorem fieldTime_reference_iff {q : Parameter} {default time : TimeValue} :
    FieldTime (.only q) default (some (.paramRef q.name)) time ↔
      q.value.initial.asTime? = some time := by
  have hfirst (v : Value) : (Scope.only q).FirstValue q.name v ↔ q.value.first? = some v := by
    simp [Scope.FirstValue, Scope.get?_only]
  rw [Value.view_initial_eq_some Value.asTime? fun _ => rfl]
  constructor
  · rintro (_ | _ | _ | ⟨hv, ht⟩)
    exact ⟨_, (hfirst _).1 hv, ht⟩
  · rintro ⟨v, hv, ht⟩
    exact .given (.reference ((hfirst v).2 hv) ht)

/-- A timer whose period is a reference. -/
theorem timer_of_reference_eq_ok_iff {q : Parameter} {d : TimerDecl}
    (hperiod : d.period = some (.paramRef q.name)) {timer : Trigger} :
    e.timer ⟨path, .only q⟩ d = .ok timer ↔ ∃ offset period,
      FieldTime (.only q) e.config.defaultOffset d.offset offset ∧
      q.value.initial.asTime? = some period ∧
      timer = ⟨d.name, .timer ⟨offset, period, false⟩⟩ := by
  rw [timer_eq_ok_iff]
  constructor
  · rintro ⟨hoffset, htime⟩
    rw [hperiod] at htime
    exact ⟨_, _, hoffset, fieldTime_reference_iff.1 htime, rfl⟩
  · rintro ⟨offset, period, hoffset, htime, rfl⟩
    refine .mk hoffset ?_
    rw [hperiod]
    exact fieldTime_reference_iff.2 htime

theorem exists_timer_of_reference_iff {q : Parameter} {d : TimerDecl}
    (hperiod : d.period = some (.paramRef q.name)) :
    (∃ timer, e.timer ⟨path, .only q⟩ d = .ok timer) ↔
      (∃ offset, FieldTime (.only q) e.config.defaultOffset d.offset offset) ∧
        ∃ period, q.value.initial.asTime? = some period := by
  simp only [timer_of_reference_eq_ok_iff hperiod]
  constructor
  · rintro ⟨_, offset, period, hoffset, htime, -⟩
    exact ⟨⟨offset, hoffset⟩, period, htime⟩
  · rintro ⟨⟨offset, hoffset⟩, period, htime⟩
    exact ⟨_, offset, period, hoffset, htime, rfl⟩

/-- If the parameter yields no time, then the period is refused. -/
theorem timer_of_reference_eq_error {q : Parameter} {d : TimerDecl} {offset : TimeValue}
    (hperiod : d.period = some (.paramRef q.name))
    (hoffset : FieldTime (.only q) e.config.defaultOffset d.offset offset)
    (htime : q.value.initial.asTime? = none) :
    e.timer ⟨path, .only q⟩ d =
      .error (.typeMismatch path d.name .period (e.quote q.value.initial.toExpr)) := by
  have hoffset' : e.timeField ⟨path, .only q⟩ d.name .offset e.config.defaultOffset d.offset =
      .ok offset := timeField_eq_ok_iff.2 hoffset
  have hreference : e.reference ⟨path, .only q⟩ q.name = .ok q.value.initial := by
    rw [reference, Scope.get?_only]
  rw [timer, hoffset', hperiod, timeField, timeOf, hreference]
  simp only [bind, Except.bind, htime]
  rfl

end Elaborator

/-! ### The instances of a chain -/

namespace Component.Carries

variable {ts : List Trigger} {q : Parameter} {r : ReactorDecl}
  {links : List (String × ReactorDecl)} {c : Component}

theorem size_eq (h : c.Carries ts q r links) : c.size = links.length + 1 := by
  induction h with
  | last => rfl
  | next h ih => rw [size, sizes, sizes, ih, List.length_cons]; omega

/-- The instances of a chain, from the top to the bottom. -/
theorem get?_layout (h : c.Carries ts q r links) (id : Nat) (parent : Option Nat) (depth : Nat)
    (path : String) {k : Nat} {d : ReactorDecl} (hd : (r :: links.map Prod.snd)[k]? = some d) :
    ∃ i, (c.layout id parent depth path)[k]? = some i ∧ i.id = id + k ∧ i.reactor = d.name ∧
      i.parameters = .only (Parameter.handed^[k] q) ∧
      (k = links.length → i.triggers = ts.map (·.ownedBy i.id)) := by
  induction h generalizing id parent depth path k with
  | @last q r name =>
    cases k with
    | zero =>
      cases hd
      exact ⟨_, rfl, rfl, rfl, rfl, fun _ => rfl⟩
    | succ k => cases hd
  | @next q r r' name site links own c h ih =>
    cases k with
    | zero =>
      cases hd
      exact ⟨_, rfl, rfl, rfl, rfl, fun hk => absurd hk (Nat.succ_ne_zero _).symm⟩
    | succ k =>
      obtain ⟨i, hi, hid, hreactor, hparameters, htriggers⟩ :=
        ih (id + 1) (some id) (depth + 1) (Elaborator.sitePath path c.name) hd
      refine ⟨i, ?_, ?_, hreactor, hparameters, fun hk => htriggers (Nat.succ.inj hk)⟩
      · rw [layout, List.getElem?_cons_succ, layoutAll, layoutAll, List.append_nil]
        exact hi
      · rw [hid]
        omega

end Component.Carries

/-! ### Programs -/

/-- The main definition of a program is the first of a chain that hands a parameter down.  At the
top the default of the parameter has a value by itself; at the bottom there may be a timer. -/
structure Program.IsChain (program : Program) (p : String) (v : Value) (timer : Option TimerDecl)
    (r : ReactorDecl) (links : List (String × ReactorDecl)) : Prop where
  chain : HandsDown p timer.toList r links
  main : program.reactor? program.main = some r
  found : ∀ l ∈ links, program.reactor? l.2.name = some l.2
  /-- The reactors of the chain are distinct. -/
  distinct : (r.name :: links.map (·.2.name)).Nodup
  /-- The program has no two definitions with one name. -/
  unique : (program.reactors.map ReactorDecl.name).Nodup
  value : ∀ d ∈ r.parameters, d.default.evaluate .empty = .ok v

/-- The instances of a tree are one for each definition of a list, each inside the one before.  The
parameter has one level of arrays less in each of them. -/
structure InstanceTree.HasLevels (p : String) (v : Value) (rs : List ReactorDecl)
    (tree : InstanceTree) : Prop where
  size : tree.size = rs.length
  level : ∀ k r, rs[k]? = some r → ∃ i q, tree.get? k = some i ∧ i.reactor = r.name ∧
    i.parameter? p = some q ∧ q.value = Value.initial^[k] v

namespace Program.IsChain

variable {program : Program} {config : Config} {p : String} {v : Value} {timer : Option TimerDecl}
  {r : ReactorDecl} {links : List (String × ReactorDecl)}

/-- A program that is a chain is elaborated by making the timer at the bottom. -/
theorem exists_elaborate_eq (h : program.IsChain p v timer r links)
    (hdepth : links.length ≤ config.maxDepth)
    (hnames : (config.startupName :: timer.toList.map TimerDecl.name).Nodup) :
    ∃ build : List Trigger → Component,
      (∀ ts, (build ts).Carries ts ⟨p, v, .default⟩ r links) ∧
      elaborate program config = (timer.toList.mapM (Elaborator.timer ⟨config, Expr.text⟩
        ⟨pathAlong r.name links, .only (Parameter.handed^[links.length] ⟨p, v, .default⟩)⟩)).map
          fun ts => (build (Elaborator.startup ⟨config, Expr.text⟩ :: ts)).toTree := by
  obtain ⟨t, htable⟩ : ∃ t, program.definitions = .ok t :=
    ⟨⟨program.reactors, h.unique⟩, Program.definitions_eq_ok.2 rfl⟩
  have hmain : t.get? program.main = some r := by
    rw [← Program.reactor?_eq_get? htable]
    exact h.main
  have hlinks : ∀ l ∈ links, t.get? l.2.name = some l.2 := fun l hl => by
    rw [← Program.reactor?_eq_get? htable]
    exact h.found l hl
  -- the main reactor is not overridden, and its default needs no scope
  have hown : resolveParameters Expr.text r.name r .empty .empty =
      .ok (.only ⟨p, v, .default⟩) := by
    obtain ⟨_, _, ⟨name, type, default, rfl⟩⟩ := h.chain.declares
    have hvalue := Expr.evaluate_eq_ok.1 (h.value _ List.mem_cons_self)
    refine resolveParameters_eq_ok.2 ⟨List.forall_mem_nil _, ?_, ?_⟩
    · exact List.forall_mem_singleton.2 hvalue.1
    · rw [hvalue.2]
      rfl
  let e : Elaborator := ⟨config, Expr.text⟩
  have hdepth' : ([] : List String).length + links.length ≤ e.config.maxDepth :=
    (Nat.zero_add _).trans_le hdepth
  obtain ⟨build, hbuild, hrun⟩ :=
    Elaborator.exists_expand_of_handsDown h.chain hnames [] r.name r.name _ rfl hown hdepth' hlinks
      h.distinct
  refine ⟨build, hbuild, ?_⟩
  rw [elaborate, htable]
  dsimp only
  rw [Elaborator.elaborate_eq_map, Elaborator.expandMain, hmain]
  dsimp only
  rw [hrun]
  exact map_map _ _ _

end Program.IsChain

theorem Component.Carries.hasLevels {ts : List Trigger} {p : String} {v : Value} {r : ReactorDecl}
    {links : List (String × ReactorDecl)} {c : Component}
    (h : c.Carries ts ⟨p, v, .default⟩ r links) :
    c.toTree.HasLevels p v (r :: links.map Prod.snd) := by
  constructor
  · rw [Component.size_toTree, h.size_eq, List.length_cons, List.length_map]
  · intro k d hd
    obtain ⟨i, hi, -, hreactor, hparameters, -⟩ := h.get?_layout 0 none 0 c.name hd
    have hq := Scope.get?_only (Parameter.handed^[k] ⟨p, v, .default⟩)
    rw [Parameter.name_iterate_handed, ← hparameters] at hq
    exact ⟨i, _, hi, hreactor, hq, Parameter.value_iterate_handed k _⟩

/-- The instance at the bottom of a chain, where a second trigger is found by its name. -/
theorem Component.Carries.exists_bottom {first second : Trigger} {q : Parameter} {r : ReactorDecl}
    {links : List (String × ReactorDecl)} {c : Component}
    (h : c.Carries [first, second] q r links) (hne : first.name ≠ second.name) :
    ∃ i, c.toTree.get? links.length = some i ∧
      i.parameters = .only (Parameter.handed^[links.length] q) ∧
      i.trigger? second.name = some (second.ownedBy i.id) := by
  have hlength : links.length < (r :: links.map Prod.snd).length := by
    rw [List.length_cons, List.length_map]
    exact Nat.lt_succ_self _
  obtain ⟨i, hi, -, -, hparameters, htriggers⟩ :=
    h.get?_layout 0 none 0 c.name (List.getElem?_eq_getElem hlength)
  have hdistinct : (i.triggers.map (·.name)).Nodup := by
    rw [htriggers rfl]
    exact List.nodup_cons.2 ⟨fun hmem => hne (List.mem_singleton.1 hmem), List.nodup_singleton _⟩
  have hmem : second.ownedBy i.id ∈ i.triggers := by
    rw [htriggers rfl]
    exact List.mem_map_of_mem (List.mem_cons_of_mem _ (List.mem_singleton_self _))
  exact ⟨i, hi, hparameters, Instance.trigger?_of_mem hdistinct hmem⟩

/-- **Parameters handed down.**  In a chain of reactors that hand a parameter down, the value at the
top has lost one level of arrays for every step, and a timer at the bottom, whose period is a
reference, one more.  Elaboration succeeds exactly if the offset of the timer can be resolved and
this is a time; if only the latter is not so, then the period is refused.  A value that is no array
with elements is the same at all levels. -/
theorem overrides_handed_down {program : Program} {config : Config} {p : String} {v : Value}
    {timer : Option TimerDecl} {r : ReactorDecl} {links : List (String × ReactorDecl)}
    (h : program.IsChain p v timer r links) (hdepth : links.length ≤ config.maxDepth)
    (htimer : ∀ d ∈ timer, d.name ≠ config.startupName ∧ d.period = some (.paramRef p)) :
    (∀ tree, elaborate program config = .ok tree →
      tree.HasLevels p v (r :: links.map Prod.snd) ∧
      ∀ d ∈ timer, ∃ i offset period, tree.get? links.length = some i ∧
        FieldTime i.parameters config.defaultOffset d.offset offset ∧
        (Value.initial^[links.length + 1] v).asTime? = some period ∧
        i.trigger? d.name =
          some ((Trigger.mk d.name (.timer ⟨offset, period, false⟩)).ownedBy i.id)) ∧
    ((∃ tree, elaborate program config = .ok tree) ↔ ∀ d ∈ timer,
      (∃ offset, FieldTime (.only (Parameter.handed^[links.length] ⟨p, v, .default⟩))
        config.defaultOffset d.offset offset) ∧
      ∃ period, (Value.initial^[links.length + 1] v).asTime? = some period) ∧
    (∀ d ∈ timer,
      (∃ offset, FieldTime (.only (Parameter.handed^[links.length] ⟨p, v, .default⟩))
        config.defaultOffset d.offset offset) →
      (Value.initial^[links.length + 1] v).asTime? = none →
      elaborate program config = .error (.typeMismatch (pathAlong r.name links) d.name .period
        (Expr.text (Value.initial^[links.length + 1] v).toExpr))) ∧
    ((∀ w ws, v ≠ .array (w :: ws)) → ∀ k, Value.initial^[k] v = v) := by
  let e : Elaborator := ⟨config, Expr.text⟩
  have hnames : (e.config.startupName :: timer.toList.map TimerDecl.name).Nodup := by
    cases timer with
    | none => exact List.nodup_singleton _
    | some d => simpa using (htimer d rfl).1.symm
  obtain ⟨build, hbuild, hrun⟩ := h.exists_elaborate_eq hdepth hnames
  -- the parameter at the bottom
  obtain ⟨q, hq⟩ : ∃ q, q = Parameter.handed^[links.length] ⟨p, v, .default⟩ := ⟨_, rfl⟩
  have hname : q.name = p := hq ▸ Parameter.name_iterate_handed _ _
  have hinitial : q.value.initial = Value.initial^[links.length + 1] v := by
    rw [Function.iterate_succ_apply', hq, Parameter.value_iterate_handed]
  have hperiod : ∀ d ∈ timer, d.period = some (.paramRef q.name) := fun d hd => by
    rw [hname]
    exact (htimer d hd).2
  rw [← hq] at hrun ⊢
  rw [hrun, ← hinitial]
  refine ⟨fun tree htree => ?_, ?_, ?_, fun hv => ?_⟩
  · obtain ⟨ts, hts, rfl⟩ := map_eq_ok.1 htree
    refine ⟨(hbuild _).hasLevels, fun d hd => ?_⟩
    cases hd
    obtain ⟨t, _, ht, hnil, rfl⟩ := List.forall₂_cons_left_iff.1 (mapM_eq_ok.1 hts)
    cases hnil
    obtain ⟨offset, period, hoffset, htime, rfl⟩ :=
      (Elaborator.timer_of_reference_eq_ok_iff (hperiod d rfl)).1 ht
    have hne : e.startup.name ≠ (Trigger.mk d.name (.timer ⟨offset, period, false⟩)).name :=
      (htimer d rfl).1.symm
    obtain ⟨i, hi, hparameters, hfound⟩ := (hbuild _).exists_bottom hne
    have hoffset' : FieldTime i.parameters config.defaultOffset d.offset offset := by
      rw [hparameters, ← hq]
      exact hoffset
    exact ⟨i, offset, period, hi, hoffset', htime, hfound⟩
  · rw [exists_map_eq_ok_iff, exists_mapM_toList_iff]
    exact forall₂_congr fun d hd => Elaborator.exists_timer_of_reference_iff (hperiod d hd)
  · rintro d hd ⟨offset, hoffset⟩ htime
    cases hd
    rw [Option.toList_some, List.mapM_cons,
      Elaborator.timer_of_reference_eq_error (hperiod d rfl) hoffset htime]
    rfl
  · exact Function.iterate_fixed (Value.initial_of_ne_cons hv)

/-- The relay of rows, whose own default is of no account. -/
def rowRelay : ReactorDecl :=
  ((ReactorDecl.named "Relay").withParameter "rows" (.time ⟨2, .sec⟩)).withInstance "b" "Sensor"
    [("rows", .paramRef "rows")]

/-- The timer of the sensor. -/
def rowTimer : TimerDecl := ⟨"tick", none, some (.paramRef "rows")⟩

/-- A sensor with a timer; its default would not even resolve. -/
def rowSensor : ReactorDecl :=
  { (ReactorDecl.named "Sensor").withParameter "rows" (.paramRef "columns") with
    timers := [rowTimer] }

/-- A main reactor that hands a parameter with this default down to a sensor, by way of a relay. -/
def rowMain (default : Expr) : ReactorDecl :=
  ((ReactorDecl.named "Main").withParameter "rows" default).withInstance "a" "Relay"
    [("rows", .paramRef "rows")]

/-- The program of these reactors. -/
def handedRows (default : Expr) : Program where
  main := "Main"
  reactors := [rowMain default, rowRelay, rowSensor]

theorem handedRows_isChain (default : Expr) {v : Value}
    (hv : default.evaluate .empty = .ok v) :
    (handedRows default).IsChain "rows" v (some rowTimer) (rowMain default)
      [("a", rowRelay), ("b", rowSensor)] := by
  have hdistinct : ["Main", "Relay", "Sensor"].Nodup := by decide
  exact
    { chain := .next ⟨_, _, _, rfl⟩ (.next ⟨_, _, _, rfl⟩ (.last ⟨_, _, _, rfl⟩))
      main := rfl
      found := List.forall_mem_cons.2 ⟨rfl, List.forall_mem_singleton.2 rfl⟩
      distinct := hdistinct
      unique := hdistinct
      value := List.forall_mem_singleton.2 hv }

/-- Three levels of arrays are used up by two steps and the timer; a fourth one is left over. -/
theorem handed_rows_used_up :
    (∃ tree, elaborate (handedRows (.list [.list [.list [.time ⟨5, .msec⟩]]])) {} = .ok tree ∧
      ∃ i q timer, tree.get? 2 = some i ∧ i.parameter? "rows" = some q ∧
        q.value = .array [.time ⟨5, .msec⟩] ∧ i.trigger? "tick" = some timer ∧
        timer.kind = .timer ⟨.zero, ⟨5, .msec⟩, false⟩) ∧
    elaborate (handedRows (.list [.list [.list [.list [.time ⟨5, .msec⟩]]]])) {} =
      .error (.typeMismatch "Main.a.b" "tick" .period "[5 msec]") := by
  have hdepth : 2 ≤ Config.maxDepth {} := by decide
  have htimer : ∀ d ∈ some rowTimer,
      d.name ≠ Config.startupName {} ∧ d.period = some (.paramRef "rows") := by
    rintro d ⟨⟩
    exact ⟨by decide, rfl⟩
  have hthree := handedRows_isChain (.list [.list [.list [.time ⟨5, .msec⟩]]]) rfl
  have hfour := handedRows_isChain (.list [.list [.list [.list [.time ⟨5, .msec⟩]]]]) rfl
  obtain ⟨hlevels, hexists, -, -⟩ := overrides_handed_down hthree hdepth htimer
  obtain ⟨-, -, herror, -⟩ := overrides_handed_down hfour hdepth htimer
  constructor
  · obtain ⟨tree, htree⟩ := hexists.2 (by
      rintro d ⟨⟩
      exact ⟨⟨_, .omitted⟩, _, rfl⟩)
    obtain ⟨hchain, hbottom⟩ := hlevels tree htree
    obtain ⟨i, q, hi, -, hq, hvalue⟩ := hchain.level 2 rowSensor rfl
    obtain ⟨_, _, _, hi', hoffset, hperiod, hfound⟩ := hbottom rowTimer rfl
    cases hi.symm.trans hi'
    cases hoffset
    cases hperiod
    exact ⟨tree, htree, i, q, _, hi, hq, hvalue, hfound, rfl⟩
  · have hpath : pathAlong "Main" [("a", rowRelay), ("b", rowSensor)] = "Main.a.b" := by decide
    have hfound : Expr.text (.list [.time ⟨5, .msec⟩]) = "[5 msec]" := by decide +kernel
    rw [← hpath, ← hfound]
    exact herror rowTimer rfl ⟨_, .omitted⟩ rfl

end Reactors

import Mathlib.Logic.Relation
import Reactors.Proofs.AgreeingRuns
import Reactors.Proofs.Nesting

/-!
# What the configuration touches

The defaults of a configuration go into the startup timers and into those fields of declared
timers that are left out.  Its name for the startup timer is taken for that timer, and
compared with the names of the declared triggers.  Nothing else of an elaboration reads them:
parameters, sites, ports and actions are the same whatever the configuration says, and errors
do not mention it, apart from the limit of depth.

So two elaborations of one program under the same limit run side by side, with the same errors and
with trees that differ only in triggers; and how these differ is settled for one instance at a time.

## Main definitions

* `Instance.SameBut`, `InstanceTree.SameBut` — instances and trees that differ only in triggers.
* `Trigger.SameButDefaults` — triggers under two configurations with other defaults.
* `Trigger.SameButStartupName` — triggers under two names for the startup timer.
* `frameRuns` — the runs under two configurations.

## Main results

* `elaborate_frame` — from the triggers at one instance to the trees.
* `Elaborator.triggers_sameButDefaults`, `Elaborator.triggers_sameButStartupName` — the triggers at
  one instance.
* `elaborate_reads_configuration` — what the configuration touches.
-/

namespace Reactors

open Relation (ReflTransGen)

/-! ### Trees that differ in triggers -/

/-- Two instances are the same but for their triggers, and these are related one by one, as triggers
of the definition of their reactor, and have the same owners. -/
structure Instance.SameBut (p : Program) (R : ReactorDecl → Trigger → Trigger → Prop)
    (i i' : Instance) : Prop where
  rest : { i' with triggers := i.triggers } = i
  triggers : ∃ r, p.reactor? i.reactor = some r ∧
    List.Forall₂ (fun x x' => x.parent = x'.parent ∧ R r x.toTrigger x'.toTrigger)
      i.triggers i'.triggers

/-- Two trees are the same but for the triggers of their instances. -/
def InstanceTree.SameBut (p : Program) (R : ReactorDecl → Trigger → Trigger → Prop)
    (tree tree' : InstanceTree) : Prop :=
  List.Forall₂ (Instance.SameBut p R) tree.instances tree'.instances

/-- Two runs of a program that have the same errors and make instances that are the same but for
their triggers, from definitions that the main reactor leads to. -/
def frameRuns (p : Program) (R : ReactorDecl → Trigger → Trigger → Prop) : RunRelation where
  error := Eq
  definition r r' := r = r' ∧ p.reactor? r.name = some r ∧
    ReflTransGen p.Instantiates p.main r.name
  overrides := Eq
  scope := Eq
  triggers r := List.Forall₂ (R r)
  component := Component.Related (Instance.SameBut p R)

section

variable {p : Program} {t : Definitions} {R : ReactorDecl → Trigger → Trigger → Prop}

/-- What a definition instantiates is reached as well. -/
theorem frameRuns_definition (ht : p.definitions = .ok t) {name : String}
    (hreached : ReflTransGen p.Instantiates p.main name) :
    Option.Rel (frameRuns p R).definition (t.get? name) (t.get? name) := by
  cases hget : t.get? name with
  | none => exact .none
  | some d =>
    have hname : d.name = name := Definitions.name_of_get? hget
    refine .some ⟨rfl, ?_, ?_⟩
    · rw [Program.reactor?_eq_get? ht, hname, hget]
    · rwa [hname]

/-- Two elaborators that make related triggers, and are alike otherwise, agree in their steps. -/
theorem frameRuns_respected (ht : p.definitions = .ok t) {e e' : Elaborator}
    (hlimit : e.config.maxDepth = e'.config.maxDepth) (hquote : e.quote = e'.quote)
    (htriggers : ∀ r owner, p.reactor? r.name = some r →
      ReflTransGen p.Instantiates p.main r.name →
      Agree Eq (List.Forall₂ (R r)) (e.triggers owner r) (e'.triggers owner r)) :
    (frameRuns p R).Respected e e' t t where
  limit := hlimit
  error _ := rfl
  name := by
    rintro r _ ⟨rfl, -⟩
    rfl
  sites := by
    rintro r _ ⟨rfl, hown, hreached⟩
    refine List.forall₂_same.2 fun s hs => ⟨rfl, rfl, ?_, rfl⟩
    exact frameRuns_definition ht (hreached.tail ⟨r, hown, s, hs, rfl⟩)
  parameters := by
    rintro r _ overrides _ scope _ path ⟨rfl, -⟩ rfl rfl
    rw [hquote]
    exact .of_self (fun _ => rfl) fun _ _ => rfl
  triggers := by
    rintro r _ own _ path ⟨rfl, hown, hreached⟩ rfl
    exact htriggers r ⟨path, own⟩ hown hreached
  component := by
    rintro r _ name own _ ts ts' cs cs' ⟨rfl, hown, -⟩ rfl hts hcs
    refine Component.related_mk (fun id parent depth path children => ⟨rfl, r, hown, ?_⟩) hcs
    show List.Forall₂ _ (ts.map (·.ownedBy id)) (ts'.map (·.ownedBy id))
    rw [List.forall₂_map_left_iff, List.forall₂_map_right_iff]
    exact hts.imp fun x x' hx => ⟨rfl, hx⟩

/-- **From the triggers at one instance to the trees.**  If two configurations with one limit of
depth lead to related triggers, or to one error, at all definitions that the main reactor
leads to, they lead to trees that are the same but for such triggers, or to one error. -/
theorem elaborate_frame {c c' : Config} (hlimit : c.maxDepth = c'.maxDepth)
    (htriggers : ∀ r owner, p.reactor? r.name = some r →
      ReflTransGen p.Instantiates p.main r.name →
      Agree Eq (List.Forall₂ (R r)) (Elaborator.triggers ⟨c, Expr.text⟩ owner r)
        (Elaborator.triggers ⟨c', Expr.text⟩ owner r)) :
    Agree Eq (InstanceTree.SameBut p R) (elaborate p c) (elaborate p c') := by
  rw [elaborate, elaborate]
  cases ht : p.definitions with
  | error cause => exact .error rfl
  | ok t =>
    have hsteps : (frameRuns p R).Respected ⟨c, Expr.text⟩ ⟨c', Expr.text⟩ t t :=
      frameRuns_respected ht hlimit rfl htriggers
    have hrun := hsteps.elaborate (frameRuns_definition ht .refl) rfl rfl
    refine hrun.imp fun tree tree' h => ?_
    obtain ⟨b, b', hb, rfl, rfl⟩ := h
    have hlayout := hb.layout 0 none 0 b.name
    show List.Forall₂ _ (b.layout 0 none 0 b.name) (b'.layout 0 none 0 b'.name)
    rwa [← hb.name]

end

/-! ### Other defaults -/

/-- The times in a field of a timer under two defaults: these, if the field is left out, and the
same time twice, if it is filled in. -/
inductive FilledIn (default default' : TimeValue) : Option Expr → TimeValue → TimeValue → Prop where
  | omitted : FilledIn default default' none default default'
  | given (x : Expr) (t : TimeValue) : FilledIn default default' (some x) t t

/-- Two triggers are the same but for what they have from the defaults of two configurations: both
times of a startup timer, and the times that the declaration of a timer leaves out. -/
inductive Trigger.SameButDefaults (c c' : Config) (r : ReactorDecl) : Trigger → Trigger → Prop where
  | startup : SameButDefaults c c' r
      ⟨c.startupName, .timer ⟨c.defaultOffset, c.defaultPeriod, true⟩⟩
      ⟨c.startupName, .timer ⟨c'.defaultOffset, c'.defaultPeriod, true⟩⟩
  | timer {d : TimerDecl} (hd : d ∈ r.timers) {offset offset' period period' : TimeValue}
      (hoffset : FilledIn c.defaultOffset c'.defaultOffset d.offset offset offset')
      (hperiod : FilledIn c.defaultPeriod c'.defaultPeriod d.period period period') :
      SameButDefaults c c' r ⟨d.name, .timer ⟨offset, period, false⟩⟩
        ⟨d.name, .timer ⟨offset', period', false⟩⟩
  /-- Actions and ports are the same. -/
  | other {t : Trigger} (h : t.timer? = none) : SameButDefaults c c' r t t

/-- Triggers that are the same but for defaults have one name. -/
theorem Trigger.SameButDefaults.name_eq {c c' : Config} {r : ReactorDecl} {t t' : Trigger}
    (h : t.SameButDefaults c c' r t') : t.name = t'.name := by
  cases h <;> rfl

namespace Elaborator

variable {c c' : Config} {quote : ExprPrinter} {owner : Owner} {r : ReactorDecl}

/-- A field that is filled in does not depend on the default. -/
theorem timeField_filledIn (trigger : String) (field : TriggerField) (default default' : TimeValue)
    (x? : Option Expr) :
    Agree Eq (FilledIn default default' x?)
      (timeField ⟨c, quote⟩ owner trigger field default x?)
      (timeField ⟨c', quote⟩ owner trigger field default' x?) := by
  cases x? with
  | none => exact .ok .omitted
  | some x =>
    have hsame : timeOf ⟨c', quote⟩ owner trigger field x =
        timeOf ⟨c, quote⟩ owner trigger field x := rfl
    rw [timeField, timeField, hsame]
    exact .of_self (fun _ => rfl) fun t _ => .given x t

theorem timer_sameButDefaults {d : TimerDecl} (hd : d ∈ r.timers) :
    Agree Eq (Trigger.SameButDefaults c c' r) (timer ⟨c, quote⟩ owner d)
      (timer ⟨c', quote⟩ owner d) := by
  unfold timer
  refine (timeField_filledIn _ _ _ _ _).bind fun offset offset' hoffset => ?_
  refine (timeField_filledIn _ _ _ _ _).bind fun period period' hperiod => ?_
  exact .ok (.timer hd hoffset hperiod)

/-- Actions do not depend on the configuration. -/
theorem action_sameButDefaults (r : ReactorDecl) (d : ActionDecl) :
    Agree Eq (Trigger.SameButDefaults c c' r) (action ⟨c, quote⟩ owner d)
      (action ⟨c', quote⟩ owner d) := by
  have hsame : action ⟨c', quote⟩ owner d = action ⟨c, quote⟩ owner d := rfl
  rw [hsame]
  refine .of_self (fun _ => rfl) fun t ht => .other ?_
  obtain ⟨_, _, -, -, rfl⟩ := action_eq_ok.1 ht
  rfl

/-- Ports do not depend on the configuration. -/
theorem port_sameButDefaults (r : ReactorDecl) (direction : PortDirection) (d : PortDecl) :
    Agree Eq (Trigger.SameButDefaults c c' r) (port ⟨c, quote⟩ owner direction d)
      (port ⟨c', quote⟩ owner direction d) := by
  have hsame : port ⟨c', quote⟩ owner direction d = port ⟨c, quote⟩ owner direction d := rfl
  rw [hsame]
  refine .of_self (fun _ => rfl) fun t ht => .other ?_
  obtain ⟨_, -, rfl⟩ := port_eq_ok.1 ht
  rfl

/-- The triggers of an instance under two configurations with one name for the startup timer. -/
theorem triggers_sameButDefaults (hname : c.startupName = c'.startupName) :
    Agree Eq (List.Forall₂ (Trigger.SameButDefaults c c' r)) (triggers ⟨c, quote⟩ owner r)
      (triggers ⟨c', quote⟩ owner r) := by
  have hdeclared : Agree Eq (List.Forall₂ (Trigger.SameButDefaults c c' r))
      (declaredTriggers ⟨c, quote⟩ owner r) (declaredTriggers ⟨c', quote⟩ owner r) := by
    unfold declaredTriggers
    refine (Agree.mapM_self fun d _ => port_sameButDefaults r _ d).bind fun is is' hi => ?_
    refine (Agree.mapM_self fun d _ => port_sameButDefaults r _ d).bind fun os os' ho => ?_
    refine (Agree.mapM_self fun d hd => timer_sameButDefaults hd).bind fun ts ts' ht => ?_
    refine (Agree.mapM_self fun d _ => action_sameButDefaults r d).bind fun as as' ha => ?_
    exact .ok (List.rel_append (List.rel_append (List.rel_append hi ho) ht) ha)
  refine hdeclared.bind fun ts ts' hts => ?_
  have hall : List.Forall₂ (Trigger.SameButDefaults c c' r) (startup ⟨c, quote⟩ :: ts)
      (startup ⟨c', quote⟩ :: ts') := by
    refine .cons ?_ hts
    unfold startup
    rw [← hname]
    exact .startup
  dsimp only
  -- the names are the same, and so is the first one that comes again
  rw [firstRepeated?_eq_of_names (map_eq_of_forall₂ hall fun _ _ h => h.name_eq)]
  cases firstRepeated? [] (startup ⟨c', quote⟩ :: ts') with
  | none => exact .ok hall
  | some name => exact .error rfl

end Elaborator

/-! ### Another name for the startup timer -/

/-- Two triggers are the same, or are startup timers with two names. -/
inductive Trigger.SameButStartupName (name name' : String) : Trigger → Trigger → Prop where
  | startup {timer : Timer} (h : timer.startup = true) :
      SameButStartupName name name' ⟨name, .timer timer⟩ ⟨name', .timer timer⟩
  | declared {t : Trigger} (h : ∀ timer, t.timer? = some timer → timer.startup = false) :
      SameButStartupName name name' t t

namespace Elaborator

variable {c : Config} {quote : ExprPrinter} {owner : Owner} {r : ReactorDecl}

/-- No declared trigger is a startup timer. -/
theorem startup_of_declaredTriggers {e : Elaborator} {ts : List Trigger}
    (h : e.declaredTriggers owner r = .ok ts) :
    ∀ t ∈ ts, ∀ timer, t.timer? = some timer → timer.startup = false := by
  obtain ⟨inputs, outputs, timers, actions, hi, ho, ht, ha, rfl⟩ := declaredTriggers_eq_ok.1 h
  have hport (direction : PortDirection) (d : PortDecl) (t : Trigger)
      (hd : e.port owner direction d = .ok t) : t.timer? = none := by
    obtain ⟨_, -, rfl⟩ := port_eq_ok.1 hd
    rfl
  intro t htrigger timer htimer
  simp only [List.mem_append] at htrigger
  rcases htrigger with ((hmem | hmem) | hmem) | hmem
  · obtain ⟨d, -, hd⟩ := exists_of_forall₂_left (mapM_eq_ok.1 hi).flip hmem
    rw [hport _ d t hd] at htimer
    cases htimer
  · obtain ⟨d, -, hd⟩ := exists_of_forall₂_left (mapM_eq_ok.1 ho).flip hmem
    rw [hport _ d t hd] at htimer
    cases htimer
  · obtain ⟨d, -, hd⟩ := exists_of_forall₂_left (mapM_eq_ok.1 ht).flip hmem
    obtain ⟨_, _, -, -, rfl⟩ := timer_eq_ok.1 hd
    cases htimer
    rfl
  · obtain ⟨d, -, hd⟩ := exists_of_forall₂_left (mapM_eq_ok.1 ha).flip hmem
    obtain ⟨_, _, -, -, rfl⟩ := action_eq_ok.1 hd
    cases htimer

/-- A startup timer whose name is not declared does not come twice. -/
theorem firstRepeated?_startup {e : Elaborator} {ts : List Trigger}
    (h : e.config.startupName ∉ ts.map Trigger.name) :
    firstRepeated? [] (e.startup :: ts) = firstRepeated? [] ts := by
  rw [firstRepeated?, if_neg List.not_mem_nil]
  refine firstRepeated?_eq_of_seen fun name hname => ?_
  refine iff_of_false (fun hmem => ?_) List.not_mem_nil
  rw [List.mem_singleton.1 hmem] at hname
  exact h hname

/-- The triggers of an instance under two names for the startup timer that are not declared. -/
theorem triggers_sameButStartupName {name : String} (hold : c.startupName ∉ r.triggerNames)
    (hnew : name ∉ r.triggerNames) :
    Agree Eq (List.Forall₂ (Trigger.SameButStartupName c.startupName name))
      (triggers ⟨c, quote⟩ owner r) (triggers ⟨{ c with startupName := name }, quote⟩ owner r) := by
  have hsame : declaredTriggers ⟨{ c with startupName := name }, quote⟩ owner r =
      declaredTriggers ⟨c, quote⟩ owner r := rfl
  have hdeclared : Agree Eq
      (fun ts ts' => ts = ts' ∧ declaredTriggers ⟨c, quote⟩ owner r = .ok ts)
      (declaredTriggers ⟨c, quote⟩ owner r)
      (declaredTriggers ⟨{ c with startupName := name }, quote⟩ owner r) := by
    rw [hsame]
    exact .of_self (fun _ => rfl) fun ts hts => ⟨rfl, hts⟩
  refine hdeclared.bind ?_
  rintro ts _ ⟨rfl, hts⟩
  have hnames := names_of_declaredTriggers hts
  dsimp only
  -- neither startup timer takes part in a clash
  rw [firstRepeated?_startup (hnames ▸ hold), firstRepeated?_startup (hnames ▸ hnew)]
  cases firstRepeated? [] ts with
  | some repeated => exact .error rfl
  | none =>
    refine .ok (.cons (.startup rfl) (List.forall₂_same.2 fun t ht => .declared ?_))
    exact startup_of_declaredTriggers hts t ht

end Elaborator

/-! ### Programs -/

/-- **What the configuration touches.**  Two configurations with one limit of depth and one name
for the startup timer lead to one error, or to trees that are the same but for the times of
the startup timers and those times of declared timers that the declarations leave out.  Two names
for the startup timer that no definition the main reactor leads to declares for a trigger
lead to one error, or to trees that are the same but for the names of the startup timers. -/
theorem elaborate_reads_configuration (p : Program) (c : Config) :
    (∀ c' : Config, c.maxDepth = c'.maxDepth → c.startupName = c'.startupName →
      Agree Eq (InstanceTree.SameBut p (Trigger.SameButDefaults c c'))
        (elaborate p c) (elaborate p c')) ∧
    ∀ name : String,
      (∀ r, p.reactor? r.name = some r → ReflTransGen p.Instantiates p.main r.name →
        c.startupName ∉ r.triggerNames ∧ name ∉ r.triggerNames) →
      Agree Eq (InstanceTree.SameBut p fun _ => Trigger.SameButStartupName c.startupName name)
        (elaborate p c) (elaborate p { c with startupName := name }) := by
  constructor
  · intro c' hlimit hname
    exact elaborate_frame hlimit fun r owner _ _ => Elaborator.triggers_sameButDefaults hname
  · intro name hfresh
    refine elaborate_frame rfl fun r owner hown hreached => ?_
    obtain ⟨hold, hnew⟩ := hfresh r hown hreached
    exact Elaborator.triggers_sameButStartupName hold hnew

/-- A main reactor with a sensor, whose timer has a period but no offset. -/
def tickingSensor : Program where
  main := "Main"
  reactors :=
    [(ReactorDecl.named "Main").withInstance "a" "Sensor" [],
      (ReactorDecl.named "Sensor").withTimer "tick" none (some (.time ⟨1, .sec⟩))]

/-- The sensor is elaborated with other defaults, and with another name for its startup timer. -/
theorem ticking_sensor_configured : ∃ tree delayed renamed,
    elaborate tickingSensor {} = .ok tree ∧
    elaborate tickingSensor { defaultOffset := ⟨5, .msec⟩ } = .ok delayed ∧
    tree.SameBut tickingSensor (Trigger.SameButDefaults {} { defaultOffset := ⟨5, .msec⟩ })
      delayed ∧
    elaborate tickingSensor { startupName := "go" } = .ok renamed ∧
    tree.SameBut tickingSensor (fun _ => Trigger.SameButStartupName "startup" "go") renamed := by
  have hruns : ∃ tree, elaborate tickingSensor {} = .ok tree :=
    exists_elaborate_of_within (by decide +kernel)
  obtain ⟨tree, h⟩ := hruns
  obtain ⟨hdefaults, hname⟩ := elaborate_reads_configuration tickingSensor {}
  have hdelayed := hdefaults { defaultOffset := ⟨5, .msec⟩ } rfl rfl
  have hrenamed := hname "go" fun r hr _ => by
    rcases List.mem_pair.1 (List.mem_of_find?_eq_some hr) with rfl | rfl <;> decide
  rw [h] at hdelayed hrenamed
  obtain ⟨delayed, hrun, hsame⟩ := hdelayed.exists_of_ok
  obtain ⟨renamed, hrun', hsame'⟩ := hrenamed.exists_of_ok
  exact ⟨tree, delayed, renamed, h, hrun, hsame, hrun', hsame'⟩

end Reactors

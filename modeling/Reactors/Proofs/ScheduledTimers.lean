import Mathlib.Algebra.GroupWithZero.Nat
import Mathlib.Data.List.Nodup
import Reactors.CommandLine.Run
import Reactors.Files.System
import Reactors.Proofs.Nesting
import Reactors.Proofs.NumberedTrees
import Reactors.Proofs.Subtrees
import Reactors.Proofs.TriggerLists

/-!
# The timers of a tree

A scheduler asks a tree for its timers.  It gets the timers of each instance in turn, in the order
of the walk: first the startup timer, and then those that the definition of the reactor declares, in
the order of the declarations.  The other triggers are passed over, and no timer is lost or
comes twice: a timer is known by the number of its instance and its own name, since an
instance has no name twice among its triggers.

So there are as many timers as there are instances and, for each instance, declared timers in its
definition.  That is the number that a check of a design prints.

## Main definitions

* `TimerDecl.Listed` — a declared timer among those of an instance.
* `Instance.SchedulesTimers` — the timers of an instance, in order.
* `CommandLine.checked` — what a check of a design prints.

## Main results

* `exists_lists` — the instances of a tree list the triggers of their definitions.
* `Instance.schedulesTimers_of_lists` — which of them are timers.
* `InstanceTree.nodup_timers` — no timer comes twice.
* `elaborate_schedules_timers` — the timers of a tree.
-/

namespace Reactors

/-! ### The triggers of the instances of a tree -/

/-- Every instance of an elaborated tree lists the triggers of the definition of its reactor, and no
two of them have one name. -/
theorem exists_lists {p : Program} {config : Config} {tree : InstanceTree}
    (h : elaborate p config = .ok tree) {i : Instance} (hi : i ∈ tree.instances) :
    ∃ r, p.reactor? i.reactor = some r ∧ i.Lists config r i.triggers ∧
      (i.triggers.map (·.name)).Nodup := by
  obtain ⟨t, r, b, _, path, _, _, _, htable, hget, -, -, hb, houtermost⟩ := exists_outermost h
    (fun _ _ _ => True) (fun _ _ => trivial) (fun _ _ _ _ _ _ _ _ _ => trivial) hi
  obtain ⟨-, own, children, triggers, -, -, htriggers, rfl⟩ := Elaborator.expand_eq_ok.1 hb
  have hown : i.owner.parameters = own := congrArg Instance.parameters houtermost
  have hsame : Scope.SameValues (Owner.mk path own).parameters i.owner.parameters := by
    rw [hown]
    exact .refl own
  have hmade : ownTriggers ⟨config, Expr.text⟩ (some i) r = .ok i.triggers := by
    rw [ownTriggers, map_eq_ok]
    exact ⟨triggers, (Elaborator.triggers_eq_ok_congr rfl hsame).1 htriggers,
      (congrArg Instance.triggers houtermost).symm⟩
  rw [← Program.reactor?_eq_get? htable] at hget
  exact ⟨r, hget, Elaborator.ownTriggers_eq_ok_iff.1 hmade⟩

/-! ### The timers of an instance -/

/-- A timer among those of an instance, and the declaration that it is made of. -/
structure TimerDecl.Listed (c : Config) (i : Instance) (d : TimerDecl)
    (x : TriggerInstance × Timer) : Prop where
  made : d.Makes c i.parameters x.1.toTrigger
  timer : x.1.kind = .timer x.2
  owner : x.1.parent = i.id

/-- The timers of an instance of a definition: the startup timer and then the declared ones. -/
def Instance.SchedulesTimers (c : Config) (r : ReactorDecl) (i : Instance) : Prop :=
  ∃ declared, i.timers =
      (⟨⟨c.startupName, .timer ⟨c.defaultOffset, c.defaultPeriod, true⟩⟩, i.id⟩,
        ⟨c.defaultOffset, c.defaultPeriod, true⟩) :: declared ∧
    List.Forall₂ (TimerDecl.Listed c i) r.timers declared

namespace Instance

variable {c : Config} {i : Instance} {r : ReactorDecl} {ts : List TriggerInstance}

/-- A trigger by itself as a timer of the instance, if it is one. -/
def timerOf (i : Instance) (t : Trigger) : Option (TriggerInstance × Timer) :=
  t.timer?.map (t.ownedBy i.id, ·)

theorem timers_withTriggers (i : Instance) (made : List Trigger) :
    (i.withTriggers (made.map (·.ownedBy i.id))).timers = made.filterMap i.timerOf :=
  List.filterMap_map ..

/-- Of the triggers that other declarations make none is a timer. -/
theorem filterMap_timerOf_eq_nil {α : Type} {R : α → Trigger → Prop} {ds : List α}
    {made : List Trigger} (h : List.Forall₂ R ds made)
    (hother : ∀ d t, R d t → t.timer? = none) : made.filterMap i.timerOf = [] := by
  rw [List.filterMap_eq_nil_iff]
  intro t ht
  obtain ⟨d, -, hd⟩ := exists_of_forall₂_left h.flip ht
  rw [timerOf, hother d t hd]
  rfl

/-- The triggers that the declarations of timers make are timers, one for each. -/
theorem forall₂_listed {ds : List TimerDecl} {made : List Trigger}
    (h : List.Forall₂ (TimerDecl.Makes c i.parameters) ds made) :
    List.Forall₂ (TimerDecl.Listed c i) ds (made.filterMap i.timerOf) := by
  induction h with
  | nil => exact .nil
  | cons hmakes _ ih =>
    cases hmakes with
    | mk hoffset hperiod => exact .cons ⟨.mk hoffset hperiod, rfl, rfl⟩ ih

/-- Of the triggers that an instance lists, the startup timer and the declared timers are timers. -/
theorem schedulesTimers_of_lists (h : i.Lists c r ts) :
    (i.withTriggers ts).SchedulesTimers c r := by
  obtain ⟨hinputs, houtputs, htimers, hactions⟩ := h
  have hport : ∀ direction (d : PortDecl) t,
      d.Makes i.parameters direction t → t.timer? = none := by
    rintro _ d t ⟨⟩
    rfl
  have haction : ∀ (d : ActionDecl) t, d.Makes i.parameters t → t.timer? = none := by
    rintro d t ⟨⟩
    rfl
  -- ports and actions fall out of the list, and the startup timer stays in front of the others
  refine ⟨_, ?_, forall₂_listed htimers⟩
  rw [timers_withTriggers, List.filterMap_cons_some (f := i.timerOf) rfl, List.filterMap_append,
    List.filterMap_append, List.filterMap_append, filterMap_timerOf_eq_nil hinputs (hport _),
    filterMap_timerOf_eq_nil houtputs (hport _), filterMap_timerOf_eq_nil hactions haction,
    List.append_nil]
  rfl

/-- There is one timer more than declared ones. -/
theorem SchedulesTimers.length_timers (h : i.SchedulesTimers c r) :
    i.timers.length = 1 + r.timers.length := by
  obtain ⟨declared, htimers, hdeclared⟩ := h
  rw [htimers, List.length_cons, ← hdeclared.length_eq, Nat.add_comm]

theorem mem_timers_iff {t : TriggerInstance} {timer : Timer} :
    (t, timer) ∈ i.timers ↔ t ∈ i.triggers ∧ t.kind = .timer timer := by
  have hview : t.timer? = some timer ↔ t.kind = .timer timer := by
    rw [Trigger.timer?]
    cases t.kind <;> simp
  rw [← hview, timers, triggersOf, List.mem_filterMap]
  constructor
  · rintro ⟨t', ht', hpair⟩
    obtain ⟨timer', htimer, hpair⟩ := Option.map_eq_some_iff.1 hpair
    cases hpair
    exact ⟨ht', htimer⟩
  · rintro ⟨ht, htimer⟩
    exact ⟨t, ht, by rw [htimer]; rfl⟩

/-- The timers of an instance stand among its triggers in the same order. -/
theorem sublist_timers (i : Instance) : (i.timers.map Prod.fst).Sublist i.triggers := by
  have hfst : ∀ t : TriggerInstance, ((t.timer?.map (t, ·)).map Prod.fst) =
      Option.guard (fun t : TriggerInstance => t.timer?.isSome) t := by
    intro t
    cases h : t.timer? <;> simp [Option.guard, h]
  rw [timers, triggersOf, List.map_filterMap]
  simp only [hfst]
  rw [List.filterMap_eq_filter]
  exact List.filter_sublist

end Instance

/-! ### The timers of a tree -/

namespace InstanceTree

variable {tree : InstanceTree}

/-- The timers of an instance are paired with it. -/
theorem mem_timers_iff (hpreorder : tree.preorder = tree.instances) {i : Instance}
    {t : TriggerInstance} {timer : Timer} : (i, t, timer) ∈ tree.timers ↔
      i ∈ tree.instances ∧ t ∈ i.triggers ∧ t.kind = .timer timer := by
  rw [timers, hpreorder, List.mem_flatMap, ← Instance.mem_timers_iff]
  constructor
  · rintro ⟨i', hi', hpair⟩
    obtain ⟨x, hx, heq⟩ := List.mem_map.1 hpair
    cases heq
    exact ⟨hi', hx⟩
  · rintro ⟨hi, hx⟩
    exact ⟨i, hi, List.mem_map_of_mem hx⟩

/-- No timer comes twice if no number of an instance does, and no name among the triggers of
one instance. -/
theorem nodup_timers (hpreorder : tree.preorder = tree.instances)
    (hids : (tree.instances.map Instance.id).Nodup)
    (hnames : ∀ i ∈ tree.instances, (i.triggers.map (·.name)).Nodup) :
    (tree.timers.map fun x => (x.1.id, x.2.1.name)).Nodup := by
  rw [timers, hpreorder, List.map_flatMap, List.nodup_flatMap]
  refine ⟨fun i hi => ?_, (List.pairwise_map.1 hids).imp fun hne => ?_⟩
  · have hown := (hnames i hi).sublist (i.sublist_timers.map (·.name))
    have hkeys : (i.timers.map (i, ·)).map (fun x => (x.1.id, x.2.1.name)) =
        ((i.timers.map Prod.fst).map (·.name)).map (i.id, ·) := by
      rw [List.map_map, List.map_map, List.map_map]
      rfl
    rw [hkeys]
    exact hown.map fun _ _ hpair => (Prod.mk.inj hpair).2
  · -- what is listed for an instance bears its number
    refine List.disjoint_left.2 ?_
    intro key hkey hkey'
    simp only [List.map_map, List.mem_map] at hkey hkey'
    obtain ⟨_, -, rfl⟩ := hkey
    obtain ⟨_, -, hsame⟩ := hkey'
    exact hne (congrArg Prod.fst hsame).symm

end InstanceTree

/-- How many timers the instances of a tree have by the definitions of their reactors. -/
def Program.countTimers (p : Program) (tree : InstanceTree) : Nat :=
  (tree.instances.map fun i => 1 + (p.reactor? i.reactor).elim 0 (·.timers.length)).sum

namespace CommandLine

/-- What a check of a design prints: the main reactor, and how many instances and timers there
are. -/
def checked (reactor : String) (instances timers : Nat) : String :=
  "✅ " ++ reactor ++ " elaborated: " ++ Text.natural instances ++ " instances, " ++
    Text.natural timers ++ " timers\n"

/-- A check prints the number of the timers of the tree. -/
theorem execute_check {m : Type → Type} [Monad m] [LawfulMonad m] (files : FileAccess m)
    (design : String) (config : Option String) : execute files (.check design config) =
      (fun tree => checked tree.root.reactor tree.size tree.timers.length) <$>
        loadTree files design config := by
  rw [execute, map_eq_pure_bind]
  rfl

end CommandLine

/-- **The timers of a tree.**  They are the timers of each instance in turn, in the order of a walk
from the root that leaves none of the instances out.  Of each instance the startup timer comes
first; the timers that the definition of its reactor declares follow in the order of the
declarations.  So every timer of every instance is there, together with the instance that holds it,
and no timer comes twice; and there are as many as a check of the tree prints, one for each
instance and one for each timer that its definition declares. -/
theorem elaborate_schedules_timers {p : Program} {config : Config} {tree : InstanceTree}
    (h : elaborate p config = .ok tree) :
    tree.Walk [0] tree.instances [] ∧
    tree.timers = tree.instances.flatMap (fun i => i.timers.map (i, ·)) ∧
    (∀ i ∈ tree.instances, ∃ r, p.reactor? i.reactor = some r ∧ i.SchedulesTimers config r) ∧
    (∀ i t timer, (i, t, timer) ∈ tree.timers ↔
      i ∈ tree.instances ∧ t ∈ i.triggers ∧ t.kind = .timer timer) ∧
    (tree.timers.map fun x => (x.1.id, x.2.1.name)).Nodup ∧
    tree.timers.length = p.countTimers tree ∧
    ∀ (fs : FileSystem) (design : String) (named : Option String),
      ((CommandLine.execute FileSystem.access (.check design named)).run.run fs).1 =
        ((CommandLine.loadTree FileSystem.access design named).run.run fs).1.map fun t =>
          CommandLine.checked t.root.reactor t.size t.timers.length := by
  obtain ⟨_, _, c, -, -, -, htree⟩ := elaborate_eq_ok.1 h
  have hpreorder : tree.preorder = tree.instances := htree ▸ c.preorder_toTree
  have hwalk : tree.Walk [0] tree.preorder [] := htree ▸ c.descends_toTree.walk_preorder
  -- names are distinct within one instance only; numbers tell the instances apart
  have hids : (tree.instances.map Instance.id).Nodup := by
    rw [htree, show c.toTree.instances.map Instance.id = List.range' 0 c.size from
      Component.ids_layout 0 none 0 c.name c]
    exact List.nodup_range'
  have hlists : ∀ i ∈ tree.instances, ∃ r, p.reactor? i.reactor = some r ∧
      i.SchedulesTimers config r := fun i hi => by
    obtain ⟨r, hr, hlists, -⟩ := exists_lists h hi
    exact ⟨r, hr, Instance.schedulesTimers_of_lists hlists⟩
  have hnames : ∀ i ∈ tree.instances, (i.triggers.map (·.name)).Nodup := fun i hi => by
    obtain ⟨_, -, -, hnames⟩ := exists_lists h hi
    exact hnames
  refine ⟨hpreorder ▸ hwalk, by rw [InstanceTree.timers, hpreorder], hlists,
    fun i t timer => InstanceTree.mem_timers_iff hpreorder,
    InstanceTree.nodup_timers hpreorder hids hnames, ?_, fun fs design named => ?_⟩
  · -- both numbers are sums over the instances
    rw [InstanceTree.timers, hpreorder, List.length_flatMap, Program.countTimers]
    refine congrArg List.sum (List.map_congr_left fun i hi => ?_)
    obtain ⟨r, hr, hschedules⟩ := hlists i hi
    rw [List.length_map, hschedules.length_timers, hr]
    rfl
  · rw [CommandLine.execute_check, ExceptT.run_map, StateT.run_map]
    rfl

/-- A main reactor with a timer and two sensors, with two timers each among other triggers. -/
def twoSensors : Program where
  main := "Main"
  reactors :=
    [(((ReactorDecl.named "Main").withTimer "clock" none (some (.time ⟨1, .sec⟩))).withInstance
        "left" "Sensor" []).withInstance "right" "Sensor" [],
      { ((ReactorDecl.named "Sensor").withTimer "tick" (some (.time ⟨5, .msec⟩)) none).withTimer
          "tock" none (some (.time ⟨2, .sec⟩)) with
        inputs := [⟨"reset", none, none⟩]
        actions := [⟨"alarm", .logical, none, none, none⟩] }]

/-- Each sensor has its own startup timer and its own two timers. -/
theorem two_sensors_scheduled : ∃ tree, elaborate twoSensors {} = .ok tree ∧
    (tree.timers.map fun x => (x.1.path, x.2.1.name)) =
      [("Main", "startup"), ("Main", "clock"),
        ("Main.left", "startup"), ("Main.left", "tick"), ("Main.left", "tock"),
        ("Main.right", "startup"), ("Main.right", "tick"), ("Main.right", "tock")] ∧
    tree.timers.length = twoSensors.countTimers tree ∧
    (tree.timers.map fun x => (x.1.id, x.2.1.name)).Nodup := by
  have hrun : ((elaborate twoSensors {}).toOption.map fun tree =>
      tree.timers.map fun x => (x.1.path, x.2.1.name)) =
      some [("Main", "startup"), ("Main", "clock"),
        ("Main.left", "startup"), ("Main.left", "tick"), ("Main.left", "tock"),
        ("Main.right", "startup"), ("Main.right", "tick"), ("Main.right", "tock")] := by
    rw [elaborate_eq_within]
    decide +kernel
  have hruns : ∃ tree, elaborate twoSensors {} = .ok tree :=
    exists_elaborate_of_within (by decide +kernel)
  obtain ⟨tree, h⟩ := hruns
  rw [h] at hrun
  obtain ⟨-, -, -, -, hnodup, hlength, -⟩ := elaborate_schedules_timers h
  exact ⟨tree, h, Option.some.inj hrun, hlength, hnodup⟩

end Reactors

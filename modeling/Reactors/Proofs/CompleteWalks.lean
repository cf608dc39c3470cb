import Mathlib.Data.List.Nodup
import Reactors.Instance.Dump
import Reactors.Proofs.LoadedTrees

/-!
# Complete walks

A walk through a loaded tree comes by an instance as often as by its parent, times the number
of times that the parent lists it as a child.  So it yields all instances, each of them once,
exactly if every parent lists its children once; loading does not check that.

## Main definitions

* `InstanceTree.visits` — how often a walk comes by a number.
* `InstanceTree.ListsChildren` — every parent lists its children once.

## Main results

* `InstanceTree.Linked.visits_eq_mul` — visits of an instance and of its parent.
* `InstanceTree.Linked.preorder_perm_iff` — when a walk yields every instance once.
* `loaded_walk_complete_iff` — the same for loaded trees, with timers and dump.
-/

namespace Reactors
namespace InstanceTree

/-! ### Visits -/

/-- How often the walk from a stack comes by a number. -/
def visits (t : InstanceTree) (stack : List Nat) (n : Nat) : Nat :=
  ((stack.flatMap t.preorderFrom).map Instance.id).count n

/-- Every instance but the root is listed once among the children of its parent. -/
def ListsChildren (t : InstanceTree) : Prop :=
  ∀ n i m p, t.get? n = some i → i.parent = some m → t.get? m = some p → p.children.count n = 1

section

variable {t : InstanceTree} {m n k : Nat} {stack : List Nat}

theorem visits_singleton (t : InstanceTree) (start n : Nat) :
    t.visits [start] n = ((t.preorderFrom start).map Instance.id).count n := by
  rw [visits, List.flatMap_singleton]

theorem visits_cons (t : InstanceTree) (start : Nat) (stack : List Nat) (n : Nat) :
    t.visits (start :: stack) n = t.visits [start] n + t.visits stack n := by
  rw [visits_singleton, visits, visits, List.flatMap_cons, List.map_append, List.count_append]

theorem visits_eq_zero_of_forall (h : ∀ c ∈ stack, t.visits [c] n = 0) : t.visits stack n = 0 := by
  induction stack with
  | nil => rfl
  | cons c cs ih =>
    rw [visits_cons, h c List.mem_cons_self, ih fun c' hc' => h c' (List.mem_cons_of_mem _ hc')]

/-- Suppose that a walk from any other number of a stack comes by `n` as often as by `m` times
`k`, and that the one from `n` does not come by `m`.  Then the walk from the stack comes by `n`
as often as that and once more for each time that `n` is on the stack. -/
theorem visits_eq_mul_add_count (hother : ∀ c ∈ stack, c ≠ n → t.visits [c] n = t.visits [c] m * k)
    (hself : t.visits [n] n = 1) (hback : t.visits [n] m = 0) :
    t.visits stack n = t.visits stack m * k + stack.count n := by
  induction stack with
  | nil => exact (Nat.zero_mul k).symm
  | cons c cs ih =>
    have ih' := ih fun c' hc' => hother c' (List.mem_cons_of_mem _ hc')
    rw [visits_cons, visits_cons t c cs m, ih', Nat.add_mul, List.count_cons]
    -- the walk from `n` itself adds one on the left and nothing under the product
    by_cases hcn : c = n
    · rw [hcn, hself, hback, if_pos (beq_self_eq_true n)]
      omega
    · rw [hother c List.mem_cons_self hcn, if_neg (by simpa using hcn)]
      omega

end

namespace Linked

variable {t : InstanceTree} {m n start : Nat} {i p : Instance}

/-- A walk comes by its start and by what the children lead to. -/
theorem visits_start (h : t.Linked) (hi : t.get? start = some i) (n : Nat) :
    t.visits [start] n = (if start = n then 1 else 0) + t.visits i.children n := by
  rw [visits_singleton, h.descends.preorderFrom_eq hi, List.map_cons, List.count_cons,
    h.id start i hi, Nat.add_comm]
  simp only [beq_iff_eq]
  rfl

/-- A walk comes by nothing in front of its start. -/
theorem visits_eq_zero (h : t.Linked) (hstart : start < t.size) :
    n < start → t.visits [start] n = 0 := by
  refine h.descends.induction (P := fun x => n < x → t.visits [x] n = 0)
    (fun x i hi ih hn => ?_) hstart
  rw [h.visits_start hi, if_neg (Nat.ne_of_gt hn), Nat.zero_add]
  exact visits_eq_zero_of_forall fun c hc =>
    ih c hc (Nat.lt_trans hn (h.descends x i hi c hc).1)

/-- A walk comes by its start once. -/
theorem visits_self (h : t.Linked) (hstart : start < t.size) : t.visits [start] start = 1 := by
  have hi : t.get? start = some t.instances[start] := List.getElem?_eq_getElem hstart
  rw [h.visits_start hi, if_pos rfl, visits_eq_zero_of_forall fun c hc => ?_]
  obtain ⟨hlt, hc'⟩ := h.descends start _ hi c hc
  exact h.visits_eq_zero hc' hlt

/-- **Visits multiply.**  A walk from another instance comes by an instance as often as by its
parent, times the number of times that the parent lists it. -/
theorem visits_eq_mul (h : t.Linked) (hi : t.get? n = some i) (hparent : i.parent = some m)
    (hp : t.get? m = some p) (hstart : start < t.size) :
    start ≠ n → t.visits [start] n = t.visits [start] m * p.children.count n := by
  have hn : n < t.size := (List.getElem?_eq_some_iff.1 hi).1
  have hmn : m < n := h.parent_lt hi hparent
  refine h.descends.induction (P := fun x => x ≠ n → t.visits [x] n =
    t.visits [x] m * p.children.count n) (fun x j hj ih hne => ?_) hstart
  have hchildren := visits_eq_mul_add_count ih (h.visits_self hn) (h.visits_eq_zero hn hmn)
  rw [h.visits_start hj, if_neg hne, Nat.zero_add, hchildren, h.visits_start hj]
  by_cases hxm : x = m
  · -- the walk comes by the parent once more than its children lead to it
    subst hxm
    rw [hp, Option.some.injEq] at hj
    rw [if_pos rfl, ← hj, Nat.add_mul, Nat.one_mul, Nat.add_comm]
  · -- only the parent lists `n`
    have hnone : j.children.count n = 0 := by
      refine List.count_eq_zero.2 fun hmem => ?_
      obtain ⟨-, i', hi', hparent'⟩ := h.child x j hj n hmem
      rw [hi, Option.some.injEq] at hi'
      rw [← hi', hparent, Option.some.injEq] at hparent'
      exact hxm hparent'.symm
    rw [if_neg hxm, hnone, Nat.zero_add, Nat.add_zero]

/-- The walk from the root comes by every instance once exactly if every parent lists its
children once. -/
theorem visits_eq_one_iff (h : t.Linked) :
    (∀ n < t.size, t.visits [0] n = 1) ↔ t.ListsChildren := by
  have hroot : 0 < t.size := List.length_pos_iff.2 t.nonempty
  constructor
  · intro hone n i m p hi hparent hp
    have hn : n < t.size := (List.getElem?_eq_some_iff.1 hi).1
    have hm : m < t.size := (List.getElem?_eq_some_iff.1 hp).1
    have hmul := h.visits_eq_mul hi hparent hp hroot
      (Nat.ne_of_lt (h.pos_of_parent hi hparent))
    rw [hone n hn, hone m hm, Nat.one_mul] at hmul
    exact hmul.symm
  · intro hlists n
    induction n using Nat.strongRecOn with
    | ind n ih =>
      intro hn
      rcases Nat.eq_zero_or_pos n with rfl | hpos
      · exact h.visits_self hn
      · have hi : t.get? n = some t.instances[n] := List.getElem?_eq_getElem hn
        obtain ⟨m, hparent, hlt⟩ := h.parent n _ hi hpos
        have hm : m < t.size := Nat.lt_trans hlt hn
        have hp : t.get? m = some t.instances[m] := List.getElem?_eq_getElem hm
        -- the walk comes by the parent once, and the parent lists the instance once
        rw [h.visits_eq_mul hi hparent hp hroot (Nat.ne_of_lt hpos), ih m hlt hm,
          hlists n _ m _ hi hparent hp]

/-! ### All instances, each once -/

/-- What a walk yields stands in the tree under its number. -/
theorem get?_of_mem_preorderFrom (h : t.Linked) (hstart : start < t.size) :
    ∀ j ∈ t.preorderFrom start, t.get? j.id = some j := by
  refine h.descends.induction (P := fun x => ∀ j ∈ t.preorderFrom x, t.get? j.id = some j)
    (fun x i hi ih j hj => ?_) hstart
  rw [h.descends.preorderFrom_eq hi] at hj
  rcases List.mem_cons.1 hj with rfl | hj
  · rw [h.id x j hi, hi]
  · obtain ⟨c, hc, hj⟩ := List.mem_flatMap.1 hj
    exact ih c hc j hj

/-- Instances that stand in a tree under their numbers can be got back from these. -/
theorem filterMap_get?_map_id {l : List Instance} (hl : ∀ j ∈ l, t.get? j.id = some j) :
    (l.map Instance.id).filterMap t.get? = l := by
  rw [List.filterMap_map]
  calc l.filterMap (t.get? ∘ Instance.id) = l.filterMap some :=
        List.filterMap_congr fun j hj => hl j hj
    _ = l := List.filterMap_some

/-- **When a walk is complete.**  The walk from the root yields all instances, each of them
once, exactly if every parent lists its children once. -/
theorem preorder_perm_iff (h : t.Linked) : t.preorder.Perm t.instances ↔ t.ListsChildren := by
  have hroot : 0 < t.size := List.length_pos_iff.2 t.nonempty
  have hwalked : ∀ j ∈ t.preorder, t.get? j.id = some j := h.get?_of_mem_preorderFrom hroot
  have hcount : ∀ n < t.size, (t.instances.map Instance.id).count n = 1 := fun n hn => by
    rw [h.positioned.map_id_instances]
    exact List.count_eq_one_of_mem List.nodup_range (List.mem_range.2 hn)
  rw [← h.visits_eq_one_iff]
  constructor
  · intro hperm n hn
    rw [visits_singleton]
    exact ((hperm.map Instance.id).count_eq n).trans (hcount n hn)
  · intro hone
    have hids : (t.preorder.map Instance.id).Perm (t.instances.map Instance.id) := by
      refine List.perm_iff_count.2 fun n => ?_
      by_cases hn : n < t.size
      · rw [hcount n hn, ← hone n hn, visits_singleton]
        rfl
      · -- neither list has numbers that are not numbers of instances
        have hnone : n ∉ t.preorder.map Instance.id := fun hmem => by
          obtain ⟨j, hj, rfl⟩ := List.mem_map.1 hmem
          exact hn (List.getElem?_eq_some_iff.1 (hwalked j hj)).1
        have hnone' : n ∉ t.instances.map Instance.id := by
          rw [h.positioned.map_id_instances, List.mem_range]
          exact hn
        rw [List.count_eq_zero.2 hnone, List.count_eq_zero.2 hnone']
    -- both lists are given by their numbers
    have hback := hids.filterMap t.get?
    rwa [filterMap_get?_map_id hwalked, filterMap_get?_map_id fun j hj => h.get?_of_mem hj] at hback

end Linked
end InstanceTree

/-! ### Loaded trees -/

/-- **Loaded trees and their walks.**  In a loaded tree an instance is listed as a child by no
other instance than its parent, and the walk from the root comes to an end with nothing left.
It yields every instance once exactly if every parent lists its children once; then the
timers and the dump leave no instance out and repeat none. -/
theorem loaded_walk_complete_iff {is : List Instance} {tree : InstanceTree}
    (h : InstanceTree.ofInstances? is = .ok tree) :
    (∀ m p n, tree.get? m = some p → n ∈ p.children →
      ∃ i, tree.get? n = some i ∧ i.parent = some m) ∧
    tree.Walk [0] tree.preorder [] ∧
    (tree.preorder.Perm tree.instances ↔ tree.ListsChildren) ∧
    (tree.ListsChildren →
      tree.timers.Perm (tree.instances.flatMap fun i => i.timers.map (i, ·)) ∧
      ∃ is' : List Instance, is'.Perm tree.instances ∧
        tree.render = String.join (is'.map Instance.render)) := by
  have hlinked := (InstanceTree.ofInstances?_eq_ok.1 h).2
  refine ⟨fun m p n hp hn => (hlinked.child m p hp n hn).2, hlinked.descends.walk_preorder,
    hlinked.preorder_perm_iff, fun hlists => ?_⟩
  have hperm := hlinked.preorder_perm_iff.2 hlists
  exact ⟨hperm.flatMap_right _, tree.preorder, hperm, rfl⟩

/-- An instance inside the main instance, with a timer. -/
def timedInstance : Instance where
  id := 1
  name := "a"
  reactor := "A"
  parent := some 0
  depth := 1
  path := "Main.a"
  children := []
  parameters := .empty
  triggers := [⟨⟨"startup", .timer ⟨.zero, .zero, true⟩⟩, 1⟩]

/-- A main instance that lists that instance a number of times. -/
def mainListing (times : Nat) : InstanceTree where
  instances :=
    [{ id := 0, name := "Main", reactor := "Main", parent := none, depth := 0, path := "Main",
       children := List.replicate times 1, parameters := .empty, triggers := [] },
      timedInstance]
  nonempty := List.cons_ne_nil _ _

/-- The checks do not look at how often the main instance lists the other one. -/
theorem linked_mainListing (times : Nat) : (mainListing times).Linked where
  root := rfl
  id := by
    intro n i hi
    rcases n with _ | _ | n <;> cases hi <;> rfl
  parent := by
    intro n i hi hpos
    rcases n with _ | _ | n <;> cases hi
    · exact absurd hpos (Nat.lt_irrefl 0)
    · exact ⟨0, rfl, Nat.zero_lt_one⟩
  child := by
    intro n i hi c hc
    rcases n with _ | _ | n <;> cases hi
    · rw [List.eq_of_mem_replicate hc]
      exact ⟨Nat.zero_lt_one, _, rfl, rfl⟩
    · cases hc
  paths := by
    show ["Main", "Main.a"].Nodup
    decide

/-- The walk meets the instance as often as it is listed. -/
theorem preorder_mainListing (times : Nat) :
    (mainListing times).preorder =
      (mainListing times).root :: List.replicate times timedInstance := by
  have hdescends := (linked_mainListing times).descends
  have hinside : (mainListing times).preorderFrom 1 = [timedInstance] :=
    hdescends.preorderFrom_eq rfl
  have hmain : (mainListing times).preorder = (mainListing times).root ::
      (List.replicate times 1).flatMap (mainListing times).preorderFrom :=
    hdescends.preorderFrom_eq rfl
  rw [hmain, List.flatMap, List.map_replicate, hinside, List.flatten_replicate_singleton]

/-- A walk through main instances that list the other instance once is complete. -/
theorem main_listing_once : ∃ tree, InstanceTree.ofInstances? (mainListing 1).instances = .ok tree ∧
    (∀ m p n, tree.get? m = some p → n ∈ p.children →
      ∃ i, tree.get? n = some i ∧ i.parent = some m) ∧
    tree.Walk [0] tree.preorder [] ∧
    (tree.preorder.Perm tree.instances ↔ tree.ListsChildren) ∧
    (tree.ListsChildren →
      tree.timers.Perm (tree.instances.flatMap fun i => i.timers.map (i, ·)) ∧
      ∃ is' : List Instance, is'.Perm tree.instances ∧
        tree.render = String.join (is'.map Instance.render)) := by
  have h : InstanceTree.ofInstances? (mainListing 1).instances = .ok (mainListing 1) :=
    InstanceTree.ofInstances?_eq_ok.2 ⟨rfl, linked_mainListing 1⟩
  exact ⟨mainListing 1, h, loaded_walk_complete_iff h⟩

/-- Loaded trees need not be walked completely: an instance that its parent does not list is left
out with its timer, and one that it lists twice is met twice. -/
theorem main_listing_unevenly : ∃ orphaned doubled : InstanceTree,
    InstanceTree.ofInstances? (mainListing 0).instances = .ok orphaned ∧
    orphaned.size = 2 ∧ orphaned.preorder.length = 1 ∧ orphaned.timers.length = 0 ∧
    InstanceTree.ofInstances? (mainListing 2).instances = .ok doubled ∧
    doubled.size = 2 ∧ doubled.preorder.length = 3 ∧ doubled.timers.length = 2 := by
  refine ⟨mainListing 0, mainListing 2,
    InstanceTree.ofInstances?_eq_ok.2 ⟨rfl, linked_mainListing 0⟩, rfl, ?_, ?_,
    InstanceTree.ofInstances?_eq_ok.2 ⟨rfl, linked_mainListing 2⟩, rfl, ?_, ?_⟩
  · rw [preorder_mainListing]
    rfl
  · rw [InstanceTree.timers, preorder_mainListing]
    rfl
  · rw [preorder_mainListing]
    rfl
  · rw [InstanceTree.timers, preorder_mainListing]
    rfl

end Reactors

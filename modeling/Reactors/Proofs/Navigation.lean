import Reactors.Proofs.Ancestors
import Reactors.Proofs.CompleteWalks
import Reactors.Proofs.QualifiedNames

/-!
# Finding the way in a loaded tree

Where the links of a tree are sound, one can go up, down and along without getting lost.  The way
up ends at the root.  Children are there, and lead back to where they are listed.  A walk from
the root keeps numbers on a stack whose parents it has yielded already, so that no instance
comes before its parent; and it ends with an empty stack, because children stand behind
their parents.  A path leads to the one instance that has it.

All this says where a walk leads, and not that it leads everywhere: what a parent does not list,
no walk comes by.

## Main definitions

* `InstanceTree.ParentsIn` — the parents of the numbers on a stack are among some instances.
* `InstanceTree.Navigable` — what can be relied upon in a tree.

## Main results

* `InstanceTree.Linked.parentsIn_step`, `InstanceTree.Linked.mem_before` — the order of a walk.
* `InstanceTree.Linked.mem_preorder_iff` — a walk goes from a parent to what it lists.
* `loaded_navigable` — loaded trees.
-/

namespace Reactors
namespace InstanceTree

variable {t : InstanceTree} {n : Nat} {i p : Instance}

/-! ### The order of a walk -/

/-- The instances whose numbers are on a stack have their parents among these instances. -/
def ParentsIn (t : InstanceTree) (stack : List Nat) (done : List Instance) : Prop :=
  ∀ c ∈ stack, ∀ p, t.parentOf? c = some p → p ∈ done

namespace Linked

/-- A step yields an instance behind its parent, and puts its children on the stack, whose parent
it is. -/
theorem parentsIn_step (h : t.Linked) {stack stack' : List Nat} {done : List Instance}
    (hstack : t.ParentsIn stack done) (hstep : t.step? stack = some (i, stack')) :
    (∀ p, t.parentOf? i.id = some p → p ∈ done) ∧ t.ParentsIn stack' (done ++ [i]) := by
  cases stack with
  | nil => cases hstep
  | cons n stack =>
    obtain ⟨j, hj, hpair⟩ := Option.map_eq_some_iff.1 hstep
    cases hpair
    constructor
    · intro p hp
      rw [h.id n i hj] at hp
      exact hstack n List.mem_cons_self p hp
    · intro c hc p hp
      rcases List.mem_append.1 hc with hc | hc
      · rw [h.parentOf?_child hj hc, Option.some.injEq] at hp
        exact List.mem_append_right _ (List.mem_singleton.2 hp.symm)
      · exact List.mem_append_left _ (hstack c (List.mem_cons_of_mem _ hc) p hp)

/-- A walk from a stack yields parents before their children, if the parents of what is on the
stack have been yielded. -/
theorem mem_before (h : t.Linked) {stack left : List Nat} {is done before after : List Instance}
    (hwalk : t.Walk stack is left) (hstack : t.ParentsIn stack done)
    (his : is = before ++ i :: after) (hp : t.parentOf? i.id = some p) : p ∈ done ++ before := by
  induction hwalk generalizing done before with
  | stop _ => exact absurd his (by simp)
  | @step stack stack' left j js hstep _ ih =>
    obtain ⟨hj, hstack'⟩ := h.parentsIn_step hstack hstep
    cases before with
    | nil =>
      -- the instance is the one that this step yields
      obtain ⟨rfl, -⟩ := List.cons.inj his
      exact List.mem_append_left _ (hj p hp)
    | cons k before =>
      obtain ⟨rfl, hrest⟩ := List.cons.inj his
      have hmem := ih hstack' hrest
      rwa [List.append_assoc] at hmem

/-! ### Where a walk leads -/

theorem mem_preorder_iff_visits (h : t.Linked) (hi : t.get? n = some i) :
    i ∈ t.preorder ↔ 0 < t.visits [0] n := by
  have hroot : 0 < t.size := List.length_pos_iff.2 t.nonempty
  rw [visits_singleton, List.count_pos_iff, List.mem_map]
  constructor
  · intro hmem
    exact ⟨i, hmem, h.id n i hi⟩
  · rintro ⟨j, hj, hid⟩
    have hget := h.get?_of_mem_preorderFrom hroot j hj
    rw [hid, hi, Option.some.injEq] at hget
    rw [hget]
    exact hj

/-- A walk comes by an instance exactly if it comes by its parent and this lists it. -/
theorem mem_preorder_iff (h : t.Linked) (hi : t.get? n = some i) (hp : t.parentOf? n = some p) :
    i ∈ t.preorder ↔ p ∈ t.preorder ∧ n ∈ p.children := by
  have hroot : 0 < t.size := List.length_pos_iff.2 t.nonempty
  rw [parentOf?_eq_bind hi] at hp
  obtain ⟨m, hparent, hm⟩ := Option.bind_eq_some_iff.1 hp
  have hpos : 0 < n := h.pos_of_parent hi hparent
  rw [h.mem_preorder_iff_visits hi, h.mem_preorder_iff_visits hm,
    h.visits_eq_mul hi hparent hm hroot (Nat.ne_of_lt hpos), ← List.count_pos_iff]
  simp only [Nat.pos_iff_ne_zero, Nat.mul_ne_zero_iff]

/-- A walk from the root leaves nothing out exactly if every parent lists its children. -/
theorem forall_mem_preorder_iff (h : t.Linked) : (∀ i ∈ t.instances, i ∈ t.preorder) ↔
    ∀ i ∈ t.instances, ∀ p, t.parentOf? i.id = some p → i.id ∈ p.children := by
  constructor
  · intro hall i hi p hp
    exact ((h.mem_preorder_iff (h.get?_of_mem hi) hp).1 (hall i hi)).2
  · intro hlisted i hi
    -- by induction on the way up, whose end is the root
    obtain ⟨ps, hclimb, -⟩ := h.exists_climb (h.get?_of_mem hi)
    induction hclimb with
    | @top i hnone =>
      have hget := h.get?_of_mem hi
      have hzero : i.id = 0 := (h.parentOf?_eq_none_iff hget).1 hnone
      rw [hzero] at hget
      rw [h.mem_preorder_iff_visits hget, h.visits_self (List.getElem?_eq_some_iff.1 hget).1]
      exact Nat.zero_lt_one
    | up hp _ ih =>
      rw [h.mem_preorder_iff (h.get?_of_mem hi) hp]
      exact ⟨ih (mem_of_parentOf? hp), hlisted _ hi _ hp⟩

end Linked

/-! ### What can be relied upon -/

/-- The ways in a tree lead where they should. -/
structure Navigable (t : InstanceTree) : Prop where
  /-- The root, and no other instance, has no parent. -/
  root : t.get? 0 = some t.root ∧ ∀ i ∈ t.instances, i.parent = none ↔ i = t.root
  /-- The way up from an instance leads to the root, in no more steps than its number. -/
  up : ∀ n i, t.get? n = some i →
    ∃ ps, t.Climb i ps ∧ ps.length ≤ n ∧ (i :: ps).getLast? = some t.root
  /-- What an instance lists as a child is there and has the instance as its parent. -/
  down : ∀ i ∈ t.instances, ∀ c ∈ i.children, ∃ j, t.get? c = some j ∧ t.parentOf? c = some i
  /-- The walk from the root comes to an end, with nothing left on the stack. -/
  ends : t.Walk [0] t.preorder []
  /-- It yields instances only behind their parents. -/
  order : ∀ before i after p, t.preorder = before ++ i :: after → t.parentOf? i.id = some p →
    p ∈ before
  /-- Every instance is found at its path. -/
  find : ∀ i ∈ t.instances, t.find? i.path = some i

theorem Linked.navigable (h : t.Linked) : t.Navigable where
  root := by
    refine ⟨t.get?_root, fun i hi => ?_⟩
    have hget := h.get?_of_mem hi
    rw [h.parent_eq_none_iff hget]
    constructor
    · intro hzero
      rw [hzero, get?_root, Option.some.injEq] at hget
      exact hget.symm
    · rintro rfl
      exact h.id 0 t.root t.get?_root
  up _ _ hi := h.exists_climb hi
  down i hi c hc := by
    have hget := h.get?_of_mem hi
    obtain ⟨-, j, hj, -⟩ := h.child i.id i hget c hc
    exact ⟨j, hj, h.parentOf?_child hget hc⟩
  ends := h.descends.walk_preorder
  order before i after p hwalked hp := by
    -- at first there is nothing but the root on the stack
    have hstart : t.ParentsIn [0] [] := by
      intro c hc q hq
      rw [List.mem_singleton.1 hc, (h.parentOf?_eq_none_iff t.get?_root).2 rfl] at hq
      cases hq
    exact h.mem_before h.descends.walk_preorder hstart hwalked hp
  find := h.positioned.find?_path_iff.2 h.paths

end InstanceTree

/-! ### Loaded trees -/

/-- **Loaded trees can be navigated.**  Only the root has no parent, and the way up from each
instance leads to it, in at most as many steps as the number of the instance; children are
there and lead back; the walk from the root ends, is not cut short, and yields parents before
their children; and paths lead to their instances.  The walk yields all instances exactly
if every instance but the root is listed by its parent. -/
theorem loaded_navigable {is : List Instance} {tree : InstanceTree}
    (h : InstanceTree.ofInstances? is = .ok tree) :
    tree.Navigable ∧
      ((∀ i ∈ tree.instances, i ∈ tree.preorder) ↔
        ∀ i ∈ tree.instances, ∀ p, tree.parentOf? i.id = some p → i.id ∈ p.children) := by
  have hlinked := (InstanceTree.ofInstances?_eq_ok.1 h).2
  exact ⟨hlinked.navigable, hlinked.forall_mem_preorder_iff⟩

/-- An instance that the main instance lists is walked behind it. -/
theorem main_listing_navigable : ∃ tree,
    InstanceTree.ofInstances? (mainListing 1).instances = .ok tree ∧ tree.Navigable ∧
      ∀ i ∈ tree.instances, i ∈ tree.preorder := by
  have h : InstanceTree.ofInstances? (mainListing 1).instances = .ok (mainListing 1) :=
    InstanceTree.ofInstances?_eq_ok.2 ⟨rfl, linked_mainListing 1⟩
  obtain ⟨hnavigable, hwalked⟩ := loaded_navigable h
  refine ⟨mainListing 1, h, hnavigable, hwalked.2 fun i hi p hp => ?_⟩
  rcases List.mem_pair.1 hi with rfl | rfl
  · cases hp
  · cases hp
    exact List.mem_cons_self

/-- An instance that the main instance does not list is loaded, but no walk comes by it. -/
theorem main_listing_none_unwalked : ∃ tree i,
    InstanceTree.ofInstances? (mainListing 0).instances = .ok tree ∧ i ∈ tree.instances ∧
      tree.parentOf? i.id = some tree.root ∧ i ∉ tree.preorder := by
  refine ⟨mainListing 0, timedInstance,
    InstanceTree.ofInstances?_eq_ok.2 ⟨rfl, linked_mainListing 0⟩,
    List.mem_cons_of_mem _ List.mem_cons_self, rfl, fun hmem => ?_⟩
  rw [preorder_mainListing, List.replicate_zero, List.mem_singleton] at hmem
  have hid : timedInstance.id = (mainListing 0).root.id := congrArg Instance.id hmem
  cases hid

end Reactors

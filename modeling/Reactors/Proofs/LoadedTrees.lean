import Reactors.Proofs.DepthFirst
import Reactors.Proofs.Expansion
import Reactors.Proofs.PathIndex

/-!
# Trees from stored instances

A stored list of instances becomes a tree if a number of local checks succeed, which look from
each instance at its number, its parent and the children it lists.  Children have to
name the instance that lists them.  Nothing is asked in the other direction: an instance
may be missing among the children of its parent, or be listed there more than once.

## Main definitions

* `InstanceTree.Linked` — what the checks establish.

## Main results

* `InstanceTree.linked_iff`, `InstanceTree.ofInstances?_eq_ok` — the trees that are loaded are the
  linked ones.
* `InstanceTree.Linked.descends` — their children stand behind their parents.
-/

namespace Reactors
namespace InstanceTree

/-- The links of a tree as far as loading checks them. -/
structure Linked (t : InstanceTree) : Prop where
  /-- Nothing is around the root. -/
  root : t.root.parent = none
  /-- Numbers are positions. -/
  id : ∀ n i, t.get? n = some i → i.id = n
  /-- All others name a parent in front of them. -/
  parent : ∀ n i, t.get? n = some i → 0 < n → ∃ m, i.parent = some m ∧ m < n
  /-- What an instance lists as a child comes behind it and names it as its parent. -/
  child : ∀ n i, t.get? n = some i → ∀ c ∈ i.children,
    n < c ∧ ∃ j, t.get? c = some j ∧ j.parent = some n
  /-- No path comes twice. -/
  paths : (paths t.instances).Nodup

/-! ### The checks -/

variable {all is : List Instance} {i : Instance} {n : Nat}

theorem followsParent_iff :
    followsParent n i = true ↔ (0 < n → ∃ m, i.parent = some m ∧ m < n) := by
  rw [followsParent, Bool.or_eq_true, beq_iff_eq, Option.any_eq_true]
  simp only [decide_eq_true_eq]
  constructor
  · rintro (rfl | hparent) hpos
    · exact absurd hpos (Nat.lt_irrefl 0)
    · exact hparent
  · intro hparent
    rcases Nat.eq_zero_or_pos n with hzero | hpos
    · exact Or.inl hzero
    · exact Or.inr (hparent hpos)

theorem isChild_iff {c : Nat} :
    isChild all n i c = true ↔ n < c ∧ ∃ j, all[c]? = some j ∧ j.parent = some i.id := by
  rw [isChild, Bool.and_eq_true, decide_eq_true_eq, beq_iff_eq, Option.bind_eq_some_iff]

theorem checkInstance_eq_ok :
    checkInstance all n i = .ok () ↔ i.id = n ∧ (0 < n → ∃ m, i.parent = some m ∧ m < n) ∧
      ∀ c ∈ i.children, n < c ∧ ∃ j, all[c]? = some j ∧ j.parent = some i.id := by
  rw [checkInstance]
  by_cases hid : i.id = n
  · rw [if_neg (not_not_intro hid), and_iff_right hid, ← followsParent_iff]
    by_cases hfollows : followsParent n i = true
    · rw [if_neg (by simp [hfollows]), and_iff_right hfollows]
      simp only [← isChild_iff]
      cases hfind : i.children.find? (!isChild all n i ·) with
      | none => simpa using hfind
      | some c =>
        have hbad := List.find?_some hfind
        refine iff_of_false (fun h => by cases h) fun hall => ?_
        rw [hall c (List.mem_of_find?_eq_some hfind)] at hbad
        cases hbad
    · rw [if_pos (by simpa using hfollows)]
      exact iff_of_false (fun h => by cases h) fun h => hfollows h.1
  · rw [if_pos hid]
    exact iff_of_false (fun h => by cases h) fun h => hid h.1

theorem checkFrom_eq_ok :
    checkFrom all n is = .ok () ↔
      ∀ k i, is[k]? = some i → checkInstance all (n + k) i = .ok () := by
  induction is generalizing n with
  | nil => simp [checkFrom]
  | cons i is ih =>
    rw [checkFrom, bind_eq_ok]
    constructor
    · rintro ⟨⟨⟩, hfirst, hrest⟩ k j hj
      cases k with
      | zero =>
        rw [List.getElem?_cons_zero, Option.some.injEq] at hj
        exact hj ▸ hfirst
      | succ k =>
        have hcheck := ih.1 hrest k j hj
        rwa [Nat.add_right_comm] at hcheck
    · intro hall
      refine ⟨(), hall 0 i rfl, ih.2 fun k j hj => ?_⟩
      have hcheck := hall (k + 1) j hj
      rwa [← Nat.add_assoc, Nat.add_right_comm] at hcheck

/-- The links of a tree are checked one instance at a time. -/
theorem linked_iff {t : InstanceTree} :
    t.Linked ↔ t.root.isRoot = true ∧
      (∀ n i, t.get? n = some i → checkInstance t.instances n i = .ok ()) ∧
      (paths t.instances).Nodup := by
  rw [Instance.isRoot, Option.isNone_iff_eq_none]
  simp only [checkInstance_eq_ok]
  constructor
  · intro h
    refine ⟨h.root, fun n i hi => ⟨h.id n i hi, h.parent n i hi, fun c hc => ?_⟩, h.paths⟩
    rw [h.id n i hi]
    exact h.child n i hi c hc
  · rintro ⟨hroot, hcheck, hpaths⟩
    refine ⟨hroot, fun n i hi => (hcheck n i hi).1, fun n i hi => (hcheck n i hi).2.1,
      fun n i hi c hc => ?_, hpaths⟩
    obtain ⟨hid, -, hchild⟩ := hcheck n i hi
    rw [← hid]
    exact hid ▸ hchild c hc

/-- **Loading accepts exactly the linked trees.** -/
theorem ofInstances?_eq_ok {t : InstanceTree} :
    ofInstances? is = .ok t ↔ t.instances = is ∧ t.Linked := by
  rw [linked_iff]
  cases is with
  | nil => exact iff_of_false (fun h => by cases h) fun h => t.nonempty h.1
  | cons root rest =>
    rw [ofInstances?]
    constructor
    · intro h
      -- of the three ways out only the last one is a tree
      split at h
      · cases h
      · next hroot =>
        obtain ⟨⟨⟩, hcheck, htree⟩ := bind_eq_ok.1 h
        dsimp only at htree
        split at htree
        · next hsize =>
          cases htree
          refine ⟨rfl, (by simpa using hroot : root.isRoot = true), fun n i hi => ?_,
            size_pathIndex_eq_iff.1 hsize⟩
          have hn := checkFrom_eq_ok.1 hcheck n i hi
          rwa [Nat.zero_add] at hn
        · exact absurd htree throw_ne_ok
    · rintro ⟨hinstances, hroot, hcheck, hpaths⟩
      obtain ⟨instances, hne⟩ := t
      subst hinstances
      have hroot' : root.isRoot = true := hroot
      rw [if_neg (by simp [hroot'])]
      refine bind_eq_ok.2 ⟨(), checkFrom_eq_ok.2 fun n i hi => ?_,
        if_pos (size_pathIndex_eq_iff.2 hpaths)⟩
      rw [Nat.zero_add]
      exact hcheck n i hi

/-! ### Linked trees -/

theorem get?_root (t : InstanceTree) : t.get? 0 = some t.root := by
  rw [get?, InstanceTree.root, List.head_eq_getElem]
  exact List.getElem?_eq_getElem _

theorem parentOf?_eq_bind {t : InstanceTree} (hi : t.get? n = some i) :
    t.parentOf? n = i.parent.bind t.get? := by
  rw [parentOf?, hi]
  rfl

namespace Linked

variable {t : InstanceTree} {m n : Nat} {i : Instance}

theorem descends (h : t.Linked) : t.Descends := by
  intro n i hi c hc
  obtain ⟨hlt, j, hj, -⟩ := h.child n i hi c hc
  exact ⟨hlt, (List.getElem?_eq_some_iff.1 hj).1⟩

/-- An instance with a parent is not the root. -/
theorem pos_of_parent (h : t.Linked) (hi : t.get? n = some i) (hparent : i.parent = some m) :
    0 < n := by
  rcases Nat.eq_zero_or_pos n with rfl | hpos
  · rw [get?_root, Option.some.injEq] at hi
    rw [← hi, h.root] at hparent
    cases hparent
  · exact hpos

theorem parent_lt (h : t.Linked) (hi : t.get? n = some i) (hparent : i.parent = some m) :
    m < n := by
  obtain ⟨m', hm', hlt⟩ := h.parent n i hi (h.pos_of_parent hi hparent)
  rw [hparent, Option.some.injEq] at hm'
  exact hm' ▸ hlt

theorem positioned (h : t.Linked) : t.Positioned := h.id

theorem get?_of_mem (h : t.Linked) (hi : i ∈ t.instances) : t.get? i.id = some i :=
  h.positioned.get?_of_mem hi

end Linked
end InstanceTree
end Reactors

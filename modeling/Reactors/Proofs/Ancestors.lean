import Reactors.Proofs.LoadedTrees

/-!
# Ancestors

The ancestors of an instance are its parent, the parent of that, and so on.  In a linked tree
every parent stands in front of its children, so that the way up ends, and only the root has
no parent, so that it ends there.  It has at most as many steps as the number of the instance.

## Main definitions

* `InstanceTree.Climb` — the ancestors of an instance.

## Main results

* `InstanceTree.Climb.unique` — an instance has one list of ancestors.
* `InstanceTree.Linked.parentOf?_eq_none_iff` — only the root has no parent.
* `InstanceTree.Linked.exists_climb` — in a linked tree all ways up lead to the root.
-/

namespace Reactors
namespace InstanceTree

variable {t : InstanceTree} {m n : Nat} {i p : Instance} {ps : List Instance}

/-- These are the ancestors of an instance, its parent first. -/
inductive Climb (t : InstanceTree) : Instance → List Instance → Prop where
  | top {i : Instance} (h : t.parentOf? i.id = none) : Climb t i []
  | up {i p : Instance} {ps : List Instance} (h : t.parentOf? i.id = some p)
      (rest : Climb t p ps) : Climb t i (p :: ps)

/-- An instance has one list of ancestors. -/
theorem Climb.unique {ps' : List Instance} (h : t.Climb i ps) (h' : t.Climb i ps') : ps = ps' := by
  induction h generalizing ps' with
  | top hnone =>
    cases h' with
    | top _ => rfl
    | up hsome _ =>
      rw [hnone] at hsome
      cases hsome
  | up hsome _ ih =>
    cases h' with
    | top hnone =>
      rw [hsome] at hnone
      cases hnone
    | up hsome' hrest' =>
      rw [hsome, Option.some.injEq] at hsome'
      subst hsome'
      rw [ih hrest']

/-! ### One step up -/

theorem mem_of_get? (hi : t.get? n = some i) : i ∈ t.instances := List.mem_of_getElem? hi

theorem mem_of_parentOf? (h : t.parentOf? n = some p) : p ∈ t.instances := by
  obtain ⟨i, -, hparent⟩ := Option.bind_eq_some_iff.1 h
  obtain ⟨m, -, hp⟩ := Option.bind_eq_some_iff.1 hparent
  exact mem_of_get? hp

namespace Linked

/-- Only the root names no parent. -/
theorem parent_eq_none_iff (h : t.Linked) (hi : t.get? n = some i) : i.parent = none ↔ n = 0 := by
  constructor
  · intro hnone
    by_contra hne
    obtain ⟨m, hparent, -⟩ := h.parent n i hi (Nat.pos_of_ne_zero hne)
    rw [hnone] at hparent
    cases hparent
  · rintro rfl
    rw [get?_root, Option.some.injEq] at hi
    rw [← hi]
    exact h.root

/-- All others have a parent, which stands in front of them. -/
theorem exists_parent (h : t.Linked) (hi : t.get? n = some i) (hpos : 0 < n) :
    ∃ m p, m < n ∧ i.parent = some m ∧ t.get? m = some p ∧ t.parentOf? n = some p := by
  obtain ⟨m, hparent, hlt⟩ := h.parent n i hi hpos
  obtain ⟨p, hp⟩ : ∃ p, t.get? m = some p := by
    have hsize : n < t.size := (List.getElem?_eq_some_iff.1 hi).1
    exact ⟨_, List.getElem?_eq_getElem (Nat.lt_trans hlt hsize)⟩
  refine ⟨m, p, hlt, hparent, hp, ?_⟩
  rw [parentOf?_eq_bind hi, hparent]
  exact hp

/-- Only the root has no parent. -/
theorem parentOf?_eq_none_iff (h : t.Linked) (hi : t.get? n = some i) :
    t.parentOf? n = none ↔ n = 0 := by
  constructor
  · intro hnone
    by_contra hne
    obtain ⟨m, p, -, -, -, hp⟩ := h.exists_parent hi (Nat.pos_of_ne_zero hne)
    rw [hnone] at hp
    cases hp
  · intro hzero
    rw [parentOf?_eq_bind hi, (h.parent_eq_none_iff hi).2 hzero]
    rfl

/-- The child that an instance lists has it as its parent. -/
theorem parentOf?_child (h : t.Linked) (hi : t.get? n = some i) {c : Nat} (hc : c ∈ i.children) :
    t.parentOf? c = some i := by
  obtain ⟨-, j, hj, hparent⟩ := h.child n i hi c hc
  rw [parentOf?_eq_bind hj, hparent]
  exact hi

/-- **All ways up lead to the root**, in no more steps than the number of the instance. -/
theorem exists_climb (h : t.Linked) (hi : t.get? n = some i) :
    ∃ ps, t.Climb i ps ∧ ps.length ≤ n ∧ (i :: ps).getLast? = some t.root := by
  -- the parent has a smaller number
  induction n using Nat.strongRecOn generalizing i with
  | ind n ih =>
    rcases Nat.eq_zero_or_pos n with rfl | hpos
    · have hroot := hi
      rw [get?_root, Option.some.injEq] at hroot
      subst hroot
      have htop : t.parentOf? t.root.id = none := by
        rw [h.id 0 t.root hi, h.parentOf?_eq_none_iff hi]
      exact ⟨[], .top htop, Nat.le_refl 0, rfl⟩
    · obtain ⟨m, p, hlt, -, hp, hparent⟩ := h.exists_parent hi hpos
      obtain ⟨ps, hclimb, hlength, hlast⟩ := ih m hlt hp
      rw [← h.id n i hi] at hparent
      refine ⟨p :: ps, .up hparent hclimb, ?_, ?_⟩
      · rw [List.length_cons]
        omega
      · rw [List.getLast?_cons_cons, hlast]

end Linked
end InstanceTree
end Reactors

import Mathlib.Data.List.Basic
import Reactors.Instance.Tree

/-!
# Walking a tree with a stack

A walk through a tree keeps the numbers of the instances that are still to come on a stack.
Each step takes the top number off, yields its instance and puts the numbers of the children in
its place, so that the first child comes next.  A number without an instance ends the walk
early.

Where all children stand behind their parents the walk ends with an empty stack, and yields what
the recursion over the children gives.

## Main definitions

* `InstanceTree.step?` — one step.
* `InstanceTree.Walk` — the steps from a stack to the end.
* `InstanceTree.Descends` — children exist and stand behind their parents.
* `InstanceTree.WalkedFirst` — what happens to the top number of a stack.

## Main results

* `InstanceTree.Walk.unique` — a stack determines what is yielded and what is left.
* `InstanceTree.Descends.induction` — from the children to the parent.
* `InstanceTree.Descends.walk_preorder` — the walk from the root is the recursion.
-/

namespace Reactors
namespace InstanceTree

/-- One step of a walk: the instance of the top number, and the stack with the numbers of its
children instead. -/
def step? (t : InstanceTree) : List Nat → Option (Instance × List Nat)
  | [] => none
  | id :: stack => (t.get? id).map fun i => (i, i.children ++ stack)

/-- The walk from a stack yields these instances, and then stops with the stack on the right. -/
inductive Walk (t : InstanceTree) : List Nat → List Instance → List Nat → Prop where
  | stop {stack : List Nat} (h : t.step? stack = none) : Walk t stack [] stack
  | step {stack stack' left : List Nat} {i : Instance} {is : List Instance}
      (h : t.step? stack = some (i, stack')) (rest : Walk t stack' is left) :
      Walk t stack (i :: is) left

/-- The walk from a stack is determined. -/
theorem Walk.unique {t : InstanceTree} {stack left left' : List Nat} {is is' : List Instance}
    (h : t.Walk stack is left) (h' : t.Walk stack is' left') : is = is' ∧ left = left' := by
  induction h generalizing is' left' with
  | stop hstop =>
    cases h' with
    | stop _ => exact ⟨rfl, rfl⟩
    | step hstep _ =>
      rw [hstop] at hstep
      cases hstep
  | step hstep _ ih =>
    cases h' with
    | stop hstop =>
      rw [hstop] at hstep
      cases hstep
    | step hstep' hrest' =>
      rw [hstep, Option.some.injEq] at hstep'
      cases hstep'
      obtain ⟨rfl, rfl⟩ := ih hrest'
      exact ⟨rfl, rfl⟩

/-! ### Trees with children behind their parents -/

/-- All children exist and stand behind their parents. -/
def Descends (t : InstanceTree) : Prop :=
  ∀ n i, t.get? n = some i → ∀ c ∈ i.children, n < c ∧ c < t.size

/-- A number on top of any stack is walked before the rest, with everything inside its
instance. -/
def WalkedFirst (t : InstanceTree) (n : Nat) : Prop :=
  ∀ stack is left, t.Walk stack is left → t.Walk (n :: stack) (t.preorderFrom n ++ is) left

namespace Descends

variable {t : InstanceTree}

/-- What passes from the children of an instance to the instance holds of all instances. -/
theorem induction (h : t.Descends) {P : Nat → Prop}
    (step : ∀ n i, t.get? n = some i → (∀ c ∈ i.children, P c) → P n) {n : Nat}
    (hn : n < t.size) : P n := by
  -- children have fewer numbers behind them than their parent
  induction hk : t.size - n using Nat.strongRecOn generalizing n with
  | ind k ih =>
    subst hk
    have hget : t.get? n = some t.instances[n] := List.getElem?_eq_getElem hn
    refine step n _ hget fun c hc => ?_
    obtain ⟨hlt, hc'⟩ := h n _ hget c hc
    exact ih (t.size - c) (by omega) hc' rfl

/-- The recursion over the children leaves none out. -/
theorem preorderFrom_eq (h : t.Descends) {n : Nat} {i : Instance} (hget : t.get? n = some i) :
    t.preorderFrom n = i :: i.children.flatMap t.preorderFrom := by
  have hsome : t.instances[n]? = some i := hget
  have hchildren : (i.children.flatMap fun c => if n < c then t.preorderFrom c else []) =
      i.children.flatMap t.preorderFrom := by
    refine List.flatMap_congr fun c hc => ?_
    rw [if_pos (h n i hget c hc).1]
  rw [preorderFrom]
  split
  · next hnone =>
    rw [hsome] at hnone
    cases hnone
  · next j hj =>
    rw [hsome, Option.some.injEq] at hj
    subst hj
    rw [hchildren]

/-- Numbers on top of a stack are walked in their order, before the rest. -/
theorem walk_append {cs : List Nat} (hcs : ∀ c ∈ cs, t.WalkedFirst c) {stack left : List Nat}
    {is : List Instance} (h : t.Walk stack is left) :
    t.Walk (cs ++ stack) (cs.flatMap t.preorderFrom ++ is) left := by
  induction cs with
  | nil => exact h
  | cons c cs ih =>
    rw [List.cons_append, List.flatMap_cons, List.append_assoc]
    have hrest := ih fun c' hc' => hcs c' (List.mem_cons_of_mem _ hc')
    exact hcs c List.mem_cons_self _ _ _ hrest

/-- Every number of an instance is walked before what is below it on the stack. -/
theorem walkedFirst (h : t.Descends) {n : Nat} (hn : n < t.size) : t.WalkedFirst n := by
  refine h.induction (P := t.WalkedFirst) (fun n i hget ih stack is left hrest => ?_) hn
  have hstep : t.step? (n :: stack) = some (i, i.children ++ stack) := by
    rw [step?, hget]
    rfl
  rw [h.preorderFrom_eq hget, List.cons_append]
  exact Walk.step hstep (walk_append ih hrest)

/-- The walk from the root yields every instance before those inside it, and leaves nothing. -/
theorem walk_preorder (h : t.Descends) : t.Walk [0] t.preorder [] := by
  have hroot : 0 < t.size := List.length_pos_iff.2 t.nonempty
  have hwalk := h.walkedFirst hroot [] [] [] (Walk.stop rfl)
  rwa [List.append_nil] at hwalk

end Descends
end InstanceTree
end Reactors

import Reactors.Proofs.Numbering
import Reactors.Proofs.PathIndex

/-!
# Numbers of instances

Laying out a component gives its instances consecutive numbers, in the order in which they stand
in the list.  In the tree of a component the number of an instance is therefore its
position, and parents have smaller numbers than their children.

## Main results

* `Component.ids_layout` — the numbers of the instances of a component.
* `Component.parent_layout`, `Component.children_layout` — the range of the links.
* `Component.size_toTree` — how many instances the tree of a component has.
* `Component.id_of_get?_toTree` — numbers are positions.
-/

namespace Reactors
namespace Component

mutual

/-- The instances of a component bear consecutive numbers. -/
theorem ids_layout (id : Nat) (parent : Option Nat) (depth : Nat) (path : String) :
    ∀ c : Component, (c.layout id parent depth path).map Instance.id = List.range' id c.size
  | .mk name reactor parameters triggers children => by
    rw [layout, List.map_cons, ids_layoutAll, size, Nat.add_comm 1, List.range'_succ]

/-- The instances of several components bear consecutive numbers. -/
theorem ids_layoutAll (next parent depth : Nat) (path : String) :
    ∀ cs : List Component,
      (layoutAll next parent depth path cs).map Instance.id = List.range' next (sizes cs)
  | [] => rfl
  | c :: cs => by
    rw [layoutAll, List.map_append, ids_layout, ids_layoutAll, sizes, List.range'_append_1]

end

/-- Every number of components laid out one behind the other is below the number that comes
next. -/
theorem mem_numbers {next m : Nat} {cs : List Component} (h : m ∈ numbers next cs) :
    next ≤ m ∧ m < next + sizes cs := by
  induction cs generalizing next with
  | nil => simp [numbers] at h
  | cons c cs ih =>
    have hpos : 0 < c.size := by cases c; rw [size]; omega
    rw [sizes]
    rcases List.mem_cons.1 h with rfl | h
    · omega
    · have := ih h
      omega

/-! ### Links -/

mutual

/-- Inside a component every instance but the outermost has a parent in front of it. -/
theorem parent_layout (id : Nat) (parent : Option Nat) (depth : Nat) (path : String) :
    ∀ c : Component, ∀ i ∈ c.layout id parent depth path,
      i.parent = parent ∧ i.id = id ∨ ∃ m, i.parent = some m ∧ id ≤ m ∧ m < i.id
  | .mk name reactor parameters triggers children => by
    intro i hi
    rw [layout] at hi
    rcases List.mem_cons.1 hi with rfl | hi
    · exact Or.inl ⟨rfl, rfl⟩
    · exact Or.inr (parent_layoutAll (id + 1) id (depth + 1) path (Nat.lt_succ_self id)
        children i hi)

/-- Components that are laid out behind their parent have parents in front of them. -/
theorem parent_layoutAll (next parent depth : Nat) (path : String) (hlt : parent < next) :
    ∀ cs : List Component, ∀ i ∈ layoutAll next parent depth path cs,
      ∃ m, i.parent = some m ∧ parent ≤ m ∧ m < i.id
  | [] => by
    intro i hi
    cases hi
  | c :: cs => by
    intro i hi
    rw [layoutAll] at hi
    rcases List.mem_append.1 hi with hi | hi
    · rcases parent_layout next (some parent) depth _ c i hi with ⟨hp, hid⟩ | ⟨m, hm, hle, hm'⟩
      · exact ⟨parent, hp, Nat.le_refl _, hid ▸ hlt⟩
      · exact ⟨m, hm, by omega, hm'⟩
    · exact parent_layoutAll (next + c.size) parent depth path (by omega) cs i hi

end

mutual

/-- The children of an instance are further behind in the same component. -/
theorem children_layout (id : Nat) (parent : Option Nat) (depth : Nat) (path : String) :
    ∀ c : Component, ∀ i ∈ c.layout id parent depth path, ∀ m ∈ i.children,
      i.id < m ∧ m < id + c.size
  | .mk name reactor parameters triggers children => by
    intro i hi m hm
    rw [layout] at hi
    rw [size]
    rcases List.mem_cons.1 hi with rfl | hi
    · have := mem_numbers hm
      dsimp only
      omega
    · have := children_layoutAll (id + 1) id (depth + 1) path children i hi m hm
      omega

theorem children_layoutAll (next parent depth : Nat) (path : String) :
    ∀ cs : List Component, ∀ i ∈ layoutAll next parent depth path cs, ∀ m ∈ i.children,
      i.id < m ∧ m < next + sizes cs
  | [] => by
    intro i hi
    cases hi
  | c :: cs => by
    intro i hi m hm
    rw [layoutAll] at hi
    rw [sizes]
    rcases List.mem_append.1 hi with hi | hi
    · have := children_layout next (some parent) depth _ c i hi m hm
      omega
    · have := children_layoutAll (next + c.size) parent depth path cs i hi m hm
      omega

end

/-! ### The tree of a component -/

theorem length_layout (id : Nat) (parent : Option Nat) (depth : Nat) (path : String)
    (c : Component) : (c.layout id parent depth path).length = c.size := by
  have h := congrArg List.length (ids_layout id parent depth path c)
  rwa [List.length_map, List.length_range'] at h

/-- A tree has one instance for each component. -/
theorem size_toTree (c : Component) : c.toTree.size = c.size :=
  length_layout 0 none 0 c.name c

/-- Numbers are positions. -/
theorem id_of_get?_toTree {c : Component} {n : Nat} {i : Instance}
    (h : c.toTree.get? n = some i) : i.id = n := by
  have hid : (c.toTree.instances.map Instance.id)[n]? = some i.id := by
    rw [List.getElem?_map]
    exact congrArg (Option.map Instance.id) h
  have hlt : n < c.size := by
    have := (List.getElem?_eq_some_iff.1 h).1
    rwa [← size_toTree]
  rw [show c.toTree.instances.map Instance.id = List.range' 0 c.size from ids_layout 0 none 0 _ c,
    List.getElem?_range' hlt, Option.some.injEq] at hid
  omega

theorem positioned_toTree (c : Component) : c.toTree.Positioned := fun _ _ h => id_of_get?_toTree h

end Component
end Reactors

import Reactors.Proofs.Hierarchy

/-!
# Numbering the hierarchy

The components of an unrolled hierarchy become the instances of a tree: each one gets the next
free number and is followed by everything inside it, so that the number of a component is
that of its parent plus one plus the sizes of the components before it.

## Main definitions

* `Component.size` — how many components there are, the outermost one included.
* `Component.layout` — the instances of a component.
* `Component.toTree` — the tree of the outermost component.
-/

namespace Reactors
namespace Component

/-! ### Sizes -/

mutual

/-- How many components there are, this one included. -/
def size : Component → Nat
  | mk _ _ _ _ children => 1 + sizes children

/-- How many components there are in a list of them. -/
def sizes : List Component → Nat
  | [] => 0
  | c :: cs => size c + sizes cs

end

/-- The numbers of components that are laid out one behind the other. -/
def numbers : Nat → List Component → List Nat
  | _, [] => []
  | next, c :: cs => next :: numbers (next + c.size) cs

/-! ### Instances -/

mutual

/-- The instances of a component with a number, inside a parent, at a depth and a path. -/
def layout (id : Nat) (parent : Option Nat) (depth : Nat) (path : String) :
    Component → List Instance
  | mk name reactor parameters triggers children =>
    { id, name, reactor, parent, depth, path,
      children := numbers (id + 1) children,
      parameters,
      triggers := triggers.map (·.ownedBy id) } ::
    layoutAll (id + 1) id (depth + 1) path children

/-- The instances of the components inside the instance at a path, from a number on. -/
def layoutAll (next parent depth : Nat) (path : String) : List Component → List Instance
  | [] => []
  | c :: cs =>
    layout next (some parent) depth (Elaborator.sitePath path c.name) c ++
      layoutAll (next + c.size) parent depth path cs

end

theorem layout_ne_nil (id : Nat) (parent : Option Nat) (depth : Nat) (path : String)
    (c : Component) : c.layout id parent depth path ≠ [] := by
  cases c; simp [layout]

/-- The tree of the outermost component. -/
def toTree (c : Component) : InstanceTree :=
  ⟨c.layout 0 none 0 c.name, layout_ne_nil _ _ _ _ c⟩

end Component

end Reactors

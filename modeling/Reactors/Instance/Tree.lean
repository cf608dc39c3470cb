import Reactors.Instance.Basic
import Reactors.Instance.Defect

/-!
# Instance trees

The finished hierarchy is a list of instances whose positions are their numbers, the root
first and every other instance behind its parent.

## Main definitions

* `InstanceTree` — a list of instances with a root.
* `InstanceTree.get?`, `InstanceTree.find?` — look-up by number and by path.
* `InstanceTree.pathIndex` — the numbers of the instances by path.
* `InstanceTree.parentOf?`, `InstanceTree.childrenOf` — one step up or down.
* `InstanceTree.preorder` — every instance before the ones inside it.
* `InstanceTree.timers` — every timer with its instance.
* `InstanceTree.ofInstances?` — a list of instances whose links are consistent.
-/

namespace Reactors

/-- The instances of a hierarchy by number; the first one is the root. -/
structure InstanceTree where
  instances : List Instance
  nonempty : instances ≠ []

namespace InstanceTree

/-- How many instances there are. -/
def size (t : InstanceTree) : Nat := t.instances.length

/-- The root. -/
def root (t : InstanceTree) : Instance := t.instances.head t.nonempty

/-! ### Look-up -/

/-- The instance with this number. -/
def get? (t : InstanceTree) (id : Nat) : Option Instance := t.instances[id]?

/-- The numbers of the instances by path; of several with one path the last one counts. -/
def pathIndex (t : InstanceTree) : OrderedMap Nat :=
  .ofList (t.instances.map fun i => (i.path, i.id))

/-- The instance at a path. -/
def find? (t : InstanceTree) (path : String) : Option Instance :=
  (t.pathIndex.get? path).bind t.get?

/-- The instance around the one with this number. -/
def parentOf? (t : InstanceTree) (id : Nat) : Option Instance := do
  let i ← t.get? id
  let parent ← i.parent
  t.get? parent

/-- The instances directly inside the one with this number. -/
def childrenOf (t : InstanceTree) (id : Nat) : List Instance :=
  match t.get? id with
  | some i => i.children.filterMap t.get?
  | none => []

/-! ### Walking the hierarchy -/

/-- The instance with this number, followed by everything inside it.  Children that do not follow
their parent are left out; a tree has none. -/
def preorderFrom (t : InstanceTree) (id : Nat) : List Instance :=
  match _h : t.instances[id]? with
  | none => []
  | some i => i :: i.children.flatMap fun c => if id < c then preorderFrom t c else []
termination_by t.size - id
decreasing_by
  have := (List.getElem?_eq_some_iff.1 _h).1
  simp only [size]
  omega

/-- Every instance before the ones inside it, in the order of the sites. -/
def preorder (t : InstanceTree) : List Instance := t.preorderFrom 0

/-- Every timer with the instance that it belongs to. -/
def timers (t : InstanceTree) : List (Instance × TriggerInstance × Timer) :=
  t.preorder.flatMap fun i => i.timers.map (i, ·)

/-! ### Comparison -/

/-- Equality of trees, instance by instance. -/
def same (a b : InstanceTree) : Bool := sameList Instance.same a.instances b.instances

/-! ### Consistent links -/

/-- Whether an instance other than the first names a parent in front of it. -/
def followsParent (position : Nat) (i : Instance) : Bool :=
  position == 0 || i.parent.any (· < position)

/-- Whether a number can stand among the children of the instance at a position: it belongs to a
later instance that names this one as its parent. -/
def isChild (all : List Instance) (position : Nat) (i : Instance) (child : Nat) : Bool :=
  position < child && (all[child]?.bind Instance.parent) == some i.id

/-- Checks the number and the links of the instance at a position. -/
def checkInstance (all : List Instance) (position : Nat) (i : Instance) :
    Except TreeDefect Unit :=
  if i.id ≠ position then .error (.misnumbered i.path i.id position)
  else if !followsParent position i then .error (.precedesParent i.path)
  else match i.children.find? (!isChild all position i ·) with
    | some child => .error (.notAChild i.path child)
    | none => .ok ()

/-- Checks instances from a position on. -/
def checkFrom (all : List Instance) : Nat → List Instance → Except TreeDefect Unit
  | _, [] => .ok ()
  | position, i :: is => do
    checkInstance all position i
    checkFrom all (position + 1) is

/-- The paths of instances. -/
def paths (instances : List Instance) : List String := instances.map Instance.path

/-- The tree of a list of instances: there is a root, numbers are positions, every other instance
follows its parent, children name their parent, and no two paths are equal. -/
def ofInstances? : List Instance → Except TreeDefect InstanceTree
  | [] => .error .noRoot
  | root :: rest =>
    if !root.isRoot then .error (.rootHasParent root.path)
    else do
      checkFrom (root :: rest) 0 (root :: rest)
      -- paths are compared last, when all links are known to be sound
      let t : InstanceTree := ⟨root :: rest, List.cons_ne_nil _ _⟩
      if t.pathIndex.size = t.size then return t else throw .ambiguousPath

end InstanceTree
end Reactors

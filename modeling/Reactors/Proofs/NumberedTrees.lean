import Reactors.Proofs.Layout
import Reactors.Proofs.Levels
import Reactors.Proofs.LoadedTrees

/-!
# Trees in the order of their numbers

The instances of a laid out component know where they are: the outermost one is where it was
put, and every other one is listed by an instance of the same component, which it names as its
parent and one level above itself.  Since numbers are positions, that fixes all links of
the tree in both directions.

A walk through the tree takes each component as one piece: the instances of a component stand
together in the list, the outermost one first and the components inside behind it, in
the order in which their numbers are listed.  So the walk yields the list as it stands.

## Main definitions

* `Instance.BelongsIn` — an instance is listed by another one of a list, and lies below it.
* `InstanceTree.Numbered` — the numbers, links, depths and paths of a tree.

## Main results

* `Component.belongs_layout`, `Component.exists_of_mem_children` — the links of a component.
* `Component.preorderFrom_eq_layout` — a walk yields a component as it is laid out.
* `elaborate_numbered` — elaborated trees are numbered in the order in which they are walked.
-/

namespace Reactors

/-- An instance names one of these instances as its parent, is listed by it as a child, and lies
one level below it. -/
def Instance.BelongsIn (is : List Instance) (i : Instance) : Prop :=
  ∃ p ∈ is, i.parent = some p.id ∧ i.id ∈ p.children ∧ i.depth = p.depth + 1 ∧
    i.path = Elaborator.sitePath p.path i.name

theorem Instance.BelongsIn.mono {is js : List Instance} {i : Instance} (h : i.BelongsIn is)
    (hsub : ∀ p ∈ is, p ∈ js) : i.BelongsIn js := by
  obtain ⟨p, hp, hrest⟩ := h
  exact ⟨p, hsub p hp, hrest⟩

namespace Component

/-! ### Links of a component -/

mutual

/-- An instance of a component is the outermost one or belongs in the component. -/
theorem belongs_layout (id : Nat) (parent : Option Nat) (depth : Nat) (path : String) :
    ∀ c : Component, ∀ i ∈ c.layout id parent depth path,
      (i.id = id ∧ i.parent = parent ∧ i.depth = depth ∧ i.path = path ∧ i.name = c.name) ∨
        i.BelongsIn (c.layout id parent depth path)
  | .mk name reactor parameters triggers children => by
    intro i hi
    rw [layout] at hi ⊢
    rcases List.mem_cons.1 hi with rfl | hi
    · exact Or.inl ⟨rfl, rfl, rfl, rfl, rfl⟩
    · right
      rcases belongs_layoutAll (id + 1) id (depth + 1) path children i hi with
        ⟨hid, hparent, hdepth, hpath⟩ | hinside
      · -- a component directly inside belongs to the outermost instance
        exact ⟨_, List.mem_cons_self, hparent, hid, hdepth, hpath⟩
      · exact hinside.mono fun p hp => List.mem_cons_of_mem _ hp

/-- An instance of components that are laid out one behind the other is the outermost one of its
component, or belongs in one of them. -/
theorem belongs_layoutAll (next parent depth : Nat) (path : String) :
    ∀ cs : List Component, ∀ i ∈ layoutAll next parent depth path cs,
      (i.id ∈ numbers next cs ∧ i.parent = some parent ∧ i.depth = depth ∧
          i.path = Elaborator.sitePath path i.name) ∨
        i.BelongsIn (layoutAll next parent depth path cs)
  | [] => by
    intro i hi
    cases hi
  | c :: cs => by
    intro i hi
    rw [layoutAll] at hi ⊢
    rw [numbers]
    rcases List.mem_append.1 hi with hi | hi
    · rcases belongs_layout next (some parent) depth _ c i hi with
        ⟨hid, hparent, hdepth, hpath, hname⟩ | hinside
      · refine Or.inl ⟨?_, hparent, hdepth, hname ▸ hpath⟩
        rw [hid]
        exact List.mem_cons_self
      · exact Or.inr (hinside.mono fun p hp => List.mem_append_left _ hp)
    · rcases belongs_layoutAll (next + c.size) parent depth path cs i hi with
        ⟨hid, hrest⟩ | hinside
      · exact Or.inl ⟨List.mem_cons_of_mem _ hid, hrest⟩
      · exact Or.inr (hinside.mono fun p hp => List.mem_append_right _ hp)

end

/-- The numbers of components that are laid out one behind the other are those of instances with
the common parent. -/
theorem exists_of_mem_numbers {next m : Nat} (parent depth : Nat) (path : String)
    {cs : List Component} (h : m ∈ numbers next cs) :
    ∃ i ∈ layoutAll next parent depth path cs, i.id = m ∧ i.parent = some parent := by
  induction cs generalizing next with
  | nil => cases h
  | cons c cs ih =>
    rw [layoutAll]
    rw [numbers] at h
    rcases List.mem_cons.1 h with rfl | h
    · obtain ⟨name, reactor, parameters, triggers, children⟩ := c
      rw [layout]
      exact ⟨_, List.mem_append_left _ List.mem_cons_self, rfl, rfl⟩
    · obtain ⟨i, hi, hid, hparent⟩ := ih h
      exact ⟨i, List.mem_append_right _ hi, hid, hparent⟩

mutual

/-- What an instance of a component lists as a child is an instance of the component that names it
as its parent. -/
theorem exists_of_mem_children (id : Nat) (parent : Option Nat) (depth : Nat) (path : String) :
    ∀ c : Component, ∀ p ∈ c.layout id parent depth path, ∀ m ∈ p.children,
      ∃ i ∈ c.layout id parent depth path, i.id = m ∧ i.parent = some p.id
  | .mk name reactor parameters triggers children => by
    intro p hp m hm
    rw [layout] at hp ⊢
    rcases List.mem_cons.1 hp with rfl | hp
    · obtain ⟨i, hi, hrest⟩ := exists_of_mem_numbers id (depth + 1) path hm
      exact ⟨i, List.mem_cons_of_mem _ hi, hrest⟩
    · obtain ⟨i, hi, hrest⟩ :=
        exists_of_mem_children_all (id + 1) id (depth + 1) path children p hp m hm
      exact ⟨i, List.mem_cons_of_mem _ hi, hrest⟩

theorem exists_of_mem_children_all (next parent depth : Nat) (path : String) :
    ∀ cs : List Component, ∀ p ∈ layoutAll next parent depth path cs, ∀ m ∈ p.children,
      ∃ i ∈ layoutAll next parent depth path cs, i.id = m ∧ i.parent = some p.id
  | [] => by
    intro p hp
    cases hp
  | c :: cs => by
    intro p hp m hm
    rw [layoutAll] at hp ⊢
    rcases List.mem_append.1 hp with hp | hp
    · obtain ⟨i, hi, hrest⟩ := exists_of_mem_children next (some parent) depth _ c p hp m hm
      exact ⟨i, List.mem_append_left _ hi, hrest⟩
    · obtain ⟨i, hi, hrest⟩ :=
        exists_of_mem_children_all (next + c.size) parent depth path cs p hp m hm
      exact ⟨i, List.mem_append_right _ hi, hrest⟩

end

/-! ### Lists inside an instance -/

/-- The numbers of components that are laid out one behind the other increase. -/
theorem pairwise_numbers (next : Nat) (cs : List Component) :
    (numbers next cs).Pairwise (· < ·) := by
  induction cs generalizing next with
  | nil => exact List.Pairwise.nil
  | cons c cs ih =>
    have hpos : 0 < c.size := by cases c; rw [size]; omega
    rw [numbers, List.pairwise_cons]
    refine ⟨fun m hm => ?_, ih _⟩
    have := mem_numbers hm
    omega

mutual

/-- The instances of a component list their children by increasing numbers, and own their
triggers. -/
theorem lists_layout (id : Nat) (parent : Option Nat) (depth : Nat) (path : String) :
    ∀ c : Component, ∀ i ∈ c.layout id parent depth path,
      i.children.Pairwise (· < ·) ∧ ∀ x ∈ i.triggers, x.parent = i.id
  | .mk name reactor parameters triggers children => by
    intro i hi
    rw [layout] at hi
    rcases List.mem_cons.1 hi with rfl | hi
    · refine ⟨pairwise_numbers _ _, fun x hx => ?_⟩
      obtain ⟨trigger, -, rfl⟩ := List.mem_map.1 hx
      rfl
    · exact lists_layoutAll (id + 1) id (depth + 1) path children i hi

theorem lists_layoutAll (next parent depth : Nat) (path : String) :
    ∀ cs : List Component, ∀ i ∈ layoutAll next parent depth path cs,
      i.children.Pairwise (· < ·) ∧ ∀ x ∈ i.triggers, x.parent = i.id
  | [] => by
    intro i hi
    cases hi
  | c :: cs => by
    intro i hi
    rw [layoutAll] at hi
    rcases List.mem_append.1 hi with hi | hi
    · exact lists_layout next (some parent) depth _ c i hi
    · exact lists_layoutAll (next + c.size) parent depth path cs i hi

end

/-! ### Walking a component -/

section

variable {t : InstanceTree}

mutual

/-- A walk from the outermost instance of a component yields the component as it is laid out in
the tree. -/
theorem preorderFrom_eq_layout (h : t.Descends) (id : Nat) (parent : Option Nat) (depth : Nat)
    (path : String) : ∀ c : Component, c.layout id parent depth path <+: t.instances.drop id →
      t.preorderFrom id = c.layout id parent depth path
  | .mk name reactor parameters triggers children => by
    intro hplaced
    obtain ⟨rest, hrest⟩ := hplaced
    rw [layout, List.cons_append] at hrest
    have hget : (t.instances.drop id).head? = t.get? id := List.head?_drop
    rw [← hrest, List.head?_cons] at hget
    have hbehind : layoutAll (id + 1) id (depth + 1) path children <+:
        t.instances.drop (id + 1) := by
      refine ⟨rest, ?_⟩
      rw [← List.tail_drop, ← hrest, List.tail_cons]
    rw [h.preorderFrom_eq hget.symm, layout]
    exact congrArg _ (flatMap_preorderFrom_eq h (id + 1) id (depth + 1) path children hbehind)

/-- A walk from components that stand one behind the other yields them as they are laid out. -/
theorem flatMap_preorderFrom_eq (h : t.Descends) (next parent depth : Nat) (path : String) :
    ∀ cs : List Component, layoutAll next parent depth path cs <+: t.instances.drop next →
      (numbers next cs).flatMap t.preorderFrom = layoutAll next parent depth path cs
  | [] => fun _ => rfl
  | c :: cs => by
    intro hplaced
    obtain ⟨rest, hrest⟩ := hplaced
    rw [layoutAll, List.append_assoc] at hrest
    have hfirst : c.layout next (some parent) depth (Elaborator.sitePath path c.name) <+:
        t.instances.drop next := ⟨_, hrest⟩
    -- what follows the first component stands behind as many instances as it has
    have hothers : layoutAll (next + c.size) parent depth path cs <+:
        t.instances.drop (next + c.size) := by
      refine ⟨rest, ?_⟩
      rw [← List.drop_drop, ← hrest, ← length_layout next (some parent) depth
        (Elaborator.sitePath path c.name) c, List.drop_left]
    rw [numbers, List.flatMap_cons, layoutAll,
      preorderFrom_eq_layout h next (some parent) depth _ c hfirst,
      flatMap_preorderFrom_eq h (next + c.size) parent depth path cs hothers]

end

end

end Component

/-! ### Trees -/

namespace InstanceTree

/-- The numbers, links, depths and paths of a tree, and the owners of its triggers. -/
structure Numbered (t : InstanceTree) : Prop where
  /-- Numbers are positions. -/
  id : ∀ n i, t.get? n = some i → i.id = n
  /-- The root, and no other instance, has no parent. -/
  root : ∀ n i, t.get? n = some i → (i.parent = none ↔ n = 0)
  /-- Parents have smaller numbers. -/
  parent : ∀ n i m, t.get? n = some i → i.parent = some m → m < n
  /-- Children are listed by increasing numbers. -/
  increasing : ∀ n i, t.get? n = some i → i.children.Pairwise (· < ·)
  /-- The children of an instance are those that name it as their parent. -/
  children : ∀ n i, t.get? n = some i → ∀ m,
    m ∈ i.children ↔ ∃ j, t.get? m = some j ∧ j.parent = some n
  /-- The root has depth zero and its name as path. -/
  top : t.root.depth = 0 ∧ t.root.path = t.root.name
  /-- Every other instance lies one level below its parent, and adds its name to the path. -/
  below : ∀ n i m p, t.get? n = some i → i.parent = some m → t.get? m = some p →
    i.depth = p.depth + 1 ∧ i.path = p.path ++ "." ++ i.name
  /-- Triggers name the instance that they belong to. -/
  owner : ∀ n i, t.get? n = some i → ∀ x ∈ i.triggers, x.parent = n

namespace Numbered

variable {t : InstanceTree}

theorem positioned (h : t.Numbered) : t.Positioned := h.id

theorem get?_of_mem (h : t.Numbered) {i : Instance} (hi : i ∈ t.instances) :
    t.get? i.id = some i :=
  h.positioned.get?_of_mem hi

/-- Children and parents are the two directions of one link. -/
theorem mem_childrenOf_iff (h : t.Numbered) {i j : Instance} (hi : i ∈ t.instances)
    (hj : j ∈ t.instances) : j ∈ t.childrenOf i.id ↔ t.parentOf? j.id = some i := by
  have hgeti := h.get?_of_mem hi
  have hgetj := h.get?_of_mem hj
  have hchildren : j ∈ t.childrenOf i.id ↔ j.id ∈ i.children := by
    rw [childrenOf, hgeti]
    dsimp only
    rw [List.mem_filterMap]
    constructor
    · rintro ⟨m, hm, hget⟩
      rwa [h.id m j hget]
    · intro hmem
      exact ⟨j.id, hmem, hgetj⟩
  -- from here on both sides are about the parent that `j` names
  rw [hchildren, parentOf?_eq_bind hgetj, h.children i.id i hgeti, Option.bind_eq_some_iff]
  constructor
  · rintro ⟨j', hget, hnames⟩
    rw [hgetj, Option.some.injEq] at hget
    subst hget
    exact ⟨i.id, hnames, hgeti⟩
  · rintro ⟨m, hnames, hget⟩
    refine ⟨j, hgetj, ?_⟩
    rw [hnames, h.id m i hget]

end Numbered
end InstanceTree

namespace Component

variable {c : Component} {n m : Nat} {i p : Instance}

theorem mem_instances_of_get?_toTree (hi : c.toTree.get? n = some i) :
    i ∈ c.layout 0 none 0 c.name :=
  List.mem_of_getElem? hi

theorem get?_toTree_of_mem (hi : i ∈ c.layout 0 none 0 c.name) :
    c.toTree.get? i.id = some i :=
  c.positioned_toTree.get?_of_mem hi

theorem descends_toTree (c : Component) : c.toTree.Descends := by
  intro n i hi m hm
  have hid := id_of_get?_toTree hi
  have hrange := children_layout 0 none 0 c.name c i (mem_instances_of_get?_toTree hi) m hm
  rw [size_toTree]
  omega

/-- In the tree of a component the root is outermost, and every other instance belongs to
another one. -/
theorem belongs_toTree (hi : c.toTree.get? n = some i) :
    (n = 0 ∧ i.parent = none ∧ i.depth = 0 ∧ i.path = i.name) ∨
      i.BelongsIn (c.layout 0 none 0 c.name) := by
  have hid := id_of_get?_toTree hi
  rcases belongs_layout 0 none 0 c.name c i (mem_instances_of_get?_toTree hi) with
    ⟨h0, hparent, hdepth, hpath, hname⟩ | hinside
  · exact Or.inl ⟨hid ▸ h0, hparent, hdepth, hpath.trans hname.symm⟩
  · exact Or.inr hinside

theorem parent_lt_toTree (hi : c.toTree.get? n = some i) (hm : i.parent = some m) : m < n := by
  have hid := id_of_get?_toTree hi
  rcases parent_layout 0 none 0 c.name c i (mem_instances_of_get?_toTree hi) with
    ⟨hnone, -⟩ | ⟨m', hm', -, hlt⟩
  · rw [hnone] at hm
    cases hm
  · rw [hm', Option.some.injEq] at hm
    omega

/-- An instance that has a parent is listed by it, and lies one level below. -/
theorem below_parent_toTree (hi : c.toTree.get? n = some i) (hm : i.parent = some m)
    (hp : c.toTree.get? m = some p) :
    n ∈ p.children ∧ i.depth = p.depth + 1 ∧ i.path = Elaborator.sitePath p.path i.name := by
  rcases belongs_toTree hi with ⟨-, hnone, -⟩ | ⟨p', hp', hparent, hlisted, hbelow⟩
  · rw [hnone] at hm
    cases hm
  · rw [hparent, Option.some.injEq] at hm
    have hget := get?_toTree_of_mem hp'
    rw [hm, hp, Option.some.injEq] at hget
    rw [id_of_get?_toTree hi] at hlisted
    rw [hget]
    exact ⟨hlisted, hbelow⟩

/-- The tree of a component is numbered. -/
theorem numbered_toTree (c : Component) : c.toTree.Numbered where
  id _ _ hi := id_of_get?_toTree hi
  root n i hi := by
    constructor
    · intro hnone
      rcases belongs_toTree hi with ⟨hzero, -⟩ | ⟨p, -, hparent, -⟩
      · exact hzero
      · rw [hnone] at hparent
        cases hparent
    · intro hzero
      cases hparent : i.parent with
      | none => rfl
      | some m => exact absurd (parent_lt_toTree hi hparent) (by omega)
  parent _ _ _ hi hm := parent_lt_toTree hi hm
  increasing _ i hi := (lists_layout 0 none 0 c.name c i (mem_instances_of_get?_toTree hi)).1
  children n i hi m := by
    constructor
    · intro hm
      obtain ⟨j, hj, hid, hparent⟩ :=
        exists_of_mem_children 0 none 0 c.name c i (mem_instances_of_get?_toTree hi) m hm
      rw [id_of_get?_toTree hi] at hparent
      exact ⟨j, hid ▸ get?_toTree_of_mem hj, hparent⟩
    · rintro ⟨j, hj, hparent⟩
      exact (below_parent_toTree hj hparent hi).1
  top := by
    have hroot := InstanceTree.get?_root c.toTree
    rcases belongs_toTree hroot with ⟨-, -, hdepth, hpath⟩ | ⟨p, -, hparent, -⟩
    · exact ⟨hdepth, hpath⟩
    · exact absurd (parent_lt_toTree hroot hparent) (Nat.not_lt_zero _)
  below _ _ _ _ hi hm hp := (below_parent_toTree hi hm hp).2
  owner n i hi x hx := by
    have howner := (lists_layout 0 none 0 c.name c i (mem_instances_of_get?_toTree hi)).2 x hx
    rwa [id_of_get?_toTree hi] at howner

/-- The walk through the tree of a component yields its instances as they are numbered. -/
theorem preorder_toTree (c : Component) : c.toTree.preorder = c.toTree.instances :=
  preorderFrom_eq_layout c.descends_toTree 0 none 0 c.name c (List.prefix_refl _)

end Component

/-! ### Elaborated trees -/

/-- **Elaborated trees are numbered in the order of the walk.**  Numbers are positions; only the
root has no parent, and parents come first; an instance lists by increasing numbers
exactly the instances that name it as their parent, so that the way down and the way up are
inverse; depths count the levels from the root and paths the names on the way; triggers name
their instance.  The walk with a stack yields the instances in the order of their numbers,
each of them once, and leaves nothing. -/
theorem elaborate_numbered {p : Program} {config : Config} {tree : InstanceTree}
    (h : elaborate p config = .ok tree) :
    tree.Numbered ∧
      (∀ i ∈ tree.instances, ∀ j ∈ tree.instances,
        j ∈ tree.childrenOf i.id ↔ tree.parentOf? j.id = some i) ∧
      tree.Walk [0] tree.preorder [] ∧ tree.preorder = tree.instances ∧
      tree.preorder.map Instance.id = List.range tree.size := by
  obtain ⟨t, main, c, -, -, -, rfl⟩ := elaborate_eq_ok.1 h
  have hnumbered := c.numbered_toTree
  have hids : c.toTree.instances.map Instance.id = List.range c.toTree.size := by
    rw [Component.size_toTree, List.range_eq_range']
    exact Component.ids_layout 0 none 0 c.name c
  refine ⟨hnumbered, fun i hi j hj => hnumbered.mem_childrenOf_iff hi hj,
    c.descends_toTree.walk_preorder, c.preorder_toTree, ?_⟩
  rw [c.preorder_toTree, hids]

/-- A main reactor with a site for a reactor that has two sites itself, and a site behind it. -/
def nestedSites : Program where
  main := "Main"
  reactors :=
    [((ReactorDecl.named "Main").withInstance "a" "A" []).withInstance "b" "Leaf" [],
      ((ReactorDecl.named "A").withInstance "x" "Leaf" []).withInstance "y" "Leaf" [],
      ReactorDecl.named "Leaf"]

/-- The second site of the main reactor comes behind everything inside the first. -/
theorem nested_sites_numbered : ∃ tree, elaborate nestedSites {} = .ok tree ∧
    tree.Numbered ∧
      (∀ i ∈ tree.instances, ∀ j ∈ tree.instances,
        j ∈ tree.childrenOf i.id ↔ tree.parentOf? j.id = some i) ∧
      tree.Walk [0] tree.preorder [] ∧ tree.preorder = tree.instances ∧
      tree.preorder.map Instance.id = List.range tree.size := by
  have hruns : ∃ tree, elaborate nestedSites {} = .ok tree :=
    exists_elaborate_of_within (by decide +kernel)
  obtain ⟨tree, h⟩ := hruns
  exact ⟨tree, h, elaborate_numbered h⟩

end Reactors

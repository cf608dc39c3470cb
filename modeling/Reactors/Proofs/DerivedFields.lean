import Reactors.Proofs.Ancestors
import Reactors.Proofs.CompleteWalks
import Reactors.Proofs.DeclarationCounts

/-!
# Fields that follow from the rest

Some of what is stored with an instance says again what its place in the tree says: the depth
counts its ancestors, the path joins their names, its triggers bear its number, and
its parameters stand under their names.  Elaboration fills these fields in accordingly.  Loading
looks at numbers, parents and children, and asks of the paths that no two are equal; it takes
everything else as it is stored.  So a loaded tree has the right fields exactly if they are right
at the root and from every parent to its children.

## Main definitions

* `gathered` — what is gathered on the way from the root to an instance.
* `Instance.Derived` — the fields of an instance follow from its ancestors.
* `InstanceTree.DerivedStepwise` — the fields are right at the root and from parent to child.
* `Instance.SameLinks` — two instances differ only in what loading does not look at.

## Main results

* `InstanceTree.Linked.eq_gathered_iff` — a field is what is gathered if every step is right.
* `InstanceTree.Numbered.derivedStepwise` — elaborated trees.
* `exists_ofInstances?` — loading does not look at the fields.
* `loaded_fields_derived_iff` — when the fields of a loaded tree are right.
-/

namespace Reactors

/-! ### Along the way -/

/-- What is gathered on the way from the root to an instance: a value at the root, and what becomes
of it from each parent to the child.  The ancestors are listed from the parent upwards. -/
def gathered {α : Type} (top : Instance → α) (below : α → Instance → α) :
    Instance → List Instance → α
  | i, [] => top i
  | i, p :: ps => below (gathered top below p ps) i

/-- Counting the steps gives the number of ancestors. -/
theorem gathered_depth (i : Instance) (ps : List Instance) :
    gathered (fun _ => 0) (fun depth _ => depth + 1) i ps = ps.length := by
  induction ps generalizing i with
  | nil => rfl
  | cons p ps ih => rw [gathered, ih, List.length_cons]

/-- Adding the names, each behind a point, joins them. -/
theorem gathered_path (i : Instance) (ps : List Instance) :
    gathered Instance.name (fun path j => path ++ "." ++ j.name) i ps =
      ".".intercalate ((i :: ps).reverse.map Instance.name) := by
  induction ps generalizing i with
  | nil => exact String.intercalate_singleton.symm
  | cons p ps ih =>
    have hnames : ((i :: p :: ps).reverse).map Instance.name =
        ((p :: ps).reverse).map Instance.name ++ [i.name] := by
      rw [List.reverse_cons, List.map_append, List.map_singleton]
    have hne : ((p :: ps).reverse).map Instance.name ≠ [] := by simp
    rw [gathered, ih, hnames, String.intercalate_append_of_ne_nil hne (List.cons_ne_nil _ _),
      String.intercalate_singleton]

/-- A field of the instances of a linked tree is what is gathered on the way to each of them
exactly if it is right at the root and continues from every parent to its children. -/
theorem InstanceTree.Linked.eq_gathered_iff {t : InstanceTree} (h : t.Linked) {α : Type}
    (field top : Instance → α) (below : α → Instance → α) :
    (∀ i ∈ t.instances, ∀ ps, t.Climb i ps → field i = gathered top below i ps) ↔
      field t.root = top t.root ∧
        ∀ i ∈ t.instances, ∀ p, t.parentOf? i.id = some p → field i = below (field p) i := by
  constructor
  · intro hfield
    have hroot : t.root ∈ t.instances := mem_of_get? t.get?_root
    constructor
    · refine hfield t.root hroot [] (.top ?_)
      rw [h.parentOf?_eq_none_iff (h.get?_of_mem hroot)]
      exact h.id 0 t.root t.get?_root
    · intro i hi p hp
      have hmem : p ∈ t.instances := mem_of_parentOf? hp
      obtain ⟨ps, hclimb, -⟩ := h.exists_climb (h.get?_of_mem hmem)
      rw [hfield i hi (p :: ps) (.up hp hclimb), gathered, hfield p hmem ps hclimb]
  · -- by induction on the way up
    rintro ⟨htop, hbelow⟩ i hi ps hclimb
    induction hclimb with
    | @top i hnone =>
      have hzero : i.id = 0 := (h.parentOf?_eq_none_iff (h.get?_of_mem hi)).1 hnone
      have hget := h.get?_of_mem hi
      rw [hzero, get?_root, Option.some.injEq] at hget
      rw [← hget]
      exact htop
    | up hp _ ih => rw [gathered, ← ih (mem_of_parentOf? hp), hbelow _ hi _ hp]

/-! ### Fields of instances -/

/-- The fields of an instance follow from its ancestors, its number and its parameters. -/
structure Instance.Derived (ancestors : List Instance) (i : Instance) : Prop where
  /-- The depth is the number of ancestors. -/
  depth : i.depth = ancestors.length
  /-- The path joins the names from the root down to the instance. -/
  path : i.path = ".".intercalate ((i :: ancestors).reverse.map Instance.name)
  /-- The triggers bear the number of the instance. -/
  owner : ∀ x ∈ i.triggers, x.parent = i.id
  /-- The parameters stand under their names. -/
  keys : ∀ e ∈ i.parameters.entries, e.2.name = e.1

namespace InstanceTree

variable {t : InstanceTree}

/-- The fields of all instances follow from their ancestors. -/
def DerivedFields (t : InstanceTree) : Prop :=
  ∀ i ∈ t.instances, ∀ ps, t.Climb i ps → i.Derived ps

/-- The fields of instances are right at the root, and from every parent to its children. -/
structure DerivedStepwise (t : InstanceTree) : Prop where
  /-- The root has depth zero and its name as path. -/
  top : t.root.depth = 0 ∧ t.root.path = t.root.name
  /-- Every other instance lies one level below its parent, and adds its name to the path. -/
  below : ∀ i ∈ t.instances, ∀ p, t.parentOf? i.id = some p →
    i.depth = p.depth + 1 ∧ i.path = p.path ++ "." ++ i.name
  /-- Triggers name the instance that they belong to. -/
  owner : ∀ i ∈ t.instances, ∀ x ∈ i.triggers, x.parent = i.id
  /-- Parameters stand under their names. -/
  keys : ∀ i ∈ t.instances, ∀ e ∈ i.parameters.entries, e.2.name = e.1

/-- The fields are right everywhere if they are right in every step. -/
theorem Linked.derivedFields_iff (h : t.Linked) : t.DerivedFields ↔ t.DerivedStepwise := by
  have hdepth := h.eq_gathered_iff Instance.depth (fun _ => 0) fun depth _ => depth + 1
  have hpath := h.eq_gathered_iff Instance.path Instance.name fun path j => path ++ "." ++ j.name
  simp only [gathered_depth] at hdepth
  simp only [gathered_path] at hpath
  -- depths and paths are gathered on the way up; owners and keys do not look at other instances
  constructor
  · intro hfields
    obtain ⟨hdepthTop, hdepthBelow⟩ := hdepth.1 fun i hi ps hps => (hfields i hi ps hps).depth
    obtain ⟨hpathTop, hpathBelow⟩ := hpath.1 fun i hi ps hps => (hfields i hi ps hps).path
    refine ⟨⟨hdepthTop, hpathTop⟩,
      fun i hi p hp => ⟨hdepthBelow i hi p hp, hpathBelow i hi p hp⟩, fun i hi => ?_,
      fun i hi => ?_⟩
    · obtain ⟨ps, hclimb, -⟩ := h.exists_climb (h.get?_of_mem hi)
      exact (hfields i hi ps hclimb).owner
    · obtain ⟨ps, hclimb, -⟩ := h.exists_climb (h.get?_of_mem hi)
      exact (hfields i hi ps hclimb).keys
  · intro hsteps i hi ps hclimb
    refine ⟨?_, ?_, hsteps.owner i hi, hsteps.keys i hi⟩
    · exact hdepth.2 ⟨hsteps.top.1, fun i hi p hp => (hsteps.below i hi p hp).1⟩ i hi ps hclimb
    · exact hpath.2 ⟨hsteps.top.2, fun i hi p hp => (hsteps.below i hi p hp).2⟩ i hi ps hclimb

/-- If depths are right, no instance lies as deep as there are instances. -/
theorem Linked.depth_lt_size (h : t.Linked) (hfields : t.DerivedFields) :
    ∀ i ∈ t.instances, i.depth < t.size := by
  intro i hi
  have hget := h.get?_of_mem hi
  obtain ⟨ps, hclimb, hlength, -⟩ := h.exists_climb hget
  have hid : i.id < t.size := (List.getElem?_eq_some_iff.1 hget).1
  rw [(hfields i hi ps hclimb).depth]
  exact Nat.lt_of_le_of_lt hlength hid

/-- The fields of an elaborated tree are right in every step. -/
theorem derivedStepwise_of_elaborate {p : Program} {config : Config}
    (h : elaborate p config = .ok t) : t.DerivedStepwise := by
  obtain ⟨_, _, c, -, -, -, rfl⟩ := elaborate_eq_ok.1 h
  have hnumbered := c.numbered_toTree
  refine ⟨hnumbered.top, fun i hi q hq => ?_, fun i hi => ?_, fun i hi e he => ?_⟩
  · have hget := hnumbered.get?_of_mem hi
    rw [parentOf?_eq_bind hget] at hq
    obtain ⟨m, hparent, hm⟩ := Option.bind_eq_some_iff.1 hq
    exact hnumbered.below i.id i m q hget hparent hm
  · exact hnumbered.owner i.id i (hnumbered.get?_of_mem hi)
  · -- the parameters of an instance are those of the declarations with their names
    obtain ⟨r, -, hkeeps⟩ := exists_keeps h hi
    obtain ⟨overrides, scope, hparameters⟩ := hkeeps.parameters
    have hvalue := hparameters e.1
    rw [OrderedMap.get?_eq_some_iff.2 he] at hvalue
    obtain ⟨d, hd, hbound⟩ := Option.map_eq_some_iff.1 hvalue.symm
    have hname := List.find?_some hd
    rw [← hbound]
    exact beq_iff_eq.1 hname

end InstanceTree

/-! ### What loading looks at -/

/-- Two instances have the same number, the same parent and the same children. -/
structure Instance.SameLinks (i j : Instance) : Prop where
  id : i.id = j.id
  parent : i.parent = j.parent
  children : i.children = j.children

/-- In two lists that are related item by item, an item has a partner at its position. -/
theorem exists_getElem?_of_forall₂ {α β : Type} {R : α → β → Prop} {as : List α} {bs : List β}
    (h : List.Forall₂ R as bs) {n : Nat} {b : β} (hb : bs[n]? = some b) :
    ∃ a, as[n]? = some a ∧ R a b := by
  induction h generalizing n with
  | nil => simp at hb
  | @cons a b' as bs hab _ ih =>
    cases n with
    | zero =>
      rw [List.getElem?_cons_zero, Option.some.injEq] at hb
      exact ⟨a, rfl, hb ▸ hab⟩
    | succ n => exact ih hb

/-- **Loading looks at nothing but links and paths.**  Instances that have the links of a linked
tree, and paths of which no two are equal, are loaded. -/
theorem exists_ofInstances? {t : InstanceTree} (h : t.Linked) {is : List Instance}
    (hlinks : List.Forall₂ Instance.SameLinks t.instances is)
    (hpaths : (InstanceTree.paths is).Nodup) :
    ∃ t', InstanceTree.ofInstances? is = .ok t' := by
  have hne : is ≠ [] := by
    rintro rfl
    exact t.nonempty (List.forall₂_nil_right_iff.1 hlinks)
  -- every check is passed at a place because the linked tree passes it there
  refine ⟨⟨is, hne⟩, InstanceTree.ofInstances?_eq_ok.2 ⟨rfl, ?_, ?_, ?_, ?_, hpaths⟩⟩
  · obtain ⟨i, hi, hij⟩ :=
      exists_getElem?_of_forall₂ hlinks (InstanceTree.get?_root ⟨is, hne⟩)
    rw [← hij.parent]
    exact (h.parent_eq_none_iff hi).2 rfl
  · intro n j hj
    obtain ⟨i, hi, hij⟩ := exists_getElem?_of_forall₂ hlinks hj
    rw [← hij.id]
    exact h.id n i hi
  · intro n j hj
    obtain ⟨i, hi, hij⟩ := exists_getElem?_of_forall₂ hlinks hj
    rw [← hij.parent]
    exact h.parent n i hi
  · intro n j hj c hc
    obtain ⟨i, hi, hij⟩ := exists_getElem?_of_forall₂ hlinks hj
    rw [← hij.children] at hc
    obtain ⟨hlt, k, hk, hparent⟩ := h.child n i hi c hc
    obtain ⟨k', hk', hkk'⟩ := exists_getElem?_of_forall₂ hlinks.flip hk
    exact ⟨hlt, k', hk', hkk'.parent ▸ hparent⟩

/-! ### Loaded trees -/

/-- **When the fields of a loaded tree follow from its links.**  Depths count the ancestors, paths
join their names, triggers bear the numbers of their instances and parameters stand under
their names exactly if all this is right at the root and from every parent to its children.
Then the dump indents no line by more levels than there are instances.  It is so if the tree
was elaborated.  Loading does not see to it: whatever fields instances with the same
links have, they are loaded too as long as their paths are distinct. -/
theorem loaded_fields_derived_iff {is : List Instance} {tree : InstanceTree}
    (h : InstanceTree.ofInstances? is = .ok tree) :
    (tree.DerivedFields ↔ tree.DerivedStepwise) ∧
    (tree.DerivedFields → ∀ i ∈ tree.instances, i.depth < tree.size) ∧
    (∀ p config, elaborate p config = .ok tree → tree.DerivedFields) ∧
    ∀ is', List.Forall₂ Instance.SameLinks is is' → (InstanceTree.paths is').Nodup →
      ∃ tree', InstanceTree.ofInstances? is' = .ok tree' := by
  obtain ⟨rfl, hlinked⟩ := InstanceTree.ofInstances?_eq_ok.1 h
  refine ⟨hlinked.derivedFields_iff, hlinked.depth_lt_size, fun p config hrun => ?_,
    fun is' => exists_ofInstances? hlinked⟩
  exact hlinked.derivedFields_iff.2 (InstanceTree.derivedStepwise_of_elaborate hrun)

/-- The fields of a main instance and of one inside it follow from the links. -/
theorem main_listing_fields_derived : ∃ tree,
    InstanceTree.ofInstances? (mainListing 1).instances = .ok tree ∧ tree.DerivedFields := by
  have h : InstanceTree.ofInstances? (mainListing 1).instances = .ok (mainListing 1) :=
    InstanceTree.ofInstances?_eq_ok.2 ⟨rfl, linked_mainListing 1⟩
  refine ⟨mainListing 1, h, (loaded_fields_derived_iff h).1.2 ⟨⟨rfl, rfl⟩, ?_, ?_, ?_⟩⟩
  · intro i hi p hp
    rcases List.mem_pair.1 hi with rfl | rfl
    · cases hp
    · cases hp
      exact ⟨rfl, rfl⟩
  · intro i hi x hx
    rcases List.mem_pair.1 hi with rfl | rfl
    · cases hx
    · rw [List.mem_singleton.1 hx]
      rfl
  · intro i hi e he
    rcases List.mem_pair.1 hi with rfl | rfl <;> cases he

/-- The inner instance with fields that follow from nothing. -/
def strayInstance : Instance :=
  { timedInstance with
    depth := 7
    path := "elsewhere"
    parameters := OrderedMap.empty.set "p" ⟨"q", .int 1, .default⟩
    triggers := [⟨⟨"startup", .timer ⟨.zero, .zero, true⟩⟩, 5⟩] }

/-- A tree is loaded in which an instance inside the main instance has depth seven, another path,
a trigger of an instance that there is not, and a parameter under the name of another one. -/
theorem stray_fields_loaded : ∃ tree i ps,
    InstanceTree.ofInstances? [(mainListing 1).root, strayInstance] = .ok tree ∧
    i ∈ tree.instances ∧ tree.Climb i ps ∧ ps.length = 1 ∧
    i.depth = 7 ∧ i.path ≠ tree.root.path ++ "." ++ i.name ∧
    (∃ x ∈ i.triggers, x.parent ≠ i.id) ∧ ∃ e ∈ i.parameters.entries, e.2.name ≠ e.1 := by
  have hlinks : List.Forall₂ Instance.SameLinks (mainListing 1).instances
      [(mainListing 1).root, strayInstance] :=
    .cons ⟨rfl, rfl, rfl⟩ (.cons ⟨rfl, rfl, rfl⟩ .nil)
  obtain ⟨tree, h⟩ := exists_ofInstances? (linked_mainListing 1) hlinks (by decide)
  obtain ⟨hinstances, hlinked⟩ := InstanceTree.ofInstances?_eq_ok.1 h
  obtain ⟨instances, hne⟩ := tree
  subst hinstances
  refine ⟨_, strayInstance, [(mainListing 1).root], h, ?_, .up rfl (.top rfl), rfl, rfl, ?_, ?_, ?_⟩
  · exact List.mem_cons_of_mem _ List.mem_cons_self
  · show "elsewhere" ≠ "Main" ++ "." ++ "a"
    decide
  · exact ⟨_, List.mem_cons_self, by decide⟩
  · exact ⟨("p", ⟨"q", .int 1, .default⟩), List.mem_cons_self, by decide⟩

end Reactors

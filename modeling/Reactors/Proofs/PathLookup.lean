import Reactors.Proofs.DeclarationCounts
import Reactors.Proofs.NumberedTrees
import Reactors.Proofs.Unrolled

/-!
# Look-up by path is a walk

A tree finds an instance by its whole path, with no regard to the names that the path is made of.
If no name contains a point, a path can be taken apart again, and what is found can also be reached
from the root: the first component is the name of the root, and every further one is the name of a
child of the instance reached so far.  A text that does not lead anywhere is not a path.

## Main definitions

* `components` — the parts of a text between points.
* `InstanceTree.child?`, `InstanceTree.descend?` — the child with a name, and so on along names.
* `InstanceTree.walk?` — the instance that the components of a text lead to.

## Main results

* `intercalate_components`, `components_intercalate` — taking apart and putting together.
* `InstanceTree.Numbered.path_of_descend?` — a walk spells the path of the instance it leads to.
* `InstanceTree.Numbered.exists_descend?` — there is a walk to every instance.
* `elaborate_find?_eq_walk?` — look-up in an elaborated tree.
-/

namespace Reactors

/-! ### Components of a text -/

/-- The parts of a text between points; two points have an empty part between them. -/
def components (text : String) : List String := (text.toList.splitOn '.').map String.ofList

theorem map_toList_components (text : String) :
    (components text).map String.toList = text.toList.splitOn '.' := by
  simp [components, Function.comp_def]

/-- A text is put together again from its components. -/
theorem intercalate_components (text : String) : ".".intercalate (components text) = text := by
  rw [← String.toList_inj, String.toList_intercalate, map_toList_components]
  exact List.intercalate_splitOn '.'

/-- Names without points are the components of the text that they make. -/
theorem components_intercalate {names : List String} (hne : names ≠ [])
    (hplain : ∀ name ∈ names, '.' ∉ name.toList) : components (".".intercalate names) = names := by
  have hsplit : (".".intercalate names).toList.splitOn '.' = names.map String.toList := by
    rw [String.toList_intercalate]
    exact List.splitOn_intercalate '.' (List.forall_mem_map.2 hplain) (by simpa using hne)
  rw [components, hsplit]
  simp [Function.comp_def]

example : components "Main.a..x" = ["Main", "a", "", "x"] := by decide +kernel

namespace InstanceTree

/-! ### Walking along names -/

/-- The child of an instance that has a name. -/
def child? (t : InstanceTree) (i : Instance) (name : String) : Option Instance :=
  (t.childrenOf i.id).find? (·.name == name)

/-- The instance that is reached from another one along names, each that of a child. -/
def descend? (t : InstanceTree) (i : Instance) : List String → Option Instance
  | [] => some i
  | name :: names => (t.child? i name).bind fun j => t.descend? j names

/-- The instance that is reached from the root along the components of a text, the first of which
is the name of the root. -/
def walk? (t : InstanceTree) (text : String) : Option Instance :=
  match components text with
  | [] => none
  | first :: names => if first = t.root.name then t.descend? t.root names else none

variable {t : InstanceTree} {i j : Instance} {names : List String}

theorem descend?_append (i : Instance) (names names' : List String) :
    t.descend? i (names ++ names') =
      (t.descend? i names).bind fun j => t.descend? j names' := by
  induction names generalizing i with
  | nil => rfl
  | cons name names ih =>
    rw [List.cons_append, descend?, descend?, Option.bind_assoc]
    exact congrArg _ (funext ih)

theorem walk?_eq_some_iff {text : String} :
    t.walk? text = some j ↔
      ∃ names, components text = t.root.name :: names ∧ t.descend? t.root names = some j := by
  rw [walk?]
  cases components text with
  | nil => simp
  | cons first names => simp

theorem child?_eq_some {name : String} (h : t.child? i name = some j) :
    j ∈ t.childrenOf i.id ∧ j.name = name := by
  have hname := List.find?_some h
  exact ⟨List.mem_of_find?_eq_some h, beq_iff_eq.1 hname⟩

/-- Among children with distinct names each one is found by its name. -/
theorem child?_of_mem (hdistinct : ((t.childrenOf i.id).map Instance.name).Nodup)
    (hj : j ∈ t.childrenOf i.id) : t.child? i j.name = some j := by
  cases hfind : t.child? i j.name with
  | none => exact absurd (beq_self_eq_true j.name) (List.find?_eq_none.1 hfind j hj)
  | some k =>
    obtain ⟨hk, hname⟩ := child?_eq_some hfind
    rw [List.inj_on_of_nodup_map hdistinct hk hj hname]

namespace Numbered

/-- A child is one name below its parent. -/
theorem mem_of_mem_childrenOf (h : t.Numbered) (hi : i ∈ t.instances)
    (hj : j ∈ t.childrenOf i.id) : j ∈ t.instances ∧ j.path = i.path ++ "." ++ j.name := by
  have hgeti := h.get?_of_mem hi
  have hj' := hj
  rw [childrenOf, hgeti] at hj'
  obtain ⟨m, -, hm⟩ := List.mem_filterMap.1 hj'
  have hmem : j ∈ t.instances := List.mem_of_getElem? hm
  have hgetj := h.get?_of_mem hmem
  have hparent := (h.mem_childrenOf_iff hi hmem).1 hj
  rw [parentOf?_eq_bind hgetj, Option.bind_eq_some_iff] at hparent
  obtain ⟨k, hk, hget⟩ := hparent
  exact ⟨hmem, (h.below j.id j k i hgetj hk hget).2⟩

/-- A walk leads to an instance whose path is spelt by the names on the way. -/
theorem path_of_descend? (h : t.Numbered) (hi : i ∈ t.instances)
    (hwalk : t.descend? i names = some j) :
    j ∈ t.instances ∧ j.path = ".".intercalate (i.path :: names) := by
  induction names generalizing i with
  | nil =>
    rw [descend?, Option.some.injEq] at hwalk
    subst hwalk
    exact ⟨hi, String.intercalate_singleton.symm⟩
  | cons name names ih =>
    rw [descend?, Option.bind_eq_some_iff] at hwalk
    obtain ⟨k, hk, hrest⟩ := hwalk
    obtain ⟨hchild, hname⟩ := child?_eq_some hk
    obtain ⟨hmem, hpath⟩ := h.mem_of_mem_childrenOf hi hchild
    obtain ⟨hj, hspelt⟩ := ih hmem hrest
    refine ⟨hj, ?_⟩
    rw [hspelt, hpath, hname, String.intercalate_cons_cons]
    cases names with
    | nil => rw [String.intercalate_singleton, String.intercalate_singleton]
    | cons next names =>
      rw [String.intercalate_cons_cons, String.intercalate_cons_cons]
      simp only [String.append_assoc]

/-- An instance is the root or a child of an instance before it. -/
theorem eq_root_or_mem_childrenOf (h : t.Numbered) (hi : i ∈ t.instances) :
    i = t.root ∨ ∃ p ∈ t.instances, p.id < i.id ∧ i ∈ t.childrenOf p.id := by
  have hget := h.get?_of_mem hi
  cases hparent : i.parent with
  | none =>
    rw [(h.root i.id i hget).1 hparent, get?_root, Option.some.injEq] at hget
    exact Or.inl hget.symm
  | some m =>
    have hlt : m < i.id := h.parent i.id i m hget hparent
    have hsize : i.id < t.instances.length := (List.getElem?_eq_some_iff.1 hget).1
    have hm : t.get? m = some t.instances[m] := List.getElem?_eq_getElem (by omega)
    have hp : t.instances[m] ∈ t.instances := List.getElem_mem _
    refine Or.inr ⟨t.instances[m], hp, ?_, ?_⟩
    · rwa [h.id m _ hm]
    · rw [h.mem_childrenOf_iff hp hi, parentOf?_eq_bind hget, hparent, Option.bind_some, hm]

/-- If siblings have distinct names, every instance is reached from the root along names that are
borne by children. -/
theorem exists_descend? (h : t.Numbered)
    (hdistinct : ∀ i ∈ t.instances, ((t.childrenOf i.id).map Instance.name).Nodup)
    {P : String → Prop} (hP : ∀ i ∈ t.instances, ∀ j ∈ t.childrenOf i.id, P j.name)
    (hi : i ∈ t.instances) :
    ∃ names, (∀ name ∈ names, P name) ∧ t.descend? t.root names = some i := by
  -- parents have smaller numbers
  induction hn : i.id using Nat.strong_induction_on generalizing i with
  | _ n ih =>
    rcases h.eq_root_or_mem_childrenOf hi with rfl | ⟨p, hp, hlt, hchild⟩
    · exact ⟨[], fun _ hname => absurd hname List.not_mem_nil, rfl⟩
    · obtain ⟨names, hnames, hwalk⟩ := ih p.id (hn ▸ hlt) hp rfl
      refine ⟨names ++ [i.name], ?_, ?_⟩
      · rw [List.forall_mem_append, List.forall_mem_singleton]
        exact ⟨hnames, hP p hp i hchild⟩
      · have hlast : t.child? p i.name = some i := child?_of_mem (hdistinct p hp) hchild
        rw [descend?_append, hwalk, Option.bind_some, descend?, hlast, Option.bind_some, descend?]

/-- **Look-up by path is a walk** in a numbered tree whose names are plain and tell siblings
apart. -/
theorem find?_eq_walk? (h : t.Numbered)
    (hdistinct : ∀ i ∈ t.instances, ((t.childrenOf i.id).map Instance.name).Nodup)
    (hroot : '.' ∉ t.root.name.toList)
    (hplain : ∀ i ∈ t.instances, ∀ j ∈ t.childrenOf i.id, '.' ∉ j.name.toList) (text : String) :
    t.find? text = t.walk? text := by
  have hmemRoot : t.root ∈ t.instances := List.head_mem t.nonempty
  have hwalked : ∀ i, t.find? text = some i → t.walk? text = some i := by
    intro i hi
    obtain ⟨hmem, hpath⟩ := h.positioned.find?_eq_some hi
    obtain ⟨names, hnames, hwalk⟩ := h.exists_descend? (P := ('.' ∉ ·.toList)) hdistinct hplain hmem
    obtain ⟨-, hspelt⟩ := h.path_of_descend? hmemRoot hwalk
    refine walk?_eq_some_iff.2 ⟨names, ?_, hwalk⟩
    rw [← hpath, hspelt, h.top.2]
    exact components_intercalate (List.cons_ne_nil _ _) (List.forall_mem_cons.2 ⟨hroot, hnames⟩)
  cases hfind : t.find? text with
  | some i => exact (hwalked i hfind).symm
  | none =>
    -- a walk leads to an instance with the text as its path, which look-up would find
    refine (Option.eq_none_iff_forall_ne_some.2 fun j hj => ?_).symm
    obtain ⟨names, hcomponents, hwalk⟩ := walk?_eq_some_iff.1 hj
    obtain ⟨hmem, hspelt⟩ := h.path_of_descend? hmemRoot hwalk
    rw [h.top.2, ← hcomponents, intercalate_components] at hspelt
    exact h.positioned.find?_eq_none hfind hmem hspelt

end Numbered

/-! ### The names of children -/

/-- In an unrolled hierarchy the children of an instance have the names of the sites. -/
theorem Unrolls.exists_map_name_childrenOf {d : Definitions} {main : ReactorDecl}
    {route : Nat → List Site} {n : Nat} (h : t.Unrolls d main route) (hi : t.get? n = some i) :
    ∃ r, d.get? i.reactor = some r ∧
      (t.childrenOf n).map Instance.name = r.sites.map Site.name := by
  obtain ⟨hrange, r, hr, hroutes⟩ := h.children n i hi
  refine ⟨r, hr, ?_⟩
  rw [childrenOf, hi]
  dsimp only
  -- the numbers of the children and the sites are taken up one by one
  generalize i.children = ms, r.sites = ss at hrange hroutes ⊢
  induction ms generalizing ss with
  | nil =>
    rw [List.map_nil, eq_comm, List.map_eq_nil_iff] at hroutes
    rw [hroutes]
    rfl
  | cons m ms ih =>
    cases ss with
    | nil => cases hroutes
    | cons s ss =>
      rw [List.forall_mem_cons] at hrange
      rw [List.map_cons, List.map_cons, List.cons.injEq] at hroutes
      obtain ⟨j, hj⟩ : ∃ j, t.get? m = some j := ⟨_, List.getElem?_eq_getElem hrange.1⟩
      rw [List.filterMap_cons_some hj, List.map_cons, List.map_cons,
        (h.below m j _ s hj hroutes.1).1, ih ss hrange.2 hroutes.2]

end InstanceTree

theorem Component.name_root_toTree (c : Component) : c.toTree.root.name = c.name := by
  cases c
  rfl

/-- In an elaborated tree the root has the name of the main reactor, and the children of an
instance have the names of the sites of a definition, no two of them the same. -/
theorem exists_names_of_elaborate {p : Program} {config : Config} {tree : InstanceTree}
    (h : elaborate p config = .ok tree) :
    tree.Numbered ∧ tree.root.name = p.main ∧ ∀ i ∈ tree.instances, ∃ r ∈ p.reactors,
      (tree.childrenOf i.id).map Instance.name = r.sites.map Site.name ∧
        (r.sites.map Site.name).Nodup := by
  obtain ⟨t, main, c, htable, hmain, hrun, rfl⟩ := elaborate_eq_ok.1 h
  have hmainName := Definitions.name_of_get? hmain
  have hnumbered := c.numbered_toTree
  have hunrolls := Component.unrolls_toTree (hmainName.symm ▸ hmain) hrun
  refine ⟨hnumbered, ?_, fun i hi => ?_⟩
  · rw [c.name_root_toTree, Elaborator.name_of_expand hrun, hmainName]
  · obtain ⟨r, hr, hnames⟩ := hunrolls.exists_map_name_childrenOf (hnumbered.get?_of_mem hi)
    obtain ⟨r', hr', hkeeps⟩ := exists_keeps h hi
    rw [Program.reactor?_eq_get? htable, hr, Option.some.injEq] at hr'
    subst hr'
    have hmem : r ∈ t.reactors := List.mem_of_find?_eq_some hr
    rw [Program.definitions_eq_ok.1 htable] at hmem
    exact ⟨r, hmem, hnames, hkeeps.sites⟩

/-- **Look-up by path is a walk.**  If neither the main reactor nor any site of a program has a
point in its name, an elaborated tree finds at a text what is reached from the root along the
components of the text, and nothing if some component is not the name of a child.  Siblings have
distinct names, so that there is one way to go. -/
theorem elaborate_find?_eq_walk? {p : Program} {config : Config} {tree : InstanceTree}
    (h : elaborate p config = .ok tree) (hmain : '.' ∉ p.main.toList)
    (hsites : ∀ r ∈ p.reactors, ∀ s ∈ r.sites, '.' ∉ s.name.toList) :
    (∀ text, tree.find? text = tree.walk? text) ∧
      ∀ i ∈ tree.instances, ((tree.childrenOf i.id).map Instance.name).Nodup := by
  obtain ⟨hnumbered, hroot, hnames⟩ := exists_names_of_elaborate h
  have hdistinct : ∀ i ∈ tree.instances, ((tree.childrenOf i.id).map Instance.name).Nodup := by
    intro i hi
    obtain ⟨r, -, hsame, hnodup⟩ := hnames i hi
    rwa [hsame]
  refine ⟨hnumbered.find?_eq_walk? hdistinct (hroot ▸ hmain) fun i hi j hj => ?_, hdistinct⟩
  -- the children of an instance have the names of sites, without a point
  obtain ⟨r, hr, hsame, -⟩ := hnames i hi
  have hname : j.name ∈ r.sites.map Site.name := hsame ▸ List.mem_map_of_mem hj
  obtain ⟨s, hs, hs'⟩ := List.mem_map.1 hname
  exact hs' ▸ hsites r hr s hs

/-- In the tree of nested sites every text is looked up by a walk. -/
theorem nested_sites_walked : ∃ tree, elaborate nestedSites {} = .ok tree ∧
    (∀ text, tree.find? text = tree.walk? text) ∧
      ∀ i ∈ tree.instances, ((tree.childrenOf i.id).map Instance.name).Nodup := by
  have hruns : ∃ tree, elaborate nestedSites {} = .ok tree :=
    exists_elaborate_of_within (by decide +kernel)
  obtain ⟨tree, h⟩ := hruns
  exact ⟨tree, h, elaborate_find?_eq_walk? h (by decide) (by decide)⟩

end Reactors

import Reactors.Proofs.ComparedRuns
import Reactors.Proofs.NumberedTrees

/-!
# Limits of depth

The limit of depth decides how far a hierarchy is unrolled, and nothing else.  Two limits are
compared in two ways.

What is not stopped by a limit is not changed by a greater one: step by step, the elaboration
with the smaller limit exceeds it or does what the other one does.

Where there is a tree, a smaller limit cuts it off.  Components are made in the order in which their
instances are laid out, and of each one the depth is checked first.  So the first instance in this
order that lies one level too deep ends the elaboration, and all that was done before, for
instances that are not too deep, has succeeded.

## Main definitions

* `Elaborator.limited` — an elaborator with another limit.
* `ExceedsOrEqual` — a limit is exceeded, or two outcomes are equal.
* `cutAt` — what a limit makes of a result with given instances.
* `InstanceTree.height` — the greatest depth of an instance.

## Main results

* `Elaborator.exceedsOrEqual_of_le` — the steps under two limits.
* `Elaborator.expand_limited_eq_cutAt` — the unrolling under a smaller limit.
* `elaborate_limits_cut` — the elaboration of a program under two limits.
-/

namespace Reactors

/-- The same settings with another limit of depth. -/
def Elaborator.limited (e : Elaborator) (limit : Nat) : Elaborator :=
  ⟨{ e.config with maxDepth := limit }, e.quote⟩

/-- The triggers of an instance do not depend on the limit. -/
theorem Elaborator.triggers_limited (e : Elaborator) (limit : Nat) :
    (e.limited limit).triggers = e.triggers := rfl

/-! ### A greater limit -/

/-- The first outcome is that a limit of depth is exceeded, or both outcomes are the same. -/
def ExceedsOrEqual : OutcomeRelation ElaborationError := fun _ x y =>
  (∃ path limit, x = .error (.depthLimitExceeded path limit)) ∨ x = y

theorem ExceedsOrEqual.chains : Chains ExceedsOrEqual where
  refl x := Or.inr rfl
  bind {α β x y f g} hxy hstep := by
    rcases hxy with ⟨path, limit, rfl⟩ | rfl
    · -- what comes behind an exceeded limit is not done
      exact Or.inl ⟨path, limit, rfl⟩
    · cases x with
      | error cause => exact Or.inr rfl
      | ok a => exact hstep a

/-- **Under the smaller of two limits** every step at an instance exceeds it, or has the outcome
that it has under the greater one. -/
theorem Elaborator.exceedsOrEqual_of_le (e : Elaborator) {d d' : Nat} (hle : d ≤ d') :
    StepsRelated ExceedsOrEqual (e.limited d) (e.limited d') where
  depth path depth := by
    unfold checkDepth
    by_cases hdeep : d < depth
    · left
      exact ⟨path, d, if_pos hdeep⟩
    · right
      have hdeep' : ¬ d' < depth := by omega
      show (if d < depth then _ else _) = (if d' < depth then _ else _)
      rw [if_neg hdeep, if_neg hdeep']
  parameters _ _ _ _ := Or.inr rfl
  triggers _ _ := Or.inr rfl

/-! ### A cut through a result -/

/-- What a limit makes of a result with these instances: the first one that lies one level too deep
is reported; if there is none, the result stands. -/
def cutAt {α : Type} (limit : Nat) (is : List Instance) (result : α) :
    Except ElaborationError α :=
  match is.find? (·.depth == limit + 1) with
  | some i => .error (.depthLimitExceeded i.path limit)
  | none => .ok result

section

variable {α β : Type} {limit : Nat} {is js : List Instance}

theorem cutAt_cons_of_ne {i : Instance} (hi : i.depth ≠ limit + 1) (result : α) :
    cutAt limit (i :: is) result = cutAt limit is result := by
  unfold cutAt
  rw [List.find?_cons_of_neg (by simpa using hi)]

theorem cutAt_cons_of_eq {i : Instance} (hi : i.depth = limit + 1) (result : α) :
    cutAt limit (i :: is) result = .error (.depthLimitExceeded i.path limit) := by
  unfold cutAt
  rw [List.find?_cons_of_pos (by simpa using hi)]

/-- Cuts through two parts of a result are a cut through the whole. -/
theorem cutAt_bind {a : α} {b : β} {f : α → Except ElaborationError β}
    (h : f a = cutAt limit js b) : (cutAt limit is a >>= f) = cutAt limit (is ++ js) b := by
  unfold cutAt at h ⊢
  rw [List.find?_append]
  cases is.find? (·.depth == limit + 1) with
  | some i => rfl
  | none =>
    -- the first part is whole, so that the second one decides
    exact h

theorem cutAt_map {a : α} (f : α → β) :
    (cutAt limit is a).map f = cutAt limit is (f a) := by
  unfold cutAt
  cases is.find? (·.depth == limit + 1) with
  | some i => rfl
  | none => rfl

end

namespace Elaborator

variable {e : Elaborator} {t : Definitions} {limit : Nat}

/-- A limit cuts the unrolling of a definition to a component, wherever the component is laid
out. -/
def CutsTo (e : Elaborator) (t : Definitions) (limit : Nat) (around : List String)
    (path name : String) (r : ReactorDecl) (overrides : OrderedMap Expr) (scope : Scope)
    (c : Component) : Prop :=
  ∀ id parent, (e.limited limit).expand t around path name r overrides scope =
    cutAt limit (c.layout id parent around.length path) c

/-- A limit cuts through sites as it does through the components at them. -/
theorem unrollSites_eq_cutAt {stack seen : List String} {path : String} {scope : Scope}
    {ss : List Site} {cs : List Component} (hdistinct : (ss.map Site.name).Nodup)
    (hseen : ∀ s ∈ ss, s.name ∉ seen)
    (h : List.Forall₂ (fun s c => c.name = s.name ∧ ∃ d, t.get? s.reactor = some d ∧
      d.name ∉ stack ∧ e.CutsTo t limit stack (sitePath path s.name) s.name d s.overrides scope c)
      ss cs) (next parent : Nat) :
    unrollSites t ((e.limited limit).expand t) stack path scope seen ss =
      cutAt limit (Component.layoutAll next parent stack.length path cs) cs := by
  -- along the sites and the components that are made of them
  induction h generalizing seen next with
  | nil => rfl
  | @cons s c ss cs hsc _ ih =>
    obtain ⟨hname, d, hget, hnew, hcut⟩ := hsc
    rw [List.map_cons, List.nodup_cons] at hdistinct
    have hlater : ∀ s' ∈ ss, s'.name ∉ s.name :: seen := by
      intro s' hs'
      rw [List.mem_cons, not_or]
      exact ⟨fun heq => hdistinct.1 (heq ▸ List.mem_map_of_mem hs'),
        hseen s' (List.mem_cons_of_mem _ hs')⟩
    rw [unrollSites, if_neg (hseen s List.mem_cons_self), hget]
    dsimp only
    rw [if_neg hnew, hcut next (some parent), Component.layoutAll, hname]
    apply cutAt_bind
    rw [ih hdistinct.2 hlater (next + c.size)]
    exact cutAt_map (c :: ·)

/-- **A limit cuts off what lies deeper.**  The definition of a component that is at most one level
too deep unrolls to it under the limit, or the first of its instances that is one level too deep
is reported. -/
theorem expand_limited_eq_cutAt {around : List String} {path name : String} {r : ReactorDecl}
    {overrides : OrderedMap Expr} {scope : Scope} {c : Component}
    (h : e.expand t around path name r overrides scope = .ok c)
    (hlevel : around.length ≤ limit + 1) :
    e.CutsTo t limit around path name r overrides scope c := by
  refine expand_induction (P := fun around path name r overrides scope c =>
    around.length ≤ limit + 1 → e.CutsTo t limit around path name r overrides scope c) ?_ h hlevel
  intro around path name r overrides scope own triggers children _ hown htriggers hdistinct
    hchildren hlevel id parent
  rw [expand_eq_steps, Component.layout]
  by_cases hdeep : around.length = limit + 1
  · -- the depth is checked before anything else
    have hcheck : (e.limited limit).checkDepth path around.length =
        .error (.depthLimitExceeded path limit) := if_pos (by show limit < _; omega)
    rw [hcheck, cutAt_cons_of_eq hdeep]
    rfl
  · have hcheck : (e.limited limit).checkDepth path around.length = .ok () :=
      if_neg (by show ¬ limit < _; omega)
    -- parameters and triggers are made as in the run without the limit
    have hown' : resolveParameters (e.limited limit).quote path r overrides scope = .ok own := hown
    have hlength : (around ++ [r.name]).length = around.length + 1 := by simp
    have hinside : (around ++ [r.name]).length ≤ limit + 1 := by omega
    have hsites : unrollSites t ((e.limited limit).expand t) (around ++ [r.name]) path own []
        r.sites = cutAt limit
          (Component.layoutAll (id + 1) id (around.length + 1) path children) children := by
      rw [← hlength]
      apply unrollSites_eq_cutAt hdistinct (by simp)
      exact hchildren.imp fun s c ⟨d, hget, hnew, hrun, hcut⟩ =>
        ⟨name_of_expand hrun, d, hget, hnew, hcut hinside⟩
    rw [hcheck, hown', triggers_limited, cutAt_cons_of_ne hdeep]
    show unrollSites t ((e.limited limit).expand t) (around ++ [r.name]) path own [] r.sites >>= _
      = _
    rw [hsites, htriggers]
    exact cutAt_map fun cs => Component.mk name r.name own triggers cs

/-- A tree is cut off at the first instance of the walk that lies one level too deep. -/
theorem elaborate_limited_eq_cutAt {main : String} {tree : InstanceTree}
    (h : e.elaborate t main = .ok tree) (limit : Nat) :
    (e.limited limit).elaborate t main = cutAt limit tree.preorder tree := by
  obtain ⟨r, c, hget, hrun, rfl⟩ := elaborate_eq_ok.1 h
  have hcut := expand_limited_eq_cutAt hrun (Nat.zero_le (limit + 1)) 0 none
  rw [elaborate_eq_map, expandMain, hget, c.preorder_toTree]
  show ((e.limited limit).expand t [] r.name r.name r .empty .empty).map _ =
    cutAt limit (c.layout 0 none 0 c.name) c.toTree
  rw [hcut, name_of_expand hrun]
  exact cutAt_map Component.toTree

end Elaborator

/-! ### Levels of a tree -/

/-- The greatest depth of an instance. -/
def InstanceTree.height (t : InstanceTree) : Nat :=
  (t.instances.map Instance.depth).max (by simpa using t.nonempty)

namespace InstanceTree

variable {t : InstanceTree}

theorem depth_le_height {i : Instance} (hi : i ∈ t.instances) : i.depth ≤ t.height :=
  List.le_max_of_mem (List.mem_map_of_mem hi)

theorem exists_depth_eq_height (t : InstanceTree) : ∃ i ∈ t.instances, i.depth = t.height :=
  List.mem_map.1 (List.max_mem _)

/-- Above every instance there is one at every level. -/
theorem Numbered.exists_depth_eq (h : t.Numbered) {i : Instance} (hi : i ∈ t.instances) {n : Nat}
    (hn : n ≤ i.depth) : ∃ j ∈ t.instances, j.depth = n := by
  -- from parent to parent, as many steps as the instance lies below the level
  obtain ⟨k, hk⟩ := Nat.exists_eq_add_of_le hn
  induction k generalizing i with
  | zero => exact ⟨i, hi, hk⟩
  | succ k ih =>
    have hget := h.get?_of_mem hi
    cases hparent : i.parent with
    | none =>
      have hroot : i = t.root := by
        have hzero := (h.root _ _ hget).1 hparent
        rw [hzero, get?_root, Option.some.injEq] at hget
        exact hget.symm
      rw [hroot, h.top.1] at hk
      omega
    | some m =>
      have hm : m < t.size :=
        Nat.lt_trans (h.parent _ _ _ hget hparent) (List.getElem?_eq_some_iff.1 hget).1
      have hget' : t.get? m = some t.instances[m] := List.getElem?_eq_getElem hm
      have hdepth := (h.below _ _ _ _ hget hparent hget').1
      exact ih (List.getElem_mem hm) (by omega) (by omega)

/-- A limit that is not below the height of a tree leaves it as it is. -/
theorem cutAt_of_height_le {limit : Nat} (h : t.height ≤ limit) :
    cutAt limit t.instances t = .ok t := by
  have hnone : t.instances.find? (·.depth == limit + 1) = none := by
    rw [List.find?_eq_none]
    intro i hi
    have hdepth := depth_le_height hi
    simp only [beq_iff_eq]
    omega
  unfold cutAt
  rw [hnone]

/-- A limit below the height of a tree cuts it at an instance. -/
theorem Numbered.exists_cut (h : t.Numbered) {limit : Nat} (hlt : limit < t.height) :
    ∃ i, t.instances.find? (·.depth == limit + 1) = some i ∧
      cutAt limit t.instances t = .error (.depthLimitExceeded i.path limit) := by
  obtain ⟨i, hi, hdepth⟩ := t.exists_depth_eq_height
  obtain ⟨j, hj, hlevel⟩ := h.exists_depth_eq hi (hdepth ▸ hlt)
  have hsome : (t.instances.find? (·.depth == limit + 1)).isSome := by
    rw [List.find?_isSome]
    exact ⟨j, hj, beq_iff_eq.2 hlevel⟩
  obtain ⟨k, hk⟩ := Option.isSome_iff_exists.1 hsome
  refine ⟨k, hk, ?_⟩
  unfold cutAt
  rw [hk]

end InstanceTree

/-! ### Programs -/

/-- **The limit of depth only cuts off.**  What a program elaborates to under some limit, other
than that the limit is exceeded, it elaborates to under every greater one.  A program with a
tree has this tree under all limits that are not below its height; under every other limit the
first instance of the walk that lies one level too deep is reported. -/
theorem elaborate_limits_cut (p : Program) (config : Config) {d d' : Nat} (hle : d ≤ d') :
    ((∀ path limit, elaborate p { config with maxDepth := d } ≠
        .error (.depthLimitExceeded path limit)) →
      elaborate p { config with maxDepth := d' } = elaborate p { config with maxDepth := d }) ∧
    ∀ tree, elaborate p { config with maxDepth := d' } = .ok tree →
      (tree.height ≤ d → elaborate p { config with maxDepth := d } = .ok tree) ∧
      (d < tree.height → ∃ i, tree.preorder.find? (·.depth == d + 1) = some i ∧
        elaborate p { config with maxDepth := d } = .error (.depthLimitExceeded i.path d)) := by
  let e : Elaborator := ⟨config, Expr.text⟩
  unfold elaborate
  cases p.definitions with
  | error cause => exact ⟨fun _ => rfl, fun tree h => by cases h⟩
  | ok t =>
    constructor
    · intro hlimit
      -- both runs take the same steps until the smaller limit stops its own
      have hrelated : ExceedsOrEqual InstanceTree ((e.limited d).elaborate t p.main)
          ((e.limited d').elaborate t p.main) :=
        (e.exceedsOrEqual_of_le hle).elaborate ExceedsOrEqual.chains t p.main
      rcases hrelated with ⟨path, limit, hexceeded⟩ | hequal
      · exact absurd hexceeded (hlimit path limit)
      · exact hequal.symm
    · intro tree h
      have htree : (e.limited d').elaborate t p.main = .ok tree := h
      -- under the smaller limit a run with a tree is cut at the first instance that lies too deep
      have hcut : (e.limited d).elaborate t p.main = cutAt d tree.preorder tree :=
        Elaborator.elaborate_limited_eq_cutAt htree d
      obtain ⟨r, c, -, -, rfl⟩ := Elaborator.elaborate_eq_ok.1 htree
      rw [c.preorder_toTree] at hcut ⊢
      constructor
      · intro hheight
        rw [InstanceTree.cutAt_of_height_le hheight] at hcut
        exact hcut
      · intro hheight
        obtain ⟨i, hi, herror⟩ := c.numbered_toTree.exists_cut hheight
        rw [herror] at hcut
        exact ⟨i, hi, hcut⟩

/-- Two levels below the root are enough for the nested sites, and one is not: the limit is exceeded
by the first leaf inside the first site. -/
theorem nested_sites_cut : ∃ tree i, elaborate nestedSites { maxDepth := 2 } = .ok tree ∧
    elaborate nestedSites { maxDepth := 8 } = .ok tree ∧ 1 < tree.height ∧
    tree.preorder.find? (·.depth == 2) = some i ∧ i.path = "Main.a.x" ∧
    elaborate nestedSites { maxDepth := 1 } = .error (.depthLimitExceeded i.path 1) := by
  have hruns : ∃ tree, elaborate nestedSites { maxDepth := 2 } = .ok tree :=
    exists_elaborate_of_within (by decide +kernel)
  have hstopped : elaborate nestedSites { maxDepth := 1 } =
      .error (.depthLimitExceeded "Main.a.x" 1) :=
    elaborate_eq_error_of_within (by decide +kernel)
  obtain ⟨tree, htree⟩ := hruns
  have hgreater : elaborate nestedSites { maxDepth := 8 } = .ok tree := by
    rw [← htree]
    apply (elaborate_limits_cut nestedSites {} (show 2 ≤ 8 by decide)).1
    intro path limit hexceeded
    have htree' : elaborate nestedSites { maxDepth := 2 } = .ok tree := htree
    rw [htree'] at hexceeded
    cases hexceeded
  have hcut := (elaborate_limits_cut nestedSites {} (show 1 ≤ 2 by decide)).2 tree htree
  have hheight : 1 < tree.height := by
    rw [← Nat.not_le]
    intro hlow
    have htree' : elaborate nestedSites { maxDepth := 1 } = .ok tree := hcut.1 hlow
    rw [hstopped] at htree'
    cases htree'
  obtain ⟨i, hi, hreported⟩ := hcut.2 hheight
  have hreported' : elaborate nestedSites { maxDepth := 1 } =
      .error (.depthLimitExceeded i.path 1) := hreported
  refine ⟨tree, i, htree, hgreater, hheight, hi, ?_, hreported'⟩
  rw [hstopped] at hreported'
  injection hreported' with hcause
  injection hcause with hpath
  exact hpath.symm

end Reactors

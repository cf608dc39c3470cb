import Mathlib.Data.List.Nodup
import Reactors.Proofs.Layout
import Reactors.Proofs.Levels
import Reactors.Proofs.PathIndex
import Reactors.Proofs.Routes

/-!
# Qualified names

The path of an instance joins the names of the sites along its route with points.  Names are
compared only among the sites of one definition, and a name may contain points itself, so that
two routes can spell one path.  They do so exactly if they part at two sites of which the
one has the name of the other with a point and something more behind it, and this addition is
what the other route spells inside.

## Main definitions

* `dotted` — what a route adds to a path.
* `Definitions.Ambiguous` — two routes part at sites whose names allow one path for both.

## Main results

* `Component.paths_layout` — the paths of the instances of a component.
* `Component.dotted_injective_iff` — routes are told apart by what they spell, unless the
  definition is ambiguous.
* `elaborate_paths_distinct_iff` — the paths of an elaborated tree are distinct exactly if the
  main definition is not ambiguous.
* `elaborate_paths_distinct_of_plain` — they are distinct if no name contains a point.
-/

namespace Reactors

/-- What a route adds to the path of the instance that it starts from. -/
def dotted : List Site → String
  | [] => ""
  | s :: ss => "." ++ s.name ++ dotted ss

@[simp] theorem dotted_nil : dotted [] = "" := rfl

theorem dotted_cons (s : Site) (σ : List Site) : dotted (s :: σ) = "." ++ s.name ++ dotted σ := rfl

theorem dotted_append (ρ σ : List Site) : dotted (ρ ++ σ) = dotted ρ ++ dotted σ := by
  induction ρ with
  | nil => rw [List.nil_append, dotted_nil, String.empty_append]
  | cons s ρ ih =>
    rw [List.cons_append, dotted_cons, ih, dotted_cons, ← String.append_assoc]

theorem toList_dotted_cons (s : Site) (σ : List Site) :
    (dotted (s :: σ)).toList = '.' :: (s.name.toList ++ (dotted σ).toList) := by
  rw [dotted_cons, String.toList_append, String.toList_append]
  rfl

theorem dotted_cons_ne_empty (s : Site) (σ : List Site) : dotted (s :: σ) ≠ "" := by
  intro h
  have hlist := congrArg String.toList h
  rw [toList_dotted_cons] at hlist
  cases hlist

/-- The path of a site, followed by a route, is the path followed by the longer route. -/
theorem sitePath_append_dotted (path : String) (s : Site) (σ : List Site) :
    Elaborator.sitePath path s.name ++ dotted σ = path ++ dotted (s :: σ) := by
  rw [Elaborator.sitePath, dotted_cons, String.append_assoc, String.append_assoc,
    String.append_assoc]

/-! ### Where routes with one spelling part -/

/-- A nonempty beginning of what a route spells begins with a point. -/
theorem point_of_toList_dotted {σ : List Site} {x y : List Char}
    (h : (dotted σ).toList = x ++ y) (hx : x ≠ []) : ∃ rest, x = '.' :: rest := by
  cases x with
  | nil => exact absurd rfl hx
  | cons ch x =>
    cases σ with
    | nil => cases h
    | cons s σ =>
      rw [toList_dotted_cons, List.cons_append] at h
      exact ⟨x, by rw [(List.cons.inj h).1]⟩

/-- A name that goes on with `x` behind another one, where a route spells `x` and then the same as
a second route: it is that name itself, or continues it with a point. -/
theorem continues_of_toList_append {a b : String} {σ τ : List Site} {x : List Char}
    (hname : b.toList = a.toList ++ x) (hspelt : (dotted σ).toList = x ++ (dotted τ).toList) :
    a = b ∧ dotted σ = dotted τ ∨
      ∃ rest, b = a ++ "." ++ rest ∧ dotted σ = "." ++ rest ++ dotted τ := by
  by_cases hx : x = []
  · rw [hx, List.append_nil] at hname
    rw [hx, List.nil_append] at hspelt
    exact Or.inl ⟨(String.toList_inj.1 hname).symm, String.toList_inj.1 hspelt⟩
  · obtain ⟨rest, rfl⟩ := point_of_toList_dotted hspelt hx
    have hpoint : ("." ++ String.ofList rest).toList = '.' :: rest := by
      simp [String.toList_append, String.toList_ofList]
    refine Or.inr ⟨String.ofList rest, String.toList_inj.1 ?_, String.toList_inj.1 ?_⟩
    · rw [hname, String.append_assoc, String.toList_append, hpoint]
    · rw [hspelt, String.toList_append, hpoint]

/-- Two names that read the same with what follows are equal, or one continues the other with a
point. -/
theorem split_of_append_dotted {a b : String} {σ τ : List Site}
    (h : a ++ dotted σ = b ++ dotted τ) :
    a = b ∧ dotted σ = dotted τ ∨
      (∃ rest, b = a ++ "." ++ rest ∧ dotted σ = "." ++ rest ++ dotted τ) ∨
      ∃ rest, a = b ++ "." ++ rest ∧ dotted τ = "." ++ rest ++ dotted σ := by
  have hlists : a.toList ++ (dotted σ).toList = b.toList ++ (dotted τ).toList := by
    rw [← String.toList_append, h, String.toList_append]
  rcases List.append_eq_append_iff.1 hlists with ⟨x, hb, hσ⟩ | ⟨x, ha, hτ⟩
  · rcases continues_of_toList_append hb hσ with heq | hrest
    · exact Or.inl heq
    · exact Or.inr (Or.inl hrest)
  · rcases continues_of_toList_append ha hτ with ⟨hname, hspelt⟩ | hrest
    · exact Or.inl ⟨hname.symm, hspelt.symm⟩
    · exact Or.inr (Or.inr hrest)

/-- Two routes from a definition part at sites `a` and `b` in such a way that they spell one path:
`b` has the name of `a` with a point and an addition, and the route through `a` goes on
with this addition as the path of something inside. -/
def Definitions.Ambiguous (t : Definitions) (r : ReactorDecl) : Prop :=
  ∃ ρ a b σ τ rest, t.Route r (ρ ++ a :: σ) ∧ t.Route r (ρ ++ b :: τ) ∧
    b.name = a.name ++ "." ++ rest ∧ dotted σ = "." ++ rest ++ dotted τ

namespace Definitions

variable {t : Definitions} {r d : ReactorDecl} {s : Site}

/-- A definition is ambiguous if one that it instantiates is. -/
theorem Ambiguous.through (hs : s ∈ r.sites) (hget : t.get? s.reactor = some d)
    (h : t.Ambiguous d) : t.Ambiguous r := by
  obtain ⟨ρ, a, b, σ, τ, rest, ha, hb, hname, hspelt⟩ := h
  exact ⟨s :: ρ, a, b, σ, τ, rest, (route_cons_of_get? hget).2 ⟨hs, ha⟩,
    (route_cons_of_get? hget).2 ⟨hs, hb⟩, hname, hspelt⟩

/-- In an ambiguous definition two routes spell the same. -/
theorem Ambiguous.exists_dotted_eq (h : t.Ambiguous r) :
    ∃ ρ ρ', t.Route r ρ ∧ t.Route r ρ' ∧ dotted ρ = dotted ρ' ∧ ρ ≠ ρ' := by
  obtain ⟨ρ, a, b, σ, τ, rest, ha, hb, hname, hspelt⟩ := h
  refine ⟨ρ ++ a :: σ, ρ ++ b :: τ, ha, hb, ?_, fun heq => ?_⟩
  · rw [dotted_append, dotted_append, dotted_cons, dotted_cons, hname, hspelt]
    simp only [String.append_assoc]
  · -- the two sites differ because the one name is longer
    have hsite : a = b := (List.cons.inj (List.append_cancel_left heq)).1
    have hlength := congrArg (fun name => name.toList.length) hname
    rw [hsite] at hlength
    simp only [String.toList_append, List.length_append] at hlength
    have hpoint : ".".toList.length = 1 := rfl
    omega

end Definitions

namespace Component

variable {e : Elaborator} {t : Definitions} {around : List String} {path name : String}
  {r : ReactorDecl} {overrides : OrderedMap Expr} {scope : Scope} {c : Component}

/-- Two routes of an unrolled definition that spell the same are one route, or part in a way that
makes the definition ambiguous. -/
theorem eq_or_ambiguous_of_dotted_eq
    (h : e.expand t around path name r overrides scope = .ok c) :
    ∀ ρ ρ', t.Route r ρ → t.Route r ρ' → dotted ρ = dotted ρ' → ρ = ρ' ∨ t.Ambiguous r := by
  -- the routes are followed until their first sites differ
  refine Elaborator.expand_induction (P := fun _ _ _ r _ _ _ => ∀ ρ ρ', t.Route r ρ →
    t.Route r ρ' → dotted ρ = dotted ρ' → ρ = ρ' ∨ t.Ambiguous r) ?_ h
  intro _ _ _ r _ _ _ _ children _ _ _ hdistinct hchildren ρ ρ' hρ hρ' hspelt
  cases ρ with
  | nil =>
    cases ρ' with
    | nil => exact Or.inl rfl
    | cons s' σ' => exact absurd hspelt.symm (dotted_cons_ne_empty s' σ')
  | cons s σ =>
    cases ρ' with
    | nil => exact absurd hspelt (dotted_cons_ne_empty s σ)
    | cons s' σ' =>
      have hs : s ∈ r.sites := (Definitions.route_cons.1 hρ).1
      have hs' : s' ∈ r.sites := (Definitions.route_cons.1 hρ').1
      rw [dotted_cons, dotted_cons, String.append_assoc, String.append_assoc,
        String.append_right_inj] at hspelt
      rcases split_of_append_dotted hspelt with ⟨hname, hσ⟩ | ⟨rest, hname, hσ⟩ | ⟨rest, hname, hσ⟩
      · -- sites of one definition with one name are one site
        have hsite : s = s' := List.inj_on_of_nodup_map hdistinct hs hs' hname
        subst hsite
        obtain ⟨_, -, d, hget, -, -, ih⟩ := exists_of_forall₂_left hchildren hs
        rw [Definitions.route_cons_of_get? hget] at hρ hρ'
        rcases ih σ σ' hρ.2 hρ'.2 hσ with rfl | hinside
        · exact Or.inl rfl
        · exact Or.inr (hinside.through hs hget)
      · exact Or.inr ⟨[], s, s', σ, σ', rest, hρ, hρ', hname, hσ⟩
      · exact Or.inr ⟨[], s', s, σ', σ, rest, hρ', hρ, hname, hσ⟩

/-- The routes of an unrolled definition spell different paths, unless it is ambiguous. -/
theorem dotted_injective_iff (h : e.expand t around path name r overrides scope = .ok c) :
    (∀ ρ ρ', t.Route r ρ → t.Route r ρ' → dotted ρ = dotted ρ' → ρ = ρ') ↔ ¬ t.Ambiguous r := by
  constructor
  · intro hinj hambiguous
    obtain ⟨ρ, ρ', hρ, hρ', hspelt, hne⟩ := hambiguous.exists_dotted_eq
    exact hne (hinj ρ ρ' hρ hρ' hspelt)
  · intro hclear ρ ρ' hρ hρ' hspelt
    exact (eq_or_ambiguous_of_dotted_eq h ρ ρ' hρ hρ' hspelt).resolve_right hclear

/-! ### Paths of instances -/

/-- A site and its component, of which the paths are spelt by the routes. -/
def SiteSpells (t : Definitions) (s : Site) (c : Component) : Prop :=
  ∃ d, t.get? s.reactor = some d ∧ c.name = s.name ∧ ∀ id parent depth path,
    InstanceTree.paths (c.layout id parent depth path) = (c.routes t d).map (path ++ dotted ·)

theorem paths_layoutAll {ss : List Site} {cs : List Component}
    (h : List.Forall₂ (SiteSpells t) ss cs) (next parent depth : Nat) (path : String) :
    InstanceTree.paths (layoutAll next parent depth path cs) =
      (routesAll t ss cs).map (path ++ dotted ·) := by
  induction h generalizing next with
  | nil => rfl
  | @cons s c ss cs hsc _ ih =>
    obtain ⟨d, hget, hname, hspells⟩ := hsc
    have hfirst : (c.routes t d).map (Elaborator.sitePath path c.name ++ dotted ·) =
        ((c.routes t d).map (s :: ·)).map (path ++ dotted ·) := by
      rw [List.map_map, hname]
      exact List.map_congr_left fun σ _ => sitePath_append_dotted path s σ
    rw [layoutAll, InstanceTree.paths, List.map_append, routesAll_cons hget, List.map_append,
      ← hfirst]
    exact congrArg₂ _ (hspells _ _ _ _) (ih _)

/-- The paths of the instances of a component are spelt by its routes, in the same order. -/
theorem paths_layout (h : e.expand t around path name r overrides scope = .ok c) (id : Nat)
    (parent : Option Nat) (depth : Nat) (path' : String) :
    InstanceTree.paths (c.layout id parent depth path') =
      (c.routes t r).map (path' ++ dotted ·) := by
  refine Elaborator.expand_induction (P := fun _ _ _ r _ _ c => ∀ id parent depth path,
    InstanceTree.paths (c.layout id parent depth path) = (c.routes t r).map (path ++ dotted ·))
    ?_ h id parent depth path'
  intro _ _ _ r _ _ _ _ children _ _ _ _ hchildren id parent depth path
  have hsites : List.Forall₂ (SiteSpells t) r.sites children :=
    hchildren.imp fun s c ⟨d, hget, _, hrun, hspells⟩ =>
      ⟨d, hget, Elaborator.name_of_expand hrun, hspells⟩
  rw [layout, InstanceTree.paths, List.map_cons, routes, List.map_cons, dotted_nil,
    String.append_empty]
  exact congrArg _ (paths_layoutAll hsites _ _ _ _)

/-- The paths in the tree of an unrolled definition are distinct, unless it is ambiguous. -/
theorem nodup_paths_toTree_iff (h : e.expand t around path name r overrides scope = .ok c) :
    (InstanceTree.paths c.toTree.instances).Nodup ↔ ¬ t.Ambiguous r := by
  have henum := enumerates_of_expand h
  have hpaths : InstanceTree.paths c.toTree.instances = (c.routes t r).map (c.name ++ dotted ·) :=
    paths_layout h 0 none 0 c.name
  rw [hpaths, List.nodup_map_iff_inj_on henum.nodup, ← dotted_injective_iff h]
  simp only [henum.mem, String.append_right_inj]
  exact ⟨fun hinj ρ ρ' hρ hρ' => hinj ρ hρ ρ' hρ', fun hinj ρ hρ ρ' hρ' => hinj ρ ρ' hρ hρ'⟩

end Component

/-! ### Elaborated trees -/

/-- **Paths and ambiguous definitions.**  The paths of an elaborated tree are distinct, and every
instance is found at its own path, exactly if no two routes from the main definition part at
a site and a second one that bears the name of the first with a point and the path of something
inside the first. -/
theorem elaborate_paths_distinct_iff {p : Program} {config : Config} {tree : InstanceTree}
    (h : elaborate p config = .ok tree) :
    ∃ t main, p.definitions = .ok t ∧ t.get? p.main = some main ∧
      ((InstanceTree.paths tree.instances).Nodup ↔ ¬ t.Ambiguous main) ∧
      ((∀ i ∈ tree.instances, tree.find? i.path = some i) ↔ ¬ t.Ambiguous main) := by
  obtain ⟨t, main, c, htable, hmain, hrun, rfl⟩ := elaborate_eq_ok.1 h
  have hpaths := Component.nodup_paths_toTree_iff hrun
  have hfind := InstanceTree.Positioned.find?_path_iff (Component.positioned_toTree c)
  exact ⟨t, main, htable, hmain, hpaths, hfind.trans hpaths⟩

/-- A main reactor with a site `a.b` next to a site `a`, which contains a site `b`. -/
def pointedSites : Program where
  main := "Main"
  reactors :=
    [((ReactorDecl.named "Main").withInstance "a.b" "Leaf" []).withInstance "a" "A" [],
      (ReactorDecl.named "A").withInstance "b" "Leaf" [],
      ReactorDecl.named "Leaf"]

/-- The main definition decides whether the paths are distinct. -/
theorem pointed_sites_decided : ∃ tree, elaborate pointedSites {} = .ok tree ∧
    ∃ t main, pointedSites.definitions = .ok t ∧ t.get? pointedSites.main = some main ∧
      ((InstanceTree.paths tree.instances).Nodup ↔ ¬ t.Ambiguous main) ∧
      ((∀ i ∈ tree.instances, tree.find? i.path = some i) ↔ ¬ t.Ambiguous main) := by
  have hruns : ∃ tree, elaborate pointedSites {} = .ok tree :=
    exists_elaborate_of_within (by decide +kernel)
  obtain ⟨tree, h⟩ := hruns
  exact ⟨tree, h, elaborate_paths_distinct_iff h⟩

/-- Two instances share the path `Main.a.b`, and look-up by path finds the later one only. -/
theorem pointed_sites_share_path : ∃ tree i j, elaborate pointedSites {} = .ok tree ∧
    i ∈ tree.instances ∧ tree.find? i.path = some j ∧ i.id = 1 ∧ j.id = 3 ∧
      ¬ (InstanceTree.paths tree.instances).Nodup := by
  have hrun : ((elaborate pointedSites {}).toOption.map fun tree =>
      (InstanceTree.paths tree.instances, (tree.get? 1).map fun i => (i.id, i.path),
        (tree.find? "Main.a.b").map Instance.id)) =
      some (["Main", "Main.a.b", "Main.a", "Main.a.b"], some (1, "Main.a.b"), some 3) := by
    rw [elaborate_eq_within]
    decide +kernel
  have hruns : ∃ tree, elaborate pointedSites {} = .ok tree :=
    exists_elaborate_of_within (by decide +kernel)
  obtain ⟨tree, h⟩ := hruns
  rw [h] at hrun
  obtain ⟨hpaths, hrest⟩ := Prod.mk.inj (Option.some.inj hrun)
  obtain ⟨hfirst, hfound⟩ := Prod.mk.inj hrest
  obtain ⟨i, hi, hview⟩ := Option.map_eq_some_iff.1 hfirst
  obtain ⟨j, hj, hjid⟩ := Option.map_eq_some_iff.1 hfound
  obtain ⟨hiid, hipath⟩ := Prod.mk.inj hview
  refine ⟨tree, i, j, h, List.mem_of_getElem? hi, hipath ▸ hj, hiid, hjid, ?_⟩
  rw [hpaths]
  decide

/-- **Plain names keep paths distinct.**  If no site that is reached from the main definition has
a point in its name, the paths of an elaborated tree are distinct. -/
theorem elaborate_paths_distinct_of_plain {p : Program} {config : Config} {tree : InstanceTree}
    {t : Definitions} {main : ReactorDecl} (h : elaborate p config = .ok tree)
    (htable : p.definitions = .ok t) (hmain : t.get? p.main = some main)
    (hplain : ∀ ρ, t.Route main ρ → ∀ s ∈ ρ, '.' ∉ s.name.toList) :
    (InstanceTree.paths tree.instances).Nodup := by
  obtain ⟨t', main', c, htable', hmain', hrun, rfl⟩ := elaborate_eq_ok.1 h
  rw [htable, Except.ok.injEq] at htable'
  subst htable'
  rw [hmain, Option.some.injEq] at hmain'
  subst hmain'
  refine (Component.nodup_paths_toTree_iff hrun).2 ?_
  rintro ⟨ρ, a, b, σ, τ, rest, -, hb, hname, -⟩
  refine hplain _ hb b (by simp) ?_
  rw [hname, String.toList_append, String.toList_append]
  simp

end Reactors

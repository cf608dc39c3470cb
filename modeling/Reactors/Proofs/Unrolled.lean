import Mathlib.Data.List.GetD
import Mathlib.Order.Interval.Set.Nat
import Reactors.Proofs.Layout
import Reactors.Proofs.Levels
import Reactors.Proofs.Routes

/-!
# The tree is the unrolled hierarchy

The instances of an elaborated tree stand for the routes from the main definition: every route
leads to one instance, the empty one to the root, and going one site further leads to the
child at that site.  A definition that several sites name is unrolled once for every
route to it.

## Main definitions

* `Instance.HangsBySite`, `Instance.OpensSites` — how the links of an instance follow the routes.
* `InstanceTree.Unrolls` — the instances of a tree stand for the routes from a definition.

## Main results

* `Component.layout_follows_routes` — the links of the instances of a component.
* `Component.unrolls_toTree` — the tree of an unrolled definition.
* `elaborate_unrolls_hierarchy` — elaborated trees unroll the hierarchy, and nothing else.
-/

namespace Reactors

/-- An instance has its parent one site before itself, and bears the name and the reactor
of that site. -/
def Instance.HangsBySite (route : Nat → List Site) (i : Instance) : Prop :=
  ∃ m s, i.parent = some m ∧ route i.id = route m ++ [s] ∧ i.name = s.name ∧
    i.reactor = s.reactor

/-- The children of an instance are, in order, one site further: at the sites of the definition
of its reactor. -/
def Instance.OpensSites (t : Definitions) (route : Nat → List Site) (i : Instance) : Prop :=
  ∃ d, t.get? i.reactor = some d ∧ i.children.map route = d.sites.map (route i.id ++ [·])

namespace Component

variable {e : Elaborator} {t : Definitions} {route : Nat → List Site}

/-- The links of all instances of a component follow the routes, provided that the routes of
their numbers are those of the component behind a common beginning.  The outermost
instance hangs by something outside. -/
def FollowsRoutes (t : Definitions) (route : Nat → List Site) (r : ReactorDecl) (c : Component) :
    Prop :=
  ∀ id parent depth path ρ,
    (List.range' id c.size).map route = (c.routes t r).map (ρ ++ ·) →
    ∀ i ∈ c.layout id parent depth path, i.OpensSites t route ∧
      (i.HangsBySite route ∨
        i.id = id ∧ i.parent = parent ∧ i.name = c.name ∧ i.reactor = r.name)

/-- What is needed of a site and its component to follow the routes through several sites. -/
def SiteFollowsRoutes (t : Definitions) (route : Nat → List Site) (s : Site) (c : Component) :
    Prop :=
  ∃ d, t.get? s.reactor = some d ∧ c.name = s.name ∧ c.Enumerates t d ∧ c.FollowsRoutes t route d

/-- The first number of a component stands for the beginning of its routes. -/
theorem route_first {r : ReactorDecl} {c : Component} {id : Nat} {ρ : List Site}
    (h : (List.range' id c.size).map route = (c.routes t r).map (ρ ++ ·)) : route id = ρ := by
  cases c with
  | mk name reactor parameters triggers children =>
    rw [size, Nat.add_comm, List.range'_succ, List.map_cons, routes, List.map_cons,
      List.append_nil] at h
    exact (List.cons.inj h).1

/-- Components laid out behind their parent hang by the sites that they are made of, in
order. -/
theorem layoutAll_follows_routes {ss : List Site} {cs : List Component}
    (h : List.Forall₂ (SiteFollowsRoutes t route) ss cs) (next parent depth : Nat)
    (path : String)
    (hroutes : (List.range' next (sizes cs)).map route =
      (routesAll t ss cs).map (route parent ++ ·)) :
    (numbers next cs).map route = ss.map (route parent ++ [·]) ∧
      ∀ i ∈ layoutAll next parent depth path cs, i.OpensSites t route ∧ i.HangsBySite route := by
  induction h generalizing next with
  | nil => exact ⟨rfl, fun i hi => by cases hi⟩
  | @cons s c ss cs hsc _ ih =>
    obtain ⟨d, hget, hname, henum, hfollows⟩ := hsc
    -- the routes split into those of the first component and those of the others
    rw [sizes, ← List.range'_append_1, List.map_append, routesAll_cons hget, List.map_append]
      at hroutes
    obtain ⟨hfirst, hrest⟩ := List.append_inj hroutes (by simp [henum.length])
    have hfirst' : (List.range' next c.size).map route =
        (c.routes t d).map ((route parent ++ [s]) ++ ·) := by
      rw [hfirst, List.map_map]
      refine List.map_congr_left fun σ _ => ?_
      rw [Function.comp_apply, List.append_assoc, List.singleton_append]
    have hnext : route next = route parent ++ [s] := route_first hfirst'
    obtain ⟨hnumbers, hlayout⟩ := ih (next + c.size) hrest
    refine ⟨?_, fun i hi => ?_⟩
    · rw [numbers, List.map_cons, List.map_cons, hnext, hnumbers]
    · rw [layoutAll] at hi
      rcases List.mem_append.1 hi with hi | hi
      · obtain ⟨hopens, hhangs | ⟨hid, hparent, hname', hreactor⟩⟩ :=
          hfollows next (some parent) depth _ _ hfirst' i hi
        · exact ⟨hopens, hhangs⟩
        · refine ⟨hopens, parent, s, hparent, ?_, hname'.trans hname, ?_⟩
          · rw [hid, hnext]
          · rw [hreactor, Definitions.name_of_get? hget]
      · exact hlayout i hi

/-- The links of the instances of an unrolled definition follow the routes from it. -/
theorem layout_follows_routes {around : List String} {path name : String} {r : ReactorDecl}
    {overrides : OrderedMap Expr} {scope : Scope} {c : Component} (route : Nat → List Site)
    (hget : t.get? r.name = some r)
    (h : e.expand t around path name r overrides scope = .ok c) : c.FollowsRoutes t route r := by
  refine Elaborator.expand_induction (e := e) (t := t)
    (P := fun _ _ _ r _ _ c => t.get? r.name = some r → c.FollowsRoutes t route r) ?_ h hget
  intro around path name r _ _ _ triggers children _ _ _ _ hchildren hget
  have hsites : List.Forall₂ (SiteFollowsRoutes t route) r.sites children := by
    refine hchildren.imp fun s c ⟨d, hd, _, hrun, hfollows⟩ => ?_
    have hd' : t.get? d.name = some d := by rwa [Definitions.name_of_get? hd]
    exact ⟨d, hd, Elaborator.name_of_expand hrun, enumerates_of_expand hrun, hfollows hd'⟩
  intro id parent depth path ρ hroutes i hi
  have hid : route id = ρ := route_first hroutes
  rw [size, Nat.add_comm, List.range'_succ, List.map_cons, routes, List.map_cons] at hroutes
  obtain ⟨hnumbers, hbelow⟩ := layoutAll_follows_routes hsites (id + 1) id (depth + 1) path
    (hid ▸ (List.cons.inj hroutes).2)
  rw [layout] at hi
  rcases List.mem_cons.1 hi with rfl | hi
  · exact ⟨⟨r, hget, hnumbers⟩, Or.inr ⟨rfl, rfl, rfl, rfl⟩⟩
  · obtain ⟨hopens, hhangs⟩ := hbelow i hi
    exact ⟨hopens, Or.inl hhangs⟩

end Component

/-! ### Trees -/

/-- The instances of a tree stand for the routes from a definition: `route` assigns every number
of an instance the route that leads to it. -/
structure InstanceTree.Unrolls (tree : InstanceTree) (t : Definitions) (main : ReactorDecl)
    (route : Nat → List Site) : Prop where
  /-- Every route leads to exactly one instance. -/
  bijective : Set.BijOn route (Set.Iio tree.size) {ρ | t.Route main ρ}
  /-- The empty route leads to the root. -/
  root : ∀ n i, tree.get? n = some i → route n = [] →
    n = 0 ∧ i.name = main.name ∧ i.reactor = main.name ∧ i.parent = none
  /-- One site further is an instance of that site, below the instance before it. -/
  below : ∀ n i ρ s, tree.get? n = some i → route n = ρ ++ [s] →
    i.name = s.name ∧ i.reactor = s.reactor ∧
      ∃ m, m < tree.size ∧ i.parent = some m ∧ route m = ρ
  /-- The children of an instance are at the sites of its definition, in their order. -/
  children : ∀ n i, tree.get? n = some i → (∀ m ∈ i.children, m < tree.size) ∧
    ∃ d, t.get? i.reactor = some d ∧ i.children.map route = d.sites.map (route n ++ [·])

/-- The positions of a list without repetitions correspond to its items. -/
theorem bijOn_getD {α : Type} {l : List α} (h : l.Nodup) (default : α) :
    Set.BijOn (fun n => l.getD n default) (Set.Iio l.length) {a | a ∈ l} := by
  have hget : ∀ n (hn : n < l.length), l.getD n default = l[n] := fun n hn =>
    List.getD_eq_getElem l default hn
  refine ⟨fun n hn => ?_, fun m hm n hn heq => ?_, fun a ha => ?_⟩
  · show l.getD n default ∈ l
    rw [hget n hn]
    exact List.getElem_mem hn
  · have heq : l.getD m default = l.getD n default := heq
    rw [hget m hm, hget n hn] at heq
    exact h.getElem_inj_iff.1 heq
  · obtain ⟨n, hn, rfl⟩ := List.getElem_of_mem ha
    exact ⟨n, hn, hget n hn⟩

namespace Component

variable {e : Elaborator} {t : Definitions} {main : ReactorDecl} {c : Component}

/-- The route to the instance with a number, in the tree of an unrolled definition. -/
def routeTo (t : Definitions) (main : ReactorDecl) (c : Component) (n : Nat) : List Site :=
  (c.routes t main).getD n []

theorem map_routeTo (henum : c.Enumerates t main) :
    (List.range' 0 c.size).map (c.routeTo t main) = (c.routes t main).map ([] ++ ·) := by
  refine List.ext_getElem (by simp [henum.length]) fun n h₁ h₂ => ?_
  rw [List.getElem_map, List.getElem_map, List.getElem_range', List.nil_append, routeTo]
  simp only [Nat.zero_add, Nat.one_mul]
  exact List.getD_eq_getElem _ _ _

/-- The tree of an unrolled definition stands for the routes from it. -/
theorem unrolls_toTree {around : List String} {path : String} {overrides : OrderedMap Expr}
    {scope : Scope} (hget : t.get? main.name = some main)
    (h : e.expand t around path main.name main overrides scope = .ok c) :
    c.toTree.Unrolls t main (c.routeTo t main) := by
  have henum := enumerates_of_expand h
  have hname := Elaborator.name_of_expand h
  have hroutes := map_routeTo henum
  -- the instances are numbered as their routes are enumerated
  have hlinks := layout_follows_routes (c.routeTo t main) hget h 0 none 0 c.name [] hroutes
  have hmem : ∀ n i, c.toTree.get? n = some i → i ∈ c.layout 0 none 0 c.name := fun n i hi =>
    List.mem_of_getElem? hi
  have hbij : Set.BijOn (c.routeTo t main) (Set.Iio c.toTree.size) {ρ | t.Route main ρ} := by
    have hb : Set.BijOn (c.routeTo t main) _ _ := bijOn_getD henum.nodup []
    rw [henum.length] at hb
    rw [size_toTree]
    simpa only [henum.mem] using hb
  refine ⟨hbij, fun n i hi hnil => ?_, fun n i ρ s hi hsnoc => ?_, fun n i hi => ?_⟩
  · have hid := id_of_get?_toTree hi
    -- an instance with a parent has a step on its route
    rcases (hlinks i (hmem n i hi)).2 with ⟨m, s, -, hroute, -⟩ | ⟨h0, hparent, hname', hreactor⟩
    · rw [hid, hnil] at hroute
      simp at hroute
    · exact ⟨hid ▸ h0, hname'.trans hname, hreactor, hparent⟩
  · have hid := id_of_get?_toTree hi
    -- the last step of a route is the site that the parent has for the instance
    rcases (hlinks i (hmem n i hi)).2 with ⟨m, s', hm, hroute, hname', hreactor⟩ | ⟨h0, -⟩
    · rw [hid, hsnoc] at hroute
      obtain ⟨rfl, hs⟩ := List.append_inj' hroute rfl
      cases hs
      refine ⟨hname', hreactor, m, ?_, hm, rfl⟩
      rcases parent_layout 0 none 0 c.name c i (hmem n i hi) with ⟨hnone, -⟩ | ⟨m', hm', -, hlt⟩
      · rw [hnone] at hm
        cases hm
      · rw [hm'] at hm
        cases hm
        have : n < c.toTree.size := (List.getElem?_eq_some_iff.1 hi).1
        omega
    · rw [← hid, h0, route_first hroutes] at hsnoc
      simp at hsnoc
  · have hid := id_of_get?_toTree hi
    refine ⟨fun m hm => ?_, hid ▸ (hlinks i (hmem n i hi)).1⟩
    have := children_layout 0 none 0 c.name c i (hmem n i hi) m hm
    rw [size_toTree]
    omega

end Component

/-! ### Elaborated trees -/

/-- A tree that stands for the routes from a definition has one instance for the definition and
one for every site met on the way, as often as it is met. -/
theorem InstanceTree.Unrolls.size_eq {tree : InstanceTree} {t : Definitions}
    {main : ReactorDecl} {route : Nat → List Site} (h : tree.Unrolls t main route) :
    tree.size = 1 + {ρ | t.Route main ρ ∧ ρ ≠ []}.ncard := by
  have hall : {ρ | t.Route main ρ} = insert [] {ρ | t.Route main ρ ∧ ρ ≠ []} := by
    ext ρ
    by_cases hρ : ρ = []
    · simp [hρ]
    · simp [hρ]
  have himage : route '' Set.Iio tree.size = {ρ | t.Route main ρ} := h.bijective.image_eq
  have hfinite : {ρ | t.Route main ρ ∧ ρ ≠ []}.Finite :=
    ((Set.finite_Iio tree.size).image route).subset fun ρ hρ => himage ▸ hρ.1
  calc tree.size = (Set.Iio tree.size).ncard := (Set.ncard_Iio_nat _).symm
    _ = (route '' Set.Iio tree.size).ncard := h.bijective.injOn.ncard_image.symm
    _ = (insert [] {ρ | t.Route main ρ ∧ ρ ≠ []}).ncard := by rw [himage, hall]
    _ = 1 + {ρ | t.Route main ρ ∧ ρ ≠ []}.ncard := by
        rw [Set.ncard_insert_of_notMem (fun hnil => hnil.2 rfl) hfinite, Nat.add_comm]

/-- **An elaborated tree is the unrolled hierarchy.**  Its instances correspond to the
routes from the main definition: the root to the empty route, every other instance to a
route whose last site gave it its name and its reactor and whose other sites lead to its
parent, and the children of an instance to the sites of its definition, in order.  So there
is one instance for the root and one for every site that can be reached, counted with
repeats. -/
theorem elaborate_unrolls_hierarchy {p : Program} {config : Config} {tree : InstanceTree}
    (h : elaborate p config = .ok tree) :
    ∃ t main route, p.definitions = .ok t ∧ t.get? p.main = some main ∧
      tree.Unrolls t main route ∧
      tree.size = 1 + {ρ | t.Route main ρ ∧ ρ ≠ []}.ncard := by
  obtain ⟨t, main, c, htable, hmain, hrun, rfl⟩ := elaborate_eq_ok.1 h
  have hself : t.get? main.name = some main := by rwa [Definitions.name_of_get? hmain]
  have hunrolls := Component.unrolls_toTree hself hrun
  exact ⟨t, main, c.routeTo t main, htable, hmain, hunrolls, hunrolls.size_eq⟩

/-- A main reactor with two pairs: the definition of a pair is shared by two sites, that of
a leaf by two sites of each pair. -/
def twoPairs : Program where
  main := "Main"
  reactors :=
    [((ReactorDecl.named "Main").withInstance "left" "Pair" []).withInstance "right" "Pair" [],
      ((ReactorDecl.named "Pair").withInstance "x" "Leaf" []).withInstance "y" "Leaf" [],
      ReactorDecl.named "Leaf"]

/-- The definitions that the two pairs share are unrolled once for every route. -/
theorem two_pairs_unroll : ∃ tree, elaborate twoPairs {} = .ok tree ∧
    ∃ t main route, twoPairs.definitions = .ok t ∧ t.get? twoPairs.main = some main ∧
      tree.Unrolls t main route ∧ tree.size = 1 + {ρ | t.Route main ρ ∧ ρ ≠ []}.ncard := by
  have hruns : ∃ tree, elaborate twoPairs {} = .ok tree :=
    exists_elaborate_of_within (by decide +kernel)
  obtain ⟨tree, h⟩ := hruns
  exact ⟨tree, h, elaborate_unrolls_hierarchy h⟩

end Reactors

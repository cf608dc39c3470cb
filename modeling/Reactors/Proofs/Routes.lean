import Mathlib.Data.List.Nodup
import Reactors.Proofs.Expansion

/-!
# Routes into a hierarchy

A route is a finite sequence of sites that starts in one definition and goes on, after each
site, in the definition of the reactor that the site names.  Every component inside an
unrolled definition is reached along exactly one route, and the empty route leads to the
definition's own component.

## Main definitions

* `Definitions.Route` — the routes from a definition.
* `Component.routes` — the routes to the components of an unrolled definition.
* `Component.Enumerates` — that list holds every route once, one for each component.

## Main results

* `Component.enumerates_of_expand` — the routes of an unrolled definition are enumerated by
  its components.
-/

namespace Reactors

/-- A sequence of sites that starts in a definition and continues in the definition of the
reactor that the site before names.  Only a site that is followed by another one has to name a
reactor with a definition. -/
def Definitions.Route (t : Definitions) : ReactorDecl → List Site → Prop
  | _, [] => True
  | r, s :: ss => s ∈ r.sites ∧ (ss ≠ [] → ∃ d, t.get? s.reactor = some d ∧ t.Route d ss)

namespace Definitions

variable {t : Definitions} {r d : ReactorDecl} {s : Site} {ss : List Site}

@[simp] theorem route_nil : t.Route r [] := trivial

theorem route_cons :
    t.Route r (s :: ss) ↔
      s ∈ r.sites ∧ (ss ≠ [] → ∃ d, t.get? s.reactor = some d ∧ t.Route d ss) := Iff.rfl

/-- Where the first site names a defined reactor, the rest is a route from its definition. -/
theorem route_cons_of_get? (hget : t.get? s.reactor = some d) :
    t.Route r (s :: ss) ↔ s ∈ r.sites ∧ t.Route d ss := by
  rw [route_cons]
  refine and_congr_right fun _ => ⟨fun h => ?_, fun h _ => ⟨d, hget, h⟩⟩
  by_cases hss : ss = []
  · rw [hss]
    exact route_nil
  · obtain ⟨d', hget', hroute⟩ := h hss
    rw [hget] at hget'
    cases hget'
    exact hroute

end Definitions

namespace Component

/-! ### The routes of a component -/

mutual

/-- The routes to the components of an unrolled definition, in the order in which their
instances are laid out. -/
def routes (t : Definitions) (r : ReactorDecl) : Component → List (List Site)
  | mk _ _ _ _ children => [] :: routesAll t r.sites children

/-- The routes that begin with one of several sites, which have the given components. -/
def routesAll (t : Definitions) : List Site → List Component → List (List Site)
  | s :: ss, c :: cs =>
    ((t.get? s.reactor).elim [] fun d => (routes t d c).map (s :: ·)) ++ routesAll t ss cs
  | _, _ => []

end

variable {t : Definitions} {s : Site} {ss : List Site} {c : Component} {cs : List Component}

theorem routesAll_cons {d : ReactorDecl} (hget : t.get? s.reactor = some d) :
    routesAll t (s :: ss) (c :: cs) = (c.routes t d).map (s :: ·) ++ routesAll t ss cs := by
  rw [routesAll, hget, Option.elim_some]

/-- The list of routes of a component holds every route once, and has one for each component
inside. -/
structure Enumerates (t : Definitions) (r : ReactorDecl) (c : Component) : Prop where
  length : (c.routes t r).length = c.size
  nodup : (c.routes t r).Nodup
  mem : ∀ ρ, ρ ∈ c.routes t r ↔ t.Route r ρ

/-- A site and its component, of which the routes are enumerated. -/
def SiteEnumerates (t : Definitions) (s : Site) (c : Component) : Prop :=
  ∃ d, t.get? s.reactor = some d ∧ c.Enumerates t d

theorem length_routesAll (h : List.Forall₂ (SiteEnumerates t) ss cs) :
    (routesAll t ss cs).length = sizes cs := by
  induction h with
  | nil => simp [routesAll, sizes]
  | cons hsc _ ih =>
    obtain ⟨d, hget, henum⟩ := hsc
    rw [routesAll_cons hget, List.length_append, List.length_map, henum.length, ih, sizes]

/-- The routes through sites are those that begin with one of them and go on in its
definition. -/
theorem mem_routesAll (h : List.Forall₂ (SiteEnumerates t) ss cs) {ρ : List Site} :
    ρ ∈ routesAll t ss cs ↔
      ∃ s ∈ ss, ∃ d σ, t.get? s.reactor = some d ∧ t.Route d σ ∧ ρ = s :: σ := by
  induction h with
  | nil => simp [routesAll]
  | @cons s c ss cs hsc _ ih =>
    obtain ⟨d, hget, henum⟩ := hsc
    rw [routesAll_cons hget, List.mem_append, List.mem_map, ih]
    constructor
    · rintro (⟨σ, hσ, rfl⟩ | ⟨s', hs', hrest⟩)
      · exact ⟨s, List.mem_cons_self, d, σ, hget, (henum.mem σ).1 hσ, rfl⟩
      · exact ⟨s', List.mem_cons_of_mem _ hs', hrest⟩
    · rintro ⟨s', hs', d', σ, hget', hσ, rfl⟩
      rcases List.mem_cons.1 hs' with rfl | hs'
      · rw [hget] at hget'
        cases hget'
        exact Or.inl ⟨σ, (henum.mem σ).2 hσ, rfl⟩
      · exact Or.inr ⟨s', hs', d', σ, hget', hσ, rfl⟩

/-- No route comes twice when no two sites have one name. -/
theorem nodup_routesAll (h : List.Forall₂ (SiteEnumerates t) ss cs)
    (hdistinct : (ss.map Site.name).Nodup) : (routesAll t ss cs).Nodup := by
  induction h with
  | nil => simp [routesAll]
  | @cons s c ss cs hsc hrest ih =>
    obtain ⟨d, hget, henum⟩ := hsc
    rw [List.map_cons, List.nodup_cons] at hdistinct
    rw [routesAll_cons hget, List.nodup_append]
    refine ⟨henum.nodup.map fun _ _ h => (List.cons.inj h).2, ih hdistinct.2, ?_⟩
    -- the routes on the left begin with `s`, those on the right with another site
    rintro ρ hleft ρ' hright rfl
    obtain ⟨σ, -, rfl⟩ := List.mem_map.1 hleft
    obtain ⟨s', hs', d', σ', -, -, heq⟩ := (mem_routesAll hrest).1 hright
    rw [(List.cons.inj heq).1] at hdistinct
    exact hdistinct.1 (List.mem_map_of_mem hs')

/-- The components of an unrolled definition enumerate its routes. -/
theorem enumerates_of_expand {e : Elaborator} {around : List String} {path name : String}
    {r : ReactorDecl} {overrides : OrderedMap Expr} {scope : Scope}
    (h : e.expand t around path name r overrides scope = .ok c) : c.Enumerates t r := by
  refine Elaborator.expand_induction (P := fun _ _ _ r _ _ c => c.Enumerates t r) ?_ h
  intro _ _ _ r _ _ _ _ children _ _ _ hdistinct hchildren
  have hsites : List.Forall₂ (SiteEnumerates t) r.sites children :=
    hchildren.imp fun s c ⟨d, hget, _, _, henum⟩ => ⟨d, hget, henum⟩
  refine ⟨?_, ?_, fun ρ => ?_⟩
  · rw [routes, List.length_cons, length_routesAll hsites, size, Nat.add_comm]
  · rw [routes, List.nodup_cons]
    refine ⟨fun hnil => ?_, nodup_routesAll hsites hdistinct⟩
    obtain ⟨_, _, _, _, _, _, heq⟩ := (mem_routesAll hsites).1 hnil
    cases heq
  · rw [routes, List.mem_cons, mem_routesAll hsites]
    cases ρ with
    | nil => exact iff_of_true (Or.inl rfl) Definitions.route_nil
    | cons s σ =>
      constructor
      · rintro (heq | ⟨s', hs', d, σ', hget, hσ, heq⟩)
        · cases heq
        · obtain ⟨rfl, rfl⟩ := List.cons.inj heq
          exact (Definitions.route_cons_of_get? hget).2 ⟨hs', hσ⟩
      · -- the first step of a route is a site, whose component has the rest among its routes
        intro hroute
        have hs : s ∈ r.sites := (Definitions.route_cons.1 hroute).1
        obtain ⟨c, -, d, hget, -⟩ := exists_of_forall₂_left hsites hs
        exact Or.inr ⟨s, hs, d, σ, hget, ((Definitions.route_cons_of_get? hget).1 hroute).2, rfl⟩

end Component
end Reactors

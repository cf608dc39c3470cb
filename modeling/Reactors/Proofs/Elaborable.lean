import Reactors.Proofs.Levels
import Reactors.Proofs.Routes
import Reactors.Proofs.TriggerFields

/-!
# Which programs elaborate

Elaboration makes its checks in the order in which it meets the sites, and stops at the first
that fails.  Which programs pass all of them can be said without that order: it is a condition
on every route from the main definition, and on every instance that a route leads to.  What an
instance is checked for depends on its ancestors only through the parameters of the instance
around it.

## Main definitions

* `Placement` — an instance as it is described before it is made: a definition, the overrides of
  its site, and the parameters of the instance around it.
* `Definitions.Reaches` — the placements that the routes from a placement lead to.
* `Placement.Sound` — what has to hold at one instance.
* `Elaborable` — what has to hold of all routes.

## Main results

* `elaborable_iff` — the condition, one site after the other.
* `Elaborator.exists_expand_iff` — the placements that unroll.
* `elaborate_succeeds_iff` — the programs that elaborate.
-/

namespace Reactors

/-! ### Instances before they are made -/

/-- A definition that is about to be instantiated: with overrides, in the scope of an enclosing
instance. -/
structure Placement where
  reactor : ReactorDecl
  overrides : OrderedMap Expr
  /-- The parameters of the instance around it. -/
  scope : Scope

namespace Placement

/-- The main definition, which nothing overrides and nothing encloses. -/
def root (main : ReactorDecl) : Placement := ⟨main, .empty, .empty⟩

/-- The parameters of the instance. -/
def parameters (q : Placement) : Scope := q.reactor.parametersIn q.overrides q.scope

/-- A definition instantiated at a site of this instance. -/
def inside (q : Placement) (s : Site) (d : ReactorDecl) : Placement :=
  ⟨d, s.overrides, q.parameters⟩

/-- What an instance is checked for. -/
structure Sound (config : Config) (q : Placement) : Prop where
  /-- Overrides are of declared parameters. -/
  overrides : ∀ name ∈ q.overrides.keys, ∃ p ∈ q.reactor.parameters, p.name = name
  /-- The expressions chosen for the declared parameters refer to parameters of the instance
  around. -/
  references : ∀ p ∈ q.reactor.parameters, ∀ name ∈ (chosen q.overrides p).1.refs,
    name ∈ q.scope.keys
  /-- Timing fields stand for times among the instance's own parameters. -/
  timing : ∀ x ∈ q.reactor.timingFields, x.HoldsIn q.parameters Value.IsTime
  /-- Widths stand for non-negative integers among the instance's own parameters. -/
  widths : ∀ x ∈ q.reactor.widths, x.HoldsIn q.parameters Value.IsCount
  /-- No two sites have one name. -/
  sites : (q.reactor.sites.map Site.name).Nodup
  /-- No two triggers have one name. -/
  triggers : (config.startupName :: q.reactor.triggerNames).Nodup

end Placement

/-- The instance that a route leads to, as it is described before it is made. -/
inductive Definitions.Reaches (t : Definitions) : Placement → List Site → Placement → Prop where
  | here (q : Placement) : t.Reaches q [] q
  | site {q q' : Placement} {s : Site} {d : ReactorDecl} {ρ : List Site} :
      s ∈ q.reactor.sites → t.get? s.reactor = some d → t.Reaches (q.inside s d) ρ q' →
      t.Reaches q (s :: ρ) q'

/-- What has to hold of all routes from a placement inside the definitions `around`. -/
structure Elaborable (config : Config) (t : Definitions) (around : List String) (q : Placement) :
    Prop where
  /-- Every site names a reactor with a definition. -/
  defined : ∀ ρ, t.Route q.reactor ρ → ∀ s ∈ ρ, ∃ d, t.get? s.reactor = some d
  /-- No definition is met twice on the way. -/
  acyclic : ∀ ρ, t.Route q.reactor ρ →
    (around ++ q.reactor.name :: ρ.map Site.reactor).Nodup
  /-- No route is too long. -/
  shallow : ∀ ρ, t.Route q.reactor ρ → around.length + ρ.length ≤ config.maxDepth
  /-- Every instance on the way passes its checks. -/
  sound : ∀ ρ q', t.Reaches q ρ q' → q'.Sound config

/-! ### One site after the other -/

section

variable {config : Config} {t : Definitions} {around : List String} {q : Placement}

/-- What holds of all routes holds of those through one site. -/
theorem Elaborable.inside (h : Elaborable config t around q) {s : Site} {d : ReactorDecl}
    (hs : s ∈ q.reactor.sites) (hget : t.get? s.reactor = some d) :
    Elaborable config t (around ++ [q.reactor.name]) (q.inside s d) := by
  have hname : s.reactor = d.name := (Definitions.name_of_get? hget).symm
  have hroute : ∀ {ρ}, t.Route (q.inside s d).reactor ρ → t.Route q.reactor (s :: ρ) :=
    fun hρ => (Definitions.route_cons_of_get? hget).2 ⟨hs, hρ⟩
  refine ⟨fun ρ hρ s' hs' => ?_, fun ρ hρ => ?_, fun ρ hρ => ?_, fun ρ q' hq' => ?_⟩
  · exact h.defined (s :: ρ) (hroute hρ) s' (List.mem_cons_of_mem _ hs')
  · have hacyclic := h.acyclic (s :: ρ) (hroute hρ)
    rw [List.map_cons, hname] at hacyclic
    rwa [List.append_assoc, List.singleton_append]
  · have hshallow := h.shallow (s :: ρ) (hroute hρ)
    rw [List.length_cons] at hshallow
    rw [List.length_append, List.length_singleton]
    omega
  · exact h.sound (s :: ρ) q' (.site hs hget hq')

/-- A placement is elaborable when it is not too deep and sound itself, and every one of its sites
names a definition that is not around and is elaborable there. -/
theorem elaborable_iff (haround : (around ++ [q.reactor.name]).Nodup) :
    Elaborable config t around q ↔
      around.length ≤ config.maxDepth ∧ q.Sound config ∧
        ∀ s ∈ q.reactor.sites, ∃ d, t.get? s.reactor = some d ∧
          d.name ∉ around ++ [q.reactor.name] ∧
          Elaborable config t (around ++ [q.reactor.name]) (q.inside s d) := by
  constructor
  · intro h
    refine ⟨h.shallow [] Definitions.route_nil, h.sound [] q (.here q), fun s hs => ?_⟩
    have hroute : t.Route q.reactor [s] := Definitions.route_cons.2 ⟨hs, fun h => absurd rfl h⟩
    obtain ⟨d, hget⟩ := h.defined [s] hroute s List.mem_cons_self
    refine ⟨d, hget, fun hmem => ?_, h.inside hs hget⟩
    have hacyclic := h.acyclic [s] hroute
    rw [List.map_singleton, ← Definitions.name_of_get? hget,
      ← List.singleton_append (l := [d.name]), ← List.append_assoc] at hacyclic
    exact (List.nodup_append.1 hacyclic).2.2 _ hmem _ List.mem_cons_self rfl
  · rintro ⟨hdepth, hsound, hsites⟩
    -- a route is empty, or goes on from its first site with the definition around it added
    refine ⟨fun ρ hρ => ?_, fun ρ hρ => ?_, fun ρ hρ => ?_, fun ρ q' hq' => ?_⟩
    · cases ρ with
      | nil => exact fun _ h => by cases h
      | cons s ρ =>
        obtain ⟨d, hget, -, hd⟩ := hsites s (Definitions.route_cons.1 hρ).1
        refine List.forall_mem_cons.2 ⟨⟨d, hget⟩, ?_⟩
        exact hd.defined ρ ((Definitions.route_cons_of_get? hget).1 hρ).2
    · cases ρ with
      | nil => exact haround
      | cons s ρ =>
        obtain ⟨d, hget, -, hd⟩ := hsites s (Definitions.route_cons.1 hρ).1
        have hacyclic := hd.acyclic ρ ((Definitions.route_cons_of_get? hget).1 hρ).2
        rw [List.append_assoc, List.singleton_append] at hacyclic
        rw [List.map_cons, ← Definitions.name_of_get? hget]
        exact hacyclic
    · cases ρ with
      | nil => exact hdepth
      | cons s ρ =>
        obtain ⟨d, hget, -, hd⟩ := hsites s (Definitions.route_cons.1 hρ).1
        have hshallow := hd.shallow ρ ((Definitions.route_cons_of_get? hget).1 hρ).2
        rw [List.length_append, List.length_singleton] at hshallow
        rw [List.length_cons]
        omega
    · cases hq' with
      | here => exact hsound
      | @site _ _ s d ρ hs hget hq' =>
        obtain ⟨d', hget', -, hd⟩ := hsites s hs
        rw [hget] at hget'
        cases hget'
        exact hd.sound ρ q' hq'

end

/-! ### The placements that unroll -/

namespace Elaborator

variable {e : Elaborator} {t : Definitions}

/-- A definition unrolls when it is not too deep and passes its checks, and each of its sites
names a definition that is not around and unrolls there. -/
theorem exists_expand_iff_sites {around : List String} {path name : String} {q : Placement} :
    (∃ c, e.expand t around path name q.reactor q.overrides q.scope = .ok c) ↔
      around.length ≤ e.config.maxDepth ∧ q.Sound e.config ∧
        ∀ s ∈ q.reactor.sites, ∃ c,
          e.Makes t (around ++ [q.reactor.name]) path q.parameters s c := by
  simp only [expand_eq_ok, resolveParameters_eq_ok, expandSites_eq_ok]
  constructor
  · rintro ⟨_, hdepth, _, children, triggers, ⟨hover, hrefs, rfl⟩, ⟨-, hsites, hmade⟩, ht, -⟩
    obtain ⟨htiming, hwidths, hnames⟩ := exists_triggers_iff.1 ⟨triggers, ht⟩
    exact ⟨hdepth, ⟨hover, hrefs, htiming, hwidths, hsites, hnames⟩,
      exists_forall₂_iff.1 ⟨children, hmade⟩⟩
  · rintro ⟨hdepth, hsound, hmade⟩
    obtain ⟨children, hmade⟩ := exists_forall₂_iff.2 hmade
    obtain ⟨triggers, ht⟩ : ∃ ts, e.triggers ⟨path, q.parameters⟩ q.reactor = .ok ts :=
      exists_triggers_iff.2 ⟨hsound.timing, hsound.widths, hsound.triggers⟩
    exact ⟨_, hdepth, q.parameters, children, triggers,
      ⟨hsound.overrides, hsound.references, rfl⟩,
      ⟨fun _ _ => List.not_mem_nil, hsound.sites, hmade⟩, ht, rfl⟩

/-- The placements that unroll are the elaborable ones. -/
theorem exists_expand_iff (e : Elaborator) (t : Definitions) (around : List String)
    (r : ReactorDecl) (haround : (around ++ [r.name]).Nodup) (path name : String)
    (overrides : OrderedMap Expr) (scope : Scope) :
    (∃ c, e.expand t around path name r overrides scope = .ok c) ↔
      Elaborable e.config t around ⟨r, overrides, scope⟩ := by
  induction around, r using t.nested_induction generalizing path name overrides scope with
  | step around r ih =>
    -- both sides ask the same of `r` itself, and the rest is asked of each site by induction
    let q : Placement := ⟨r, overrides, scope⟩
    show (∃ c, e.expand t around path name q.reactor q.overrides q.scope = .ok c) ↔
      Elaborable e.config t around q
    have hnext : ∀ d : ReactorDecl, d.name ∉ around ++ [r.name] →
        (around ++ [r.name] ++ [d.name]).Nodup := fun d hnew => by
      rw [← List.concat_eq_append]
      exact haround.concat hnew
    rw [exists_expand_iff_sites, elaborable_iff haround]
    refine and_congr_right fun _ => and_congr_right fun _ => forall₂_congr fun s _ => ?_
    constructor
    · rintro ⟨c, d, hget, hnew, hrun⟩
      exact ⟨d, hget, hnew, (ih _ d hget hnew (hnext d hnew) _ _ _ _).1 ⟨c, hrun⟩⟩
    · rintro ⟨d, hget, hnew, hd⟩
      obtain ⟨c, hrun⟩ := (ih _ d hget hnew (hnext d hnew) (sitePath path s.name) s.name _ _).2 hd
      exact ⟨c, d, hget, hnew, hrun⟩

end Elaborator

/-! ### The programs that elaborate -/

/-- **Which programs elaborate.**  The names of the definitions are distinct and the main reactor
is defined; on every route from its definition all reactors are defined, no definition
comes twice, and the limit of depth is kept; and every instance that a route leads to
passes its checks: its overrides are of declared parameters, the references in the expressions
chosen for its parameters are to parameters of the instance around it, its timing fields and
widths stand for times and counts among its own parameters, and neither two of its sites nor
two of its triggers have one name. -/
theorem elaborate_succeeds_iff (p : Program) (config : Config) :
    (∃ tree, elaborate p config = .ok tree) ↔
      ∃ distinct : (p.reactors.map ReactorDecl.name).Nodup, ∃ main,
        p.reactor? p.main = some main ∧
          Elaborable config ⟨p.reactors, distinct⟩ [] (.root main) := by
  -- for the main definition the conditions are those under which it unrolls
  have hroot : ∀ (t : Definitions) main,
      (∃ c, Elaborator.expand ⟨config, Expr.text⟩ t [] main.name main.name main .empty .empty =
        .ok c) ↔ Elaborable config t [] (.root main) := fun t main =>
    Elaborator.exists_expand_iff _ t [] main (List.nodup_singleton _) _ _ _ _
  constructor
  · rintro ⟨tree, h⟩
    obtain ⟨t, main, c, htable, hmain, hrun, -⟩ := elaborate_eq_ok.1 h
    obtain ⟨reactors, distinct⟩ := t
    obtain rfl : reactors = p.reactors := Program.definitions_eq_ok.1 htable
    exact ⟨distinct, main, hmain, (hroot _ main).1 ⟨c, hrun⟩⟩
  · rintro ⟨distinct, main, hmain, h⟩
    obtain ⟨c, hrun⟩ := (hroot _ main).2 h
    have htable : p.definitions = .ok ⟨p.reactors, distinct⟩ := Program.definitions_eq_ok.2 rfl
    exact ⟨c.toTree, elaborate_eq_ok.2 ⟨_, main, c, htable, hmain, hrun, rfl⟩⟩

end Reactors

import Mathlib.Data.List.Forall2
import Reactors.Proofs.Numbering

/-!
# Runs of the unrolling

What a successful unrolling consists of: a component is made when it is not too deep, its
parameters resolve, every one of its sites unrolls and its triggers can be made.  Everything
that is known about finished hierarchies is read off these descriptions; the recursion itself
is not opened again.

Two inductions go with them.  A finished component is a finite tree, which gives an induction
on the component.  Before it is known that there is one, the definitions around a component
give another: they are distinct, and only the ones that are not among them can come next.

Where two runs are compared, the relation between their outcomes has to pass to chains of steps,
and is then shown for single steps.

## Main definitions

* `OutcomeRelation`, `Chains` — a relation between outcomes passes to chains of steps.

## Main results

* `bind_eq_ok` — a chain of steps succeeds when each step does.
* `Elaborator.expand_eq_ok`, `Elaborator.expandSites_eq_ok` — the successful runs.
* `Elaborator.expand_induction` — induction on the successful runs.
* `Component.induction` — induction on a component.
* `Definitions.nested_induction` — induction on the definitions that can still be met.
-/

namespace Reactors

/-- A chain of two steps succeeds exactly when both succeed. -/
theorem bind_eq_ok {ε α β : Type} {x : Except ε α} {f : α → Except ε β} {b : β} :
    (x >>= f) = .ok b ↔ ∃ a, x = .ok a ∧ f a = .ok b := by
  cases x with
  | error cause => simp [bind, Except.bind]
  | ok a => simp [bind, Except.bind]

theorem map_eq_ok {ε α β : Type} {x : Except ε α} {f : α → β} {b : β} :
    x.map f = .ok b ↔ ∃ a, x = .ok a ∧ f a = b := by
  cases x with
  | error cause => simp [Except.map]
  | ok a => simp [Except.map]

/-- A step that fails does not succeed. -/
theorem throw_ne_ok {ε α : Type} {cause : ε} {a : α} :
    (throw cause : Except ε α) ≠ .ok a := by
  intro h
  cases h

/-- In two lists that are related item by item, every item on the left has a partner. -/
theorem exists_of_forall₂_left {α β : Type} {R : α → β → Prop} {as : List α} {bs : List β}
    (h : List.Forall₂ R as bs) {a : α} (ha : a ∈ as) : ∃ b ∈ bs, R a b := by
  induction h with
  | nil => cases ha
  | @cons a' b as bs hab _ ih =>
    rcases List.mem_cons.1 ha with rfl | ha
    · exact ⟨b, List.mem_cons_self, hab⟩
    · obtain ⟨b', hb', hR⟩ := ih ha
      exact ⟨b', List.mem_cons_of_mem _ hb', hR⟩

/-! ### Relations between outcomes -/

/-- A relation between outcomes, whatever kind of result the step has. -/
abbrev OutcomeRelation (ε : Type) := (α : Type) → Except ε α → Except ε α → Prop

/-- A relation between the outcomes of two steps passes to chains of such steps. -/
structure Chains {ε : Type} (R : OutcomeRelation ε) : Prop where
  refl : ∀ {α : Type} (x : Except ε α), R α x x
  bind : ∀ {α β : Type} {x y : Except ε α} {f g : α → Except ε β}, R α x y →
    (∀ a, R β (f a) (g a)) → R β (x >>= f) (y >>= g)

namespace Chains

theorem eq {ε : Type} : @Chains ε fun _ => Eq where
  refl _ := rfl
  bind hxy hfg := by
    rw [hxy, funext hfg]

variable {ε α β : Type} {R : OutcomeRelation ε}

theorem map (h : Chains R) {x y : Except ε α} (hxy : R α x y) (f : α → β) :
    R β (x.map f) (y.map f) := by
  have hbind : ∀ z : Except ε α, z.map f = z >>= fun a => .ok (f a) := by
    intro z
    cases z <;> rfl
  rw [hbind, hbind]
  exact h.bind hxy fun a => h.refl _

/-- Two steps that are related at every item are related along a list. -/
theorem mapM (h : Chains R) {f g : α → Except ε β} (hfg : ∀ a, R β (f a) (g a)) (as : List α) :
    R (List β) (as.mapM f) (as.mapM g) := by
  induction as with
  | nil => exact h.refl _
  | cons a as ih =>
    rw [List.mapM_cons, List.mapM_cons]
    exact h.bind (hfg a) fun b => h.bind ih fun bs => h.refl _

end Chains

/-! ### Two inductions -/

/-- A property of all components holds when it passes from the components inside to the one
around them. -/
theorem Component.induction {P : Component → Prop}
    (step : ∀ name reactor parameters triggers children, (∀ c ∈ children, P c) →
      P (.mk name reactor parameters triggers children)) : ∀ c, P c
  | .mk name reactor parameters triggers children =>
    step name reactor parameters triggers children fun c hc =>
      have : sizeOf c < sizeOf children := List.sizeOf_lt_of_mem hc
      Component.induction step c
termination_by c => sizeOf c
decreasing_by simp; omega

/-- A property of definitions and the definitions around them holds when it follows from the
definitions of the table that can come next inside. -/
theorem Definitions.nested_induction (t : Definitions)
    {P : List String → ReactorDecl → Prop}
    (step : ∀ around r, (∀ name d, t.get? name = some d → d.name ∉ around ++ [r.name] →
      P (around ++ [r.name]) d) → P around r) (around : List String) (r : ReactorDecl) :
    P around r := by
  -- every step inwards leaves fewer definitions that have not been met
  have key : ∀ n around r, t.unmet (around ++ [r.name]) = n → P around r := by
    intro n
    induction n using Nat.strongRecOn with
    | _ n ih =>
      intro around r hn
      refine step around r fun name d hget hnew => ?_
      have hlt := Definitions.unmet_append_lt (Definitions.mem_names_of_get? hget) hnew
      exact ih _ (hn ▸ hlt) (around ++ [r.name]) d rfl
  exact key _ around r rfl

/-! ### Successful runs -/

namespace Elaborator

variable {e : Elaborator} {t : Definitions} {around stack seen : List String}
  {path name : String} {r : ReactorDecl} {overrides : OrderedMap Expr} {scope : Scope}

/-- The successful unrollings of a definition. -/
theorem expand_eq_ok {c : Component} :
    e.expand t around path name r overrides scope = .ok c ↔
      around.length ≤ e.config.maxDepth ∧ ∃ parameters children triggers,
        resolveParameters e.quote path r overrides scope = .ok parameters ∧
        e.expandSites t (around ++ [r.name]) path parameters [] r.sites = .ok children ∧
        e.triggers ⟨path, parameters⟩ r = .ok triggers ∧
        c = .mk name r.name parameters triggers children := by
  rw [expand]
  split
  · next hdeep =>
    refine iff_of_false ?_ fun h => absurd h.1 (Nat.not_le.2 hdeep)
    rw [bind_eq_ok]
    rintro ⟨_, h, _⟩
    exact throw_ne_ok h
  · next hdeep =>
    rw [and_iff_right (Nat.not_lt.1 hdeep)]
    simp only [bind_eq_ok, pure, Except.pure, Except.ok.injEq]
    constructor
    · rintro ⟨parameters, hp, children, hc, triggers, ht, rfl⟩
      exact ⟨parameters, children, triggers, hp, hc, ht, rfl⟩
    · rintro ⟨parameters, children, triggers, hp, hc, ht, rfl⟩
      exact ⟨parameters, hp, children, hc, triggers, ht, rfl⟩

theorem expandSites_nil_eq_ok {cs : List Component} :
    e.expandSites t stack path scope seen [] = .ok cs ↔ cs = [] := by
  rw [expandSites]
  simp only [pure, Except.pure, Except.ok.injEq]
  exact eq_comm

theorem expandSites_cons_eq_ok {s : Site} {ss : List Site} {cs : List Component} :
    e.expandSites t stack path scope seen (s :: ss) = .ok cs ↔
      s.name ∉ seen ∧ ∃ d, t.get? s.reactor = some d ∧ d.name ∉ stack ∧ ∃ c cs',
        e.expand t stack (sitePath path s.name) s.name d s.overrides scope = .ok c ∧
        e.expandSites t stack path scope (s.name :: seen) ss = .ok cs' ∧ cs = c :: cs' := by
  rw [expandSites]
  split
  · next hseen =>
    refine iff_of_false ?_ fun h => h.1 hseen
    rw [bind_eq_ok]
    rintro ⟨_, h, _⟩
    exact throw_ne_ok h
  · next hseen =>
    rw [and_iff_right hseen]
    dsimp only
    split
    · next hget =>
      rw [hget]
      refine iff_of_false throw_ne_ok ?_
      rintro ⟨d, h, -⟩
      cases h
    · next d hget =>
      simp only [hget, Option.some.injEq, exists_eq_left']
      split
      · next hcycle => exact iff_of_false throw_ne_ok fun h => h.1 hcycle
      · next hcycle =>
        rw [and_iff_right hcycle]
        simp only [bind_eq_ok, pure, Except.pure, Except.ok.injEq]
        constructor
        · rintro ⟨c, hc, cs', hcs, rfl⟩
          exact ⟨c, cs', hc, hcs, rfl⟩
        · rintro ⟨c, cs', hc, hcs, rfl⟩
          exact ⟨c, hc, cs', hcs, rfl⟩

theorem name_of_expand {c : Component}
    (h : e.expand t around path name r overrides scope = .ok c) : c.name = name := by
  obtain ⟨-, _, _, _, -, -, -, rfl⟩ := expand_eq_ok.1 h
  rfl

/-- What a site has to do with the component made of it: the definition that the site names
is not one of those around, and unrolls to the component. -/
def Makes (e : Elaborator) (t : Definitions) (stack : List String) (path : String)
    (scope : Scope) (s : Site) (c : Component) : Prop :=
  ∃ d, t.get? s.reactor = some d ∧ d.name ∉ stack ∧
    e.expand t stack (sitePath path s.name) s.name d s.overrides scope = .ok c

/-- The successful unrollings of sites: no name comes twice, and every site makes a component
of its own. -/
theorem expandSites_eq_ok {ss : List Site} {cs : List Component} :
    e.expandSites t stack path scope seen ss = .ok cs ↔
      (∀ s ∈ ss, s.name ∉ seen) ∧ (ss.map Site.name).Nodup ∧
        List.Forall₂ (e.Makes t stack path scope) ss cs := by
  induction ss generalizing seen cs with
  | nil =>
    rw [expandSites_nil_eq_ok]
    simp
  | cons s ss ih =>
    rw [expandSites_cons_eq_ok, List.map_cons, List.nodup_cons]
    constructor
    · rintro ⟨hseen, d, hget, hnew, c, cs', hc, hcs, rfl⟩
      -- later sites are compared with this one as well, since it is among those seen
      obtain ⟨hlater, hdistinct, hmade⟩ := ih.1 hcs
      refine ⟨?_, ⟨?_, hdistinct⟩, List.Forall₂.cons ⟨d, hget, hnew, hc⟩ hmade⟩
      · intro s' hs'
        rcases List.mem_cons.1 hs' with rfl | hs'
        · exact hseen
        · exact fun h => hlater s' hs' (List.mem_cons_of_mem _ h)
      · intro h
        obtain ⟨s', hs', heq⟩ := List.mem_map.1 h
        exact hlater s' hs' (heq ▸ List.mem_cons_self)
    · rintro ⟨hseen, ⟨hfresh, hdistinct⟩, hmade⟩
      obtain ⟨c, cs', ⟨d, hget, hnew, hc⟩, hrest, rfl⟩ := List.forall₂_cons_left_iff.1 hmade
      refine ⟨hseen s List.mem_cons_self, d, hget, hnew, c, cs', hc, ih.2 ⟨?_, hdistinct, hrest⟩,
        rfl⟩
      intro s' hs' h
      rcases List.mem_cons.1 h with heq | h
      · exact hfresh (List.mem_map.2 ⟨s', hs', heq⟩)
      · exact hseen s' (List.mem_cons_of_mem _ hs') h

/-- Induction on successful runs: what passes from the runs for the sites of a definition to the
run for the definition holds of every successful run. -/
theorem expand_induction
    {P : List String → String → String → ReactorDecl → OrderedMap Expr → Scope → Component → Prop}
    (step : ∀ around path name r overrides scope parameters triggers children,
      around.length ≤ e.config.maxDepth →
      resolveParameters e.quote path r overrides scope = .ok parameters →
      e.triggers ⟨path, parameters⟩ r = .ok triggers →
      (r.sites.map Site.name).Nodup →
      List.Forall₂ (fun s c => ∃ d, t.get? s.reactor = some d ∧ d.name ∉ around ++ [r.name] ∧
        e.expand t (around ++ [r.name]) (sitePath path s.name) s.name d s.overrides parameters =
          .ok c ∧
        P (around ++ [r.name]) (sitePath path s.name) s.name d s.overrides parameters c)
        r.sites children →
      P around path name r overrides scope (.mk name r.name parameters triggers children))
    {c : Component} (h : e.expand t around path name r overrides scope = .ok c) :
    P around path name r overrides scope c := by
  -- the component has the shape of the run that made it
  induction c using Component.induction generalizing around path name r overrides scope with
  | step _ _ _ _ children ih =>
    obtain ⟨hdepth, parameters, children', triggers, hp, hc, ht, heq⟩ := expand_eq_ok.1 h
    injection heq with hname hreactor hparameters htriggers hchildren
    subst hname hreactor hparameters htriggers hchildren
    obtain ⟨-, hdistinct, hmade⟩ := expandSites_eq_ok.1 hc
    refine step _ _ _ _ _ _ _ _ _ hdepth hp ht hdistinct ?_
    obtain ⟨hlen, hpairs⟩ := List.forall₂_iff_zip.1 hmade
    refine List.forall₂_iff_zip.2 ⟨hlen, fun {s c} hsc => ?_⟩
    obtain ⟨d, hget, hnew, hrun⟩ := hpairs hsc
    exact ⟨d, hget, hnew, hrun, ih c (List.of_mem_zip hsc).2 hrun⟩

end Elaborator

end Reactors

import Reactors.Proofs.Comparisons
import Reactors.Proofs.Levels

/-!
# Two runs that agree

Two unrollings may differ in their settings, in their tables and in the definitions that they
start from.  If they agree in each of the steps that are taken at one instance, they agree as
a whole: the sites of one definition are taken in their order and checked by their names, and the
definitions found for them are again such as the two runs agree on.

What it is to agree is left open here.  Definitions, overrides, scopes, triggers, components and
errors of the two runs are related in some way, and the steps at an instance have to respect
that.

## Main definitions

* `Component.Related` — two components have related instances wherever they are laid out.
* `RunRelation` — how the parts of two runs are related.
* `RunRelation.Respected` — the steps at an instance respect the relation.

## Main results

* `Component.related_mk` — components that are made of related parts.
* `RunRelation.Respected.expand` — unrollings respect a relation if the steps at an instance do.
* `RunRelation.Respected.elaborate` — so does the elaboration of a table.
-/

namespace Reactors

/-! ### Components -/

/-- Two components have the same name and are of one size, and wherever they are laid out their
instances are related. -/
structure Component.Related (R : Instance → Instance → Prop) (c c' : Component) : Prop where
  name : c.name = c'.name
  size : c.size = c'.size
  layout : ∀ id parent depth path,
    List.Forall₂ R (c.layout id parent depth path) (c'.layout id parent depth path)

namespace Component

variable {R : Instance → Instance → Prop} {cs cs' : List Component}

theorem numbers_congr (h : List.Forall₂ (Related R) cs cs') (next : Nat) :
    numbers next cs = numbers next cs' := by
  induction h generalizing next with
  | nil => rfl
  | cons hc _ ih => rw [numbers, numbers, hc.size, ih]

theorem sizes_congr (h : List.Forall₂ (Related R) cs cs') : sizes cs = sizes cs' := by
  induction h with
  | nil => rfl
  | cons hc _ ih => rw [sizes, sizes, hc.size, ih]

theorem layoutAll_related (h : List.Forall₂ (Related R) cs cs') (next parent depth : Nat)
    (path : String) :
    List.Forall₂ R (layoutAll next parent depth path cs)
      (layoutAll next parent depth path cs') := by
  induction h generalizing next with
  | nil => exact .nil
  | cons hc _ ih =>
    rw [layoutAll, layoutAll, ← hc.name, ← hc.size]
    exact List.rel_append (hc.layout _ _ _ _) (ih _)

/-- Components are related if those inside them are, and their outermost instances are related
wherever they are put. -/
theorem related_mk {name reactor : String} {parameters parameters' : Scope}
    {triggers triggers' : List Trigger}
    (houtermost : ∀ id parent depth path children,
      R ⟨id, name, reactor, parent, depth, path, children, parameters,
          triggers.map (·.ownedBy id)⟩
        ⟨id, name, reactor, parent, depth, path, children, parameters',
          triggers'.map (·.ownedBy id)⟩)
    (h : List.Forall₂ (Related R) cs cs') :
    Related R (mk name reactor parameters triggers cs)
      (mk name reactor parameters' triggers' cs') where
  name := rfl
  size := by rw [size, size, sizes_congr h]
  layout id parent depth path := by
    rw [layout, layout, numbers_congr h]
    exact .cons (houtermost id parent depth path _) (layoutAll_related h _ _ _ _)

end Component

/-! ### Relations between two runs -/

/-- How the parts of two runs are related. -/
structure RunRelation where
  error : ElaborationError → ElaborationError → Prop
  definition : ReactorDecl → ReactorDecl → Prop
  overrides : OrderedMap Expr → OrderedMap Expr → Prop
  scope : Scope → Scope → Prop
  /-- The triggers of two instances; the definition is that of the first run. -/
  triggers : ReactorDecl → List Trigger → List Trigger → Prop
  component : Component → Component → Prop

namespace RunRelation

/-- Two sites have one name, and the definitions found for them and their overrides are
related. -/
structure Sites (R : RunRelation) (t t' : Definitions) (s s' : Site) : Prop where
  name : s.name = s'.name
  reactor : s.reactor = s'.reactor
  definition : Option.Rel R.definition (t.get? s.reactor) (t'.get? s'.reactor)
  overrides : R.overrides s.overrides s'.overrides

/-- The steps that two runs take at an instance respect a relation. -/
structure Respected (R : RunRelation) (e e' : Elaborator) (t t' : Definitions) : Prop where
  limit : e.config.maxDepth = e'.config.maxDepth
  error : ∀ cause, R.error cause cause
  name : ∀ d d', R.definition d d' → d.name = d'.name
  sites : ∀ d d', R.definition d d' → List.Forall₂ (R.Sites t t') d.sites d'.sites
  parameters : ∀ d d' overrides overrides' scope scope' path, R.definition d d' →
    R.overrides overrides overrides' → R.scope scope scope' →
    Agree R.error R.scope (resolveParameters e.quote path d overrides scope)
      (resolveParameters e'.quote path d' overrides' scope')
  triggers : ∀ d d' own own' path, R.definition d d' → R.scope own own' →
    Agree R.error (R.triggers d) (e.triggers ⟨path, own⟩ d) (e'.triggers ⟨path, own'⟩ d')
  component : ∀ d d' name own own' ts ts' cs cs', R.definition d d' → R.scope own own' →
    R.triggers d ts ts' → List.Forall₂ R.component cs cs' →
    R.component (.mk name d.name own ts cs) (.mk name d.name own' ts' cs')

namespace Respected

variable {R : RunRelation} {e e' : Elaborator} {t t' : Definitions}

/-- Related sites are unrolled alike, if the definitions found for them that are not around are. -/
theorem unrollSites (h : R.Respected e e' t t')
    {f g : List String → String → String → ReactorDecl → OrderedMap Expr → Scope →
      Except ElaborationError Component} {stack : List String} {path : String}
    {scope scope' : Scope} {ss ss' : List Site} (hsites : List.Forall₂ (R.Sites t t') ss ss')
    (hstep : ∀ reactor d d', t.get? reactor = some d → d.name ∉ stack → R.definition d d' →
      ∀ path name overrides overrides', R.overrides overrides overrides' →
        Agree R.error R.component (f stack path name d overrides scope)
          (g stack path name d' overrides' scope')) (seen : List String) :
    Agree R.error (List.Forall₂ R.component)
      (Elaborator.unrollSites t f stack path scope seen ss)
      (Elaborator.unrollSites t' g stack path scope' seen ss') := by
  induction hsites generalizing seen with
  | nil => exact .ok .nil
  | @cons s s' ss ss' hs _ ih =>
    have hfound := hs.definition
    rw [Elaborator.unrollSites, Elaborator.unrollSites, ← hs.name, ← hs.reactor]
    rw [← hs.reactor] at hfound
    -- the checks of a site are about names, which are the same on both sides
    by_cases hseen : s.name ∈ seen
    · rw [if_pos hseen, if_pos hseen]
      exact .error (h.error _)
    · rw [if_neg hseen, if_neg hseen]
      generalize hget : t.get? s.reactor = d?, t'.get? s.reactor = d'? at hfound ⊢
      cases hfound with
      | none => exact .error (h.error _)
      | @some d d' hd =>
        dsimp only
        rw [← h.name d d' hd]
        by_cases hcycle : d.name ∈ stack
        · rw [if_pos hcycle, if_pos hcycle]
          exact .error (h.error _)
        · rw [if_neg hcycle, if_neg hcycle]
          refine (hstep _ d d' hget hcycle hd _ _ _ _ hs.overrides).bind fun c c' hc => ?_
          exact (ih _).bind fun cs cs' hcs => .ok (.cons hc hcs)

/-- **Unrollings agree if the steps at an instance do.**  The induction is on the definitions that
are not around. -/
theorem expand (h : R.Respected e e' t t') (around : List String) (r : ReactorDecl)
    {r' : ReactorDecl} (hr : R.definition r r') (path name : String)
    {overrides overrides' : OrderedMap Expr} (hover : R.overrides overrides overrides')
    {scope scope' : Scope} (hscope : R.scope scope scope') :
    Agree R.error R.component (e.expand t around path name r overrides scope)
      (e'.expand t' around path name r' overrides' scope') := by
  induction around, r using t.nested_induction
    generalizing r' path name overrides overrides' scope scope' with
  | step around r ih =>
    rw [Elaborator.expand, Elaborator.expand, ← h.name r r' hr, ← h.limit]
    by_cases hdeep : e.config.maxDepth < around.length
    · rw [if_pos hdeep, if_pos hdeep]
      exact .error (h.error _)
    · rw [if_neg hdeep, if_neg hdeep]
      refine (h.parameters r r' _ _ _ _ path hr hover hscope).bind fun own own' hown => ?_
      rw [Elaborator.expandSites_eq_unrollSites, Elaborator.expandSites_eq_unrollSites]
      -- what a site leads to is not around, where the induction applies
      have hchildren : Agree R.error (List.Forall₂ R.component)
          (Elaborator.unrollSites t (e.expand t) (around ++ [r.name]) path own [] r.sites)
          (Elaborator.unrollSites t' (e'.expand t') (around ++ [r.name]) path own' [] r'.sites) :=
        h.unrollSites (h.sites r r' hr) (fun _ d _ hget hnew hd path name _ _ hover =>
          ih _ d hget hnew hd path name hover hown) []
      refine hchildren.bind fun cs cs' hcs => ?_
      refine (h.triggers r r' own own' path hr hown).bind fun ts ts' hts => ?_
      exact .ok (h.component r r' name own own' ts ts' cs cs' hr hown hts hcs)

/-- Tables whose main definitions are related are elaborated alike. -/
theorem elaborate (h : R.Respected e e' t t') {main : String}
    (hmain : Option.Rel R.definition (t.get? main) (t'.get? main))
    (hover : R.overrides .empty .empty) (hscope : R.scope .empty .empty) :
    Agree R.error (fun tree tree' => ∃ c c', R.component c c' ∧
        tree = c.toTree ∧ tree' = c'.toTree)
      (e.elaborate t main) (e'.elaborate t' main) := by
  rw [Elaborator.elaborate_eq_map, Elaborator.elaborate_eq_map, Elaborator.expandMain,
    Elaborator.expandMain]
  generalize t.get? main = r?, t'.get? main = r'? at hmain
  cases hmain with
  | none => exact .error (h.error _)
  | @some r r' hr =>
    dsimp only
    rw [← h.name r r' hr]
    exact (h.expand [] r hr _ _ hover hscope).map fun c c' hc => ⟨c, c', hc, rfl, rfl⟩

end Respected
end RunRelation
end Reactors

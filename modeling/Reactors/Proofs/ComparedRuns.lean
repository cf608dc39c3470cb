import Reactors.Proofs.Levels

/-!
# Two elaborators side by side

Two elaborators that unroll the same definitions go through the same sites, for the names that
are looked up and compared there do not depend on the settings.  The settings matter in three
steps only, which every instance takes: the check of its depth, its parameters and its triggers.
A relation between outcomes that passes to chains of steps therefore holds of the two unrollings,
and of the trees, if it holds of these three.

## Main definitions

* `Elaborator.checkDepth` — the check of the depth of an instance.
* `Elaborator.StepsRelated` — the steps of two elaborators at an instance are related.

## Main results

* `Elaborator.expand_eq_steps` — the unrolling of a definition as a chain of steps.
* `Elaborator.StepsRelated.expand`, `Elaborator.StepsRelated.elaborate` — from the steps at an
  instance to all of the hierarchy.
-/

namespace Reactors

/-! ### The steps at an instance -/

namespace Elaborator

/-- The check that an instance at a path is not too deep. -/
def checkDepth (e : Elaborator) (path : String) (depth : Nat) : Except ElaborationError Unit :=
  if e.config.maxDepth < depth then .error (.depthLimitExceeded path e.config.maxDepth) else .ok ()

variable {e e' : Elaborator} {t : Definitions}

/-- A definition is unrolled in four steps: the depth, the parameters, the sites, the triggers. -/
theorem expand_eq_steps (around : List String) (path name : String) (r : ReactorDecl)
    (overrides : OrderedMap Expr) (scope : Scope) :
    e.expand t around path name r overrides scope = (do
      e.checkDepth path around.length
      let parameters ← resolveParameters e.quote path r overrides scope
      let children ← unrollSites t (e.expand t) (around ++ [r.name]) path parameters [] r.sites
      let triggers ← e.triggers ⟨path, parameters⟩ r
      return ⟨name, r.name, parameters, triggers, children⟩) := by
  rw [expand, checkDepth]
  by_cases hdeep : e.config.maxDepth < around.length
  · rw [if_pos hdeep, if_pos hdeep]
    rfl
  · rw [if_neg hdeep, if_neg hdeep]
    show _ = resolveParameters e.quote path r overrides scope >>= _
    simp only [expandSites_eq_unrollSites]

/-- What two elaborators do at one instance is related. -/
structure StepsRelated (R : OutcomeRelation ElaborationError) (e e' : Elaborator) : Prop where
  depth : ∀ path depth, R Unit (e.checkDepth path depth) (e'.checkDepth path depth)
  parameters : ∀ path r overrides scope, R Scope
    (resolveParameters e.quote path r overrides scope)
    (resolveParameters e'.quote path r overrides scope)
  triggers : ∀ owner r, R (List Trigger) (e.triggers owner r) (e'.triggers owner r)

/-! ### The hierarchy -/

variable {R : OutcomeRelation ElaborationError}

/-- **From the steps at one instance to the unrolling of a definition.**  The induction is on the
definitions that can still be met. -/
theorem StepsRelated.expand (h : StepsRelated R e e') (hR : Chains R) (around : List String)
    (r : ReactorDecl) (path name : String) (overrides : OrderedMap Expr) (scope : Scope) :
    R Component (e.expand t around path name r overrides scope)
      (e'.expand t around path name r overrides scope) := by
  induction around, r using t.nested_induction generalizing path name overrides scope with
  | step around r ih =>
    rw [expand_eq_steps, expand_eq_steps]
    refine hR.bind (h.depth path _) fun _ => ?_
    refine hR.bind (h.parameters path r overrides scope) fun own => ?_
    have hsites : R (List Component)
        (unrollSites t (e.expand t) (around ++ [r.name]) path own [] r.sites)
        (unrollSites t (e'.expand t) (around ++ [r.name]) path own [] r.sites) :=
      unrollSites_related hR (fun _ _ => rfl) (fun s _ d hget hnew path name overrides =>
        ih s.reactor d hget hnew path name overrides own) []
    refine hR.bind hsites fun children => ?_
    exact hR.bind (h.triggers ⟨path, own⟩ r) fun triggers => hR.refl _

/-- From the steps at one instance to the trees. -/
theorem StepsRelated.elaborate (h : StepsRelated R e e') (hR : Chains R) (t : Definitions)
    (main : String) : R InstanceTree (e.elaborate t main) (e'.elaborate t main) := by
  rw [elaborate_eq_map, elaborate_eq_map, expandMain, expandMain]
  cases t.get? main with
  | none => exact hR.refl _
  | some r => exact hR.map (h.expand hR [] r _ _ _ _) Component.toTree

end Elaborator
end Reactors

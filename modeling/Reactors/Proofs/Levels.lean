import Reactors.Proofs.BuiltTrees

/-!
# The levels of a hierarchy

A hierarchy has no more levels than there are definitions.  An unrolling that is only
allowed that many levels therefore gives the same result as the one without a bound.  It
recurses on the number of levels that are left, and so it can be evaluated by reduction, which
settles what becomes of a given program.

## Main definitions

* `Elaborator.unrollSites` — sites unrolled by a given function.
* `Elaborator.expandWithin` — the unrolling within a number of levels.
* `elaborateWithin` — the tree of a program, from an unrolling within a number of levels.

## Main results

* `Elaborator.unrollSites_related` — sites unrolled by two functions.
* `Elaborator.expandWithin_eq_expand` — with enough levels the bound does not matter.
* `elaborate_eq_within` — one level for each definition is enough.
-/

namespace Reactors
namespace Elaborator

variable {e : Elaborator} {t : Definitions}

/-- Unrolls sites as `expandSites` does, with a given function for the components at them. -/
def unrollSites (t : Definitions)
    (unroll : List String → String → String → ReactorDecl → OrderedMap Expr → Scope →
      Except ElaborationError Component) (stack : List String) (path : String) (scope : Scope)
    (seen : List String) : List Site → Except ElaborationError (List Component)
  | [] => .ok []
  | s :: ss =>
    if s.name ∈ seen then .error (.duplicateName path s.name)
    else
      match t.get? s.reactor with
      | none => .error (.unresolvedReactor (sitePath path s.name) s.reactor)
      | some d =>
        if d.name ∈ stack then
          .error (.cyclicInstantiation (stack.dropWhile (· ≠ d.name) ++ [d.name]))
        else do
          let c ← unroll stack (sitePath path s.name) s.name d s.overrides scope
          let cs ← unrollSites t unroll stack path scope (s.name :: seen) ss
          return c :: cs

/-- Unrolls a definition as `expand` does, within a number of levels; what would need more is
taken to be too deep. -/
def expandWithin (e : Elaborator) (t : Definitions) : Nat → List String → String → String →
    ReactorDecl → OrderedMap Expr → Scope → Except ElaborationError Component
  | 0, around, path, _, _, _, _ => .error (.depthLimitExceeded path around.length)
  | n + 1, around, path, name, r, overrides, scope =>
    if e.config.maxDepth < around.length then
      .error (.depthLimitExceeded path e.config.maxDepth)
    else do
      let parameters ← resolveParameters e.quote path r overrides scope
      let children ←
        unrollSites t (e.expandWithin t n) (around ++ [r.name]) path parameters [] r.sites
      let triggers ← e.triggers ⟨path, parameters⟩ r
      return ⟨name, r.name, parameters, triggers, children⟩

/-- Sites are unrolled by unrolling their definitions. -/
theorem expandSites_eq_unrollSites (stack : List String) (path : String) (scope : Scope)
    (seen : List String) (ss : List Site) :
    e.expandSites t stack path scope seen ss =
      unrollSites t (e.expand t) stack path scope seen ss := by
  induction ss generalizing seen with
  | nil => rw [expandSites, unrollSites]; rfl
  | cons s ss ih =>
    rw [expandSites, unrollSites]
    by_cases hseen : s.name ∈ seen
    · rw [if_pos hseen, if_pos hseen]
      rfl
    · rw [if_neg hseen, if_neg hseen]
      dsimp only
      split
      · next hget => rw [hget]; rfl
      · next d hget =>
        rw [hget]
        dsimp only
        by_cases hcycle : d.name ∈ stack
        · rw [dif_pos hcycle, if_pos hcycle]
          rfl
        · rw [dif_neg hcycle, if_neg hcycle, ih]

/-- Only the reactors that sites name are looked up, and only the definitions found for them that
are not around are unrolled. -/
theorem unrollSites_related {R : OutcomeRelation ElaborationError} (hR : Chains R)
    {t' : Definitions} {f g : List String → String → String → ReactorDecl → OrderedMap Expr →
      Scope → Except ElaborationError Component} {stack : List String} {path : String}
    {scope : Scope} {ss : List Site} (hfound : ∀ s ∈ ss, t.get? s.reactor = t'.get? s.reactor)
    (h : ∀ s ∈ ss, ∀ d, t.get? s.reactor = some d → d.name ∉ stack → ∀ path name overrides,
      R Component (f stack path name d overrides scope) (g stack path name d overrides scope))
    (seen : List String) :
    R (List Component) (unrollSites t f stack path scope seen ss)
      (unrollSites t' g stack path scope seen ss) := by
  induction ss generalizing seen with
  | nil => exact hR.refl _
  | cons s ss ih =>
    rw [List.forall_mem_cons] at hfound h
    rw [unrollSites, unrollSites, ← hfound.1]
    by_cases hseen : s.name ∈ seen
    · rw [if_pos hseen, if_pos hseen]
      exact hR.refl _
    · rw [if_neg hseen, if_neg hseen]
      cases hget : t.get? s.reactor with
      | none => exact hR.refl _
      | some d =>
        dsimp only
        by_cases hcycle : d.name ∈ stack
        · rw [if_pos hcycle, if_pos hcycle]
          exact hR.refl _
        · rw [if_neg hcycle, if_neg hcycle]
          refine hR.bind (h.1 d hget hcycle _ _ _) fun c => ?_
          exact hR.bind (ih hfound.2 h.2 _) fun cs => hR.refl _

theorem unrollSites_congr {t' : Definitions}
    {f g : List String → String → String → ReactorDecl → OrderedMap Expr → Scope →
      Except ElaborationError Component} {stack : List String} {path : String} {scope : Scope}
    {ss : List Site} (hfound : ∀ s ∈ ss, t.get? s.reactor = t'.get? s.reactor)
    (h : ∀ s ∈ ss, ∀ d, t.get? s.reactor = some d → d.name ∉ stack →
      ∀ path name, f stack path name d = g stack path name d) (seen : List String) :
    unrollSites t f stack path scope seen ss = unrollSites t' g stack path scope seen ss := by
  refine unrollSites_related Chains.eq hfound (fun s hs d hget hnew path name overrides => ?_) seen
  rw [h s hs d hget hnew]

/-- An unrolling gives the same result within any number of levels that is greater than the number
of definitions that can still be met. -/
theorem expandWithin_eq_expand {n : Nat} {around : List String} {r : ReactorDecl}
    (hn : t.unmet (around ++ [r.name]) < n) (path name : String) :
    e.expandWithin t n around path name r = e.expand t around path name r := by
  induction n generalizing around r path name with
  | zero => exact absurd hn (Nat.not_lt_zero _)
  | succ n ih =>
    funext overrides scope
    rw [expandWithin, expand]
    by_cases hdeep : e.config.maxDepth < around.length
    · rw [if_pos hdeep, if_pos hdeep]
      rfl
    · rw [if_neg hdeep, if_neg hdeep]
      refine congrArg (_ >>= ·) (funext fun parameters => congrArg (· >>= _) ?_)
      rw [expandSites_eq_unrollSites]
      refine unrollSites_congr (fun _ _ => rfl) (fun s _ d hget hnew => ih ?_) []
      have hlt := Definitions.unmet_append_lt (Definitions.mem_names_of_get? hget) hnew
      omega

end Elaborator

/-! ### Whole programs -/

/-- The tree of a program, unrolled within a number of levels. -/
def elaborateWithin (n : Nat) (p : Program) (config : Config) :
    Except ElaborationError InstanceTree :=
  match p.definitions with
  | .error cause => .error (.invalidProgram cause)
  | .ok t =>
    match t.get? p.main with
    | none => .error (.unresolvedReactor p.main p.main)
    | some main =>
      (Elaborator.expandWithin ⟨config, Expr.text⟩ t n [] main.name main.name main .empty
        .empty).map Component.toTree

/-- A definition of the table leaves fewer to be met than there are. -/
theorem Definitions.unmet_lt_size {t : Definitions} {name : String} {r : ReactorDecl}
    (hget : t.get? name = some r) : t.unmet [r.name] < t.size := by
  have hlt : t.unmet ([] ++ [r.name]) < t.unmet [] :=
    Definitions.unmet_append_lt (Definitions.mem_names_of_get? hget) List.not_mem_nil
  have hall : t.unmet [] = t.size := by simp [Definitions.unmet, Definitions.names, size]
  rwa [List.nil_append, hall] at hlt

/-- The error of a table whose main reactor does not unroll, however expressions are quoted. -/
theorem Elaborator.elaborate_eq_error_of_expandWithin {e : Elaborator} {t : Definitions}
    {main : String} {r : ReactorDecl} {cause : ElaborationError} (hmain : t.get? main = some r)
    (h : (e.expandWithin t t.size [] r.name r.name r .empty .empty).map (fun _ => ()) =
      .error cause) :
    e.elaborate t main = .error cause := by
  have hwithin : e.expandWithin t t.size [] r.name r.name r =
      e.expand t [] r.name r.name r :=
    expandWithin_eq_expand (Definitions.unmet_lt_size hmain) r.name r.name
  rw [hwithin] at h
  rw [elaborate_eq_map, expandMain, hmain]
  cases hrun : e.expand t [] r.name r.name r .empty .empty with
  | error cause' =>
    rw [hrun] at h
    cases h
    simp [hrun, Except.map]
  | ok c =>
    rw [hrun] at h
    cases h

/-- A hierarchy has no more levels than the program has definitions. -/
theorem elaborate_eq_within (p : Program) (config : Config) :
    elaborate p config = elaborateWithin p.reactors.length p config := by
  rw [elaborate, elaborateWithin]
  cases htable : p.definitions with
  | error cause => rfl
  | ok t =>
    dsimp only
    rw [Elaborator.elaborate_eq_map, Elaborator.expandMain]
    cases hmain : t.get? p.main with
    | none => rfl
    | some main =>
      dsimp only
      have hlt : t.unmet [main.name] < p.reactors.length := by
        rw [← Program.definitions_eq_ok.1 htable]
        exact Definitions.unmet_lt_size hmain
      rw [Elaborator.expandWithin_eq_expand hlt]

/-- The same for the main reactors of a table. -/
theorem Definitions.elaborate_eq_within (t : Definitions) (main : String) (config : Config) :
    Elaborator.elaborate ⟨config, Expr.text⟩ t main =
      elaborateWithin t.size ⟨main, t.reactors⟩ config := by
  have htable : (Program.mk main t.reactors).definitions = .ok t := Program.definitions_eq_ok.2 rfl
  have hwithin := Reactors.elaborate_eq_within ⟨main, t.reactors⟩ config
  rwa [elaborate, htable] at hwithin

/-- Whether a program has a tree can be found out by unrolling it within one level for each
definition. -/
theorem exists_elaborate_of_within {p : Program} {config : Config}
    (h : (elaborateWithin p.reactors.length p config).toBool = true) :
    ∃ tree, elaborate p config = .ok tree := by
  rw [elaborate_eq_within]
  cases hrun : elaborateWithin p.reactors.length p config with
  | error cause =>
    rw [hrun] at h
    cases h
  | ok tree => exact ⟨tree, rfl⟩

/-- The error of a program without a tree can be found out in the same way. -/
theorem elaborate_eq_error_of_within {p : Program} {config : Config} {cause : ElaborationError}
    (h : (elaborateWithin p.reactors.length p config).map (fun _ => ()) = .error cause) :
    elaborate p config = .error cause := by
  rw [elaborate_eq_within]
  cases hrun : elaborateWithin p.reactors.length p config with
  | error cause' =>
    rw [hrun] at h
    cases h
    rfl
  | ok tree =>
    rw [hrun] at h
    cases h

end Reactors

import Reactors.Proofs.Levels

/-!
# Runs of the unrolling, call by call

The unrolling of a definition calls itself for the sites of the definition, one after the other,
and stops at the first fault.  A run lists the calls that are made on the way, in their
order, and the result; runs are finite by construction.  Every call has a run, and the
result of every run is what the unrolling gives, so a property of all runs is one of the
unrolling, and one that holds of each call in them says how deep it goes.

A call counts its depth by itself, one more than the call around it; that this is the number of
definitions around is a fact about runs.

## Main definitions

* `Call` — what the unrolling of a definition is called with.
* `Elaborator.Runs`, `Elaborator.RunsSites` — the runs of a call and of the sites inside it.
* `Elaborator.Leads` — one call is made in another one.
* `Program.Runs` — the runs of the elaboration of a program.

## Main results

* `Elaborator.Runs.result_eq` — the result of a run.
* `Elaborator.exists_runs` — every call has a run.
* `Program.Runs.result_eq`, `Program.exists_runs` — the same for programs.
-/

namespace Reactors

/-- A chain of two steps fails exactly when the first one does, or the second one behind it. -/
theorem bind_eq_error {ε α β : Type} {x : Except ε α} {f : α → Except ε β} {cause : ε} :
    (x >>= f) = .error cause ↔ x = .error cause ∨ ∃ a, x = .ok a ∧ f a = .error cause := by
  cases x with
  | error cause' => simp [bind, Except.bind]
  | ok a => simp [bind, Except.bind]

theorem map_eq_error {ε α β : Type} {x : Except ε α} {f : α → β} {cause : ε} :
    x.map f = .error cause ↔ x = .error cause := by
  cases x with
  | error cause' => simp [Except.map]
  | ok a => simp [Except.map]

/-! ### Calls -/

/-- What the unrolling of a definition is called with. -/
structure Call where
  /-- The definitions that are being unrolled around this one, the outermost first. -/
  around : List String
  /-- How many calls are around this one. -/
  depth : Nat
  path : String
  name : String
  reactor : ReactorDecl
  overrides : OrderedMap Expr
  /-- The parameters of the enclosing instance. -/
  scope : Scope

namespace Call

/-- The call for the main definition. -/
def main (r : ReactorDecl) : Call := ⟨[], 0, r.name, r.name, r, .empty, .empty⟩

/-- The definitions that are being unrolled, the one of the call included. -/
def stack (k : Call) : List String := k.around ++ [k.reactor.name]

/-- The call for a site inside, once the parameters are resolved. -/
def inside (k : Call) (parameters : Scope) (s : Site) (d : ReactorDecl) : Call :=
  ⟨k.stack, k.depth + 1, Elaborator.sitePath k.path s.name, s.name, d, s.overrides, parameters⟩

theorem depth_inside {k : Call} {parameters : Scope} {s : Site} {d : ReactorDecl}
    (h : k.depth = k.around.length) :
    (k.inside parameters s d).depth = (k.inside parameters s d).around.length := by
  simp [inside, stack, h]

/-- What the unrolling gives for the call. -/
def result (k : Call) (e : Elaborator) (t : Definitions) : Except ElaborationError Component :=
  e.expand t k.around k.path k.name k.reactor k.overrides k.scope

/-- The end of a call, when the components inside are made. -/
def finish (k : Call) (e : Elaborator) (parameters : Scope) (children : List Component) :
    Except ElaborationError Component :=
  (e.triggers ⟨k.path, parameters⟩ k.reactor).map fun triggers =>
    .mk k.name k.reactor.name parameters triggers children

end Call

/-! ### Runs -/

namespace Elaborator

variable {e : Elaborator} {t : Definitions}

mutual

/-- The run of a call, with the calls made in it, itself included, and its result. -/
inductive Runs (e : Elaborator) (t : Definitions) :
    Call → List Call → Except ElaborationError Component → Prop where
  /-- The call is too deep. -/
  | tooDeep {k : Call} (hdeep : e.config.maxDepth < k.depth) :
      Runs e t k [k] (.error (.depthLimitExceeded k.path e.config.maxDepth))
  /-- A parameter cannot be resolved. -/
  | unresolved {k : Call} {cause : ElaborationError} (hdepth : k.depth ≤ e.config.maxDepth)
      (hp : resolveParameters e.quote k.path k.reactor k.overrides k.scope = .error cause) :
      Runs e t k [k] (.error cause)
  /-- The sites are unrolled, and the triggers made if that succeeds. -/
  | unrolled {k : Call} {parameters : Scope} {calls : List Call}
      {children : Except ElaborationError (List Component)}
      (hdepth : k.depth ≤ e.config.maxDepth)
      (hp : resolveParameters e.quote k.path k.reactor k.overrides k.scope = .ok parameters)
      (hsites : RunsSites e t k parameters [] k.reactor.sites calls children) :
      Runs e t k (k :: calls) (children >>= k.finish e parameters)

/-- The run through the last sites of a call, behind sites with the names `seen`. -/
inductive RunsSites (e : Elaborator) (t : Definitions) :
    Call → Scope → List String → List Site → List Call →
      Except ElaborationError (List Component) → Prop where
  | nil {k : Call} {parameters : Scope} {seen : List String} :
      RunsSites e t k parameters seen [] [] (.ok [])
  /-- The name of the site came before. -/
  | duplicate {k : Call} {parameters : Scope} {seen : List String} {s : Site} {ss : List Site}
      (hseen : s.name ∈ seen) :
      RunsSites e t k parameters seen (s :: ss) [] (.error (.duplicateName k.path s.name))
  /-- The reactor of the site has no definition. -/
  | undefined {k : Call} {parameters : Scope} {seen : List String} {s : Site} {ss : List Site}
      (hseen : s.name ∉ seen) (hget : t.get? s.reactor = none) :
      RunsSites e t k parameters seen (s :: ss) []
        (.error (.unresolvedReactor (sitePath k.path s.name) s.reactor))
  /-- The definition of the site is being unrolled already. -/
  | cyclic {k : Call} {parameters : Scope} {seen : List String} {s : Site} {ss : List Site}
      {d : ReactorDecl} (hseen : s.name ∉ seen) (hget : t.get? s.reactor = some d)
      (hmet : d.name ∈ k.stack) :
      RunsSites e t k parameters seen (s :: ss) []
        (.error (.cyclicInstantiation (k.stack.dropWhile (· ≠ d.name) ++ [d.name])))
  /-- The site cannot be unrolled. -/
  | failed {k : Call} {parameters : Scope} {seen : List String} {s : Site} {ss : List Site}
      {d : ReactorDecl} {calls : List Call} {cause : ElaborationError}
      (hseen : s.name ∉ seen) (hget : t.get? s.reactor = some d) (hnew : d.name ∉ k.stack)
      (hsite : Runs e t (k.inside parameters s d) calls (.error cause)) :
      RunsSites e t k parameters seen (s :: ss) calls (.error cause)
  /-- The site is unrolled, and the run goes on behind it. -/
  | site {k : Call} {parameters : Scope} {seen : List String} {s : Site} {ss : List Site}
      {d : ReactorDecl} {calls calls' : List Call} {c : Component}
      {children : Except ElaborationError (List Component)}
      (hseen : s.name ∉ seen) (hget : t.get? s.reactor = some d) (hnew : d.name ∉ k.stack)
      (hsite : Runs e t (k.inside parameters s d) calls (.ok c))
      (hrest : RunsSites e t k parameters (s.name :: seen) ss calls' children) :
      RunsSites e t k parameters seen (s :: ss) (calls ++ calls') (children.map (c :: ·))

end

/-! ### Results of runs -/

theorem result_of_tooDeep {k : Call} (hcount : k.depth = k.around.length)
    (hdeep : e.config.maxDepth < k.depth) :
    k.result e t = .error (.depthLimitExceeded k.path e.config.maxDepth) := by
  rw [hcount] at hdeep
  rw [Call.result, expand, if_pos hdeep]
  rfl

theorem result_of_parameters {k : Call} (hcount : k.depth = k.around.length)
    (hdepth : k.depth ≤ e.config.maxDepth) :
    k.result e t =
      resolveParameters e.quote k.path k.reactor k.overrides k.scope >>= fun parameters =>
        e.expandSites t k.stack k.path parameters [] k.reactor.sites >>=
          k.finish e parameters := by
  rw [hcount, ← Nat.not_lt] at hdepth
  rw [Call.result, expand, if_neg hdepth]
  refine congrArg (_ >>= ·) (funext fun parameters => ?_)
  refine congrArg (_ >>= ·) (funext fun children => ?_)
  rw [Call.finish]
  cases e.triggers ⟨k.path, parameters⟩ k.reactor <;> rfl

mutual

/-- The result of a run is that of the unrolling. -/
theorem Runs.result_eq : ∀ {k : Call} {calls : List Call}
    {result : Except ElaborationError Component}, e.Runs t k calls result →
      k.depth = k.around.length → result = k.result e t
  | _, _, _, .tooDeep hdeep, hcount => (result_of_tooDeep hcount hdeep).symm
  | _, _, _, .unresolved hdepth hp, hcount => by
    rw [result_of_parameters hcount hdepth, hp]
    rfl
  | _, _, _, .unrolled hdepth hp hsites, hcount => by
    have hchildren := hsites.result_eq hcount
    rw [result_of_parameters hcount hdepth, hp, hchildren]
    rfl

/-- The result of a run through sites is that of their unrolling. -/
theorem RunsSites.result_eq : ∀ {k : Call} {parameters : Scope} {seen : List String}
    {ss : List Site} {calls : List Call} {children : Except ElaborationError (List Component)},
    e.RunsSites t k parameters seen ss calls children → k.depth = k.around.length →
      children = e.expandSites t k.stack k.path parameters seen ss
  | _, _, _, _, _, _, .nil, _ => by
    rw [expandSites_eq_unrollSites]
    rfl
  | _, _, _, _, _, _, .duplicate hseen, _ => by
    rw [expandSites_eq_unrollSites, unrollSites, if_pos hseen]
  | _, _, _, _, _, _, .undefined hseen hget, _ => by
    rw [expandSites_eq_unrollSites, unrollSites, if_neg hseen, hget]
  | _, _, _, _, _, _, .cyclic hseen hget hmet, _ => by
    rw [expandSites_eq_unrollSites, unrollSites, if_neg hseen, hget]
    exact (if_pos hmet).symm
  | k, parameters, _, s :: _, _, _, .failed (d := d) hseen hget hnew hsite, hcount => by
    have hrun : Except.error _ = e.expand t k.stack (sitePath k.path s.name) s.name d
        s.overrides parameters := hsite.result_eq (Call.depth_inside hcount)
    rw [expandSites_eq_unrollSites, unrollSites, if_neg hseen, hget]
    dsimp only
    rw [if_neg hnew, ← hrun]
    rfl
  | k, parameters, seen, s :: ss, _, _, .site (d := d) (c := c) hseen hget hnew hsite hrest,
      hcount => by
    have hrun : Except.ok c = e.expand t k.stack (sitePath k.path s.name) s.name d
        s.overrides parameters := hsite.result_eq (Call.depth_inside hcount)
    have hbehind := hrest.result_eq hcount
    rw [expandSites_eq_unrollSites] at hbehind ⊢
    rw [unrollSites, if_neg hseen, hget, hbehind]
    dsimp only
    rw [if_neg hnew, ← hrun]
    cases unrollSites t (e.expand t) k.stack k.path parameters (s.name :: seen) ss <;> rfl

end

/-! ### The calls of a run -/

/-- A call that is not too deep, and whose parameters resolve, calls for a site of its
definition. -/
inductive Leads (e : Elaborator) (t : Definitions) : Call → Call → Prop where
  | site {k : Call} {parameters : Scope} {s : Site} {d : ReactorDecl}
      (hdepth : k.depth ≤ e.config.maxDepth)
      (hp : resolveParameters e.quote k.path k.reactor k.overrides k.scope = .ok parameters)
      (hs : s ∈ k.reactor.sites) (hget : t.get? s.reactor = some d) (hnew : d.name ∉ k.stack) :
      Leads e t k (k.inside parameters s d)

mutual

/-- What holds of a call, and passes to the calls for its sites, holds of all calls in its run. -/
theorem Runs.invariant {I : Call → Prop} (step : ∀ k k', e.Leads t k k' → I k → I k') :
    ∀ {k : Call} {calls : List Call} {result : Except ElaborationError Component},
      e.Runs t k calls result → I k → ∀ k' ∈ calls, I k'
  | _, _, _, .tooDeep _, hk => by
    intro k' hk'
    rwa [List.mem_singleton.1 hk']
  | _, _, _, .unresolved _ _, hk => by
    intro k' hk'
    rwa [List.mem_singleton.1 hk']
  | _, _, _, .unrolled hdepth hp hsites, hk => by
    intro k' hk'
    rcases List.mem_cons.1 hk' with rfl | hk'
    · exact hk
    · refine hsites.invariant step hk (fun s hs d hget hnew => ?_) k' hk'
      exact .site hdepth hp hs hget hnew

theorem RunsSites.invariant {I : Call → Prop} (step : ∀ k k', e.Leads t k k' → I k → I k') :
    ∀ {k : Call} {parameters : Scope} {seen : List String} {ss : List Site} {calls : List Call}
      {children : Except ElaborationError (List Component)},
      e.RunsSites t k parameters seen ss calls children → I k →
      (∀ s ∈ ss, ∀ d, t.get? s.reactor = some d → d.name ∉ k.stack →
        e.Leads t k (k.inside parameters s d)) → ∀ k' ∈ calls, I k'
  | _, _, _, _, _, _, .nil, _, _ => fun _ hk' => by cases hk'
  | _, _, _, _, _, _, .duplicate _, _, _ => fun _ hk' => by cases hk'
  | _, _, _, _, _, _, .undefined _ _, _, _ => fun _ hk' => by cases hk'
  | _, _, _, _, _, _, .cyclic _ _ _, _, _ => fun _ hk' => by cases hk'
  | _, _, _, _, _, _, .failed _ hget hnew hsite, hk, hlead => by
    have hfirst := hlead _ List.mem_cons_self _ hget hnew
    exact hsite.invariant step (step _ _ hfirst hk)
  | _, _, _, _, _, _, .site _ hget hnew hsite hrest, hk, hlead => by
    intro k' hk'
    have hfirst := hlead _ List.mem_cons_self _ hget hnew
    rcases List.mem_append.1 hk' with hk' | hk'
    · exact hsite.invariant step (step _ _ hfirst hk) k' hk'
    · exact hrest.invariant step hk (fun s hs => hlead s (List.mem_cons_of_mem _ hs)) k' hk'

end

/-! ### Faults -/

/-- Why a call fails by itself, rather than in one of the calls for its sites. -/
inductive Fault (e : Elaborator) (t : Definitions) (k : Call) : ElaborationError → Prop where
  | tooDeep (hdeep : e.config.maxDepth < k.depth) :
      Fault e t k (.depthLimitExceeded k.path e.config.maxDepth)
  | parameters {cause : ElaborationError}
      (hp : resolveParameters e.quote k.path k.reactor k.overrides k.scope = .error cause) :
      Fault e t k cause
  | duplicate {before after : List Site} {s : Site}
      (hsites : k.reactor.sites = before ++ s :: after)
      (hname : s.name ∈ before.map Site.name) : Fault e t k (.duplicateName k.path s.name)
  | undefined {s : Site} (hs : s ∈ k.reactor.sites) (hget : t.get? s.reactor = none) :
      Fault e t k (.unresolvedReactor (sitePath k.path s.name) s.reactor)
  | cyclic {s : Site} {d : ReactorDecl} (hs : s ∈ k.reactor.sites)
      (hget : t.get? s.reactor = some d) (hmet : d.name ∈ k.stack) :
      Fault e t k (.cyclicInstantiation (k.stack.dropWhile (· ≠ d.name) ++ [d.name]))
  | triggers {parameters : Scope} {cause : ElaborationError}
      (hp : resolveParameters e.quote k.path k.reactor k.overrides k.scope = .ok parameters)
      (ht : e.triggers ⟨k.path, parameters⟩ k.reactor = .error cause) : Fault e t k cause

mutual

/-- The error of a run is the fault of one of its calls. -/
theorem Runs.exists_fault : ∀ {k : Call} {calls : List Call}
    {result : Except ElaborationError Component}, e.Runs t k calls result →
      ∀ cause, result = .error cause → ∃ k' ∈ calls, e.Fault t k' cause
  | k, _, _, .tooDeep hdeep, cause, herror => by
    cases herror
    exact ⟨k, List.mem_cons_self, .tooDeep hdeep⟩
  | k, _, _, .unresolved _ hp, cause, herror => by
    cases herror
    exact ⟨k, List.mem_cons_self, .parameters hp⟩
  | k, _, _, .unrolled _ hp hsites, cause, herror => by
    rcases bind_eq_error.1 herror with hchildren | ⟨cs, -, hfinish⟩
    · exact hsites.exists_fault [] rfl (fun _ hseen => by cases hseen) cause hchildren
    · rw [Call.finish, map_eq_error] at hfinish
      exact ⟨k, List.mem_cons_self, .triggers hp hfinish⟩

theorem RunsSites.exists_fault : ∀ {k : Call} {parameters : Scope} {seen : List String}
    {ss : List Site} {calls : List Call} {children : Except ElaborationError (List Component)},
    e.RunsSites t k parameters seen ss calls children → ∀ before : List Site,
      k.reactor.sites = before ++ ss → (∀ name ∈ seen, name ∈ before.map Site.name) →
      ∀ cause, children = .error cause → ∃ k' ∈ k :: calls, e.Fault t k' cause
  | _, _, _, _, _, _, .nil, _, _, _, _, herror => by cases herror
  | k, _, _, _, _, _, .duplicate hseen, before, hsplit, hbefore, cause, herror => by
    cases herror
    exact ⟨k, List.mem_cons_self, .duplicate hsplit (hbefore _ hseen)⟩
  | k, _, _, _, _, _, .undefined _ hget, before, hsplit, _, cause, herror => by
    cases herror
    exact ⟨k, List.mem_cons_self, .undefined (hsplit ▸ by simp) hget⟩
  | k, _, _, _, _, _, .cyclic _ hget hmet, before, hsplit, _, cause, herror => by
    cases herror
    exact ⟨k, List.mem_cons_self, .cyclic (hsplit ▸ by simp) hget hmet⟩
  | k, _, _, _, _, _, .failed _ _ _ hsite, _, _, _, _, herror => by
    cases herror
    obtain ⟨k', hk', hfault⟩ := hsite.exists_fault _ rfl
    exact ⟨k', List.mem_cons_of_mem _ hk', hfault⟩
  | k, _, seen, s :: ss, _, _, .site _ _ _ _ hrest, before, hsplit, hbefore, cause, herror => by
    have hsplit' : k.reactor.sites = (before ++ [s]) ++ ss := by
      rw [hsplit, List.append_assoc, List.singleton_append]
    have hbefore' : ∀ name ∈ s.name :: seen, name ∈ (before ++ [s]).map Site.name := by
      intro name hname
      rw [List.map_append, List.mem_append]
      rcases List.mem_cons.1 hname with rfl | hname
      · exact Or.inr List.mem_cons_self
      · exact Or.inl (hbefore name hname)
    obtain ⟨k', hk', hfault⟩ :=
      hrest.exists_fault (before ++ [s]) hsplit' hbefore' cause (map_eq_error.1 herror)
    refine ⟨k', ?_, hfault⟩
    rcases List.mem_cons.1 hk' with rfl | hk'
    · exact List.mem_cons_self
    · exact List.mem_cons_of_mem _ (List.mem_append_right _ hk')

end

/-! ### Every call has a run -/

/-- The sites of a call have a run when the calls for their definitions have. -/
theorem exists_runsSites {k : Call} {parameters : Scope}
    (hcalls : ∀ s d, t.get? s.reactor = some d → d.name ∉ k.stack →
      ∃ calls result, e.Runs t (k.inside parameters s d) calls result)
    (seen : List String) (ss : List Site) :
    ∃ calls children, e.RunsSites t k parameters seen ss calls children := by
  induction ss generalizing seen with
  | nil => exact ⟨_, _, .nil⟩
  | cons s ss ih =>
    by_cases hseen : s.name ∈ seen
    · exact ⟨_, _, .duplicate hseen⟩
    cases hget : t.get? s.reactor with
    | none => exact ⟨_, _, .undefined hseen hget⟩
    | some d =>
      by_cases hmet : d.name ∈ k.stack
      · exact ⟨_, _, .cyclic hseen hget hmet⟩
      obtain ⟨calls, result, hsite⟩ := hcalls s d hget hmet
      cases result with
      | error cause => exact ⟨_, _, .failed hseen hget hmet hsite⟩
      | ok c =>
        obtain ⟨calls', children, hrest⟩ := ih (s.name :: seen)
        exact ⟨_, _, .site hseen hget hmet hsite hrest⟩

/-- **Every call has a run.**  The induction is on the definitions that are not around the call:
each call inside leaves fewer of them. -/
theorem exists_runs (e : Elaborator) (t : Definitions) (k : Call) :
    ∃ calls result, e.Runs t k calls result := by
  obtain ⟨around, depth, path, name, r, overrides, scope⟩ := k
  induction around, r using t.nested_induction generalizing depth path name overrides scope with
  | step around r ih =>
    let k : Call := ⟨around, depth, path, name, r, overrides, scope⟩
    show ∃ calls result, e.Runs t k calls result
    rcases Nat.lt_or_ge e.config.maxDepth k.depth with hdeep | hdepth
    · exact ⟨_, _, .tooDeep hdeep⟩
    cases hp : resolveParameters e.quote k.path k.reactor k.overrides k.scope with
    | error cause => exact ⟨_, _, .unresolved hdepth hp⟩
    | ok parameters =>
      have hcalls : ∀ s d, t.get? s.reactor = some d → d.name ∉ k.stack →
          ∃ calls result, e.Runs t (k.inside parameters s d) calls result :=
        fun s d hget hnew => ih s.reactor d hget hnew _ _ _ _ _
      obtain ⟨calls, children, hsites⟩ := exists_runsSites hcalls [] k.reactor.sites
      exact ⟨_, _, .unrolled hdepth hp hsites⟩

end Elaborator

/-! ### Programs -/

/-- The run of the elaboration of a program, with the calls that are made in it. -/
inductive Program.Runs (p : Program) (config : Config) :
    List Call → Except ElaborationError InstanceTree → Prop where
  /-- The definitions do not make a table. -/
  | invalid {cause : ProgramError} (htable : p.definitions = .error cause) :
      p.Runs config [] (.error (.invalidProgram cause))
  /-- The main reactor has no definition. -/
  | undefined {t : Definitions} (htable : p.definitions = .ok t) (hmain : t.get? p.main = none) :
      p.Runs config [] (.error (.unresolvedReactor p.main p.main))
  /-- The main definition is unrolled. -/
  | unrolled {t : Definitions} {main : ReactorDecl} {calls : List Call}
      {result : Except ElaborationError Component} (htable : p.definitions = .ok t)
      (hmain : t.get? p.main = some main)
      (hrun : Elaborator.Runs ⟨config, Expr.text⟩ t (.main main) calls result) :
      p.Runs config calls (result.map Component.toTree)

namespace Program

variable {p : Program} {config : Config}

/-- The result of a run is that of the elaboration. -/
theorem Runs.result_eq {calls : List Call} {result : Except ElaborationError InstanceTree}
    (h : p.Runs config calls result) : result = elaborate p config := by
  rw [elaborate]
  cases h with
  | invalid htable => rw [htable]
  | undefined htable hmain =>
    rw [htable]
    dsimp only
    rw [Elaborator.elaborate_eq_map, Elaborator.expandMain, hmain]
    rfl
  | unrolled htable hmain hrun =>
    rw [htable]
    dsimp only
    rw [Elaborator.elaborate_eq_map, Elaborator.expandMain, hmain, hrun.result_eq rfl]
    rfl

/-- The elaboration of every program has a run. -/
theorem exists_runs (p : Program) (config : Config) :
    ∃ calls, p.Runs config calls (elaborate p config) := by
  have hrun : ∃ calls result, p.Runs config calls result := by
    cases htable : p.definitions with
    | error cause => exact ⟨_, _, .invalid htable⟩
    | ok t =>
      cases hmain : t.get? p.main with
      | none => exact ⟨_, _, .undefined htable hmain⟩
      | some main =>
        obtain ⟨calls, result, hrun⟩ :=
          Elaborator.exists_runs ⟨config, Expr.text⟩ t (.main main)
        exact ⟨_, _, .unrolled htable hmain hrun⟩
  obtain ⟨calls, result, hrun⟩ := hrun
  exact ⟨calls, hrun.result_eq ▸ hrun⟩

end Program
end Reactors

import Reactors.Proofs.Comparisons
import Reactors.Proofs.ComparedRuns

/-!
# Elaboration does not read quotations

How expressions are quoted is up to the caller.  A quotation only ends up in an error that is
already decided: in the one for a parameter that is missing, and in the one for a field that
holds something of the wrong kind.  Two elaborators with the same configuration, however they
quote, therefore make the same tree of the same definitions, or fail with the same error up to
that text.

The argument goes from the expressions outwards: a reference, a field, a declaration, the triggers
and the parameters of an instance, and from the steps at one instance to the whole hierarchy.

## Main definitions

* `ElaborationError.SameButQuotes` — errors that differ at most in what they quote.
* `SameUnquoted` — outcomes that differ at most in what their errors quote.

## Main results

* `resolveParameters_sameUnquoted`, `Elaborator.triggers_sameUnquoted` — the steps at an instance.
* `elaborate_does_not_read_quotes` — the elaboration of a table.
-/

namespace Reactors

/-- Two errors that differ at most in the expression that they quote: the one in which a missing
parameter was found, or the one that a field holds. -/
inductive ElaborationError.SameButQuotes : ElaborationError → ElaborationError → Prop where
  | same (cause : ElaborationError) : SameButQuotes cause cause
  | unresolvedParameter (path parameter quoted quoted' : String) :
      SameButQuotes (.unresolvedParameter path parameter quoted)
        (.unresolvedParameter path parameter quoted')
  | typeMismatch (path trigger : String) (field : TriggerField) (found found' : String) :
      SameButQuotes (.typeMismatch path trigger field found)
        (.typeMismatch path trigger field found')

/-- Two outcomes are one result, or errors that differ at most in what they quote. -/
def SameUnquoted : OutcomeRelation ElaborationError :=
  fun _ => Agree ElaborationError.SameButQuotes Eq

theorem SameUnquoted.chains : Chains SameUnquoted where
  refl x := by
    cases x with
    | ok a => exact .ok rfl
    | error cause => exact .error (.same cause)
  bind hxy hstep := Agree.bind hxy fun a b hab => hab ▸ hstep a

open SameUnquoted (chains)

/-! ### Parameters -/

section

variable {quote quote' : ExprPrinter}

theorem resolveParameter_sameUnquoted (path : String) (overrides : OrderedMap Expr) (scope : Scope)
    (p : ParameterDecl) :
    SameUnquoted Parameter (resolveParameter quote path overrides scope p)
      (resolveParameter quote' path overrides scope p) := by
  unfold resolveParameter
  dsimp only
  cases (chosen overrides p).1.evaluate scope with
  | ok value => exact .ok rfl
  | error missing => exact .error (.unresolvedParameter ..)

theorem resolveDeclared_sameUnquoted (path : String) (overrides : OrderedMap Expr) (scope : Scope)
    (resolved : Scope) (ps : List ParameterDecl) :
    SameUnquoted Scope (resolveDeclared quote path overrides scope resolved ps)
      (resolveDeclared quote' path overrides scope resolved ps) := by
  induction ps generalizing resolved with
  | nil => exact .ok rfl
  | cons p ps ih =>
    have hfirst : SameUnquoted Parameter (resolveParameter quote path overrides scope p)
        (resolveParameter quote' path overrides scope p) :=
      resolveParameter_sameUnquoted path overrides scope p
    unfold resolveDeclared
    generalize resolveParameter quote path overrides scope p = x,
      resolveParameter quote' path overrides scope p = y at hfirst ⊢
    cases hfirst with
    | error hcause => exact .error hcause
    | ok hvalue =>
      subst hvalue
      exact ih _

/-- The parameters of an instance do not depend on how expressions are quoted. -/
theorem resolveParameters_sameUnquoted (path : String) (r : ReactorDecl)
    (overrides : OrderedMap Expr) (scope : Scope) :
    SameUnquoted Scope (resolveParameters quote path r overrides scope)
      (resolveParameters quote' path r overrides scope) := by
  unfold resolveParameters
  cases undeclaredOverride? r overrides with
  | some entry => exact .error (.unresolvedParameter ..)
  | none => exact resolveDeclared_sameUnquoted path overrides scope .empty r.parameters

end

/-! ### Triggers -/

namespace Elaborator

variable {e e' : Elaborator}

theorem reference_sameUnquoted (owner : Owner) (name : String) :
    SameUnquoted Value (e.reference owner name) (e'.reference owner name) := by
  unfold reference
  cases owner.parameters.get? name with
  | some p => exact .ok rfl
  | none => exact .error (.unresolvedParameter ..)

theorem timeOf_sameUnquoted (owner : Owner) (trigger : String) (field : TriggerField) (x : Expr) :
    SameUnquoted TimeValue (e.timeOf owner trigger field x) (e'.timeOf owner trigger field x) := by
  cases x with
  | time t => exact .ok rfl
  | paramRef name =>
    -- whether the value of the parameter is a time does not depend on how it is quoted
    refine chains.bind (reference_sameUnquoted owner name) fun v => ?_
    cases v.asTime? with
    | some t => exact .ok rfl
    | none => exact .error (.typeMismatch ..)
  | int n =>
    rw [timeOf, timeOf]
    split
    · exact .ok rfl
    · exact .error (.typeMismatch ..)
  | _ => exact .error (.typeMismatch ..)

theorem timeField_sameUnquoted (owner : Owner) (trigger : String) (field : TriggerField)
    (default : TimeValue) (x? : Option Expr) :
    SameUnquoted TimeValue (e.timeField owner trigger field default x?)
      (e'.timeField owner trigger field default x?) := by
  cases x? with
  | none => exact .ok rfl
  | some x => exact timeOf_sameUnquoted owner trigger field x

theorem widthOf_sameUnquoted (owner : Owner) (port : String) (x : Expr) :
    SameUnquoted UInt64 (e.widthOf owner port x) (e'.widthOf owner port x) := by
  have hinteger : SameUnquoted (Option Int64) (e.integerOf owner x) (e'.integerOf owner x) := by
    cases x with
    | paramRef name => exact chains.map (reference_sameUnquoted owner name) Value.asInt?
    | _ => exact .ok rfl
  refine chains.bind hinteger fun n? => ?_
  cases n?.bind channels? with
  | some width => exact .ok rfl
  | none => exact .error (.typeMismatch ..)

theorem optionalField_sameUnquoted {α : Type} {f g : Expr → Except ElaborationError α}
    (h : ∀ x, SameUnquoted α (f x) (g x)) (x? : Option Expr) :
    SameUnquoted (Option α) (optionalField f x?) (optionalField g x?) := by
  cases x? with
  | none => exact .ok rfl
  | some x => exact chains.map (h x) some

theorem timer_sameUnquoted (hconfig : e.config = e'.config) (owner : Owner) (d : TimerDecl) :
    SameUnquoted Trigger (e.timer owner d) (e'.timer owner d) := by
  unfold timer
  rw [hconfig]
  refine chains.bind (timeField_sameUnquoted owner d.name _ _ d.offset) fun offset => ?_
  exact chains.bind (timeField_sameUnquoted owner d.name _ _ d.period) fun period => chains.refl _

theorem action_sameUnquoted (owner : Owner) (d : ActionDecl) :
    SameUnquoted Trigger (e.action owner d) (e'.action owner d) := by
  refine chains.bind (timeField_sameUnquoted owner d.name _ _ d.minDelay) fun minDelay => ?_
  have hspacing : SameUnquoted (Option TimeValue)
      (optionalField (e.timeOf owner d.name .minSpacing) d.minSpacing)
      (optionalField (e'.timeOf owner d.name .minSpacing) d.minSpacing) :=
    optionalField_sameUnquoted (timeOf_sameUnquoted owner d.name .minSpacing) d.minSpacing
  exact chains.bind hspacing fun minSpacing => chains.refl _

theorem port_sameUnquoted (owner : Owner) (direction : PortDirection) (d : PortDecl) :
    SameUnquoted Trigger (e.port owner direction d) (e'.port owner direction d) := by
  have hwidth : SameUnquoted (Option UInt64) (optionalField (e.widthOf owner d.name) d.width)
      (optionalField (e'.widthOf owner d.name) d.width) :=
    optionalField_sameUnquoted (widthOf_sameUnquoted owner d.name) d.width
  exact chains.bind hwidth fun width => chains.refl _

/-- The triggers of an instance do not depend on how expressions are quoted. -/
theorem triggers_sameUnquoted (hconfig : e.config = e'.config) (owner : Owner) (r : ReactorDecl) :
    SameUnquoted (List Trigger) (e.triggers owner r) (e'.triggers owner r) := by
  have hdeclared :
      SameUnquoted (List Trigger) (e.declaredTriggers owner r) (e'.declaredTriggers owner r) := by
    refine chains.bind (chains.mapM (port_sameUnquoted owner .input) _) fun inputs => ?_
    refine chains.bind (chains.mapM (port_sameUnquoted owner .output) _) fun outputs => ?_
    refine chains.bind (chains.mapM (timer_sameUnquoted hconfig owner) _) fun timers => ?_
    exact chains.bind (chains.mapM (action_sameUnquoted owner) _) fun actions => chains.refl _
  have hstartup : e.startup = e'.startup := by
    unfold startup
    rw [hconfig]
  unfold triggers
  rw [hstartup]
  exact chains.bind hdeclared fun declared => chains.refl _

/-! ### The hierarchy -/

/-- Elaborators with one configuration go through the same steps at every instance. -/
theorem stepsRelated_of_config (hconfig : e.config = e'.config) :
    StepsRelated SameUnquoted e e' where
  depth path depth := by
    unfold checkDepth
    rw [hconfig]
    exact chains.refl _
  parameters := resolveParameters_sameUnquoted
  triggers := triggers_sameUnquoted hconfig

end Elaborator

/-- **Elaboration does not read quotations.**  However expressions are quoted, the same definitions
elaborate to the same tree, or fail with errors that are equal in all but the quoted text. -/
theorem elaborate_does_not_read_quotes (t : Definitions) (config : Config) (main : String)
    (quote quote' : ExprPrinter) :
    (∃ tree, Elaborator.elaborate ⟨config, quote⟩ t main = .ok tree ∧
        Elaborator.elaborate ⟨config, quote'⟩ t main = .ok tree) ∨
      ∃ cause cause', Elaborator.elaborate ⟨config, quote⟩ t main = .error cause ∧
        Elaborator.elaborate ⟨config, quote'⟩ t main = .error cause' ∧
        cause.SameButQuotes cause' := by
  have hsteps : Elaborator.StepsRelated SameUnquoted ⟨config, quote⟩ ⟨config, quote'⟩ :=
    Elaborator.stepsRelated_of_config rfl
  -- a step uses the printer only when it fails, and nothing follows on that
  have hagree := hsteps.elaborate chains t main
  generalize Elaborator.elaborate ⟨config, quote⟩ t main = x,
    Elaborator.elaborate ⟨config, quote'⟩ t main = y at hagree ⊢
  cases hagree with
  | @ok tree tree' htree =>
    subst htree
    exact Or.inl ⟨tree, rfl, rfl⟩
  | error hcause => exact Or.inr ⟨_, _, rfl, rfl, hcause⟩

end Reactors

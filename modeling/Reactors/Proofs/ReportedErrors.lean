import Reactors.Proofs.Cycles
import Reactors.Proofs.Elaborable
import Reactors.Proofs.QualifiedNames

/-!
# What errors report

An error of elaboration stands for a defect of the program, and the path in it for the place of the
defect.  Paths are put together while the hierarchy is unrolled: at some faults the instance is
there already, at others only its site is known.  What they have in common is the run: each call
in it unrolls the instance at the end of a route from the main definition, with the overrides of
the last site and the parameters of the instance around it, and its path spells the route.  The
fault of a call is therefore a fault of an instance that can be reached.

A trigger without an instance to own it is never reported, for no call makes one.

## Main definitions

* `Program.Places` — the instances of a program, as they are described before they are made.
* `Call.placement` — the instance that a call unrolls.
* `Program.HasDefect` — the defect that an error reports, at its place.

## Main results

* `Program.Places.exists_route` — paths spell routes, and depths count their sites.
* `Elaborator.Runs.places` — the calls of a run unroll instances of the program.
* `elaborate_error_has_defect` — errors report defects that are there.
-/

namespace Reactors

/-- A program without a table has two definitions with one name. -/
theorem Program.definitions_eq_error {p : Program} {problem : ProgramError}
    (h : p.definitions = .error problem) : ∃ name, problem = .duplicateReactor name ∧
      List.Duplicate name (p.reactors.map ReactorDecl.name) := by
  obtain ⟨name, hname, rfl⟩ := definitions_eq_error_iff.1 h
  exact ⟨name, rfl, duplicate_of_firstRepeatedName? hname⟩

/-! ### The instances of a program -/

/-- The parameters of an instance resolve: overrides are of declared parameters, and the
expressions chosen for the declared ones refer to parameters of the instance around. -/
def Placement.Resolves (q : Placement) : Prop :=
  (∀ name ∈ q.overrides.keys, ∃ d ∈ q.reactor.parameters, d.name = name) ∧
    ∀ d ∈ q.reactor.parameters, ∀ name ∈ (chosen q.overrides d).1.refs, name ∈ q.scope.keys

/-- The instances of a program with their paths and depths: that of the main definition, and those
at the sites of an instance whose parameters resolve. -/
inductive Program.Places (p : Program) : String → Nat → Placement → Prop where
  | root {main : ReactorDecl} (hmain : p.reactor? p.main = some main) :
      p.Places main.name 0 (.root main)
  | site {path : String} {depth : Nat} {q : Placement} {s : Site} {d : ReactorDecl}
      (hplace : p.Places path depth q) (hresolves : q.Resolves) (hs : s ∈ q.reactor.sites)
      (hget : p.reactor? s.reactor = some d) :
      p.Places (Elaborator.sitePath path s.name) (depth + 1) (q.inside s d)

/-- Behind a route one more site leads to an instance inside. -/
theorem Definitions.Reaches.concat {t : Definitions} {q q' : Placement} {ρ : List Site} {s : Site}
    {d : ReactorDecl} (h : t.Reaches q ρ q') (hs : s ∈ q'.reactor.sites)
    (hget : t.get? s.reactor = some d) : t.Reaches q (ρ ++ [s]) (q'.inside s d) := by
  induction h with
  | here q => exact .site hs hget (.here _)
  | site hfirst hget' _ ih => exact .site hfirst hget' (ih hs)

/-- A route from the main definition leads to every instance; its path spells the route, and its
depth is the number of sites on the way. -/
theorem Program.Places.exists_route {p : Program} {t : Definitions}
    (htable : p.definitions = .ok t) {path : String} {depth : Nat} {q : Placement}
    (h : p.Places path depth q) : ∃ main ρ, t.get? p.main = some main ∧
      t.Reaches (.root main) ρ q ∧ path = main.name ++ dotted ρ ∧ depth = ρ.length := by
  induction h with
  | root hmain =>
    rw [reactor?_eq_get? htable] at hmain
    exact ⟨_, [], hmain, .here _, by simp, rfl⟩
  | @site _ _ _ s _ _ _ hs hget ih =>
    obtain ⟨main, ρ, hmain, hreach, rfl, rfl⟩ := ih
    rw [reactor?_eq_get? htable] at hget
    refine ⟨main, ρ ++ [s], hmain, hreach.concat hs hget, ?_, by simp⟩
    have hpath := sitePath_append_dotted (main.name ++ dotted ρ) s []
    rwa [dotted_nil, String.append_empty, String.append_assoc, ← dotted_append] at hpath

/-! ### The calls of a run -/

/-- The instance that a call unrolls. -/
def Call.placement (k : Call) : Placement := ⟨k.reactor, k.overrides, k.scope⟩

/-- The parameters of a call are those of its instance. -/
theorem Call.resolves_of_parameters {k : Call} {quote : ExprPrinter} {parameters : Scope}
    (hp : resolveParameters quote k.path k.reactor k.overrides k.scope = .ok parameters) :
    k.placement.Resolves ∧ parameters = k.placement.parameters := by
  obtain ⟨hover, hrefs, heq⟩ := resolveParameters_eq_ok.1 hp
  exact ⟨⟨hover, hrefs⟩, heq⟩

/-- **The calls of a run unroll the instances of the program**, each at its path and its depth, and
go at most one level below the limit. -/
theorem Elaborator.Runs.places {p : Program} {e : Elaborator} {t : Definitions}
    {main : ReactorDecl} {calls : List Call} {result : Except ElaborationError Component}
    (htable : p.definitions = .ok t) (hmain : t.get? p.main = some main)
    (h : Runs e t (.main main) calls result) :
    ∀ k ∈ calls, p.Places k.path k.depth k.placement ∧ k.depth ≤ e.config.maxDepth + 1 := by
  rw [← Program.reactor?_eq_get? htable] at hmain
  refine h.invariant (fun k k' hlead hk => ?_) ⟨.root hmain, Nat.zero_le _⟩
  obtain ⟨hdepth, hp, hs, hget, -⟩ := hlead
  obtain ⟨hresolves, rfl⟩ := Call.resolves_of_parameters hp
  rw [← Program.reactor?_eq_get? htable] at hget
  exact ⟨.site hk.1 hresolves hs hget, Nat.succ_le_succ hdepth⟩

/-! ### Defects -/

/-- The program has the defect that an error reports, at the place that the error names. -/
def Program.HasDefect (p : Program) (config : Config) : ElaborationError → Prop
  -- two definitions have the name
  | .invalidProgram (.duplicateReactor name) =>
    List.Duplicate name (p.reactors.map ReactorDecl.name)
  -- the definitions are a cycle that the main definition leads to
  | .cyclicInstantiation cycle => p.IsCycle cycle
  -- the reactor has no definition, and is the main one or that of a site at the path
  | .unresolvedReactor path reactor => p.reactor? reactor = none ∧
      (path = p.main ∧ reactor = p.main ∨
        ∃ around depth q, p.Places around depth q ∧ ∃ s ∈ q.reactor.sites,
          s.reactor = reactor ∧ path = Elaborator.sitePath around s.name)
  -- the instance is the first one on its way that is too deep
  | .depthLimitExceeded path limit => limit = config.maxDepth ∧ ∃ q, p.Places path (limit + 1) q
  -- two sites have the name, or two triggers with the startup timer among them
  | .duplicateName path name => ∃ depth q, p.Places path depth q ∧
      (List.Duplicate name (q.reactor.sites.map Site.name) ∨
        List.Duplicate name (config.startupName :: q.reactor.triggerNames))
  -- the parameter is overridden but not declared, or the expression chosen for a parameter refers
  -- to it but the instance around does not have it, or a field refers to it but the instance
  -- itself does not have it
  | .unresolvedParameter path name quoted => ∃ depth q, p.Places path depth q ∧
      ∃ x : Expr, quoted = x.text ∧
        ((name, x) ∈ q.overrides.entries ∧ (∀ d ∈ q.reactor.parameters, d.name ≠ name) ∨
          (∃ d ∈ q.reactor.parameters, x = (chosen q.overrides d).1 ∧ name ∈ x.refs ∧
            name ∉ q.scope.keys) ∨
          q.Resolves ∧ x = .paramRef name ∧ name ∉ q.parameters.keys ∧
            ∃ trigger field, q.reactor.HasField trigger field x)
  -- the definition fills in the field, which stands for a value of the wrong kind
  | .typeMismatch path trigger field found => ∃ depth q, p.Places path depth q ∧
      ∃ x, q.reactor.HasField trigger field x ∧
        q.Resolves ∧ (∀ name, x = .paramRef name → name ∈ q.parameters.keys) ∧
        ¬ field.Admits (x.valueIn q.parameters) ∧ found = (field.blamed q.parameters x).text
  | .missingParent _ => False

namespace Program

variable {p : Program} {config : Config} {path : String} {depth : Nat} {q : Placement}
  {cause : ElaborationError}

/-- Faults of the parameters of an instance are defects of the program. -/
theorem Places.hasDefect_parameters (h : p.Places path depth q)
    (hfault : ParameterFault Expr.text path q.reactor q.overrides q.scope cause) :
    p.HasDefect config cause := by
  cases hfault with
  | undeclared hover hname => exact ⟨depth, q, h, _, rfl, Or.inl ⟨hover, hname⟩⟩
  | missing hd href hname =>
    exact ⟨depth, q, h, _, rfl, Or.inr (Or.inl ⟨_, hd, rfl, href, hname⟩)⟩

/-- Faults of the triggers of an instance are defects of the program. -/
theorem Places.hasDefect_triggers (h : p.Places path depth q) (hresolves : q.Resolves)
    (hfault : TriggerFault ⟨config, Expr.text⟩ ⟨path, q.parameters⟩ q.reactor cause) :
    p.HasDefect config cause := by
  cases hfault with
  | repeated hname => exact ⟨depth, q, h, Or.inr hname⟩
  | field hfield hfault =>
    cases hfault with
    | missing hx hname =>
      exact ⟨depth, q, h, _, rfl, Or.inr (Or.inr ⟨hresolves, hx, hname, _, _, hfield⟩)⟩
    | wrongKind hrefs hkind => exact ⟨depth, q, h, _, hfield, hresolves, hrefs, hkind, rfl⟩

/-- The fault of a call is a defect of the program. -/
theorem hasDefect_of_fault {t : Definitions} {k : Call} (htable : p.definitions = .ok t)
    (hplace : p.Places k.path k.depth k.placement) (hdepth : k.depth ≤ config.maxDepth + 1)
    (henclosed : k.Enclosed p) (h : Elaborator.Fault ⟨config, Expr.text⟩ t k cause) :
    p.HasDefect config cause := by
  cases h with
  | tooDeep hdeep =>
    have hlevel : k.depth = config.maxDepth + 1 := Nat.le_antisymm hdepth hdeep
    exact ⟨rfl, k.placement, hlevel ▸ hplace⟩
  | parameters hp => exact hplace.hasDefect_parameters (resolveParameters_eq_error hp)
  | @duplicate before after s hsites hname =>
    refine ⟨k.depth, k.placement, hplace, Or.inl ?_⟩
    show List.Duplicate s.name (k.reactor.sites.map Site.name)
    rw [hsites, List.map_append, List.map_cons]
    exact duplicate_append_cons hname _
  | undefined hs hget =>
    rw [← reactor?_eq_get? htable] at hget
    exact ⟨hget, Or.inr ⟨k.path, k.depth, k.placement, hplace, _, hs, rfl, rfl⟩⟩
  | cyclic hs hget hmet =>
    rw [← reactor?_eq_get? htable] at hget
    exact henclosed.isCycle hs hget hmet
  | triggers hp ht =>
    obtain ⟨hresolves, rfl⟩ := Call.resolves_of_parameters hp
    exact hplace.hasDefect_triggers hresolves (Elaborator.triggers_eq_error ht)

end Program

/-- **Errors report defects that are there.**  A program that fails to elaborate has the defect
which the error reports, at a place that the main definition leads to, and the error is not
about the elaboration itself. -/
theorem elaborate_error_has_defect {p : Program} {config : Config} {cause : ElaborationError}
    (h : elaborate p config = .error cause) :
    p.HasDefect config cause ∧ cause.isInternal = false := by
  obtain ⟨calls, hrun⟩ := Program.exists_runs p config
  rw [h] at hrun
  have hdefect : p.HasDefect config cause := by
    -- an error comes from the table, from the missing main definition, or from one call of the run
    rcases hrun.fault with ⟨problem, htable, rfl⟩ | ⟨hmain, rfl⟩ |
      ⟨t, main, _, htable, hmain, hcalls, k, hk, hfault⟩
    · obtain ⟨name, rfl, hname⟩ := Program.definitions_eq_error htable
      exact hname
    · exact ⟨hmain, Or.inl ⟨rfl, rfl⟩⟩
    · obtain ⟨hplace, hdepth⟩ := hcalls.places htable hmain k hk
      exact Program.hasDefect_of_fault htable hplace hdepth (hrun.enclosed k hk) hfault
  refine ⟨hdefect, ?_⟩
  cases cause with
  | missingParent trigger => exact hdefect.elim
  | _ => rfl

/-- A main reactor with a lamp, whose site says how often it blinks. -/
def lampBlinking (every : Expr) : Program where
  main := "Main"
  reactors :=
    [(ReactorDecl.named "Main").withInstance "a" "Lamp" [("every", every)],
      ((ReactorDecl.named "Lamp").withParameter "every" (.time .zero)).withTimer "tick" none
        (some (.paramRef "every"))]

/-- The timer of a lamp cannot be made with a text for a time, and its site cannot refer to a
parameter that the main reactor does not have. -/
theorem lamps_have_defects :
    (elaborate (lampBlinking (.str "soon")) {} =
        .error (.typeMismatch "Main.a" "tick" .period "\"soon\"") ∧
      (lampBlinking (.str "soon")).HasDefect {}
        (.typeMismatch "Main.a" "tick" .period "\"soon\"") ∧
      (ElaborationError.typeMismatch "Main.a" "tick" .period "\"soon\"").isInternal = false) ∧
    elaborate (lampBlinking (.paramRef "rate")) {} =
        .error (.unresolvedParameter "Main.a" "rate" "rate") ∧
      (lampBlinking (.paramRef "rate")).HasDefect {}
        (.unresolvedParameter "Main.a" "rate" "rate") ∧
      (ElaborationError.unresolvedParameter "Main.a" "rate" "rate").isInternal = false := by
  have hkind : elaborate (lampBlinking (.str "soon")) {} =
      .error (.typeMismatch "Main.a" "tick" .period "\"soon\"") :=
    elaborate_eq_error_of_within (by decide +kernel)
  have hmissing : elaborate (lampBlinking (.paramRef "rate")) {} =
      .error (.unresolvedParameter "Main.a" "rate" "rate") :=
    elaborate_eq_error_of_within (by decide +kernel)
  exact ⟨⟨hkind, elaborate_error_has_defect hkind⟩, hmissing, elaborate_error_has_defect hmissing⟩

end Reactors

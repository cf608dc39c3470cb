import Reactors.Proofs.DeclarationCounts

/-!
# The parameters of a new instance

An instance gets a parameter for every declared name.  Only the expression that is chosen for it
counts: the override of the site if there is one, and the default otherwise.  So resolving fails
because of an override that nothing declares, or because of a reference inside a chosen expression,
and a default that is overridden may refer to anything.

A name may be declared twice.  It keeps the place of its first declaration and has the default of
its last one, but all of its defaults are evaluated, unless the name is overridden.

## Main definitions

* `ParameterDecl.SameUnder` — declarations from which the same expression is chosen.

## Main results

* `resolveParameters_congr` — overridden defaults are not looked at.
* `resolution_takes_chosen` — when the parameters of an instance resolve, and to what.
-/

namespace Reactors

/-! ### Sites and parents that may be missing -/

theorem Site.mem_keys_overridesOf {site : Option Site} {name : String} :
    name ∈ (overridesOf site).keys ↔ ∃ s ∈ site, name ∈ s.overrides.keys := by
  cases site with
  | none => simp [overridesOf, OrderedMap.keys, OrderedMap.empty]
  | some s => simp [overridesOf]

theorem Instance.mem_keys_scopeOf {parent : Option Instance} {name : String} :
    name ∈ (scopeOf parent).keys ↔ ∃ i ∈ parent, name ∈ i.parameters.keys := by
  cases parent with
  | none => simp [scopeOf, OrderedMap.keys, OrderedMap.empty]
  | some i => simp [scopeOf]

/-! ### The chosen expressions -/

section

variable {quote : ExprPrinter} {path : String} {overrides : OrderedMap Expr} {scope : Scope}

theorem chosen_of_get?_eq_some {d : ParameterDecl} {x : Expr}
    (h : overrides.get? d.name = some x) : chosen overrides d = (x, .override) := by
  rw [chosen, h]

theorem chosen_of_get?_eq_none {d : ParameterDecl} (h : overrides.get? d.name = none) :
    chosen overrides d = (d.default, .default) := by
  rw [chosen, h]

theorem chosen_fst (overrides : OrderedMap Expr) (d : ParameterDecl) :
    (chosen overrides d).1 = (overrides.get? d.name).getD d.default := by
  cases h : overrides.get? d.name with
  | none => rw [chosen_of_get?_eq_none h, Option.getD_none]
  | some x => rw [chosen_of_get?_eq_some h, Option.getD_some]

theorem chosen_snd_eq_override_iff {d : ParameterDecl} :
    (chosen overrides d).2 = .override ↔ d.name ∈ overrides.keys := by
  cases h : overrides.get? d.name with
  | none => simp [chosen_of_get?_eq_none h, OrderedMap.get?_eq_none_iff.1 h]
  | some x => simp [chosen_of_get?_eq_some h, OrderedMap.mem_keys_iff.2 ⟨x, h⟩]

/-- Declarations of one name, which have one default unless the name is overridden. -/
def ParameterDecl.SameUnder (overrides : OrderedMap Expr) (d d' : ParameterDecl) : Prop :=
  d.name = d'.name ∧ (d.name ∉ overrides.keys → d.default = d'.default)

theorem ParameterDecl.SameUnder.chosen_eq {d d' : ParameterDecl} (h : d.SameUnder overrides d') :
    chosen overrides d = chosen overrides d' := by
  obtain ⟨hname, hdefault⟩ := h
  cases hget : overrides.get? d.name with
  | some x =>
    have hget' : overrides.get? d'.name = some x := hname ▸ hget
    rw [chosen_of_get?_eq_some hget, chosen_of_get?_eq_some hget']
  | none =>
    have hget' : overrides.get? d'.name = none := hname ▸ hget
    rw [chosen_of_get?_eq_none hget, chosen_of_get?_eq_none hget',
      hdefault (OrderedMap.get?_eq_none_iff.1 hget)]

theorem resolveDeclared_congr {ds ds' : List ParameterDecl}
    (h : List.Forall₂ (ParameterDecl.SameUnder overrides) ds ds') (resolved : Scope) :
    resolveDeclared quote path overrides scope resolved ds =
      resolveDeclared quote path overrides scope resolved ds' := by
  induction h generalizing resolved with
  | nil => rfl
  | @cons d d' ds ds' hd _ ih =>
    have hparameter : resolveParameter quote path overrides scope d =
        resolveParameter quote path overrides scope d' := by
      rw [resolveParameter, resolveParameter, hd.chosen_eq, hd.1]
    rw [resolveDeclared, resolveDeclared, hparameter, hd.1]
    cases resolveParameter quote path overrides scope d' with
    | error cause => rfl
    | ok value => exact ih _

theorem undeclaredOverride?_congr {r r' : ReactorDecl}
    (h : r.parameters.map ParameterDecl.name = r'.parameters.map ParameterDecl.name)
    (overrides : OrderedMap Expr) :
    undeclaredOverride? r overrides = undeclaredOverride? r' overrides := by
  have hdeclared : ∀ (r : ReactorDecl) (name : String),
      (r.parameter? name).isNone = decide (name ∉ r.parameters.map ParameterDecl.name) := by
    intro r name
    rw [Bool.eq_iff_iff, ReactorDecl.parameter?, Option.isNone_iff_eq_none, List.find?_eq_none]
    simp
  simp only [undeclaredOverride?, hdeclared, h]

/-- **Overridden defaults are not looked at**, and neither are the types of parameters. -/
theorem resolveParameters_congr {r r' : ReactorDecl}
    (h : List.Forall₂ (ParameterDecl.SameUnder overrides) r.parameters r'.parameters) :
    resolveParameters quote path r overrides scope =
      resolveParameters quote path r' overrides scope := by
  have hnames := map_eq_of_forall₂ h fun _ _ hd => hd.1
  rw [resolveParameters, resolveParameters, undeclaredOverride?_congr hnames]
  cases undeclaredOverride? r' overrides with
  | some entry => rfl
  | none => exact resolveDeclared_congr h .empty

end

/-! ### The parameters of an instance -/

theorem find?_reverse_eq_some_iff {α : Type} {p : α → Bool} {as : List α} {a : α} :
    as.reverse.find? p = some a ↔
      ∃ before after, as = before ++ a :: after ∧ p a = true ∧ ∀ b ∈ after, p b = false := by
  rw [List.find?_eq_some_iff_append]
  constructor
  · rintro ⟨ha, before, after, has, hbefore⟩
    refine ⟨after.reverse, before.reverse, ?_, ha, fun b hb => ?_⟩
    · rw [← as.reverse_reverse, has]
      simp
    · simpa using hbefore b (List.mem_reverse.1 hb)
  · rintro ⟨before, after, rfl, ha, hafter⟩
    refine ⟨ha, after.reverse, before.reverse, by simp, fun b hb => ?_⟩
    simpa using hafter b (List.mem_reverse.1 hb)

/-- Where the parameters of an instance resolve, every one of them is the last declaration of its
name, bound to the expression that is chosen for it. -/
theorem exists_of_get?_parametersIn {r : ReactorDecl} {overrides : OrderedMap Expr}
    {scope : Scope} {key : String} {q : Parameter}
    (h : (r.parametersIn overrides scope).get? key = some q) :
    ∃ before d after, r.parameters = before ++ d :: after ∧ d.name = key ∧
      (∀ later ∈ after, later.name ≠ key) ∧ q = d.boundIn overrides scope := by
  rw [ReactorDecl.get?_parametersIn, Option.map_eq_some_iff] at h
  obtain ⟨d, hd, rfl⟩ := h
  obtain ⟨before, after, hsplit, hname, hafter⟩ := find?_reverse_eq_some_iff.1 hd
  exact ⟨before, d, after, hsplit, eq_of_beq hname, fun later hlater =>
    ne_of_beq_false (hafter later hlater), rfl⟩

/-- **What the parameters of an instance resolve to.**  They resolve exactly when every override is
of a declared parameter and every reference inside a chosen expression names a parameter of the
parent.  They then keep the order in which their names are first declared; each has its own
name, says whether the site overrides it, and has the value of the override or else of the last
default.  Declarations that differ only in overridden defaults resolve alike. -/
theorem resolution_takes_chosen (quote : ExprPrinter) (path : String) (r : ReactorDecl)
    (site : Option Site) (parent : Option Instance) :
    let overrides := Site.overridesOf site
    let scope := Instance.scopeOf parent
    ((∃ own, resolveParameters quote path r overrides scope = .ok own) ↔
      (∀ s ∈ site, ∀ key ∈ s.overrides.keys, ∃ d ∈ r.parameters, d.name = key) ∧
      ∀ d ∈ r.parameters, ∀ name ∈ ((overrides.get? d.name).getD d.default).refs,
        ∃ i ∈ parent, name ∈ i.parameters.keys) ∧
    (∀ own, resolveParameters quote path r overrides scope = .ok own →
      own.keys = (r.parameters.map ParameterDecl.name).eraseDups ∧
      ∀ key q, own.get? key = some q →
        q.name = key ∧ (q.provenance = .override ↔ ∃ s ∈ site, key ∈ s.overrides.keys) ∧
        (∀ x, overrides.get? key = some x → x.evaluate scope = .ok q.value) ∧
        (overrides.get? key = none → ∃ before d after, r.parameters = before ++ d :: after ∧
          d.name = key ∧ (∀ later ∈ after, later.name ≠ key) ∧
          d.default.evaluate scope = .ok q.value)) ∧
    ∀ r' : ReactorDecl,
      List.Forall₂ (ParameterDecl.SameUnder overrides) r.parameters r'.parameters →
      resolveParameters quote path r' overrides scope =
        resolveParameters quote path r overrides scope := by
  intro overrides scope
  -- overridden names and references are looked for in the site and in the parent, if there are any
  refine ⟨?_, fun own hown => ?_, fun r' h => (resolveParameters_congr h).symm⟩
  · simp only [resolveParameters_eq_ok, exists_and_left, exists_eq, and_true, chosen_fst]
    refine and_congr ?_ ?_
    · simp only [overrides, Site.mem_keys_overridesOf]
      exact ⟨fun h s hs key hkey => h key ⟨s, hs, hkey⟩, fun h key ⟨s, hs, hkey⟩ => h s hs key hkey⟩
    · simp only [scope, Instance.mem_keys_scopeOf]
  · obtain ⟨-, hrefs, rfl⟩ := resolveParameters_eq_ok.1 hown
    refine ⟨?_, fun key q hq => ?_⟩
    · rw [ReactorDecl.parametersIn, OrderedMap.keys_ofList, List.map_map]
      rfl
    · -- of declarations with one name the last gives the value, and that is where the list is split
      obtain ⟨before, d, after, hsplit, rfl, hafter, rfl⟩ := exists_of_get?_parametersIn hq
      have hmem : d ∈ r.parameters := hsplit ▸ by simp
      have hvalue : (chosen overrides d).1.evaluate scope =
          .ok (d.boundIn overrides scope).value :=
        Expr.evaluate_eq_ok.2 ⟨hrefs d hmem, rfl⟩
      -- the chosen expression is the override where there is one, and the default elsewhere
      refine ⟨rfl, chosen_snd_eq_override_iff.trans Site.mem_keys_overridesOf, ?_, ?_⟩
      · intro x hx
        rwa [chosen_of_get?_eq_some hx] at hvalue
      · intro hnone
        rw [chosen_of_get?_eq_none hnone] at hvalue
        exact ⟨before, d, after, hsplit, rfl, hafter, hvalue⟩

/-- An amplifier whose gain is declared twice and whose label cannot be resolved. -/
def amplifier : ReactorDecl :=
  ((ReactorDecl.named "Amplifier").withParameter "gain" (.int 1)
    |>.withParameter "label" (.paramRef "lost")).withParameter "gain" (.paramRef "rates")

/-- A mixer with two rates. -/
def mixer : Instance where
  id := 0
  name := "Mixer"
  reactor := "Mixer"
  parent := none
  depth := 0
  path := "Mixer"
  children := [1]
  parameters := .ofList [("rates", ⟨"rates", .array [.int 5, .int 6], .default⟩)]
  triggers := []

/-- A site of the amplifier in the mixer, with a label of its own. -/
def leftAmplifier : Site := ⟨"left", "Amplifier", .ofList [("label", .str "L")]⟩

/-- The amplifier resolves at the site, where its label is overridden: its gain is the first of the
rates and comes before the label. -/
theorem amplifier_resolves_in_mixer : ∃ own,
    resolveParameters Expr.text "Mixer.left" amplifier (Site.overridesOf (some leftAmplifier))
      (Instance.scopeOf (some mixer)) = .ok own ∧ own.keys = ["gain", "label"] ∧
      ∃ gain, own.get? "gain" = some gain ∧ gain.provenance ≠ .override := by
  obtain ⟨hresolves, hkept, -⟩ := resolution_takes_chosen Expr.text "Mixer.left" amplifier
    (some leftAmplifier) (some mixer)
  obtain ⟨own, hown⟩ := hresolves.2 (by
    constructor
    · rintro s ⟨⟩
      decide
    · have hrates : ∀ d ∈ amplifier.parameters,
          ∀ name ∈ ((leftAmplifier.overrides.get? d.name).getD d.default).refs,
          name ∈ mixer.parameters.keys := by decide
      exact fun d hd name hname => ⟨mixer, rfl, hrates d hd name hname⟩)
  obtain ⟨hkeys, hentries⟩ := hkept own hown
  have hnames : own.keys = ["gain", "label"] := hkeys.trans (by decide)
  obtain ⟨gain, hgain⟩ :=
    OrderedMap.mem_keys_iff.1 (hnames ▸ List.mem_cons_self : "gain" ∈ own.keys)
  refine ⟨own, hown, hnames, gain, hgain, fun hoverride => ?_⟩
  obtain ⟨s, ⟨⟩, hover⟩ := (hentries "gain" gain hgain).2.1.1 hoverride
  revert hover
  decide

end Reactors

import Reactors.Proofs.ReportedErrors

/-!
# What is shown of a refused field

Where a field of a trigger holds something of the wrong kind, elaboration ends with an error that
quotes an expression, in whatever way expressions are quoted.  A literal is quoted as it stands.
Of a reference in a timing field the value is quoted, which is what is of the wrong kind.  A
reference in a width is quoted as it stands, and its value is not shown: a reader of the error
learns that a parameter cannot count the channels of a port, but not why.

## Main definitions

* `Program.Refuses` — a field of an instance holds something of the wrong kind.

## Main results

* `Elaborator.exists_fault_of_elaborate` — every error is the fault of an instance, or about the
  main reactor.
* `Elaborator.Fault.refuses` — a fault of type is a field of the wrong kind.
* `elaborate_shows_refused_field` — what is quoted.
-/

namespace Reactors

/-- A field of the instance at a path holds an expression that stands for a value of the wrong
kind. -/
structure Program.Refuses (p : Program) (path trigger : String) (field : TriggerField)
    (q : Placement) (x : Expr) : Prop where
  /-- The instance is one of the program. -/
  place : ∃ depth, p.Places path depth q
  resolves : q.Resolves
  /-- Its definition fills in the field. -/
  filled : q.reactor.HasField trigger field x
  /-- It has the parameter that a reference is to. -/
  known : ∀ name, x = .paramRef name → name ∈ q.parameters.keys
  unfit : ¬ field.Admits (x.valueIn q.parameters)

namespace Elaborator

variable {p : Program} {t : Definitions} {e : Elaborator} {cause : ElaborationError}

/-- However expressions are quoted, an error of the elaboration is about the main reactor, or it is
the fault of an instance of the program. -/
theorem exists_fault_of_elaborate (htable : p.definitions = .ok t)
    (h : e.elaborate t p.main = .error cause) :
    (t.get? p.main = none ∧ cause = .unresolvedReactor p.main p.main) ∨
      ∃ k : Call, p.Places k.path k.depth k.placement ∧ e.Fault t k cause := by
  rw [elaborate_eq_map, map_eq_error, expandMain] at h
  cases hmain : t.get? p.main with
  | none =>
    rw [hmain] at h
    cases h
    exact Or.inl ⟨rfl, rfl⟩
  | some main =>
    rw [hmain] at h
    obtain ⟨calls, result, hrun⟩ := exists_runs e t (.main main)
    have hresult : result = .error cause := (hrun.result_eq rfl).trans h
    obtain ⟨k, hk, hfault⟩ := hrun.exists_fault cause hresult
    exact Or.inr ⟨k, (hrun.places htable hmain k hk).1, hfault⟩

/-- The fault of an instance that is one of type is a field of the wrong kind: parameters may hold
values of all kinds. -/
theorem Fault.refuses {k : Call} {path trigger found : String} {field : TriggerField}
    (hplace : p.Places k.path k.depth k.placement)
    (h : e.Fault t k (.typeMismatch path trigger field found)) :
    ∃ x, p.Refuses path trigger field k.placement x ∧
      found = e.quote (field.blamed k.placement.parameters x) := by
  cases h with
  | parameters hp => cases resolveParameters_eq_error hp
  | triggers hp ht =>
    obtain ⟨hresolves, rfl⟩ := Call.resolves_of_parameters hp
    cases triggers_eq_error ht with
    | field hfield hfault =>
      cases hfault with
      | @wrongKind hknown hunfit =>
        exact ⟨_, ⟨⟨k.depth, hplace⟩, hresolves, hfield, hknown, hunfit⟩, rfl⟩

end Elaborator

/-! ### The quoted expression -/

theorem TriggerField.blamed_of_ne {field : TriggerField} {x : Expr}
    (hx : ∀ name, x ≠ .paramRef name) (scope : Scope) : field.blamed scope x = x := by
  have hresolved : x.resolvedIn scope = x := by
    cases x with
    | paramRef name => exact absurd rfl (hx name)
    | _ => rfl
  rw [blamed, hresolved, ite_self]

theorem Expr.valueIn_paramRef {scope : Scope} {name : String} {v : Parameter}
    (h : scope.get? name = some v) : (Expr.paramRef name).valueIn scope = v.value.initial := by
  rw [valueIn, h]
  rfl

theorem TriggerField.blamed_paramRef {field : TriggerField} {scope : Scope} {name : String}
    {v : Parameter} (h : scope.get? name = some v) :
    field.blamed scope (.paramRef name) =
      if field = .width then .paramRef name else v.value.initial.toExpr := by
  rw [blamed, Expr.resolvedIn, Expr.valueIn_paramRef h]

/-- **What is shown of a refused field.**  However expressions are quoted, where elaboration says
that a field is of the wrong type, this is a field of an instance of the program that holds
something of the wrong kind.  An expression other than a reference is quoted itself.  A reference
is to a parameter of the instance whose value is of the wrong kind, as far as references reach
into it: its first element if it is an array with elements, and all of it otherwise.  In a timing
field the literal of this value is quoted, in a width the reference itself. -/
theorem elaborate_shows_refused_field {p : Program} {t : Definitions} {e : Elaborator}
    {path trigger found : String} {field : TriggerField} (htable : p.definitions = .ok t)
    (h : e.elaborate t p.main = .error (.typeMismatch path trigger field found)) :
    ∃ q x, p.Refuses path trigger field q x ∧
      ((∀ name, x ≠ .paramRef name) → found = e.quote x) ∧
      ∀ name, x = .paramRef name → ∃ v, q.parameters.get? name = some v ∧
        ¬ field.Admits v.value.initial ∧
        found = e.quote (if field = .width then .paramRef name else v.value.initial.toExpr) := by
  rcases Elaborator.exists_fault_of_elaborate htable h with ⟨-, hmain⟩ | ⟨k, hplace, hfault⟩
  · cases hmain
  · obtain ⟨x, hrefuses, hfound⟩ := hfault.refuses hplace
    refine ⟨k.placement, x, hrefuses, ?_, ?_⟩
    · intro hx
      rw [hfound, TriggerField.blamed_of_ne hx]
    · -- an unknown name would be another error, so the reference has a value to be refused
      rintro name rfl
      obtain ⟨v, hv⟩ := OrderedMap.mem_keys_iff.1 (hrefuses.known name rfl)
      refine ⟨v, hv, ?_, ?_⟩
      · rw [← Expr.valueIn_paramRef hv]
        exact hrefuses.unfit
      · rw [hfound, TriggerField.blamed_paramRef hv]

/-- Expressions between angle brackets. -/
def bracketed : ExprPrinter := fun x => "<" ++ x.text ++ ">"

/-- A lamp whose site hands down a list for how often it blinks. -/
def listedLamp : Program := lampBlinking (.list [.str "soon", .int 0])

/-- Its definitions. -/
def listedLampTable : Definitions := ⟨listedLamp.reactors, by decide⟩

/-- The period of the lamp refers to the parameter that holds the list, and shows its first item. -/
theorem lamp_shows_first_item : listedLamp.definitions = .ok listedLampTable ∧
    Elaborator.elaborate ⟨{}, bracketed⟩ listedLampTable listedLamp.main =
      .error (.typeMismatch "Main.a" "tick" .period "<\"soon\">") ∧
    ∃ q x, listedLamp.Refuses "Main.a" "tick" .period q x ∧
      ((∀ name, x ≠ .paramRef name) → "<\"soon\">" = bracketed x) ∧
      ∀ name, x = .paramRef name → ∃ v, q.parameters.get? name = some v ∧
        ¬ TriggerField.period.Admits v.value.initial ∧
        "<\"soon\">" = bracketed v.value.initial.toExpr := by
  have htable : listedLamp.definitions = .ok listedLampTable := Program.definitions_eq_ok.2 rfl
  have hrun : Elaborator.elaborate ⟨{}, bracketed⟩ listedLampTable listedLamp.main =
      .error (.typeMismatch "Main.a" "tick" .period "<\"soon\">") :=
    Elaborator.elaborate_eq_error_of_expandWithin rfl (by decide +kernel)
  exact ⟨htable, hrun, elaborate_shows_refused_field htable hrun⟩

theorem ReactorDecl.hasField_width_iff {r : ReactorDecl} {port : String} {x : Expr} :
    r.HasField port .width x ↔ ∃ d ∈ r.inputs ++ r.outputs, d.name = port ∧ d.width = some x := by
  constructor
  · intro h
    cases h with
    | width hd hx => exact ⟨_, hd, rfl, hx⟩
  · rintro ⟨d, hd, rfl, hx⟩
    exact .width hd hx

/-- Where the main definition has no sites, there is no other instance. -/
theorem Program.Places.eq_root {p : Program} {main : ReactorDecl} {path : String} {depth : Nat}
    {q : Placement} (hmain : p.reactor? p.main = some main) (hsites : main.sites = [])
    (h : p.Places path depth q) : q = .root main := by
  induction h with
  | root hmain' =>
    rw [hmain] at hmain'
    cases hmain'
    rfl
  | site _ _ hs _ ih =>
    subst ih
    have hnone : _ ∈ main.sites := hs
    rw [hsites] at hnone
    cases hnone

/-- A definition with a number below zero, and with what is declared by means of it. -/
def belowZero (inputs : List PortDecl) (timers : List TimerDecl) : ReactorDecl :=
  { ReactorDecl.named "Main" with parameters := [⟨"n", none, .int (-1)⟩], inputs, timers }

/-- A timer with the number as its offset. -/
def belowZeroTimer : Program := ⟨"Main", [belowZero [] [⟨"tick", some (.paramRef "n"), none⟩]]⟩

/-- A port with the number as its width. -/
def belowZeroPort : Program := ⟨"Main", [belowZero [⟨"in", none, some (.paramRef "n")⟩] []]⟩

/-- The offset of a timer shows the number that it refers to.  The width of a port does not: there
is no field for which the text would be that of the value. -/
theorem width_hides_value :
    elaborate belowZeroTimer {} = .error (.typeMismatch "Main" "tick" .offset "-1") ∧
    elaborate belowZeroPort {} = .error (.typeMismatch "Main" "in" .width "n") ∧
    ¬ ∃ q x, belowZeroPort.Refuses "Main" "in" .width q x ∧
      "n" = (x.resolvedIn q.parameters).text := by
  refine ⟨elaborate_eq_error_of_within (by decide +kernel),
    elaborate_eq_error_of_within (by decide +kernel), ?_⟩
  rintro ⟨q, x, hrefuses, hshown⟩
  obtain ⟨depth, hplace⟩ := hrefuses.place
  obtain rfl := hplace.eq_root rfl rfl
  have hwidth : x = .paramRef "n" := by
    obtain ⟨d, hd, -, hx⟩ := ReactorDecl.hasField_width_iff.1 hrefuses.filled
    rw [List.mem_singleton.1 hd] at hx
    cases hx
    rfl
  subst hwidth
  have hvalue : ((Expr.paramRef "n").resolvedIn
      (Placement.root (belowZero [⟨"in", none, some (.paramRef "n")⟩] [])).parameters).text =
      "-1" := by
    decide +kernel
  rw [hvalue] at hshown
  exact absurd hshown (by decide)

end Reactors

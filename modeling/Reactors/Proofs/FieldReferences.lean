import Reactors.Proofs.Comparisons
import Reactors.Proofs.TriggerFields

/-!
# Literals and references in fields

A field of a trigger holds a literal or a reference to a parameter.  What comes of it is decided by
one value: that of the literal, or what the reference yields, which is the first element of
an array that has one.  So a literal and a reference to a parameter with its value are
interchangeable, except for lists: written in the field they are refused, but a reference reaches
into them.  It reaches down one level only: if the first element is an array with elements again,
then the reference is refused, although a reference to a parameter with just this element would be
resolved further.

## Main definitions

* `Elaborator.Shows` — the value that decides what comes of an expression in a field.
* `Elaborator.SameInFields` — two expressions are interchangeable in all fields.
* `Elaborator.RefusedInFields` — an expression fits no field.

## Main results

* `Elaborator.shows_literal`, `Elaborator.shows_reference` — the deciding value.
* `fields_take_literals_and_references` — literals, lists and references in fields.
-/

namespace Reactors

/-- Two errors say that one field holds something else than it has to, whatever they quote. -/
def ElaborationError.BothMismatch (path trigger : String) (field : TriggerField)
    (cause cause' : ElaborationError) : Prop :=
  (∃ found, cause = .typeMismatch path trigger field found) ∧
    ∃ found, cause' = .typeMismatch path trigger field found

namespace Elaborator

variable {e : Elaborator} {owner : Owner} {trigger : String} {x y : Expr} {v : Value}

/-- Two expressions are interchangeable in the fields of a trigger: in every timing field, and as
a width, they have the same value, or both are refused because of their type. -/
structure SameInFields (e : Elaborator) (owner : Owner) (trigger : String) (x y : Expr) :
    Prop where
  timing : ∀ field, Agree (ElaborationError.BothMismatch owner.path trigger field) (· = ·)
    (e.timeOf owner trigger field x) (e.timeOf owner trigger field y)
  width : Agree (ElaborationError.BothMismatch owner.path trigger .width) (· = ·)
    (e.widthOf owner trigger x) (e.widthOf owner trigger y)

/-- An expression is refused because of its type, in every timing field and as a width. -/
structure RefusedInFields (e : Elaborator) (owner : Owner) (trigger : String) (x : Expr) :
    Prop where
  timing : ∀ field, ∃ found,
    e.timeOf owner trigger field x = .error (.typeMismatch owner.path trigger field found)
  width : ∃ found,
    e.widthOf owner trigger x = .error (.typeMismatch owner.path trigger .width found)

/-! ### The deciding value -/

/-- What comes of an expression in a field is decided by a value: the field has the time or the
width that the value stands for, and is refused because of its type if there is none. -/
structure Shows (e : Elaborator) (owner : Owner) (trigger : String) (x : Expr) (v : Value) :
    Prop where
  timing : ∀ field, ∃ found, e.timeOf owner trigger field x =
    v.asTime?.elim (.error (.typeMismatch owner.path trigger field found)) .ok
  width : ∃ found, e.widthOf owner trigger x =
    (v.asInt?.bind channels?).elim (.error (.typeMismatch owner.path trigger .width found)) .ok

theorem widthOf_of_integerOf {n : Option Int64} (h : e.integerOf owner x = .ok n) :
    e.widthOf owner trigger x = (n.bind channels?).elim
      (.error (.typeMismatch owner.path trigger .width (e.quote x))) .ok := by
  rw [widthOf, h]
  cases hwidth : n.bind channels? <;> simp [bind, Except.bind, hwidth]

/-- An expression other than a reference shows its value, which depends on no scope. -/
theorem shows_literal (hx : ∀ name, x ≠ .paramRef name) (scope : Scope) :
    e.Shows owner trigger x (x.valueIn scope) := by
  constructor
  · intro field
    refine ⟨e.quote x, ?_⟩
    cases x with
    | paramRef name => exact absurd rfl (hx name)
    | int n => by_cases hn : n = 0 <;> simp [timeOf, notATime, Expr.valueIn, Value.asTime?, hn]
    | _ => rfl
  · refine ⟨e.quote x, ?_⟩
    have hinteger : e.integerOf owner x = .ok (x.valueIn scope).asInt? := by
      cases x with
      | paramRef name => exact absurd rfl (hx name)
      | _ => rfl
    exact widthOf_of_integerOf hinteger

/-- A reference shows what the parameter yields. -/
theorem shows_reference {name : String} {q : Parameter}
    (hq : owner.parameters.get? name = some q) :
    e.Shows owner trigger (.paramRef name) q.value.initial := by
  have hreference : e.reference owner name = .ok q.value.initial := by
    rw [reference, hq]
  constructor
  · intro field
    refine ⟨e.quote q.value.initial.toExpr, ?_⟩
    rw [timeOf, hreference]
    cases htime : q.value.initial.asTime? <;> simp [bind, Except.bind, htime, notATime]
  · refine ⟨e.quote (.paramRef name), ?_⟩
    have hinteger : e.integerOf owner (.paramRef name) = .ok q.value.initial.asInt? := by
      rw [integerOf, hreference]
      rfl
    exact widthOf_of_integerOf hinteger

/-- Expressions that show one value are interchangeable. -/
theorem Shows.sameInFields (hx : e.Shows owner trigger x v) (hy : e.Shows owner trigger y v) :
    e.SameInFields owner trigger x y := by
  constructor
  · intro field
    obtain ⟨found, hfound⟩ := hx.timing field
    obtain ⟨found', hfound'⟩ := hy.timing field
    rw [hfound, hfound']
    cases v.asTime? with
    | none => exact .error ⟨⟨found, rfl⟩, ⟨found', rfl⟩⟩
    | some t => exact .ok rfl
  · obtain ⟨found, hfound⟩ := hx.width
    obtain ⟨found', hfound'⟩ := hy.width
    rw [hfound, hfound']
    cases v.asInt?.bind channels? with
    | none => exact .error ⟨⟨found, rfl⟩, ⟨found', rfl⟩⟩
    | some width => exact .ok rfl

/-- An expression that shows an array is refused. -/
theorem Shows.refusedInFields {items : List Value}
    (h : e.Shows owner trigger x (.array items)) : e.RefusedInFields owner trigger x :=
  ⟨h.timing, h.width⟩

end Elaborator

/-! ### Values behind references -/

theorem Value.initial_of_ne_cons {v : Value} (h : ∀ w ws, v ≠ .array (w :: ws)) :
    v.initial = v := by
  cases v with
  | array items =>
    cases items with
    | nil => rfl
    | cons w ws => exact absurd rfl (h w ws)
  | _ => rfl

theorem Expr.initial_valueIn {x : Expr} (hreference : ∀ name, x ≠ .paramRef name)
    (hlist : ∀ items, x ≠ .list items) (scope : Scope) :
    (x.valueIn scope).initial = x.valueIn scope := by
  cases x with
  | paramRef name => exact absurd rfl (hreference name)
  | list items => exact absurd rfl (hlist items)
  | _ => rfl

/-! ### Fields of an instance -/

/-- **Literals and references in fields.**  An expression that is neither a reference nor a list and
a reference to a parameter with its value are interchangeable in all fields.  A list is refused in
every field.  A reference to a parameter that holds an array with elements is interchangeable
with a reference to a parameter that holds the first of them, unless this is such an array
again: then it is refused. -/
theorem fields_take_literals_and_references (e : Elaborator) (i : Instance) (trigger : String) :
    (∀ x name q scope, (∀ other, x ≠ .paramRef other) → (∀ items, x ≠ .list items) →
      i.parameter? name = some q → x.evaluate scope = .ok q.value →
      e.SameInFields i.owner trigger x (.paramRef name)) ∧
    (∀ items, e.RefusedInFields i.owner trigger (.list items)) ∧
    ∀ name name' q q' v vs, i.parameter? name = some q → i.parameter? name' = some q' →
      q.value = .array (v :: vs) → q'.value = v →
      ((∀ w ws, v ≠ .array (w :: ws)) →
        e.SameInFields i.owner trigger (.paramRef name) (.paramRef name')) ∧
      ∀ w ws, v = .array (w :: ws) → e.RefusedInFields i.owner trigger (.paramRef name) := by
  refine ⟨?_, ?_, ?_⟩
  · intro x name q scope hreference hlist hq hx
    have hvalue : q.value = x.valueIn scope := (Expr.evaluate_eq_ok.1 hx).2
    have hinitial : q.value.initial = x.valueIn scope := by
      rw [hvalue, Expr.initial_valueIn hreference hlist]
    have hshows : e.Shows i.owner trigger (.paramRef name) (x.valueIn scope) :=
      hinitial ▸ Elaborator.shows_reference hq
    -- a field reads nothing of an expression but the value that it shows
    exact (Elaborator.shows_literal hreference scope).sameInFields hshows
  · intro items
    have hreference : ∀ name, Expr.list items ≠ .paramRef name := fun _ h => by cases h
    exact (Elaborator.shows_literal hreference .empty).refusedInFields
  · intro name name' q q' v vs hq hq' hv hv'
    have hshows : e.Shows i.owner trigger (.paramRef name) q.value.initial :=
      Elaborator.shows_reference hq
    -- one level of the array is taken off, and what is below is shown as it is
    rw [hv] at hshows
    constructor
    · intro hv''
      have hshows' : e.Shows i.owner trigger (.paramRef name') q'.value.initial :=
        Elaborator.shows_reference hq'
      rw [hv', Value.initial_of_ne_cons hv''] at hshows'
      exact hshows.sameInFields hshows'
    · rintro w ws rfl
      exact hshows.refusedInFields

/-- An instance with a delay, a row of delays and a row of rows of delays. -/
def delayLine : Instance where
  id := 0
  name := "Main"
  reactor := "Main"
  parent := none
  depth := 0
  path := "Main"
  children := []
  parameters := .ofList
    [("delay", ⟨"delay", .time ⟨5, .msec⟩, .default⟩),
      ("row", ⟨"row", .array [.time ⟨5, .msec⟩], .default⟩),
      ("rows", ⟨"rows", .array [.array [.time ⟨5, .msec⟩]], .default⟩)]
  triggers := []

/-- The elaborator with the default configuration. -/
def plainElaborator : Elaborator := ⟨{}, Expr.text⟩

/-- A literal delay, the delay and the row of delays are interchangeable; the row of rows is
refused. -/
theorem delay_line_fields :
    plainElaborator.SameInFields delayLine.owner "t" (.time ⟨5, .msec⟩) (.paramRef "delay") ∧
    plainElaborator.SameInFields delayLine.owner "t" (.paramRef "row") (.paramRef "delay") ∧
    plainElaborator.RefusedInFields delayLine.owner "t" (.paramRef "rows") := by
  obtain ⟨hliteral, -, hreference⟩ :=
    fields_take_literals_and_references plainElaborator delayLine "t"
  refine ⟨?_, ?_, ?_⟩
  · exact hliteral (.time ⟨5, .msec⟩) "delay" _ .empty (fun _ h => by cases h)
      (fun _ h => by cases h) rfl rfl
  · exact (hreference "row" "delay" _ _ _ _ rfl rfl rfl rfl).1 fun _ _ h => by cases h
  · exact (hreference "rows" "row" _ _ _ _ rfl rfl rfl rfl).2 _ _ rfl

/-- The row of rows is refused as a period although its first element is the row, which is not. -/
theorem row_of_rows_refused : ∃ rows row,
    delayLine.parameter? "rows" = some rows ∧ delayLine.parameter? "row" = some row ∧
    rows.value = .array [row.value] ∧
    plainElaborator.timeOf delayLine.owner "t" .period (.paramRef "row") = .ok ⟨5, .msec⟩ ∧
    plainElaborator.timeOf delayLine.owner "t" .period (.paramRef "rows") =
      .error (.typeMismatch "Main" "t" .period (Expr.text (.list [.time ⟨5, .msec⟩]))) ∧
    ¬ plainElaborator.SameInFields delayLine.owner "t" (.paramRef "rows") (.paramRef "row") := by
  have hrow : plainElaborator.timeOf delayLine.owner "t" .period (.paramRef "row") =
      .ok ⟨5, .msec⟩ := rfl
  have hrows : plainElaborator.timeOf delayLine.owner "t" .period (.paramRef "rows") =
      .error (.typeMismatch "Main" "t" .period (Expr.text (.list [.time ⟨5, .msec⟩]))) := rfl
  refine ⟨_, _, rfl, rfl, rfl, hrow, hrows, fun hsame => ?_⟩
  have hperiod := hsame.timing .period
  rw [hrow, hrows] at hperiod
  cases hperiod

end Reactors

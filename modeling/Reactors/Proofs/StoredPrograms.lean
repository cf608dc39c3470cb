import Reactors.Program.Loading
import Reactors.Proofs.StoredValues
import Reactors.Proofs.TriggerFields

/-!
# Stored programs are read back

A program holds numbers and times in its expressions only: the defaults of its parameters, the
widths of its ports, the timing fields of its timers and actions, and the overrides of its
sites.  Everything else in it, the order of lists and maps and what is left out included, has
a written form of its own.  So a program is read back from its text if its numbers are
finite, its times keep the rule on units, and no list is nested too deep for the reader.

Programs that are put together step by step can break the rule on units, as their times
are not checked; those that were read cannot.

## Main definitions

* `Expr.floats`, `Expr.times` — the numbers and times in an expression.
* `ReactorDecl.exprs`, `Program.exprs` — the expressions of a definition and of a program.
* `Program.floats`, `Program.times` — the numbers and times in a program.

## Main results

* `Expr.roundTrips`, `ReactorDecl.roundTrips`, `Program.roundTrips` — what is read back.
* `Program.ofJson_round_trips` — which programs are read back from their texts.
-/

namespace Reactors

/-! ### Expressions -/

namespace Expr

mutual

/-- The floating point numbers in an expression. -/
def floats : Expr → List Binary64
  | .float x => [x]
  | .list items => itemFloats items
  | _ => []

/-- The floating point numbers in the items of a list. -/
def itemFloats : List Expr → List Binary64
  | [] => []
  | e :: es => floats e ++ itemFloats es

end

mutual

/-- The times in an expression. -/
def times : Expr → List TimeValue
  | .time t => [t]
  | .list items => itemTimes items
  | _ => []

/-- The times in the items of a list. -/
def itemTimes : List Expr → List TimeValue
  | [] => []
  | e :: es => times e ++ itemTimes es

end

theorem read_singleton {tag : String} {d : Document} (h : tag = "list" → ∀ ds, d ≠ .list ds) :
    read Json.dialect (.table [(some tag, d)]) = readScalar Json.dialect tag d := by
  rw [read]
  · cases readScalar Json.dialect tag d with
    | error cause => rfl
    | ok e => rfl
  · exact fun ds hd htag => h htag ds hd

theorem read_list (ds : List Document) :
    read Json.dialect (.table [(some "list", .list ds)]) =
      (readItems Json.dialect ds).map .list := by
  rw [read]
  cases readItems Json.dialect ds with
  | error cause => rfl
  | ok es => rfl

/-- Literals, references and code are read back behind their tags. -/
theorem read_scalar {α : Type} {c : Codec α} {storable : α → Prop} (h : c.RoundTrips storable)
    {tag : String} {wrap : α → Expr} (htag : tag ≠ "list")
    (hread : ∀ d, readScalar Json.dialect tag d = (c.read Json.dialect d).map wrap)
    (hstorable : ∀ a, Storable (wrap a).floats (wrap a).times ↔ storable a)
    (n : ℕ) (a : α) (x : Expr) :
    read Json.dialect (Json.kept n (.record [(tag, c.write a)])) = .ok x ↔
      x = wrap a ∧ Storable (wrap a).floats (wrap a).times ∧
        (Document.record [(tag, c.write a)]).levels ≤ n := by
  rw [hstorable]
  refine h.singleton (fun d => ?_) (fun b h => by cases h) n a x
  rw [read_singleton fun heq => absurd heq htag, hread]

mutual

/-- What is read of a written expression, where containers may be nested `n` levels deep. -/
theorem read_write (n : ℕ) : ∀ e x : Expr,
    read Json.dialect (Json.kept n (write e)) = .ok x ↔
      x = e ∧ Storable e.floats e.times ∧ (write e).levels ≤ n
  | .int k, x => read_scalar Codec.roundTrips_int64 (by decide) (fun _ => rfl)
      (fun _ => by simp [Storable, floats, times]) n k x
  | .float y, x => read_scalar Codec.roundTrips_binary64 (by decide) (fun _ => rfl)
      (fun _ => by simp [Storable, floats, times]) n y x
  | .bool b, x => read_scalar Codec.roundTrips_bool (by decide) (fun _ => rfl)
      (fun _ => by simp [Storable, floats, times]) n b x
  | .str s, x => read_scalar Codec.roundTrips_text (by decide) (fun _ => rfl)
      (fun _ => by simp [Storable, floats, times]) n s x
  | .time t, x => read_scalar TimeValue.roundTrips (by decide) (fun _ => rfl)
      (fun _ => by simp [Storable, floats, times]) n t x
  | .paramRef name, x => read_scalar Codec.roundTrips_text (by decide) (fun _ => rfl)
      (fun _ => by simp [Storable, floats, times]) n name x
  | .code s, x => read_scalar Codec.roundTrips_text (by decide) (fun _ => rfl)
      (fun _ => by simp [Storable, floats, times]) n s x
  | .list es, x => by
    rw [write, floats, times]
    refine Codec.read_taggedList read_list (fun _ h => ?_) (fun _ h => by cases h)
      (fun n xs => readItems_writeItems n es xs) n x
    rw [read_singleton fun _ ds => by simp] at h
    cases h

/-- What is read of the written items of a list. -/
theorem readItems_writeItems (n : ℕ) : ∀ es xs : List Expr,
    readItems Json.dialect (Json.keptItems n (writeItems es)) = .ok xs ↔
      xs = es ∧ Storable (itemFloats es) (itemTimes es) ∧
        ∀ d ∈ writeItems es, d.levels ≤ n
  | [], xs => by
    simp [writeItems, Json.keptItems, readItems, itemFloats, itemTimes, storable_nil, eq_comm]
  | e :: es, xs => by
    rw [writeItems, Json.keptItems, readItems, bind_eq_ok, itemFloats, itemTimes, storable_append,
      List.forall_mem_cons]
    simp only [bind_eq_ok, read_write n e, readItems_writeItems n es, pure, Except.pure,
      Except.ok.injEq]
    constructor
    · rintro ⟨_, ⟨rfl, he, hlevel⟩, _, ⟨rfl, hes, hlevels⟩, rfl⟩
      exact ⟨rfl, ⟨he, hes⟩, hlevel, hlevels⟩
    · rintro ⟨rfl, ⟨he, hes⟩, hlevel, hlevels⟩
      exact ⟨e, ⟨rfl, he, hlevel⟩, es, ⟨rfl, hes, hlevels⟩, rfl⟩

end

/-- **Expressions are read back** if their numbers are finite and their times keep the rule on
units. -/
theorem roundTrips : codec.RoundTrips fun e => Storable e.floats e.times :=
  fun n e x => read_write n e x

/-- An expression that is left out is told from the others. -/
theorem roundTrips_option :
    codec.option.RoundTrips fun e => ∀ x ∈ e, Storable x.floats x.times :=
  roundTrips.option <| Codec.notNull_of_record fun e => by cases e <;> exact ⟨_, rfl⟩

end Expr

/-! ### Types -/

theorem ArraySpec.roundTrips : ArraySpec.codec.RoundTrips fun _ => True := by
  intro n spec spec'
  cases spec with
  | fixed size =>
    have hread (d : Document) : codec.read Json.dialect (.table [(some "fixed", d)]) =
        (Codec.uint64.read Json.dialect d).map .fixed := by
      simp [codec, Codec.alternative_singleton]
    exact Codec.roundTrips_uint64.singleton hread (fun b h => by cases h) n size spec'
  | «variable» =>
    have hwrite : codec.write .variable = .text "variable" := rfl
    have hkept : Json.kept n (.text "variable") = .text "variable" := rfl
    have hlevels : (Document.text "variable").levels ≤ n := Nat.zero_le n
    rw [hwrite, hkept]
    simp [codec, Codec.alternative, Codec.expect, eq_comm, hlevels]

/-- What is written of a size is a tag or a table. -/
theorem ArraySpec.notNull : ArraySpec.codec.NotNull := by
  intro n spec
  cases spec with
  | fixed size =>
    have hwrite : codec.write (.fixed size) = .record [("fixed", Codec.uint64.write size)] := rfl
    rw [hwrite, Codec.kept_record]
    split_ifs <;> exact fun hnull => by cases hnull
  | «variable» => exact fun hnull => by cases hnull

theorem TypeExpr.roundTrips : TypeExpr.codec.RoundTrips fun _ => True :=
  (Codec.RoundTrips.ofFields
    (.cons Codec.roundTrips_text (by decide) <|
     .cons (ArraySpec.roundTrips.option ArraySpec.notNull) (by decide) Fields.roundTrips_nil)
    fun _ => rfl).congr fun _ => by simp

theorem TypeExpr.roundTrips_option : TypeExpr.codec.option.RoundTrips fun _ => True :=
  (TypeExpr.roundTrips.option <| Codec.notNull_of_record fun _ => ⟨_, rfl⟩).congr fun _ => by simp

/-! ### Declarations -/

theorem ParameterDecl.roundTrips :
    ParameterDecl.codec.RoundTrips fun p => Storable p.default.floats p.default.times :=
  (Codec.RoundTrips.ofFields
    (.cons Codec.roundTrips_text (by decide) <|
     .cons TypeExpr.roundTrips_option (by decide) <|
     .cons Expr.roundTrips (by decide) Fields.roundTrips_nil)
    fun _ => rfl).congr fun _ => by simp

theorem Site.roundTrips :
    Site.codec.RoundTrips fun s => ∀ x ∈ s.overrides.values, Storable x.floats x.times :=
  (Codec.RoundTrips.ofFields
    (.cons Codec.roundTrips_text (by decide) <|
     .cons Codec.roundTrips_text (by decide) <|
     .cons Expr.roundTrips.orderedMap (by decide) Fields.roundTrips_nil)
    fun _ => rfl).congr fun _ => by simp

theorem TimerDecl.roundTrips :
    TimerDecl.codec.RoundTrips fun d => ∀ x ∈ d.fields, Storable x.floats x.times :=
  (Codec.RoundTrips.ofFields
    (.cons Codec.roundTrips_text (by decide) <|
     .cons Expr.roundTrips_option (by decide) <|
     .cons Expr.roundTrips_option (by decide) Fields.roundTrips_nil)
    fun _ => rfl).congr fun _ => by simp [fields, or_imp, forall_and]

theorem ActionDecl.roundTrips :
    ActionDecl.codec.RoundTrips fun d => ∀ x ∈ d.fields, Storable x.floats x.times :=
  (Codec.RoundTrips.ofFields
    (.cons Codec.roundTrips_text (by decide) <|
     .cons ActionOrigin.roundTrips (by decide) <|
     .cons Expr.roundTrips_option (by decide) <|
     .cons Expr.roundTrips_option (by decide) <|
     .cons TypeExpr.roundTrips_option (by decide) Fields.roundTrips_nil)
    fun _ => rfl).congr fun _ => by simp [fields, or_imp, forall_and]

theorem PortDecl.roundTrips :
    PortDecl.codec.RoundTrips fun d => ∀ x ∈ d.width.toList, Storable x.floats x.times :=
  (Codec.RoundTrips.ofFields
    (.cons Codec.roundTrips_text (by decide) <|
     .cons TypeExpr.roundTrips_option (by decide) <|
     .cons Expr.roundTrips_option (by decide) Fields.roundTrips_nil)
    fun _ => rfl).congr fun _ => by simp

/-! ### Definitions and programs -/

/-- The expressions in a definition. -/
def ReactorDecl.exprs (r : ReactorDecl) : List Expr :=
  r.parameters.map ParameterDecl.default ++ r.widths ++ r.timingFields ++
    r.sites.flatMap fun s => s.overrides.values

/-- Definitions are read back if all expressions in them are. -/
theorem ReactorDecl.roundTrips :
    ReactorDecl.codec.RoundTrips fun r => ∀ x ∈ r.exprs, Storable x.floats x.times := by
  refine (Codec.RoundTrips.ofFields
    (.cons Codec.roundTrips_text (by decide) <|
     .cons ParameterDecl.roundTrips.list (by decide) <|
     .cons PortDecl.roundTrips.list (by decide) <|
     .cons PortDecl.roundTrips.list (by decide) <|
     .cons TimerDecl.roundTrips.list (by decide) <|
     .cons ActionDecl.roundTrips.list (by decide) <|
     .cons Site.roundTrips.list (by decide) Fields.roundTrips_nil)
    fun _ => rfl).congr fun r => ?_
  simp only [exprs, widths, timingFields, List.forall_mem_append, List.forall_mem_map,
    List.forall_mem_flatMap, true_and, and_true, and_assoc]

namespace Program

/-- The expressions in a program. -/
def exprs (p : Program) : List Expr := p.reactors.flatMap ReactorDecl.exprs

/-- The floating point numbers in a program. -/
def floats (p : Program) : List Binary64 := p.exprs.flatMap Expr.floats

/-- The times in a program. -/
def times (p : Program) : List TimeValue := p.exprs.flatMap Expr.times

/-- **Programs are read back** if their numbers are finite and their times keep the rule on
units. -/
theorem roundTrips : codec.RoundTrips fun p => Storable p.floats p.times := by
  refine (Codec.RoundTrips.ofFields
    (.cons Codec.roundTrips_text (by decide) <|
     .cons ReactorDecl.roundTrips.list (by decide) Fields.roundTrips_nil)
    fun _ => rfl).congr fun p => ?_
  rw [floats, times, storable_flatMap, exprs, List.forall_mem_flatMap]
  simp

/-- **Programs are read back** from their texts, on one line or on several, exactly if all floating
point numbers in them are finite, all times without a unit are zero, and the text is nested
at most 127 levels deep.  What is read is the program itself: its lists and maps in order, its
times as they were written, and what was left out left out again. -/
theorem ofJson_round_trips (p : Program) :
    ∀ text ∈ [Json.encode codec p, Json.encodePretty codec p],
      ((∃ loaded, ofJson text = .ok loaded) ↔
        (∀ x ∈ p.floats, x.isFinite = true) ∧
          (∀ t ∈ p.times, t.unit = .none → t.magnitude = 0) ∧
          Json.nesting text ≤ 127) ∧
      ∀ loaded, ofJson text = .ok loaded → loaded = p := by
  intro text htext
  -- one equivalence serves both texts, and both what is read and whether anything is
  have hread : ∀ loaded, ofJson text = .ok loaded ↔
      loaded = p ∧ Storable p.floats p.times ∧ Json.nesting text ≤ Json.deepest := by
    intro loaded
    rw [ofJson, mapError_eq_ok]
    rcases List.mem_pair.1 htext with rfl | rfl
    · exact roundTrips.decode_encode
    · exact roundTrips.decode_encodePretty
  constructor
  · constructor
    · rintro ⟨loaded, hloaded⟩
      obtain ⟨-, ⟨hfloats, htimes⟩, hnesting⟩ := (hread loaded).1 hloaded
      exact ⟨hfloats, htimes, hnesting⟩
    · rintro ⟨hfloats, htimes, hnesting⟩
      exact ⟨p, (hread p).2 ⟨rfl, ⟨hfloats, htimes⟩, hnesting⟩⟩
  · intro loaded hloaded
    exact ((hread loaded).1 hloaded).1

/-- A main reactor with declarations of every kind, some of whose fields are left out, and a site
whose overrides stand in another order than the parameters; the time of the timer has the
given unit. -/
def withUnit (unit : TimeUnit) : Program where
  main := "Main"
  reactors :=
    [{ name := "Main"
       parameters :=
        [⟨"rate", some ⟨"float", some (.fixed 2)⟩, .list [.float ⟨0x4004000000000000⟩, .int 3]⟩,
          ⟨"init", none, .code "\x7b= x =\x7d"⟩]
       inputs := [⟨"in", some ⟨"int", some .variable⟩, some (.paramRef "width")⟩]
       outputs := [⟨"out", none, none⟩]
       timers := [⟨"tick", none, some (.time ⟨5, unit⟩)⟩]
       actions := [⟨"act", .physical, none, some (.time ⟨1000, .usec⟩), none⟩]
       sites := [⟨"leaf", "Leaf", .ofList [("b", .bool true), ("a", .str "\n")]⟩] },
      ReactorDecl.named "Leaf"]

/-- With a unit of its own the time is read back, and with it the program, from both texts; without
one the text is refused. -/
theorem written_with_unit :
    ofJson (Json.encode codec (withUnit .msec)) = .ok (withUnit .msec) ∧
      ofJson (Json.encodePretty codec (withUnit .msec)) = .ok (withUnit .msec) ∧
        ¬∃ loaded, ofJson (Json.encode codec (withUnit .none)) = .ok loaded := by
  have hfloats : ∀ x ∈ (withUnit .msec).floats, x.isFinite = true := by decide +kernel
  have htimes : ∀ t ∈ (withUnit .msec).times, t.unit = .none → t.magnitude = 0 := by
    decide +kernel
  have hlevels : (codec.write (withUnit .msec)).levels ≤ 127 := by decide +kernel
  have hread : ∀ text ∈ [Json.encode codec (withUnit .msec),
      Json.encodePretty codec (withUnit .msec)], ofJson text = .ok (withUnit .msec) := by
    intro text htext
    have hnesting : Json.nesting text ≤ 127 := by
      rcases List.mem_pair.1 htext with rfl | rfl
      · rwa [Json.encode, Json.nesting_compact]
      · rwa [Json.encodePretty, Json.nesting_pretty]
    obtain ⟨hloads, hsame⟩ := ofJson_round_trips (withUnit .msec) text htext
    obtain ⟨loaded, hloaded⟩ := hloads.2 ⟨hfloats, htimes, hnesting⟩
    rw [hloaded, hsame loaded hloaded]
  refine ⟨hread _ (by simp), hread _ (by simp), fun hloaded => ?_⟩
  obtain ⟨hloads, -⟩ := ofJson_round_trips (withUnit .none) _ List.mem_cons_self
  obtain ⟨-, htimes, -⟩ := hloads.1 hloaded
  revert htimes
  decide +kernel

end Program
end Reactors

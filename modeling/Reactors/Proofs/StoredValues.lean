import Reactors.Instance.Stored
import Reactors.Proofs.RoundTrips

/-!
# Stored values are read back

What can be lost of a value on its way through a text lies in the numbers and times it is made of,
at whatever depth: a number that is not finite is written as null, and a time that has a magnitude
but no unit is refused by the reader.  Parameters and triggers are read back if their values
and times are.

## Main definitions

* `TimeValue.Measured` — the rule on units.
* `Value.floats`, `Value.times`, `TriggerKind.times` — the numbers and times of a value and the
  times of a trigger.
* `Storable` — finite numbers, and times that keep the rule on units.

## Main results

* `TimeValue.roundTrips`, `Value.roundTrips` — which times and values are read back.
* `Parameter.roundTrips`, `TriggerInstance.roundTrips` — the contents of an instance.
-/

namespace Reactors

/-! ### Times -/

/-- The rule on units: only zero stands without one. -/
def TimeValue.Measured (t : TimeValue) : Prop := t.unit = .none → t.magnitude = 0

theorem TimeValue.checked_eq_ok {t t' : TimeValue} :
    checked t.magnitude t.unit = .ok t' ↔ t' = t ∧ t.Measured := by
  rw [checked, Measured]
  split_ifs with hbroken
  · exact iff_of_false (fun h => by cases h) fun h => hbroken.2 (h.2 hbroken.1)
  · rw [Except.ok.injEq, eq_comm, iff_self_and]
    rintro - hunit
    by_contra hmagnitude
    exact hbroken ⟨hunit, hmagnitude⟩

theorem TimeValue.checked_of_measured {t : TimeValue} (h : t.Measured) :
    checked t.magnitude t.unit = .ok t :=
  checked_eq_ok.2 ⟨rfl, h⟩

theorem TimeValue.checked_of_not_measured {t : TimeValue} (h : ¬t.Measured) :
    checked t.magnitude t.unit = .error (.missingUnit t.magnitude) := by
  rw [checked, if_pos (Classical.not_imp.1 h)]

theorem TimeUnit.roundTrips : TimeUnit.codec.RoundTrips fun _ => True :=
  Codec.roundTrips_constants fun u => by cases u <;> decide

/-- Without the check both fields of a time are read back. -/
theorem TimeValue.roundTrips_unchecked : TimeValue.uncheckedCodec.RoundTrips fun _ => True :=
  (Codec.RoundTrips.ofFields
    (.cons Codec.roundTrips_int64 (by decide) <|
     .cons TimeUnit.roundTrips (by decide) Fields.roundTrips_nil)
    fun _ => rfl).congr fun _ => by simp

/-- Times are read back if they keep the rule on units. -/
theorem TimeValue.roundTrips : TimeValue.codec.RoundTrips Measured := by
  have hcheck (t t' : TimeValue) :
      (checked t.magnitude t.unit).mapError DecodeError.time = .ok t' ↔ t' = t ∧ t.Measured := by
    rw [mapError_eq_ok, checked_eq_ok]
  refine (roundTrips_unchecked.checked (fun t t' h => h) fun t t' h =>
    ((hcheck t t').1 h).1).congr fun t => ?_
  have hself := hcheck t t
  simpa using hself

theorem TimeValue.notNull : TimeValue.codec.NotNull := Codec.notNull_of_record fun _ => ⟨_, rfl⟩

/-- Numbers that are finite, and times that keep the rule on units. -/
def Storable (floats : List Binary64) (times : List TimeValue) : Prop :=
  (∀ x ∈ floats, x.isFinite = true) ∧ ∀ t ∈ times, t.Measured

theorem storable_nil : Storable [] [] := by simp [Storable]

theorem storable_append {xs ys : List Binary64} {ts us : List TimeValue} :
    Storable (xs ++ ys) (ts ++ us) ↔ Storable xs ts ∧ Storable ys us := by
  rw [Storable, List.forall_mem_append, List.forall_mem_append, and_and_and_comm]
  rfl

theorem storable_flatMap {α : Type} {as : List α} {floats : α → List Binary64}
    {times : α → List TimeValue} :
    Storable (as.flatMap floats) (as.flatMap times) ↔ ∀ a ∈ as, Storable (floats a) (times a) := by
  induction as with
  | nil => simp [storable_nil]
  | cons a as ih =>
    rw [List.flatMap_cons, List.flatMap_cons, storable_append, ih, List.forall_mem_cons]

/-! ### Values -/

namespace Value

mutual

/-- The floating point numbers in a value. -/
def floats : Value → List Binary64
  | .float x => [x]
  | .array items => itemFloats items
  | _ => []

/-- The floating point numbers in the items of an array. -/
def itemFloats : List Value → List Binary64
  | [] => []
  | v :: vs => floats v ++ itemFloats vs

end

mutual

/-- The times in a value. -/
def times : Value → List TimeValue
  | .time t => [t]
  | .array items => itemTimes items
  | _ => []

/-- The times in the items of an array. -/
def itemTimes : List Value → List TimeValue
  | [] => []
  | v :: vs => times v ++ itemTimes vs

end

theorem read_singleton {tag : String} {d : Document} (h : tag = "array" → ∀ ds, d ≠ .list ds) :
    read Json.dialect (.table [(some tag, d)]) = readScalar Json.dialect tag d := by
  rw [read]
  · cases readScalar Json.dialect tag d with
    | error cause => rfl
    | ok v => rfl
  · exact fun ds hd htag => h htag ds hd

theorem read_array (ds : List Document) :
    read Json.dialect (.table [(some "array", .list ds)]) =
      (readItems Json.dialect ds).map .array := by
  rw [read]
  cases readItems Json.dialect ds with
  | error cause => rfl
  | ok vs => rfl

/-- Scalars are read back behind their tags. -/
theorem read_scalar {α : Type} {c : Codec α} {storable : α → Prop} (h : c.RoundTrips storable)
    {tag : String} {wrap : α → Value} (htag : tag ≠ "array")
    (hread : ∀ d, readScalar Json.dialect tag d = (c.read Json.dialect d).map wrap)
    (hstorable : ∀ a, Storable (wrap a).floats (wrap a).times ↔ storable a)
    (n : ℕ) (a : α) (v : Value) :
    read Json.dialect (Json.kept n (.record [(tag, c.write a)])) = .ok v ↔
      v = wrap a ∧ Storable (wrap a).floats (wrap a).times ∧
        (Document.record [(tag, c.write a)]).levels ≤ n := by
  rw [hstorable]
  refine h.singleton (fun d => ?_) (fun b h => by cases h) n a v
  rw [read_singleton fun heq => absurd heq htag, hread]

mutual

/-- What is read of a written value, where containers may be nested `n` levels deep. -/
theorem read_write (n : ℕ) : ∀ v w : Value,
    read Json.dialect (Json.kept n (write v)) = .ok w ↔
      w = v ∧ Storable v.floats v.times ∧ (write v).levels ≤ n
  | .int k, w => read_scalar Codec.roundTrips_int64 (by decide) (fun _ => rfl)
      (fun _ => by simp [Storable, floats, times]) n k w
  | .float x, w => read_scalar Codec.roundTrips_binary64 (by decide) (fun _ => rfl)
      (fun _ => by simp [Storable, floats, times]) n x w
  | .bool b, w => read_scalar Codec.roundTrips_bool (by decide) (fun _ => rfl)
      (fun _ => by simp [Storable, floats, times]) n b w
  | .str s, w => read_scalar Codec.roundTrips_text (by decide) (fun _ => rfl)
      (fun _ => by simp [Storable, floats, times]) n s w
  | .time t, w => read_scalar TimeValue.roundTrips (by decide) (fun _ => rfl)
      (fun _ => by simp [Storable, floats, times]) n t w
  | .code s, w => read_scalar Codec.roundTrips_text (by decide) (fun _ => rfl)
      (fun _ => by simp [Storable, floats, times]) n s w
  | .array vs, w => by
    rw [write, floats, times]
    refine Codec.read_taggedList read_array (fun _ h => ?_) (fun _ h => by cases h)
      (fun n ws => readItems_writeItems n vs ws) n w
    rw [read_singleton fun _ ds => by simp] at h
    cases h

/-- What is read of the written items of an array. -/
theorem readItems_writeItems (n : ℕ) : ∀ vs ws : List Value,
    readItems Json.dialect (Json.keptItems n (writeItems vs)) = .ok ws ↔
      ws = vs ∧ Storable (itemFloats vs) (itemTimes vs) ∧
        ∀ d ∈ writeItems vs, d.levels ≤ n
  | [], ws => by
    simp [writeItems, Json.keptItems, readItems, itemFloats, itemTimes, storable_nil, eq_comm]
  | v :: vs, ws => by
    rw [writeItems, Json.keptItems, readItems, bind_eq_ok, itemFloats, itemTimes, storable_append,
      List.forall_mem_cons]
    simp only [bind_eq_ok, read_write n v, readItems_writeItems n vs, pure, Except.pure,
      Except.ok.injEq]
    constructor
    · rintro ⟨_, ⟨rfl, hv, hlevel⟩, _, ⟨rfl, hvs, hlevels⟩, rfl⟩
      exact ⟨rfl, ⟨hv, hvs⟩, hlevel, hlevels⟩
    · rintro ⟨rfl, ⟨hv, hvs⟩, hlevel, hlevels⟩
      exact ⟨v, ⟨rfl, hv, hlevel⟩, vs, ⟨rfl, hvs, hlevels⟩, rfl⟩

end

end Value

/-- **Values are read back** if their numbers are finite and their times keep the rule on units. -/
theorem Value.roundTrips : Value.codec.RoundTrips fun v => Storable v.floats v.times :=
  fun n v w => read_write n v w

/-! ### Parameters -/

theorem Provenance.roundTrips : Provenance.codec.RoundTrips fun _ => True :=
  Codec.roundTrips_constants fun o => by cases o <;> decide

/-- Parameters are read back if their values are. -/
theorem Parameter.roundTrips :
    Parameter.codec.RoundTrips fun p => Storable p.value.floats p.value.times :=
  (Codec.RoundTrips.ofFields
    (.cons Codec.roundTrips_text (by decide) <|
     .cons Value.roundTrips (by decide) <|
     .cons Provenance.roundTrips (by decide) Fields.roundTrips_nil)
    fun _ => rfl).congr fun _ => by simp

/-! ### Triggers -/

/-- The times in a trigger. -/
def TriggerKind.times : TriggerKind → List TimeValue
  | .timer t => [t.offset, t.period]
  | .action a => a.minDelay :: a.minSpacing.toList
  | .port _ => []

theorem Timer.roundTrips :
    Timer.codec.RoundTrips fun t => t.offset.Measured ∧ t.period.Measured :=
  (Codec.RoundTrips.ofFields
    (.cons TimeValue.roundTrips (by decide) <|
     .cons TimeValue.roundTrips (by decide) <|
     .cons Codec.roundTrips_bool (by decide) Fields.roundTrips_nil)
    fun _ => rfl).congr fun _ => by simp

theorem ActionOrigin.roundTrips : ActionOrigin.codec.RoundTrips fun _ => True :=
  Codec.roundTrips_constants fun o => by cases o <;> decide

theorem Action.roundTrips :
    Action.codec.RoundTrips fun a => a.minDelay.Measured ∧ ∀ t ∈ a.minSpacing, t.Measured :=
  (Codec.RoundTrips.ofFields
    (.cons ActionOrigin.roundTrips (by decide) <|
     .cons TimeValue.roundTrips (by decide) <|
     .cons (TimeValue.roundTrips.option TimeValue.notNull) (by decide) Fields.roundTrips_nil)
    fun _ => rfl).congr fun _ => by simp

theorem PortDirection.roundTrips : PortDirection.codec.RoundTrips fun _ => True :=
  Codec.roundTrips_constants fun d => by cases d <;> decide

theorem Port.roundTrips : Port.codec.RoundTrips fun _ => True :=
  (Codec.RoundTrips.ofFields
    (.cons PortDirection.roundTrips (by decide) <|
     .cons (Codec.roundTrips_uint64.option (Codec.notNull_of_integer fun _ => ⟨_, rfl⟩))
      (by decide) Fields.roundTrips_nil)
    fun _ => rfl).congr fun _ => by simp

/-- Each kind is read back behind its tag. -/
theorem TriggerKind.read_contents {α : Type} {c : Codec α} {storable : α → Prop}
    (h : c.RoundTrips storable) {tag : String} {wrap : α → TriggerKind}
    (hwrite : ∀ a, codec.write (wrap a) = .record [(tag, c.write a)])
    (hread : ∀ d, codec.read Json.dialect (.table [(some tag, d)]) =
      (c.read Json.dialect d).map wrap)
    (hstorable : ∀ a, (∀ t ∈ (wrap a).times, t.Measured) ↔ storable a)
    (n : ℕ) (a : α) (k : TriggerKind) :
    codec.read Json.dialect (Json.kept n (codec.write (wrap a))) = .ok k ↔
      k = wrap a ∧ (∀ t ∈ (wrap a).times, t.Measured) ∧ (codec.write (wrap a)).levels ≤ n := by
  rw [hwrite, hstorable]
  exact h.singleton hread (fun b h => by cases h) n a k

/-- Kinds of triggers are read back if their times are. -/
theorem TriggerKind.roundTrips :
    TriggerKind.codec.RoundTrips fun k => ∀ t ∈ k.times, t.Measured := by
  intro n k k'
  cases k with
  | timer t =>
    exact read_contents Timer.roundTrips (fun _ => rfl)
      (fun _ => by simp [codec, Codec.alternative_singleton]) (fun _ => by simp [times]) n t k'
  | action a =>
    exact read_contents Action.roundTrips (fun _ => rfl)
      (fun _ => by simp [codec, Codec.alternative_singleton]) (fun _ => by simp [times]) n a k'
  | port p =>
    exact read_contents Port.roundTrips (fun _ => rfl)
      (fun _ => by simp [codec, Codec.alternative_singleton]) (fun _ => by simp [times]) n p k'

/-- Triggers are read back if their times are, and their instance is counted by 64 bits. -/
theorem TriggerInstance.roundTrips : TriggerInstance.codec.RoundTrips fun x =>
    x.parent < UInt64.size ∧ ∀ t ∈ x.kind.times, t.Measured :=
  (Codec.RoundTrips.ofFields
    (.cons Codec.roundTrips_natural (by decide) <|
     .cons Codec.roundTrips_text (by decide) <|
     .cons TriggerKind.roundTrips (by decide) Fields.roundTrips_nil)
    fun _ => rfl).congr fun _ => by simp

end Reactors

import Reactors.Proofs.StoredValues
import Reactors.Proofs.WrittenTimes

/-!
# Three ways to a time

A time can be put together from a magnitude and a unit, read from the text that is written of them,
and read from the document that is written of them.  The rule on units is checked at the end of each
way, and what comes before the check loses neither the magnitude nor the unit.  So the three give
the same time, or refuse it for the same reason.

## Main results

* `Codec.decode_checked` — reading through a check.
* `TimeValue.decode_encode_eq` — reading the document of a time.
* `TimeValue.ways_to_a_time_agree` — the three ways.
-/

namespace Reactors

/-- What is read through a check is what the check says of what is read without it. -/
theorem Codec.decode_checked {α β : Type} {c : Codec α} {check : α → Except DecodeError β}
    {forget : β → α} {text : String} {a : α} (h : Json.decode c text = .ok a) :
    Json.decode (c.checked check forget) text = check a := by
  unfold Json.decode at h ⊢
  dsimp only at h ⊢
  obtain ⟨_, hread, h⟩ := bind_eq_ok.1 h
  obtain ⟨_, hend, h⟩ := bind_eq_ok.1 h
  cases h
  have hchecked : (c.checked check forget).read Json.dialect (Json.read text).document =
      check a := by
    show (c.read Json.dialect _).bind check = check a
    rw [hread]
    rfl
  rw [hchecked, hend]
  cases check a <;> rfl

namespace TimeValue

/-- A stored time is one level deep. -/
theorem levels_write (t : TimeValue) : (codec.write t).levels = 1 := rfl

theorem decode_unchecked (t : TimeValue) :
    ∀ json ∈ [Json.encode codec t, Json.encodePretty codec t],
      Json.decode uncheckedCodec json = .ok t := by
  intro json hjson
  refine (roundTrips_unchecked.decode_eq_ok json hjson).2 ⟨rfl, trivial, ?_⟩
  rw [Codec.nesting_of_mem json hjson, levels_write]
  decide

/-- **Reading the document of a time** finds its magnitude and its unit, and applies the rule on
units to them. -/
theorem decode_encode_eq (t : TimeValue) :
    ∀ json ∈ [Json.encode codec t, Json.encodePretty codec t],
      Json.decode codec json = (checked t.magnitude t.unit).mapError .time := fun json hjson =>
  Codec.decode_checked (decode_unchecked t json hjson)

/-- **Three ways to a time agree.**  The text of a magnitude and a unit is read as what the check
says of them, and so are both documents.  This is the time with just this magnitude and unit if the
rule on units is kept, and else the fault that the unit is missing.  So a time that passes the check
is read back from its text and from its documents. -/
theorem ways_to_a_time_agree (m : Int64) (u : TimeUnit) :
    read (text ⟨m, u⟩) = checked m u ∧
    (∀ json ∈ [Json.encode codec ⟨m, u⟩, Json.encodePretty codec ⟨m, u⟩],
      Json.decode codec json = (checked m u).mapError .time) ∧
    (Measured ⟨m, u⟩ ∧ checked m u = .ok ⟨m, u⟩ ∨
      ¬Measured ⟨m, u⟩ ∧ checked m u = .error (.missingUnit m)) ∧
    ∀ t, checked m u = .ok t →
      t.magnitude = m ∧ t.unit = u ∧ read t.text = .ok t ∧
      ∀ json ∈ [Json.encode codec t, Json.encodePretty codec t],
        Json.decode codec json = .ok t := by
  refine ⟨read_text ⟨m, u⟩, decode_encode_eq ⟨m, u⟩, ?_, fun t ht => ?_⟩
  · by_cases hmeasured : Measured ⟨m, u⟩
    · exact .inl ⟨hmeasured, checked_of_measured hmeasured⟩
    · exact .inr ⟨hmeasured, checked_of_not_measured hmeasured⟩
  · obtain ⟨rfl, -⟩ := checked_eq_ok (t := ⟨m, u⟩).1 ht
    refine ⟨rfl, rfl, (read_text _).trans ht, fun json hjson => ?_⟩
    rw [decode_encode_eq _ json hjson, ht]
    rfl

/-- Ninety minutes pass the check and are read back; five without a unit are refused in all three
ways. -/
theorem ninety_minutes_and_five :
    checked 90 .minute = .ok ⟨90, .minute⟩ ∧
    read "90 min" = .ok ⟨90, .minute⟩ ∧
    Json.decode codec "\x7b\"magnitude\":90,\"unit\":\"min\"\x7d" = .ok ⟨90, .minute⟩ ∧
    read "5" = .error (.missingUnit 5) ∧
    Json.decode codec "\x7b\"magnitude\":5,\"unit\":\"none\"\x7d" =
      .error (.time (.missingUnit 5)) := by
  have hchecked : checked 90 .minute = .ok ⟨90, .minute⟩ := rfl
  have htext : text ⟨90, .minute⟩ = "90 min" := by decide +kernel
  have hjson : Json.encode codec ⟨90, .minute⟩ =
      "\x7b\"magnitude\":90,\"unit\":\"min\"\x7d" := by decide +kernel
  have htext' : text ⟨5, .none⟩ = "5" := by decide +kernel
  have hjson' : Json.encode codec ⟨5, .none⟩ =
      "\x7b\"magnitude\":5,\"unit\":\"none\"\x7d" := by decide +kernel
  obtain ⟨-, -, -, hback⟩ := ways_to_a_time_agree 90 .minute
  obtain ⟨-, -, hread, hdecode⟩ := hback _ hchecked
  obtain ⟨hread', hdecode', -⟩ := ways_to_a_time_agree 5 .none
  refine ⟨hchecked, htext ▸ hread, hjson ▸ hdecode _ List.mem_cons_self, htext' ▸ hread', ?_⟩
  exact hjson' ▸ hdecode' _ List.mem_cons_self

end TimeValue
end Reactors

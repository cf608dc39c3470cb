import Reactors.Json.Stored
import Reactors.Proofs.Expansion
import Reactors.Proofs.TriggerFields
import Reactors.Toml.Stored

/-!
# Properties of what is read

A document says nothing about the values that are read from it, but the codec does: a check leaves
only values that pass it, and what has been checked inside a list, a map or a structure comes out
of it unchanged.  So a property of all values that a codec reads follows from properties of the
codecs it is made of, whatever the document holds and whatever format it is in.

The fields of a structure arrive in the order of the document.  Until the last one has arrived, the
property can only be kept of the fields that were met, and those that are left out must have
defaults with the property.

## Main definitions

* `Codec.Yields` — all values that a codec reads have a property.
* `Field.Yields`, `Fields.Yields` — the same for a field and for the fields of a structure.

## Main results

* `Codec.Yields.option`, `Codec.Yields.list`, `Codec.Yields.orderedMap`, `Codec.Yields.checked`,
  `Codec.Yields.ofFields` — codecs made of others.
* `Codec.Yields.json`, `Codec.Yields.toml` — whole texts.
-/

namespace Reactors

/-- A value of a map with a name set is the new one or was there before. -/
theorem OrderedMap.mem_values_setEntry {α : Type} {key : String} {value v : α}
    {es : List (String × α)} (h : v ∈ (setEntry key value es).map Prod.snd) :
    v = value ∨ v ∈ es.map Prod.snd := by
  induction es with
  | nil => exact Or.inl (List.mem_singleton.1 h)
  | cons e es ih =>
    obtain ⟨k, w⟩ := e
    rw [setEntry] at h
    rw [List.map_cons, List.mem_cons]
    split_ifs at h
    · rw [List.map_cons, List.mem_cons] at h
      exact h.imp_right Or.inr
    · rw [List.map_cons, List.mem_cons] at h
      rcases h with hfirst | hrest
      · exact Or.inr (Or.inl hfirst)
      · exact (ih hrest).imp_right Or.inr

/-! ### Codecs -/

namespace Codec

variable {α β : Type} {c : Codec α} {P Q : α → Prop}

/-- All values that a codec reads have a property. -/
def Yields (c : Codec α) (P : α → Prop) : Prop :=
  ∀ dialect d a, c.read dialect d = .ok a → P a

theorem yields_true (c : Codec α) : c.Yields fun _ => True := fun _ _ _ _ => trivial

theorem Yields.imp (h : c.Yields P) (himp : ∀ a, P a → Q a) : c.Yields Q :=
  fun dialect d a hread => himp a (h dialect d a hread)

theorem Yields.option (h : c.Yields P) : c.option.Yields fun a? => ∀ a ∈ a?, P a := by
  intro dialect d a? hread
  unfold Codec.option at hread
  dsimp only at hread
  split at hread
  · cases hread
    exact fun _ ha => by cases ha
  · obtain ⟨b, hb, rfl⟩ := map_eq_ok.1 hread
    exact fun _ ha => Option.some.inj ha ▸ h dialect _ b hb

theorem Yields.list (h : c.Yields P) : c.list.Yields fun as => ∀ a ∈ as, P a := by
  intro dialect d as hread
  unfold Codec.list at hread
  dsimp only at hread
  split at hread
  · next ds =>
    have hpairs := mapM_eq_ok.1 hread
    clear hread
    induction hpairs with
    | nil => exact fun _ ha => by cases ha
    | cons hda _ ih => exact List.forall_mem_cons.2 ⟨h dialect _ _ hda, ih⟩
  · cases hread

theorem Yields.checked (h : c.Yields P) {check : α → Except DecodeError β} {forget : β → α}
    {R : β → Prop} (hcheck : ∀ a b, P a → check a = .ok b → R b) :
    (c.checked check forget).Yields R := by
  intro dialect d b hread
  obtain ⟨a, ha, hb⟩ := bind_eq_ok.1 hread
  exact hcheck a b (h dialect d a ha) hb

/-! ### Maps -/

theorem Yields.entries (h : c.Yields P) {dialect : Dialect} {m m' : OrderedMap α}
    {es : List (Option String × Document)} (hm : ∀ v ∈ m.values, P v)
    (hread : readEntries (c.read dialect) m es = .ok m') : ∀ v ∈ m'.values, P v := by
  induction es generalizing m with
  | nil =>
    rw [readEntries, Except.ok.injEq] at hread
    exact hread ▸ hm
  | cons e es ih =>
    obtain ⟨key, -, hread⟩ := bind_eq_ok.1 hread
    obtain ⟨value, hvalue, hread⟩ := bind_eq_ok.1 hread
    refine ih (fun v hv => ?_) hread
    rcases OrderedMap.mem_values_setEntry hv with rfl | hv
    · exact h dialect _ _ hvalue
    · exact hm v hv

theorem Yields.orderedMap (h : c.Yields P) : c.orderedMap.Yields fun m => ∀ v ∈ m.values, P v := by
  intro dialect d m hread
  unfold Codec.orderedMap at hread
  dsimp only at hread
  split at hread
  · exact h.entries (fun _ hv => by cases hv) hread
  · cases hread

/-! ### Whole texts -/

theorem Yields.json (h : c.Yields P) {text : String} {a : α}
    (hread : Json.decode c text = .ok a) : P a := by
  obtain ⟨b, hb, hrest⟩ := bind_eq_ok.1 hread
  obtain ⟨-, -, hpure⟩ := bind_eq_ok.1 hrest
  cases hpure
  exact h _ _ _ hb

theorem Yields.toml (h : c.Yields P) {text : String} {a : α}
    (hread : Toml.decode c text = .ok a) : P a := by
  unfold Toml.decode at hread
  split at hread
  · exact h _ _ _ hread
  · cases hread

end Codec

/-! ### Structures -/

/-- All values that a field can have have a property: those that are read, and those that it has
where it is left out. -/
structure Field.Yields {α : Type} (f : Field α) (P : α → Prop) : Prop where
  codec : f.codec.Yields P
  absent : ∀ a ∈ f.absent, P a
  unreached : ∀ a ∈ f.unreached, P a

theorem Field.yields_true {α : Type} (f : Field α) : f.Yields fun _ => True :=
  ⟨Codec.yields_true _, fun _ _ => trivial, fun _ _ => trivial⟩

namespace Field.Yields

variable {α : Type} {name : String} {c : Codec α} {P : α → Prop}

theorem required (h : c.Yields P) : (Field.required name c).Yields P :=
  ⟨h, fun _ ha => (by cases ha), fun _ ha => (by cases ha)⟩

theorem withDefault (h : c.Yields P) {value : α} (hvalue : P value) :
    (Field.withDefault name c value).Yields P :=
  ⟨h, fun _ ha => Option.some.inj ha ▸ hvalue, fun _ ha => Option.some.inj ha ▸ hvalue⟩

/-- A value that may be left out. -/
theorem optional (h : c.Yields P) :
    (Field.withDefault name c.option none).Yields fun a? => ∀ a ∈ a?, P a :=
  withDefault h.option fun _ ha => by cases ha

/-- Values of which there may be none. -/
theorem repeated (h : c.Yields P) :
    (Field.withDefault name c.list []).Yields fun as => ∀ a ∈ as, P a :=
  withDefault h.list fun _ ha => by cases ha

end Field.Yields

namespace Fields

open Codec (expect)

/-- All rows that are read of some fields have a property.  While the fields arrive, something is
known of those that were met. -/
structure Yields {αs : List Type} (fs : Fields αs) (met : Slots αs → Prop)
    (P : Row αs → Prop) : Prop where
  start : met fs.noSlots
  place : ∀ dialect key d slots slots', met slots → fs.place dialect key d slots = .ok slots' →
    met slots'
  complete : ∀ slots row, met slots → fs.complete slots = .ok row → P row
  items : ∀ dialect ds row, fs.readItems dialect ds = .ok row → P row

theorem yields_nil : Fields.nil.Yields (fun _ => True) fun _ => True :=
  ⟨trivial, fun _ _ _ _ _ _ _ => trivial, fun _ _ _ _ => trivial, fun _ _ _ _ => trivial⟩

theorem eq_ok_of_pair {ε α β : Type} {x : Except ε α} {y : Except ε β} {ab : α × β}
    (h : (x >>= fun a => y >>= fun b => pure (a, b)) = .ok ab) : x = .ok ab.1 ∧ y = .ok ab.2 := by
  obtain ⟨a, ha, h⟩ := bind_eq_ok.1 h
  obtain ⟨b, hb, h⟩ := bind_eq_ok.1 h
  cases h
  exact ⟨ha, hb⟩

theorem expect_eq_ok {α : Type} {a? : Option α} {a : α} : expect a? = .ok a ↔ a? = some a := by
  cases a? with
  | none => exact iff_of_false (fun h => by cases h) fun h => by cases h
  | some b => rw [expect, Except.ok.injEq, Option.some.injEq]

namespace Yields

variable {α : Type} {αs : List Type} {f : Field α} {fs : Fields αs} {met : Slots αs → Prop}
  {P : Row αs → Prop} {Q : α → Prop}

theorem cons (hf : f.Yields Q) (hfs : fs.Yields met P) :
    (Fields.cons f fs).Yields (fun slots => (∀ a ∈ slots.1, Q a) ∧ met slots.2)
      fun row => Q row.1 ∧ P row.2 where
  start := ⟨fun _ ha => (by cases ha), hfs.start⟩
  place := by
    rintro dialect key d ⟨slot, slots⟩ slots' ⟨hslot, hslots⟩ hplace
    by_cases hname : f.name = key
    · obtain ⟨-, -, hplace⟩ := bind_eq_ok.1 ((if_pos hname).symm.trans hplace)
      obtain ⟨a, ha, hpure⟩ := bind_eq_ok.1 hplace
      cases hpure
      exact ⟨fun _ hmem => Option.some.inj hmem ▸ hf.codec dialect d a ha, hslots⟩
    · obtain ⟨rest, hrest, rfl⟩ := map_eq_ok.1 ((if_neg hname).symm.trans hplace)
      exact ⟨hslot, hfs.place dialect key d slots rest hslots hrest⟩
  complete := by
    rintro ⟨slot, slots⟩ row ⟨hslot, hslots⟩ hcomplete
    obtain ⟨hfirst, hrest⟩ := eq_ok_of_pair hcomplete
    refine ⟨?_, hfs.complete slots row.2 hslots hrest⟩
    rcases Option.or_eq_some_iff.1 (expect_eq_ok.1 hfirst) with hmet | ⟨-, habsent⟩
    · exact hslot row.1 hmet
    · exact hf.absent row.1 habsent
  items := by
    rintro dialect (_ | ⟨d, ds⟩) row hread
    · obtain ⟨hfirst, hrest⟩ := eq_ok_of_pair hread
      exact ⟨hf.unreached row.1 (expect_eq_ok.1 hfirst), hfs.items dialect [] row.2 hrest⟩
    · obtain ⟨hfirst, hrest⟩ := eq_ok_of_pair hread
      exact ⟨hf.codec dialect d row.1 hfirst, hfs.items dialect ds row.2 hrest⟩

theorem placeAll (h : fs.Yields met P) {dialect : Dialect} {slots slots' : Slots αs}
    {es : List (Option String × Document)} (hslots : met slots)
    (hplace : fs.placeAll dialect slots es = .ok slots') : met slots' := by
  induction es generalizing slots with
  | nil =>
    cases hplace
    exact hslots
  | cons e es ih =>
    obtain ⟨key, -, hplace⟩ := bind_eq_ok.1 hplace
    obtain ⟨next, hnext, hrest⟩ := bind_eq_ok.1 hplace
    exact ih (h.place dialect key e.2 slots next hslots hnext) hrest

theorem read (h : fs.Yields met P) {dialect : Dialect} {d : Document} {row : Row αs}
    (hread : fs.read dialect d = .ok row) : P row := by
  unfold Fields.read at hread
  split at hread
  · obtain ⟨slots, hplace, hcomplete⟩ := bind_eq_ok.1 hread
    exact h.complete slots row (h.placeAll h.start hplace) hcomplete
  · exact h.items dialect _ row hread
  · cases hread

end Yields
end Fields

/-- A structure has a property that follows from those of its fields. -/
theorem Codec.Yields.ofFields {α : Type} {αs : List Type} {fs : Fields αs}
    {met : Slots αs → Prop} {P : Row αs → Prop} (h : fs.Yields met P) {build : Row αs → α}
    {parts : α → Row αs} {Q : α → Prop} (hbuild : ∀ row, P row → Q (build row)) :
    (Codec.ofFields fs build parts).Yields Q := by
  intro dialect d a hread
  obtain ⟨row, hrow, rfl⟩ := map_eq_ok.1 hread
  exact hbuild row (h.read hrow)

end Reactors

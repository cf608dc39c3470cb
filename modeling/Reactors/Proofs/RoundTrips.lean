import Reactors.Json.Stored
import Reactors.Proofs.Expansion
import Reactors.Proofs.JsonReading

/-!
# Round trips through JSON

A codec writes every value, but it may read less than it writes: where a number has no place in
the text, where a check refuses the value, or where containers lie too deep for the reader.  What
a codec reads back is either the value that was written or nothing.  Which values these are is
told for each of the codecs and put together along the structure of the others, so that a stored
form is settled field by field.

## Main definitions

* `Codec.RoundTrips` — a codec reads back the values with a property, and no others.
* `Fields.RoundTrips` — the same for the fields of a structure.

## Main results

* `Codec.RoundTrips.list`, `Codec.RoundTrips.option`, `Codec.RoundTrips.orderedMap`,
  `Codec.RoundTrips.ofFields`, `Codec.RoundTrips.checked` — codecs made of others.
* `Codec.RoundTrips.decode_encode`, `Codec.RoundTrips.decode_encodePretty`,
  `Codec.RoundTrips.decode_eq_ok` — whole texts.
-/

namespace Reactors

open Json (kept keptItems keptEntries)

theorem mapError_eq_ok {ε ε' α : Type} {x : Except ε α} {f : ε → ε'} {a : α} :
    x.mapError f = .ok a ↔ x = .ok a := by
  cases x with
  | error cause => simp [Except.mapError]
  | ok a' => simp [Except.mapError]

namespace Codec

/-- What is written of a value and read where containers may be nested `n` levels deep is the
value itself if it is storable and has no more levels, and nothing otherwise. -/
def RoundTrips {α : Type} (c : Codec α) (storable : α → Prop) : Prop :=
  ∀ n a b, c.read Json.dialect (kept n (c.write a)) = .ok b ↔
    b = a ∧ storable a ∧ (c.write a).levels ≤ n

/-- What is written of a value is not left as null. -/
def NotNull {α : Type} (c : Codec α) : Prop := ∀ n a, kept n (c.write a) ≠ .null

variable {α β : Type} {c : Codec α} {storable : α → Prop}

theorem RoundTrips.congr {storable' : α → Prop} (h : c.RoundTrips storable)
    (hiff : ∀ a, storable a ↔ storable' a) : c.RoundTrips storable' := by
  intro n a b
  rw [h n a b, hiff]

/-! ### Scalars -/

/-- An integer of 64 bits is kept. -/
theorem kept_integer {k : ℤ} (hk : k.natAbs < 2 ^ 64) (n : ℕ) : kept n (.integer k) = .integer k :=
  if_pos (Decimal.isFinite_nearestInt hk)

theorem roundTrips_int64 : int64.RoundTrips fun _ => True := by
  intro n w v
  have hlow := w.le_toInt
  have hhigh := w.toInt_lt
  have hkept : kept n (int64.write w) = .integer w.toInt := kept_integer (by omega) n
  rw [hkept]
  simp [int64, expect, Text.int64?_toInt, eq_comm, Document.levels]

theorem roundTrips_natural : natural.RoundTrips (· < UInt64.size) := by
  intro n k m
  by_cases hk : k < UInt64.size
  · have hnat : (k : ℤ).natAbs < 2 ^ 64 := by rwa [Int.natAbs_natCast]
    have hkept : kept n (natural.write k) = .integer k := kept_integer hnat n
    have hrange : (0 : ℤ) ≤ k ∧ (k : ℤ) < UInt64.size := ⟨Int.natCast_nonneg k, by omega⟩
    rw [hkept]
    simp [natural, hrange, hk, eq_comm, Document.levels]
  · -- too large a number is refused, whether or not the text can hold it
    refine iff_of_false (fun h => ?_) fun h => hk h.2.1
    have hrange : ¬((0 : ℤ) ≤ k ∧ (k : ℤ) < UInt64.size) := by omega
    have hkept : kept n (natural.write k) =
        if (Decimal.nearestInt k).isFinite then .integer k else .illegible := rfl
    rw [hkept] at h
    split_ifs at h
    · rw [natural] at h
      dsimp only at h
      rw [if_neg hrange] at h
      cases h
    · cases h

theorem roundTrips_uint64 : uint64.RoundTrips fun _ => True := by
  intro n w v
  have hread := roundTrips_natural n w.toNat
  have hsize : w.toNat < UInt64.size := w.toNat_lt
  have hlevels : (natural.write w.toNat).levels ≤ n := Nat.zero_le n
  simp only [hsize, hlevels, and_true] at hread
  have hwrite : uint64.write w = natural.write w.toNat := rfl
  have hlevels' : (uint64.write w).levels ≤ n := hlevels
  simp only [hlevels', and_true]
  rw [hwrite]
  simp only [uint64, map_eq_ok, hread]
  constructor
  · rintro ⟨_, rfl, rfl⟩
    exact UInt64.ofNat_toNat
  · rintro rfl
    exact ⟨_, rfl, UInt64.ofNat_toNat⟩

theorem roundTrips_binary64 : binary64.RoundTrips (·.isFinite = true) := by
  intro n x y
  by_cases hx : x.isFinite = true
  · have hwrite : binary64.write x = .float x := if_pos hx
    have hkept : kept n (.float x) = .float x := if_pos hx
    rw [hwrite, hkept]
    simp [binary64, hx, eq_comm, Document.levels]
  · have hwrite : binary64.write x = .null := if_neg hx
    rw [hwrite]
    exact iff_of_false (fun h => by cases h) fun h => hx h.2.1

theorem roundTrips_bool : bool.RoundTrips fun _ => True := by
  intro n a b
  simp [bool, kept, Json.keptScalar, eq_comm, Document.levels]

theorem roundTrips_text : text.RoundTrips fun _ => True := by
  intro n a b
  simp [text, kept, Json.keptScalar, eq_comm, Document.levels]

theorem roundTrips_constants {all : List α} {tag : α → String}
    (hall : ∀ a, all.find? (tag · == tag a) = some a) :
    (constants all tag).RoundTrips fun _ => True := by
  intro n a b
  simp [constants, kept, Json.keptScalar, alternative, expect, hall a, eq_comm, Document.levels]

/-! ### Containers -/

theorem kept_list (n : ℕ) (ds : List Document) :
    kept n (.list ds) = if n = 0 then .illegible else .list (keptItems (n - 1) ds) := rfl

theorem kept_record (n : ℕ) (es : List (String × Document)) :
    kept n (.record es) = if n = 0 then .illegible
      else .table (es.map fun e => (some e.1, kept (n - 1) e.2)) := by
  have hentries (es : List (String × Document)) :
      keptEntries (n - 1) (es.map fun e => (some e.1, e.2)) =
        es.map fun e => (some e.1, kept (n - 1) e.2) := by
    induction es with
    | nil => rfl
    | cons e es ih => rw [List.map_cons, keptEntries, ih, Option.getD_some, List.map_cons]
  rw [Document.record, kept, hentries]

theorem levels_list_le_iff {n : ℕ} {ds : List Document} :
    (Document.list ds).levels ≤ n ↔ n ≠ 0 ∧ ∀ d ∈ ds, d.levels ≤ n - 1 := by
  rw [Document.levels, ← Document.levelsOfItems_le_iff]
  omega

theorem levels_record_le_iff {n : ℕ} {es : List (String × Document)} :
    (Document.record es).levels ≤ n ↔ n ≠ 0 ∧ ∀ e ∈ es, e.2.levels ≤ n - 1 := by
  have hlevels : (∀ e ∈ es, e.2.levels ≤ n - 1) ↔
      Document.levelsOfEntries (es.map fun e => (some e.1, e.2)) ≤ n - 1 := by
    rw [Document.levelsOfEntries_le_iff, List.forall_mem_map]
  rw [hlevels, Document.record, Document.levels]
  omega

/-- A missing value is told from the others by null. -/
theorem RoundTrips.option (h : c.RoundTrips storable) (hnull : c.NotNull) :
    c.option.RoundTrips fun a => ∀ v ∈ a, storable v := by
  intro n a b
  cases a with
  | none =>
    have hread : c.option.read Json.dialect (kept n (c.option.write none)) = .ok none := rfl
    rw [hread]
    have hlevels : (c.option.write none).levels ≤ n := Nat.zero_le n
    simp [hlevels, eq_comm]
  | some v =>
    have hread : c.option.read Json.dialect (kept n (c.write v)) =
        (c.read Json.dialect (kept n (c.write v))).map some := by
      have hne := hnull n v
      unfold Codec.option
      dsimp only
      split
      · next heq => exact absurd heq hne
      · rfl
    have hwrite : c.option.write (some v) = c.write v := rfl
    rw [hwrite, hread, map_eq_ok]
    simp only [h n v]
    constructor
    · rintro ⟨_, ⟨rfl, hv, hlevels⟩, rfl⟩
      exact ⟨rfl, fun _ hmem => Option.some.inj hmem ▸ hv, hlevels⟩
    · rintro ⟨rfl, hv, hlevels⟩
      exact ⟨v, ⟨rfl, hv v rfl, hlevels⟩, rfl⟩

theorem RoundTrips.items (h : c.RoundTrips storable) (n : ℕ) (as bs : List α) :
    (keptItems n (as.map c.write)).mapM (c.read Json.dialect) = .ok bs ↔
      bs = as ∧ (∀ a ∈ as, storable a) ∧ ∀ a ∈ as, (c.write a).levels ≤ n := by
  induction as generalizing bs with
  | nil => simp [keptItems, pure, Except.pure, eq_comm]
  | cons a as ih =>
    rw [List.map_cons, keptItems, List.mapM_cons, bind_eq_ok]
    simp only [bind_eq_ok, h n a, ih, pure, Except.pure, Except.ok.injEq, List.forall_mem_cons]
    constructor
    · rintro ⟨_, ⟨rfl, ha, hlevel⟩, _, ⟨rfl, has, hlevels⟩, rfl⟩
      exact ⟨rfl, ⟨ha, has⟩, hlevel, hlevels⟩
    · rintro ⟨rfl, ⟨ha, has⟩, hlevel, hlevels⟩
      exact ⟨a, ⟨rfl, ha, hlevel⟩, as, ⟨rfl, has, hlevels⟩, rfl⟩

/-- Lists are read back item by item. -/
theorem RoundTrips.list (h : c.RoundTrips storable) :
    c.list.RoundTrips fun as => ∀ a ∈ as, storable a := by
  intro n as bs
  have hwrite : c.list.write as = .list (as.map c.write) := rfl
  rw [hwrite, levels_list_le_iff, List.forall_mem_map, kept_list]
  split_ifs with hn
  · exact iff_of_false (fun hread => by cases hread) fun hread => hread.2.2.1 hn
  · have hread : c.list.read Json.dialect (.list (keptItems (n - 1) (as.map c.write))) =
        (keptItems (n - 1) (as.map c.write)).mapM (c.read Json.dialect) := rfl
    rw [hread, h.items]
    simp [hn]

/-! ### Maps -/

theorem RoundTrips.entries (h : c.RoundTrips storable) (n : ℕ) (es : List (String × α))
    (m m' : OrderedMap α) (hdistinct : ((m.entries ++ es).map Prod.fst).Nodup) :
    readEntries (c.read Json.dialect) m (es.map fun e => (some e.1, kept n (c.write e.2))) =
        .ok m' ↔
      m'.entries = m.entries ++ es ∧ (∀ e ∈ es, storable e.2) ∧
        ∀ e ∈ es, (c.write e.2).levels ≤ n := by
  induction es generalizing m with
  | nil =>
    obtain ⟨entries, _⟩ := m
    obtain ⟨entries', _⟩ := m'
    simp [readEntries, eq_comm]
  | cons e es ih =>
    obtain ⟨key, value⟩ := e
    have hkey : key ∉ m.entries.map Prod.fst := by
      rw [List.map_append, List.nodup_append] at hdistinct
      exact fun hmem => hdistinct.2.2 key hmem key List.mem_cons_self rfl
    -- a key that is new is put behind the others
    have hset : (m.set key value).entries = m.entries ++ [(key, value)] :=
      OrderedMap.setEntry_of_notMem hkey
    have hrest := ih (m.set key value) (by rw [hset, List.append_assoc]; exact hdistinct)
    rw [hset, List.append_assoc, List.singleton_append] at hrest
    rw [List.map_cons, readEntries, bind_eq_ok]
    simp only [bind_eq_ok, expect, Except.ok.injEq, exists_eq_left', h n value,
      List.forall_mem_cons]
    constructor
    · rintro ⟨_, ⟨rfl, hvalue, hlevel⟩, hread⟩
      obtain ⟨hentries, hstorable, hlevels⟩ := hrest.1 hread
      exact ⟨hentries, ⟨hvalue, hstorable⟩, hlevel, hlevels⟩
    · rintro ⟨hentries, ⟨hvalue, hstorable⟩, hlevel, hlevels⟩
      exact ⟨value, ⟨rfl, hvalue, hlevel⟩, hrest.2 ⟨hentries, hstorable, hlevels⟩⟩

/-- Maps are read back with their entries in order. -/
theorem RoundTrips.orderedMap (h : c.RoundTrips storable) :
    c.orderedMap.RoundTrips fun m => ∀ v ∈ m.values, storable v := by
  intro n m m'
  have hwrite : c.orderedMap.write m = .record (m.entries.map fun e => (e.1, c.write e.2)) := rfl
  rw [hwrite, levels_record_le_iff, List.forall_mem_map, kept_record]
  split_ifs with hn
  · exact iff_of_false (fun hread => by cases hread) fun hread => hread.2.2.1 hn
  · have hread : c.orderedMap.read Json.dialect
        (.table ((m.entries.map fun e => (e.1, c.write e.2)).map
          fun e => (some e.1, kept (n - 1) e.2))) =
        readEntries (c.read Json.dialect) .empty
          (m.entries.map fun e => (some e.1, kept (n - 1) (c.write e.2))) := by
      rw [List.map_map]
      rfl
    have hsame : m' = m ↔ m'.entries = m.entries := by
      obtain ⟨entries, _⟩ := m
      obtain ⟨entries', _⟩ := m'
      exact OrderedMap.mk.injEq .. ▸ Iff.rfl
    have hvalues : (∀ v ∈ m.values, storable v) ↔ ∀ e ∈ m.entries, storable e.2 :=
      List.forall_mem_map
    rw [hread, h.entries (n - 1) m.entries .empty m' m.distinct, hsame, ← hvalues,
      and_iff_right hn]
    rfl

/-! ### Alternatives -/

/-- A table with one entry, a tag and its contents. -/
theorem alternative_singleton {constant? : String → Option α} {tag : String}
    (hconstant : constant? tag = none) (contents : String → Document → Except DecodeError α)
    (d : Document) :
    alternative Json.dialect constant? contents (.table [(some tag, d)]) = contents tag d := by
  rw [alternative, hconstant]
  cases contents tag d with
  | error cause => simp [require, Json.dialect, bind, Except.bind]
  | ok a => simp [require, Json.dialect, bind, Except.bind, pure, Except.pure]

/-- A table with one entry, which tells by its tag how its contents are read. -/
theorem RoundTrips.singleton (h : c.RoundTrips storable)
    {read : Document → Except DecodeError β} {tag : String} {wrap : α → β}
    (hread : ∀ d, read (.table [(some tag, d)]) = (c.read Json.dialect d).map wrap)
    (hillegible : ∀ b, read .illegible ≠ .ok b) (n : ℕ) (a : α) (b : β) :
    read (kept n (.record [(tag, c.write a)])) = .ok b ↔
      b = wrap a ∧ storable a ∧ (Document.record [(tag, c.write a)]).levels ≤ n := by
  rw [levels_record_le_iff, kept_record, List.forall_mem_singleton]
  split_ifs with hn
  · exact iff_of_false (hillegible b) fun hb => hb.2.2.1 hn
  · rw [List.map_singleton, hread, map_eq_ok, and_iff_right hn]
    simp only [h (n - 1) a]
    constructor
    · rintro ⟨_, ⟨rfl, hstorable, hlevels⟩, rfl⟩
      exact ⟨rfl, hstorable, hlevels⟩
    · rintro ⟨rfl, hstorable, hlevels⟩
      exact ⟨a, ⟨rfl, hstorable, hlevels⟩, rfl⟩

/-- A table with one entry, a tag and a list, the items of which are read back. -/
theorem read_taggedList {read : Document → Except DecodeError β}
    {readItems : List Document → Except DecodeError (List α)} {tag : String} {wrap : List α → β}
    (hread : ∀ ds, read (.table [(some tag, .list ds)]) = (readItems ds).map wrap)
    (hrefused : ∀ b, read (.table [(some tag, .illegible)]) ≠ .ok b)
    (hillegible : ∀ b, read .illegible ≠ .ok b) {ds : List Document} {as : List α}
    {storable : Prop}
    (hitems : ∀ n bs, readItems (keptItems n ds) = .ok bs ↔
      bs = as ∧ storable ∧ ∀ d ∈ ds, d.levels ≤ n) (n : ℕ) (b : β) :
    read (kept n (.record [(tag, .list ds)])) = .ok b ↔
      b = wrap as ∧ storable ∧ (Document.record [(tag, .list ds)]).levels ≤ n := by
  rw [levels_record_le_iff, List.forall_mem_singleton, levels_list_le_iff, kept_record,
    List.map_singleton, kept_list]
  -- the tag and the list are two levels, each of which can be one too many
  split_ifs with hn hn'
  · exact iff_of_false (hillegible b) fun h => h.2.2.1 hn
  · exact iff_of_false (hrefused b) fun h => h.2.2.2.1 hn'
  · rw [hread, map_eq_ok, and_iff_right hn, and_iff_right hn']
    simp only [hitems (n - 1 - 1)]
    constructor
    · rintro ⟨_, ⟨rfl, has, hlevels⟩, rfl⟩
      exact ⟨rfl, has, hlevels⟩
    · rintro ⟨rfl, has, hlevels⟩
      exact ⟨as, ⟨rfl, has, hlevels⟩, rfl⟩

/-! ### Checks -/

/-- A value behind a check is read back if it passes the check. -/
theorem RoundTrips.checked (h : c.RoundTrips storable) {check : α → Except DecodeError β}
    {forget : β → α} (hforget : ∀ b b', forget b = forget b' → b = b')
    (hcheck : ∀ a b, check a = .ok b → forget b = a) :
    (c.checked check forget).RoundTrips fun b =>
      storable (forget b) ∧ check (forget b) = .ok b := by
  intro n b b'
  have hread : (c.checked check forget).read Json.dialect (kept n (c.write (forget b))) =
      c.read Json.dialect (kept n (c.write (forget b))) >>= check := rfl
  have hwrite : (c.checked check forget).write b = c.write (forget b) := rfl
  rw [hwrite, hread, bind_eq_ok]
  simp only [h n (forget b)]
  constructor
  · rintro ⟨_, ⟨rfl, hstorable, hlevels⟩, hb'⟩
    obtain rfl : b' = b := hforget b' b (hcheck _ _ hb')
    exact ⟨rfl, ⟨hstorable, hb'⟩, hlevels⟩
  · rintro ⟨rfl, ⟨hstorable, hb⟩, hlevels⟩
    exact ⟨forget b', ⟨rfl, hstorable, hlevels⟩, hb⟩

end Codec

/-! ### Structures -/

namespace Fields

open Codec (expect require)

/-- The names of fields, in order. -/
def names {αs : List Type} : Fields αs → List String
  | .nil => []
  | .cons f fs => f.name :: fs.names

theorem names_entries {αs : List Type} (fs : Fields αs) (row : Row αs) :
    (fs.entries row).map Prod.fst = fs.names := by
  induction fs with
  | nil => rfl
  | cons f fs ih => exact congrArg (f.name :: ·) (ih row.2)

/-- The values of fields that are written as the entries of a table, and read where containers may
be nested `n` levels deep in them, are the values themselves if they are storable and have no
more levels, and nothing otherwise. -/
def RoundTrips {αs : List Type} (fs : Fields αs) (storable : Row αs → Prop) : Prop :=
  ∀ n row row',
    (fs.placeAll Json.dialect fs.noSlots
        ((fs.entries row).map fun e => (some e.1, kept n e.2)) >>= fs.complete) = .ok row' ↔
      row' = row ∧ storable row ∧ ∀ e ∈ fs.entries row, e.2.levels ≤ n

theorem roundTrips_nil : Fields.nil.RoundTrips fun _ => True := fun _ _ _ =>
  iff_of_true rfl ⟨rfl, trivial, fun _ he => by cases he⟩

variable {α : Type} {αs : List Type} {f : Field α} {fs : Fields αs}

/-- Entries with other names leave the slot of a field alone. -/
theorem placeAll_cons (dialect : Dialect) (slot : Option α) (slots : Slots αs)
    {es : List Json.Entry} (hes : ∀ e ∈ es, e.1 ≠ some f.name) :
    (Fields.cons f fs).placeAll dialect (slot, slots) es =
      (fs.placeAll dialect slots es).map fun slots => (slot, slots) := by
  induction es generalizing slots with
  | nil => rfl
  | cons e es ih =>
    obtain ⟨k, d⟩ := e
    rw [List.forall_mem_cons] at hes
    cases k with
    | none => rfl
    | some key =>
      have hkey : f.name ≠ key := fun heq => hes.1 (congrArg some heq.symm)
      have hright : fs.placeAll dialect slots ((some key, d) :: es) =
          fs.place dialect key d slots >>= fun slots => fs.placeAll dialect slots es := rfl
      refine (congrArg (· >>= fun slots => (Fields.cons f fs).placeAll dialect slots es)
        (if_neg hkey)).trans ?_
      rw [hright]
      cases fs.place dialect key d slots with
      | error cause => rfl
      | ok slots' => exact ih slots' hes.2

/-- An entry with the name of a field is read into its slot. -/
theorem placeAll_name (dialect : Dialect) (d : Document) (es : List Json.Entry) :
    (Fields.cons f fs).placeAll dialect (Fields.cons f fs).noSlots ((some f.name, d) :: es) =
      f.codec.read dialect d >>= fun a =>
        (Fields.cons f fs).placeAll dialect (some a, fs.noSlots) es := by
  refine (congrArg (· >>= fun slots => (Fields.cons f fs).placeAll dialect slots es)
    (if_pos rfl)).trans ?_
  cases f.codec.read dialect d with
  | error cause => rfl
  | ok a => rfl

theorem complete_some {a a' : α} {slots : Slots αs} {row : Row αs} :
    (Fields.cons f fs).complete (some a, slots) = .ok (a', row) ↔
      a = a' ∧ fs.complete slots = .ok row := by
  have hcomplete : (Fields.cons f fs).complete (some a, slots) =
      fs.complete slots >>= fun row => .ok (a, row) := rfl
  refine (iff_of_eq (congrArg (· = Except.ok (a', row)) hcomplete)).trans (bind_eq_ok.trans ?_)
  constructor
  · rintro ⟨row', hrow, hpair⟩
    obtain ⟨ha, rfl⟩ := Prod.mk.inj (Except.ok.inj hpair)
    exact ⟨ha, hrow⟩
  · rintro ⟨rfl, hrow⟩
    exact ⟨row, hrow, rfl⟩

/-- The first field of a table is read on its own. -/
theorem placeAll_first (dialect : Dialect) (d : Document) {es : List Json.Entry}
    (hes : ∀ e ∈ es, e.1 ≠ some f.name) {a : α} {row : Row αs} :
    ((Fields.cons f fs).placeAll dialect (Fields.cons f fs).noSlots ((some f.name, d) :: es) >>=
        (Fields.cons f fs).complete) = .ok (a, row) ↔
      f.codec.read dialect d = .ok a ∧
        (fs.placeAll dialect fs.noSlots es >>= fs.complete) = .ok row := by
  -- the other entries fill the other slots, whatever the first one holds
  have hothers (a : α) : (Fields.cons f fs).placeAll dialect (some a, fs.noSlots) es =
      (fs.placeAll dialect fs.noSlots es).map fun slots => (some a, slots) :=
    placeAll_cons dialect (some a) fs.noSlots hes
  rw [placeAll_name]
  constructor
  · intro h
    obtain ⟨slots, hplace, hcomplete⟩ := bind_eq_ok.1 h
    obtain ⟨a', hread, hplace⟩ := bind_eq_ok.1 hplace
    obtain ⟨slots', hplace', rfl⟩ := map_eq_ok.1 ((hothers a').symm.trans hplace)
    obtain ⟨rfl, hrow⟩ := complete_some.1 hcomplete
    exact ⟨hread, bind_eq_ok.2 ⟨slots', hplace', hrow⟩⟩
  · rintro ⟨hread, hrest⟩
    obtain ⟨slots, hplace, hcomplete⟩ := bind_eq_ok.1 hrest
    have hfilled := (hothers a).trans (map_eq_ok.2 ⟨slots, hplace, rfl⟩)
    exact bind_eq_ok.2 ⟨(some a, slots), bind_eq_ok.2 ⟨a, hread, hfilled⟩,
      complete_some.2 ⟨rfl, hcomplete⟩⟩

theorem RoundTrips.cons {storable : α → Prop} {storable' : Row αs → Prop}
    (hf : f.codec.RoundTrips storable) (hname : f.name ∉ fs.names)
    (hfs : fs.RoundTrips storable') :
    (Fields.cons f fs).RoundTrips fun row => storable row.1 ∧ storable' row.2 := by
  rintro n ⟨a, row⟩ ⟨a', row'⟩
  have hes : ∀ e ∈ (fs.entries row).map fun e => (some e.1, kept n e.2), e.1 ≠ some f.name := by
    rw [List.forall_mem_map]
    intro e he heq
    have hmem : e.1 ∈ fs.names := names_entries fs row ▸ List.mem_map_of_mem he
    exact hname (Option.some.inj heq ▸ hmem)
  refine (placeAll_first _ _ hes).trans ?_
  rw [hf n a, hfs n row]
  constructor
  · rintro ⟨⟨rfl, ha, hlevel⟩, rfl, hrow, hlevels⟩
    exact ⟨rfl, ⟨ha, hrow⟩, List.forall_mem_cons.2 ⟨hlevel, hlevels⟩⟩
  · rintro ⟨hpair, ⟨ha, hrow⟩, hlevels⟩
    obtain ⟨hlevel, hrest⟩ := List.forall_mem_cons.1 hlevels
    obtain ⟨rfl, rfl⟩ := Prod.mk.inj hpair
    exact ⟨⟨rfl, ha, hlevel⟩, rfl, hrow, hrest⟩

end Fields

/-- A structure is read back if all of its fields are. -/
theorem Codec.RoundTrips.ofFields {α : Type} {αs : List Type} {fs : Fields αs}
    {storable : Row αs → Prop} (h : fs.RoundTrips storable) {build : Row αs → α}
    {parts : α → Row αs} (hbuild : ∀ a, build (parts a) = a) :
    (Codec.ofFields fs build parts).RoundTrips fun a => storable (parts a) := by
  intro n a b
  have hwrite : (Codec.ofFields fs build parts).write a = .record (fs.entries (parts a)) := rfl
  rw [hwrite, levels_record_le_iff, kept_record]
  split_ifs with hn
  · exact iff_of_false (fun hread => by cases hread) fun hread => hread.2.2.1 hn
  · have hread : (Codec.ofFields fs build parts).read Json.dialect
        (.table ((fs.entries (parts a)).map fun e => (some e.1, kept (n - 1) e.2))) =
        (fs.placeAll Json.dialect fs.noSlots
          ((fs.entries (parts a)).map fun e => (some e.1, kept (n - 1) e.2)) >>=
            fs.complete).map build := rfl
    rw [hread, map_eq_ok, and_iff_right hn]
    simp only [h (n - 1) (parts a)]
    constructor
    · rintro ⟨_, ⟨rfl, hstorable, hlevels⟩, rfl⟩
      exact ⟨hbuild a, hstorable, hlevels⟩
    · rintro ⟨rfl, hstorable, hlevels⟩
      exact ⟨parts b, ⟨rfl, hstorable, hlevels⟩, hbuild b⟩

/-- What is written as an integer is not null. -/
theorem Codec.notNull_of_integer {α : Type} {c : Codec α}
    (h : ∀ a, ∃ k, c.write a = .integer k) : c.NotNull := by
  intro n a
  obtain ⟨k, hk⟩ := h a
  have hkept : kept n (.integer k) =
      if (Decimal.nearestInt k).isFinite then .integer k else .illegible := rfl
  rw [hk, hkept]
  split_ifs <;> exact fun hnull => by cases hnull

/-- What is written as a table is not null. -/
theorem Codec.notNull_of_record {α : Type} {c : Codec α}
    (h : ∀ a, ∃ es, c.write a = .record es) : c.NotNull := by
  intro n a
  obtain ⟨es, hes⟩ := h a
  rw [hes, kept_record]
  split_ifs <;> exact fun hnull => by cases hnull

/-! ### Whole texts -/

namespace Codec

variable {α : Type} {c : Codec α} {storable : α → Prop}

/-- **What is read of a written text** is the value if it is storable and its text is nested at
most as deep as the reader goes, and nothing otherwise. -/
theorem RoundTrips.decode_encode (h : c.RoundTrips storable) {a b : α} :
    Json.decode c (Json.encode c a) = .ok b ↔
      b = a ∧ storable a ∧ Json.nesting (Json.encode c a) ≤ Json.deepest := by
  rw [Json.decode, Json.encode, Json.read_compact, Json.nesting_compact, ← h Json.deepest a b]
  simp [require, bind_eq_ok, pure, Except.pure]

theorem RoundTrips.decode_encodePretty (h : c.RoundTrips storable) {a b : α} :
    Json.decode c (Json.encodePretty c a) = .ok b ↔
      b = a ∧ storable a ∧ Json.nesting (Json.encodePretty c a) ≤ Json.deepest := by
  rw [Json.decode, Json.encodePretty, Json.read_pretty, Json.nesting_pretty, ← h Json.deepest a b]
  simp [require, bind_eq_ok, pure, Except.pure]

/-- Both texts of a value are nested as deep as its document. -/
theorem nesting_of_mem {a : α} :
    ∀ text ∈ [Json.encode c a, Json.encodePretty c a], Json.nesting text = (c.write a).levels := by
  intro text htext
  rcases List.mem_pair.1 htext with rfl | rfl
  · exact Json.nesting_compact _
  · exact Json.nesting_pretty _

theorem RoundTrips.decode_eq_ok (h : c.RoundTrips storable) {a b : α} :
    ∀ text ∈ [Json.encode c a, Json.encodePretty c a],
      Json.decode c text = .ok b ↔ b = a ∧ storable a ∧ Json.nesting text ≤ Json.deepest := by
  intro text htext
  rcases List.mem_pair.1 htext with rfl | rfl
  · exact h.decode_encode
  · exact h.decode_encodePretty

end Codec
end Reactors

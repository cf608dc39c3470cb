/-!
# Ordered maps

A map from names to values that remembers the order in which its names first came.
Setting a name that is already there changes its value and leaves it in its place.

## Main definitions

* `OrderedMap` — entries with distinct names.
* `OrderedMap.set`, `OrderedMap.ofList` — the first position and the last value win.
* `OrderedMap.get?` — look-up by name.
* `OrderedMap.same` — equality of maps, whatever the order of their entries.

## Main results

* `OrderedMap.get?_eq_none_iff`, `OrderedMap.mem_keys_iff` — the names that have a value.
* `OrderedMap.get?_set_self`, `OrderedMap.get?_set_ne` — what setting a name does to look-up.
-/

namespace Reactors

/-- Entries in order, no name twice. -/
structure OrderedMap (α : Type) where
  entries : List (String × α)
  distinct : (entries.map Prod.fst).Nodup

namespace OrderedMap

variable {α : Type}

/-- The map without entries. -/
def empty : OrderedMap α := ⟨[], List.nodup_nil⟩

instance : Inhabited (OrderedMap α) := ⟨empty⟩

/-- The names, in order. -/
def keys (m : OrderedMap α) : List String := m.entries.map Prod.fst

/-- The values, in the order of their names. -/
def values (m : OrderedMap α) : List α := m.entries.map Prod.snd

/-- How many names the map holds. -/
def size (m : OrderedMap α) : Nat := m.entries.length

/-! ### Look-up -/

/-- The value that a list of entries gives to a name: that of the first entry with it. -/
def lookup? (key : String) : List (String × α) → Option α
  | [] => none
  | (k, v) :: es => if k = key then some v else lookup? key es

/-- The value of a name. -/
def get? (m : OrderedMap α) (key : String) : Option α := lookup? key m.entries

theorem lookup?_eq_none_iff {key : String} {es : List (String × α)} :
    lookup? key es = none ↔ key ∉ es.map Prod.fst := by
  induction es with
  | nil => simp [lookup?]
  | cons e es ih =>
    obtain ⟨k, v⟩ := e
    by_cases h : k = key
    · simp [lookup?, h]
    · rw [lookup?, if_neg h, ih, List.map_cons, List.mem_cons, not_or]
      exact (and_iff_right (Ne.symm h)).symm

/-- Exactly the names of a map have a value. -/
theorem get?_eq_none_iff {m : OrderedMap α} {key : String} :
    m.get? key = none ↔ key ∉ m.keys := lookup?_eq_none_iff

theorem mem_keys_iff {m : OrderedMap α} {key : String} :
    key ∈ m.keys ↔ ∃ v, m.get? key = some v := by
  cases h : m.get? key with
  | none => exact iff_of_false (get?_eq_none_iff.1 h) fun ⟨_, h⟩ => by cases h
  | some v =>
    refine iff_of_true (Decidable.byContradiction fun hmem => ?_) ⟨v, rfl⟩
    rw [get?_eq_none_iff.2 hmem] at h
    cases h

/-! ### Setting a name -/

/-- Entries with the value of one name changed, or with the name added at the end. -/
def setEntry (key : String) (value : α) : List (String × α) → List (String × α)
  | [] => [(key, value)]
  | (k, v) :: es => if k = key then (k, value) :: es else (k, v) :: setEntry key value es

theorem mem_keys_setEntry {key k : String} {value : α} {es : List (String × α)} :
    k ∈ (setEntry key value es).map Prod.fst ↔ k = key ∨ k ∈ es.map Prod.fst := by
  induction es with
  | nil => simp [setEntry]
  | cons e es ih =>
    obtain ⟨k', v'⟩ := e
    by_cases h : k' = key
    · subst h; simp [setEntry]
    · simp only [setEntry, h, if_false, List.map_cons, List.mem_cons, ih]
      exact or_left_comm

theorem nodup_setEntry {key : String} {value : α} {es : List (String × α)}
    (h : (es.map Prod.fst).Nodup) : ((setEntry key value es).map Prod.fst).Nodup := by
  induction es with
  | nil => simp [setEntry]
  | cons e es ih =>
    obtain ⟨k', v'⟩ := e
    rw [List.map_cons, List.nodup_cons] at h
    by_cases hk : k' = key
    · simpa [setEntry, hk] using h
    · simp only [setEntry, hk, if_false, List.map_cons, List.nodup_cons, mem_keys_setEntry,
        false_or]
      exact ⟨h.1, ih h.2⟩

theorem setEntry_of_notMem {key : String} {value : α} {es : List (String × α)}
    (h : key ∉ es.map Prod.fst) : setEntry key value es = es ++ [(key, value)] := by
  induction es with
  | nil => rfl
  | cons e es ih =>
    rw [List.map_cons, List.mem_cons, not_or] at h
    rw [setEntry, if_neg (Ne.symm h.1), ih h.2, List.cons_append]

/-- The map with a name set to a value. -/
def set (m : OrderedMap α) (key : String) (value : α) : OrderedMap α :=
  ⟨setEntry key value m.entries, nodup_setEntry m.distinct⟩

/-- The map that arises from setting the names of a list one after the other. -/
def ofList (es : List (String × α)) : OrderedMap α :=
  es.foldl (fun m e => m.set e.1 e.2) empty

theorem lookup?_setEntry_self (key : String) (value : α) (es : List (String × α)) :
    lookup? key (setEntry key value es) = some value := by
  induction es with
  | nil => simp [setEntry, lookup?]
  | cons e es ih =>
    obtain ⟨k, v⟩ := e
    by_cases h : k = key
    · simp [setEntry, lookup?, h]
    · simp [setEntry, lookup?, h, ih]

theorem lookup?_setEntry_ne {key k : String} (hk : k ≠ key) (value : α)
    (es : List (String × α)) : lookup? k (setEntry key value es) = lookup? k es := by
  induction es with
  | nil => simp [setEntry, lookup?, Ne.symm hk]
  | cons e es ih =>
    obtain ⟨k', v⟩ := e
    by_cases h : k' = key
    · subst h; simp [setEntry, lookup?, Ne.symm hk]
    · simp [setEntry, lookup?, h, ih]

@[simp] theorem get?_set_self (m : OrderedMap α) (key : String) (value : α) :
    (m.set key value).get? key = some value :=
  lookup?_setEntry_self key value m.entries

theorem get?_set_ne (m : OrderedMap α) {key k : String} (hk : k ≠ key) (value : α) :
    (m.set key value).get? k = m.get? k :=
  lookup?_setEntry_ne hk value m.entries

/-! ### Comparison -/

/-- Whether two maps give the same names the same values, in whatever order; `eq` compares
two values. -/
def same (eq : α → α → Bool) (m n : OrderedMap α) : Bool :=
  m.size == n.size &&
    m.entries.all fun e => match n.get? e.1 with
      | some v => eq e.2 v
      | none => false

end OrderedMap
end Reactors

import Mathlib.Data.List.Dedup
import Reactors.OrderedMap

/-!
# Maps made of lists

A map that is made of a list holds every name of the list once, in the order in which the names
first come, and gives each of them the last of its values.  It has as many entries as the list
exactly when no name comes twice there.

## Main results

* `OrderedMap.get?_eq_some_iff` — the value of a name stands with it in the map.
* `OrderedMap.keys_ofList` — names keep the order in which they first come.
* `OrderedMap.get?_ofList` — the last value of a name counts.
* `OrderedMap.size_eq_of_mem_keys_iff` — a map holds every name once.
* `OrderedMap.size_ofList_eq_iff` — whether no name comes twice can be told by the size.
-/

namespace Reactors

/-- A list has as many different items as items exactly when none comes twice. -/
theorem length_dedup_eq_iff {names : List String} :
    names.dedup.length = names.length ↔ names.Nodup := by
  rw [(List.dedup_sublist names).length_eq, List.dedup_eq_self]

namespace OrderedMap

variable {α : Type} {m : OrderedMap α} {key : String}

/-! ### Entries -/

theorem length_keys (m : OrderedMap α) : m.keys.length = m.size := List.length_map ..

theorem lookup?_eq_some_iff {v : α} {es : List (String × α)} (h : (es.map Prod.fst).Nodup) :
    lookup? key es = some v ↔ (key, v) ∈ es := by
  induction es with
  | nil => simp [lookup?]
  | cons e es ih =>
    obtain ⟨k, w⟩ := e
    rw [List.map_cons, List.nodup_cons] at h
    rw [lookup?, List.mem_cons, Prod.mk.injEq]
    by_cases hk : k = key
    · subst hk
      have hfresh : (k, v) ∉ es := fun hmem => h.1 (List.mem_map.2 ⟨_, hmem, rfl⟩)
      simp [hfresh, eq_comm]
    · rw [if_neg hk, ih h.2]
      simp [Ne.symm hk]

/-- A name has the value that stands with it in the map. -/
theorem get?_eq_some_iff {v : α} : m.get? key = some v ↔ (key, v) ∈ m.entries :=
  lookup?_eq_some_iff m.distinct

/-- A map that has a value for the names of a list, and for no others, has as many entries as there
are different names in the list. -/
theorem size_eq_of_mem_keys_iff {names : List String}
    (h : ∀ name, name ∈ m.keys ↔ name ∈ names) : m.size = names.dedup.length := by
  have hdistinct : m.keys.Nodup := m.distinct
  have hperm : m.keys.Perm names.dedup := by
    rw [List.perm_ext_iff_of_nodup hdistinct names.nodup_dedup]
    intro name
    rw [h, List.mem_dedup]
  rw [← length_keys]
  exact hperm.length_eq

/-! ### The order of names -/

theorem keys_setEntry_of_mem {value : α} {es : List (String × α)}
    (h : key ∈ es.map Prod.fst) : (setEntry key value es).map Prod.fst = es.map Prod.fst := by
  induction es with
  | nil => cases h
  | cons e es ih =>
    obtain ⟨k, v⟩ := e
    by_cases hk : k = key
    · rw [setEntry, if_pos hk, List.map_cons, List.map_cons]
    · have htail : key ∈ es.map Prod.fst := (List.mem_cons.1 h).resolve_left (Ne.symm hk)
      rw [setEntry, if_neg hk, List.map_cons, List.map_cons, ih htail]

theorem keys_set_of_mem (value : α) (h : key ∈ m.keys) : (m.set key value).keys = m.keys :=
  keys_setEntry_of_mem h

theorem keys_set_of_notMem (value : α) (h : key ∉ m.keys) :
    (m.set key value).keys = m.keys ++ [key] := by
  have hentries : (m.set key value).entries = m.entries ++ [(key, value)] := setEntry_of_notMem h
  rw [keys, hentries, List.map_append]
  rfl

/-- Entries that are set one after the other add their new names at the end, each of them once. -/
theorem keys_foldl_set (es : List (String × α)) (m : OrderedMap α) :
    (es.foldl (fun m e => m.set e.1 e.2) m).keys =
      m.keys ++ ((es.map Prod.fst).filter (· ∉ m.keys)).eraseDups := by
  induction es generalizing m with
  | nil => simp
  | cons e es ih =>
    rw [List.foldl_cons, ih, List.map_cons, List.filter_cons]
    by_cases he : e.1 ∈ m.keys
    · rw [keys_set_of_mem e.2 he, if_neg (by simpa using he)]
    · rw [keys_set_of_notMem e.2 he, if_pos (by simpa using he), List.eraseDups_cons,
        List.filter_filter, List.append_assoc, List.singleton_append]
      refine congrArg (fun names => m.keys ++ e.1 :: List.eraseDups names) ?_
      refine List.filter_congr fun name _ => ?_
      rw [Bool.eq_iff_iff]
      simp [and_comm]

/-- The names of a map that is made from a list, in the order in which they first come. -/
theorem keys_ofList (es : List (String × α)) :
    (ofList es).keys = (es.map Prod.fst).eraseDups := by
  rw [ofList, keys_foldl_set]
  simp [keys, empty]

/-- A map that is made from a list is as long as the list exactly when no name comes twice. -/
theorem size_ofList_eq_iff {es : List (String × α)} :
    (ofList es).size = es.length ↔ (es.map Prod.fst).Nodup := by
  have hsize : (ofList es).size = (es.map Prod.fst).dedup.length :=
    size_eq_of_mem_keys_iff fun name => by rw [keys_ofList, List.mem_eraseDups]
  rw [hsize, ← length_dedup_eq_iff, List.length_map]

/-! ### Values -/

/-- Setting names one after the other gives every name the last of its values, and the names that
are not set keep what they have. -/
theorem get?_foldl_set (es : List (String × α)) (m : OrderedMap α) (key : String) :
    (es.foldl (fun m e => m.set e.1 e.2) m).get? key =
      ((es.reverse.find? (·.1 == key)).map Prod.snd).or (m.get? key) := by
  induction es generalizing m with
  | nil => rfl
  | cons e es ih =>
    rw [List.foldl_cons, ih, List.reverse_cons, List.find?_append]
    cases es.reverse.find? (·.1 == key) with
    | some later => rfl
    | none =>
      -- no later entry has the name, so that this one counts if it has
      by_cases hkey : e.1 = key
      · subst hkey
        simp
      · rw [get?_set_ne m (Ne.symm hkey)]
        simp [hkey]

theorem get?_ofList (es : List (String × α)) (key : String) :
    (ofList es).get? key = (es.reverse.find? (·.1 == key)).map Prod.snd := by
  unfold ofList
  rw [get?_foldl_set]
  exact Option.or_none

end OrderedMap
end Reactors

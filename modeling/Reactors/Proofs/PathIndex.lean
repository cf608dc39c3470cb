import Reactors.Instance.Tree
import Reactors.Proofs.OrderedMaps

/-!
# Look-up by path

A tree keeps an index from paths to the numbers of its instances.  It is filled in the order of
the instances, so that of several with one path the last one is found.  As long as numbers are
positions, looking up a path is a search through the instances from the end on.

## Main definitions

* `InstanceTree.Positioned` — numbers are positions.

## Main results

* `InstanceTree.size_pathIndex_eq_iff` — the size of the index tells whether a path comes twice.
* `InstanceTree.Positioned.find?_eq` — look-up by path is a search.
* `InstanceTree.Positioned.find?_path_iff` — every instance is found at its own path if paths are
  distinct.
-/

namespace Reactors
namespace InstanceTree

variable {t : InstanceTree} {i : Instance} {path : String}

/-- The index has as many paths as there are instances exactly when no path comes twice. -/
theorem size_pathIndex_eq_iff : t.pathIndex.size = t.size ↔ (paths t.instances).Nodup := by
  have hlength : t.size = (t.instances.map fun i => (i.path, i.id)).length :=
    (List.length_map _).symm
  rw [pathIndex, hlength, OrderedMap.size_ofList_eq_iff, List.map_map]
  rfl

/-- Numbers are positions. -/
def Positioned (t : InstanceTree) : Prop := ∀ n i, t.get? n = some i → i.id = n

namespace Positioned

theorem get?_of_mem (h : t.Positioned) (hi : i ∈ t.instances) : t.get? i.id = some i := by
  obtain ⟨n, hn⟩ := List.mem_iff_getElem?.1 hi
  have hn' : t.get? n = some i := hn
  rw [h n i hn', hn']

theorem map_id_instances (h : t.Positioned) :
    t.instances.map Instance.id = List.range t.size := by
  refine List.ext_getElem (by simp [size]) fun n hn _ => ?_
  rw [List.getElem_map, List.getElem_range]
  exact h n _ (List.getElem?_eq_getElem (by simpa using hn))

theorem nodup_instances (h : t.Positioned) : t.instances.Nodup := by
  refine List.Nodup.of_map Instance.id ?_
  rw [h.map_id_instances]
  exact List.nodup_range

/-- **Look-up by path is a search from the end on.** -/
theorem find?_eq (h : t.Positioned) (path : String) :
    t.find? path = t.instances.reverse.find? (·.path == path) := by
  have hindex : t.pathIndex.get? path =
      (t.instances.reverse.find? (·.path == path)).map Instance.id := by
    rw [pathIndex, OrderedMap.get?_ofList, ← List.map_reverse, List.find?_map, Option.map_map]
    rfl
  rw [find?, hindex]
  cases hfind : t.instances.reverse.find? (·.path == path) with
  | none => rfl
  | some i => exact h.get?_of_mem (List.mem_reverse.1 (List.mem_of_find?_eq_some hfind))

/-- What is found at a path has this path. -/
theorem find?_eq_some (h : t.Positioned) (hi : t.find? path = some i) :
    i ∈ t.instances ∧ i.path = path := by
  rw [h.find?_eq] at hi
  have hpath := List.find?_some hi
  exact ⟨List.mem_reverse.1 (List.mem_of_find?_eq_some hi), beq_iff_eq.1 hpath⟩

/-- If nothing is found at a path, no instance has it. -/
theorem find?_eq_none (h : t.Positioned) (hnone : t.find? path = none) (hi : i ∈ t.instances) :
    i.path ≠ path := by
  rw [h.find?_eq] at hnone
  have hne := List.find?_eq_none.1 hnone i (List.mem_reverse.2 hi)
  exact fun hpath => hne (beq_iff_eq.2 hpath)

/-- Every instance is found at its own path exactly if no two paths are equal. -/
theorem find?_path_iff (h : t.Positioned) :
    (∀ i ∈ t.instances, t.find? i.path = some i) ↔ (paths t.instances).Nodup := by
  rw [paths, List.nodup_map_iff_inj_on h.nodup_instances]
  constructor
  · -- two instances with one path would both be what is found there
    intro hfind i hi j hj hpath
    have hij := (hfind i hi).symm.trans (hpath ▸ hfind j hj)
    exact Option.some.inj hij
  · intro hinj i hi
    cases hfind : t.find? i.path with
    | none => exact absurd rfl (h.find?_eq_none hfind hi)
    | some j =>
      obtain ⟨hj, hpath⟩ := h.find?_eq_some hfind
      rw [hinj j hj i hi hpath]

end Positioned
end InstanceTree
end Reactors

import Reactors.Proofs.Comparisons
import Reactors.Proofs.Nesting

/-!
# Tables of definitions

A definition can be searched for in a program, from its first definition on, or looked up in the
table of the program.  The table can be built as a map from names, by entering one definition after
the other; at the first one whose name is taken there is no table.  Up to there the map holds,
after every step, exactly the definitions before, each under its own name, and then it gives for a
name what the search finds.

## Main definitions

* `Definitions.enter`, `Program.entered` — the map, filled with one definition after the other.
* `Definitions.Holds` — a map holds some definitions under their names.

## Main results

* `Definitions.enter_of_mem`, `Definitions.exists_enter_of_notMem` — a step, when the name is taken
  and when it is not.
* `Definitions.exists_foldlM_enter` — a whole run, while no name is taken.
* `Program.entered_agrees` — the map and the table of a program.
* `Program.table_agrees_with_search` — when there is a table, and what it finds.
-/

namespace Reactors

/-! ### Entering definitions -/

namespace Definitions

/-- A map with one more definition under its name; a name that is taken is refused. -/
def enter (m : OrderedMap ReactorDecl) (r : ReactorDecl) :
    Except ProgramError (OrderedMap ReactorDecl) :=
  match m.get? r.name with
  | some _ => .error (.duplicateReactor r.name)
  | none => .ok (m.set r.name r)

/-- A map holds these definitions in their order, each under its name. -/
def Holds (m : OrderedMap ReactorDecl) (rs : List ReactorDecl) : Prop :=
  m.entries = rs.map fun r => (r.name, r)

namespace Holds

variable {m : OrderedMap ReactorDecl} {rs : List ReactorDecl}

theorem keys_eq (h : Holds m rs) : m.keys = rs.map ReactorDecl.name := by
  rw [OrderedMap.keys, h, List.map_map]
  rfl

theorem size_eq (h : Holds m rs) : m.size = rs.length := by
  rw [OrderedMap.size, h, List.length_map]

/-- The map gives for a name what a search finds. -/
theorem get?_eq (h : Holds m rs) (name : String) : m.get? name = rs.find? (·.name == name) := by
  rw [OrderedMap.get?, h]
  clear h
  induction rs with
  | nil => rfl
  | cons r rs ih =>
    rw [List.map_cons, OrderedMap.lookup?]
    by_cases hname : r.name = name
    · rw [if_pos hname, List.find?_cons_of_pos (by simpa using hname)]
    · rw [if_neg hname, List.find?_cons_of_neg (by simpa using hname), ih]

end Holds

variable {m : OrderedMap ReactorDecl} {rs : List ReactorDecl} {r : ReactorDecl}

/-- A definition whose name is taken is refused. -/
theorem enter_of_mem (h : Holds m rs) (hr : r.name ∈ rs.map ReactorDecl.name) :
    enter m r = .error (.duplicateReactor r.name) := by
  rw [← h.keys_eq] at hr
  obtain ⟨q, hq⟩ := OrderedMap.mem_keys_iff.1 hr
  rw [enter, hq]

/-- Any other definition is entered behind those before. -/
theorem exists_enter_of_notMem (h : Holds m rs) (hr : r.name ∉ rs.map ReactorDecl.name) :
    ∃ m', enter m r = .ok m' ∧ Holds m' (rs ++ [r]) := by
  rw [← h.keys_eq] at hr
  refine ⟨m.set r.name r, ?_, ?_⟩
  · rw [enter, OrderedMap.get?_eq_none_iff.2 hr]
  · have hentries : (m.set r.name r).entries = m.entries ++ [(r.name, r)] :=
      OrderedMap.setEntry_of_notMem hr
    rw [Holds, hentries, h, List.map_append, List.map_singleton]

/-- **Definitions with distinct names are all entered.**  The induction is on the definitions from
the last one back: the map before a step holds all definitions before it. -/
theorem exists_foldlM_enter (hdistinct : (rs.map ReactorDecl.name).Nodup) :
    ∃ m, rs.foldlM enter .empty = .ok m ∧ Holds m rs := by
  induction rs using List.reverseRecOn with
  | nil => exact ⟨.empty, rfl, rfl⟩
  | append_singleton rs r ih =>
    rw [List.map_append, List.map_singleton, ← List.concat_eq_append, List.nodup_concat]
      at hdistinct
    obtain ⟨m, hm, hholds⟩ := ih hdistinct.2
    obtain ⟨m', hm', hholds'⟩ := exists_enter_of_notMem hholds hdistinct.1
    have hstep : [r].foldlM enter m = .ok m' := by rw [List.foldlM_cons, hm']; rfl
    refine ⟨m', ?_, hholds'⟩
    rw [List.foldlM_append, hm]
    exact hstep

/-- Behind definitions with distinct names the first one whose name is taken ends the run. -/
theorem foldlM_enter_of_mem {before after : List ReactorDecl}
    (hdistinct : (before.map ReactorDecl.name).Nodup)
    (hr : r.name ∈ before.map ReactorDecl.name) :
    (before ++ r :: after).foldlM enter .empty = .error (.duplicateReactor r.name) := by
  obtain ⟨m, hm, hholds⟩ := exists_foldlM_enter hdistinct
  have hstep : (r :: after).foldlM enter m = .error (.duplicateReactor r.name) := by
    rw [List.foldlM_cons, enter_of_mem hholds hr]
    rfl
  rw [List.foldlM_append, hm]
  exact hstep

end Definitions

/-! ### The table of a program -/

namespace Program

open Definitions (Holds exists_foldlM_enter foldlM_enter_of_mem)

/-- The definitions of a program in a map, entered one after the other. -/
def entered (p : Program) : Except ProgramError (OrderedMap ReactorDecl) :=
  p.reactors.foldlM Definitions.enter .empty

/-- Entering the definitions of a program one after the other gives a map that holds the
definitions of its table, or the error for which it has none. -/
theorem entered_agrees (p : Program) :
    Agree (· = ·) (fun m t => Holds m t.reactors) p.entered p.definitions := by
  cases h : p.definitions with
  | ok t =>
    have htable : t.reactors = p.reactors := definitions_eq_ok.1 h
    obtain ⟨m, hm, hholds⟩ := exists_foldlM_enter t.distinct
    rw [entered, ← htable, hm]
    exact .ok hholds
  | error cause =>
    obtain ⟨name, hname, rfl⟩ := definitions_eq_error_iff.1 h
    -- entering succeeds up to the first definition whose name is taken
    obtain ⟨names, names', hnames, hdistinct, -, hseen | hmem⟩ :=
      exists_of_firstRepeatedName?_eq_some hname
    · cases hseen
    · obtain ⟨before, rest, hreactors, rfl, hrest⟩ := List.map_eq_append_iff.1 hnames
      obtain ⟨r, after, rfl, rfl, -⟩ := List.map_eq_cons_iff.1 hrest
      rw [entered, hreactors, foldlM_enter_of_mem hdistinct hmem]
      exact .error rfl

/-- A program has no table exactly if the names of its definitions are not distinct. -/
theorem exists_definitions_eq_error_iff {p : Program} :
    (∃ cause, p.definitions = .error cause) ↔ ¬ (p.reactors.map ReactorDecl.name).Nodup := by
  cases h : p.definitions with
  | ok t =>
    refine iff_of_false (by simp) (not_not_intro ?_)
    rw [← definitions_eq_ok.1 h]
    exact t.distinct
  | error cause =>
    refine iff_of_true ⟨cause, rfl⟩ fun hdistinct => ?_
    have hok : p.definitions = .ok ⟨p.reactors, hdistinct⟩ := definitions_eq_ok.2 rfl
    rw [h] at hok
    cases hok

/-- Names that are not distinct are those of definitions at two places. -/
theorem not_nodup_names_iff {p : Program} :
    ¬ (p.reactors.map ReactorDecl.name).Nodup ↔
      ∃ i j : Fin p.reactors.length, i ≠ j ∧ p.reactors[i].name = p.reactors[j].name := by
  rw [List.Nodup, List.pairwise_map, List.pairwise_iff_getElem]
  constructor
  · intro h
    push Not at h
    obtain ⟨i, j, hi, hj, hlt, hsame⟩ := h
    exact ⟨⟨i, hi⟩, ⟨j, hj⟩, by simp [hlt.ne], hsame⟩
  · rintro ⟨i, j, hne, hsame⟩ h
    rcases Nat.lt_or_gt_of_ne (Fin.val_ne_of_ne hne) with hlt | hlt
    · exact h i j i.2 j.2 hlt hsame
    · exact h j i j.2 i.2 hlt hsame.symm

/-- **Looking up and searching agree.**  A program has no table exactly if two of its definitions
have one name; the error then carries the name of the first definition whose name came before.  A
table has as many definitions as the program, and gives for every name what the search through the
program finds, which has that name.  It is the map that arises from entering the definitions one
after the other, with the same error when a name is taken. -/
theorem table_agrees_with_search (p : Program) :
    ((∃ cause, p.definitions = .error cause) ↔
      ∃ i j : Fin p.reactors.length, i ≠ j ∧ p.reactors[i].name = p.reactors[j].name) ∧
    (∀ cause, p.definitions = .error cause ↔
      ∃ place r, IsLeast {i | RepeatsAt (p.reactors.map ReactorDecl.name) i} place ∧
        p.reactors[place]? = some r ∧ cause = .duplicateReactor r.name) ∧
    (∀ t, p.definitions = .ok t → t.size = p.reactors.length ∧
      ∀ name, t.get? name = p.reactor? name ∧ ∀ r, t.get? name = some r → r.name = name) ∧
    Agree (· = ·) (fun m t => m.size = t.size ∧ ∀ name, m.get? name = t.get? name)
      p.entered p.definitions := by
  refine ⟨?_, fun cause => ?_, fun t h => ⟨?_, fun name => ⟨?_, ?_⟩⟩, ?_⟩
  · rw [exists_definitions_eq_error_iff, not_nodup_names_iff]
  · rw [definitions_eq_error_iff]
    -- names stand at the places of their definitions
    simp only [firstRepeatedName?_nil_eq_some_iff, List.getElem?_map, Option.map_eq_some_iff]
    constructor
    · rintro ⟨_, ⟨place, hleast, r, hr, rfl⟩, rfl⟩
      exact ⟨place, r, hleast, hr, rfl⟩
    · rintro ⟨place, r, hleast, hr, rfl⟩
      exact ⟨r.name, ⟨place, hleast, r, hr, rfl⟩, rfl⟩
  · rw [Definitions.size, definitions_eq_ok.1 h]
  · exact (reactor?_eq_get? h name).symm
  · exact fun r hr => Definitions.name_of_get? hr
  · exact p.entered_agrees.imp fun m t hholds => ⟨hholds.size_eq, hholds.get?_eq⟩

/-- A program of definitions that declare nothing. -/
def ofNames (names : List String) : Program := ⟨"Main", names.map ReactorDecl.named⟩

/-- A lamp is found in the table of two definitions; where the lamp and the main reactor come
again, the lamp is the first to do so. -/
theorem lamp_looked_up :
    (∃ t, (ofNames ["Main", "Lamp"]).definitions = .ok t ∧ t.size = 2 ∧
      t.get? "Lamp" = some (ReactorDecl.named "Lamp") ∧ t.get? "Sensor" = none) ∧
    (ofNames ["Main", "Lamp", "Lamp", "Main"]).definitions =
      .error (.duplicateReactor "Lamp") := by
  constructor
  · have htable : (ofNames ["Main", "Lamp"]).definitions =
        .ok ⟨(ofNames ["Main", "Lamp"]).reactors, by decide⟩ := definitions_eq_ok.2 rfl
    obtain ⟨-, -, hfinds, -⟩ := table_agrees_with_search (ofNames ["Main", "Lamp"])
    obtain ⟨hsize, hget⟩ := hfinds _ htable
    refine ⟨_, htable, hsize, ?_, ?_⟩
    · rw [(hget "Lamp").1]
      rfl
    · rw [(hget "Sensor").1]
      rfl
  · obtain ⟨-, herror, -, -⟩ := table_agrees_with_search (ofNames ["Main", "Lamp", "Lamp", "Main"])
    have hleast : IsLeast {i | RepeatsAt (["Main", "Lamp"] ++ "Lamp" :: ["Main"]) i} 2 :=
      isLeast_repeatsAt (by decide) (by decide)
    exact (herror _).2 ⟨2, ReactorDecl.named "Lamp", hleast, rfl, rfl⟩

end Program
end Reactors

import Reactors.Program.Declarations

/-!
# Looking up definitions

Elaboration needs to know that a name stands for one definition.  A table of definitions is a
list without repeated names; it is built from a program, and refused at the first definition
whose name came before.

## Main definitions

* `Definitions` — definitions with distinct names.
* `Definitions.get?` — the definition with a name.
* `Program.definitions` — the table of a program.
* `ProgramError` — the reason why a program has none.

## Main results

* `Definitions.name_of_get?` — the definition found has the name that was asked for.
* `Definitions.mem_names_of_get?` — and that name is one of the table's.
* `Program.definitions_eq_ok` — which programs have a table.
-/

namespace Reactors

/-- Why definitions do not make a program. -/
inductive ProgramError where
  /-- Two definitions have this name. -/
  | duplicateReactor (name : String)
  deriving DecidableEq, Repr

/-- The wording of the error. -/
def ProgramError.message : ProgramError → String
  | .duplicateReactor name => "Duplicate reactor definition: " ++ name

/-- Definitions with distinct names. -/
structure Definitions where
  reactors : List ReactorDecl
  distinct : (reactors.map ReactorDecl.name).Nodup

namespace Definitions

/-- The names that are defined. -/
def names (t : Definitions) : List String := t.reactors.map ReactorDecl.name

/-- How many definitions there are. -/
def size (t : Definitions) : Nat := t.reactors.length

/-- The definition with this name. -/
def get? (t : Definitions) (name : String) : Option ReactorDecl :=
  t.reactors.find? (·.name == name)

theorem name_of_get? {t : Definitions} {name : String} {r : ReactorDecl}
    (h : t.get? name = some r) : r.name = name := by
  simpa using List.find?_some h

theorem mem_names_of_get? {t : Definitions} {name : String} {r : ReactorDecl}
    (h : t.get? name = some r) : r.name ∈ t.names :=
  List.mem_map_of_mem (List.mem_of_find?_eq_some h)

/-- Finds the first definition whose name is one of `seen` or came before in the list. -/
def firstRepeated? (seen : List String) : List ReactorDecl → Option ReactorDecl
  | [] => none
  | r :: rs => if r.name ∈ seen then some r else firstRepeated? (r.name :: seen) rs

theorem nodup_of_firstRepeated? {seen : List String} {rs : List ReactorDecl}
    (h : firstRepeated? seen rs = none) :
    (rs.map ReactorDecl.name).Nodup ∧ ∀ r ∈ rs, r.name ∉ seen := by
  induction rs generalizing seen with
  | nil => simp
  | cons r rs ih =>
    simp only [firstRepeated?] at h
    split at h
    · cases h
    · next hr =>
      obtain ⟨hn, hs⟩ := ih h
      refine ⟨?_, ?_⟩
      · simp only [List.map_cons, List.nodup_cons, List.mem_map, not_exists, not_and]
        refine ⟨fun q hq he => ?_, hn⟩
        have := hs q hq
        rw [he] at this
        exact this List.mem_cons_self
      · intro q hq
        rcases List.mem_cons.1 hq with rfl | hq
        · exact hr
        · exact fun hm => hs q hq (List.mem_cons_of_mem _ hm)

theorem firstRepeated?_of_nodup {seen : List String} {rs : List ReactorDecl}
    (hn : (rs.map ReactorDecl.name).Nodup) (hs : ∀ r ∈ rs, r.name ∉ seen) :
    firstRepeated? seen rs = none := by
  induction rs generalizing seen with
  | nil => rfl
  | cons r rs ih =>
    rw [List.map_cons, List.nodup_cons] at hn
    rw [firstRepeated?, if_neg (hs r List.mem_cons_self)]
    refine ih hn.2 fun q hq hm => ?_
    rcases List.mem_cons.1 hm with heq | hm
    · exact hn.1 (heq ▸ List.mem_map_of_mem hq)
    · exact hs q (List.mem_cons_of_mem _ hq) hm

end Definitions

/-- The table of the definitions of a program. -/
def Program.definitions (p : Program) : Except ProgramError Definitions :=
  match h : Definitions.firstRepeated? [] p.reactors with
  | some r => .error (.duplicateReactor r.name)
  | none => .ok ⟨p.reactors, (Definitions.nodup_of_firstRepeated? h).1⟩

/-- A program has a table exactly when its definitions have distinct names, and the table then
holds them all. -/
theorem Program.definitions_eq_ok {p : Program} {t : Definitions} :
    p.definitions = .ok t ↔ t.reactors = p.reactors := by
  unfold Program.definitions
  split
  · next r hr =>
    refine iff_of_false (by simp) fun heq => ?_
    rw [Definitions.firstRepeated?_of_nodup (heq ▸ t.distinct) fun _ _ => List.not_mem_nil] at hr
    cases hr
  · constructor
    · rintro h
      cases h
      rfl
    · intro heq
      cases t
      cases heq
      rfl

end Reactors

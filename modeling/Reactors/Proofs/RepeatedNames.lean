import Mathlib.Data.List.Duplicate
import Mathlib.Order.Bounds.Basic
import Reactors.Elaboration.Triggers

/-!
# Names that come again

The definitions of a program and the triggers of an instance are checked alike: from left to
right, for the first name that came before.  The check reads nothing but the names, so what is to
be said about it is said once, of lists of names.

## Main definitions

* `firstRepeatedName?` — the first name in a list that came before.
* `RepeatsAt` — the name at a place came before.

## Main results

* `firstRepeatedName?_eq_none_iff` — no name is found exactly if the names are distinct.
* `exists_of_firstRepeatedName?_eq_some` — the names before the one that is found.
* `firstRepeatedName?_nil_eq_some_iff` — it stands at the first place with a name that came before.
* `Program.definitions_eq_error_iff` — the programs without a table.
-/

namespace Reactors

/-- The first name in a list that is one of `seen` or came before. -/
def firstRepeatedName? (seen : List String) : List String → Option String
  | [] => none
  | name :: names =>
    if name ∈ seen then some name else firstRepeatedName? (name :: seen) names

/-- The name at this place came before. -/
def RepeatsAt (names : List String) (place : Nat) : Prop :=
  ∃ name, names[place]? = some name ∧ name ∈ names.take place

/-! ### Lists of names -/

theorem firstRepeatedName?_eq_none_iff {seen names : List String} :
    firstRepeatedName? seen names = none ↔ names.Nodup ∧ ∀ name ∈ names, name ∉ seen := by
  induction names generalizing seen with
  | nil => simp [firstRepeatedName?]
  | cons name names ih =>
    rw [firstRepeatedName?, List.nodup_cons, List.forall_mem_cons]
    by_cases h : name ∈ seen
    · simp [h]
    · rw [if_neg h, ih]
      simp only [List.mem_cons, not_or]
      constructor
      · rintro ⟨hdistinct, hnew⟩
        exact ⟨⟨fun hmem => (hnew _ hmem).1 rfl, hdistinct⟩, h, fun n hn => (hnew n hn).2⟩
      · rintro ⟨⟨hfresh, hdistinct⟩, -, hnew⟩
        exact ⟨hdistinct, fun n hn => ⟨fun heq => hfresh (heq ▸ hn), hnew n hn⟩⟩

/-- Names that were seen before but do not come again make no difference. -/
theorem firstRepeatedName?_eq_of_seen {names seen seen' : List String}
    (h : ∀ name ∈ names, name ∈ seen ↔ name ∈ seen') :
    firstRepeatedName? seen names = firstRepeatedName? seen' names := by
  induction names generalizing seen seen' with
  | nil => rfl
  | cons name names ih =>
    rw [List.forall_mem_cons] at h
    have hrest :
        firstRepeatedName? (name :: seen) names = firstRepeatedName? (name :: seen') names := by
      apply ih
      intro n hn
      rw [List.mem_cons, List.mem_cons, h.2 n hn]
    rw [firstRepeatedName?, firstRepeatedName?, hrest]
    simp only [h.1]

/-- A repeated name that is found came before, and no two names before it are equal. -/
theorem exists_of_firstRepeatedName?_eq_some {seen names : List String} {name : String}
    (h : firstRepeatedName? seen names = some name) :
    ∃ before after, names = before ++ name :: after ∧ before.Nodup ∧
      (∀ n ∈ before, n ∉ seen) ∧ (name ∈ seen ∨ name ∈ before) := by
  induction names generalizing seen with
  | nil => cases h
  | cons first names ih =>
    rw [firstRepeatedName?] at h
    split at h
    · next hseen =>
      cases h
      exact ⟨[], names, rfl, List.nodup_nil, List.forall_mem_nil _, .inl hseen⟩
    · next hnew =>
      obtain ⟨before, after, rfl, hdistinct, hfresh, hrepeated⟩ := ih h
      -- for the rest the first name counts as seen
      simp only [List.mem_cons, not_or] at hfresh hrepeated
      refine ⟨first :: before, after, rfl, ?_, ?_, ?_⟩
      · rw [List.nodup_cons]
        exact ⟨fun hmem => (hfresh first hmem).1 rfl, hdistinct⟩
      · exact List.forall_mem_cons.2 ⟨hnew, fun n hn => (hfresh n hn).2⟩
      · rw [List.mem_cons]
        rcases hrepeated with (hfirst | hseen) | hbefore
        · exact .inr (.inl hfirst)
        · exact .inl hseen
        · exact .inr (.inr hbefore)

/-- A name behind a list that holds it comes twice. -/
theorem duplicate_append_cons {a : String} {before : List String} (h : a ∈ before)
    (after : List String) : List.Duplicate a (before ++ a :: after) := by
  rw [List.duplicate_iff_two_le_count, List.count_append, List.count_cons_self]
  have hpos := List.count_pos_iff.2 h
  omega

/-- A name that is found to come again comes twice. -/
theorem duplicate_of_firstRepeatedName? {names : List String} {name : String}
    (h : firstRepeatedName? [] names = some name) : List.Duplicate name names := by
  obtain ⟨before, after, rfl, -, -, hseen | hbefore⟩ := exists_of_firstRepeatedName?_eq_some h
  · cases hseen
  · exact duplicate_append_cons hbefore after

/-! ### Places -/

/-- No name came before where they are distinct. -/
theorem not_repeatsAt_of_nodup {names : List String} (h : names.Nodup) (place : Nat) :
    ¬ RepeatsAt names place := by
  rintro ⟨name, hname, hmem⟩
  obtain ⟨earlier, hearlier, hsame⟩ := List.mem_take_iff_getElem.1 hmem
  obtain ⟨hplace, hname⟩ := List.getElem?_eq_some_iff.1 hname
  have hplaces : earlier = place := h.getElem_inj_iff.1 (hsame.trans hname.symm)
  omega

/-- Behind distinct names a name that is one of them is the first that came before. -/
theorem isLeast_repeatsAt {before after : List String} {name : String} (hdistinct : before.Nodup)
    (hbefore : name ∈ before) :
    IsLeast {i | RepeatsAt (before ++ name :: after) i} before.length := by
  constructor
  · refine ⟨name, ?_, ?_⟩
    · simp
    · rwa [List.take_left]
  · rintro place ⟨n, hn, hmem⟩
    by_contra hlt
    rw [Nat.not_le] at hlt
    -- a place further left lies among the distinct names
    rw [List.getElem?_append_left hlt] at hn
    rw [List.take_append_of_le_length hlt.le] at hmem
    exact not_repeatsAt_of_nodup hdistinct place ⟨n, hn, hmem⟩

/-- The name that is found stands at the first place with a name that came before. -/
theorem firstRepeatedName?_nil_eq_some_iff {names : List String} {name : String} :
    firstRepeatedName? [] names = some name ↔
      ∃ place, IsLeast {i | RepeatsAt names i} place ∧ names[place]? = some name := by
  have hfound : ∀ n, firstRepeatedName? [] names = some n →
      ∃ place, IsLeast {i | RepeatsAt names i} place ∧ names[place]? = some n := by
    intro n h
    obtain ⟨before, after, rfl, hdistinct, -, hseen | hbefore⟩ :=
      exists_of_firstRepeatedName?_eq_some h
    · cases hseen
    · exact ⟨before.length, isLeast_repeatsAt hdistinct hbefore, by simp⟩
  constructor
  · exact hfound name
  · rintro ⟨place, hleast, hname⟩
    cases h : firstRepeatedName? [] names with
    | none =>
      have hdistinct := (firstRepeatedName?_eq_none_iff.1 h).1
      exact absurd hleast.1 (not_repeatsAt_of_nodup hdistinct place)
    | some n =>
      -- there is only one first place
      obtain ⟨place', hleast', hn⟩ := hfound n h
      rw [hleast.unique hleast', hn] at hname
      exact hname

/-! ### Definitions and triggers -/

/-- Whether a definition has the name of another one can be told from the names. -/
theorem Definitions.map_name_firstRepeated? (seen : List String) (rs : List ReactorDecl) :
    (firstRepeated? seen rs).map ReactorDecl.name =
      firstRepeatedName? seen (rs.map ReactorDecl.name) := by
  induction rs generalizing seen with
  | nil => rfl
  | cons r rs ih =>
    rw [firstRepeated?, List.map_cons, firstRepeatedName?]
    split
    · rfl
    · exact ih (r.name :: seen)

/-- A program has no table exactly if a name of its definitions is found to come again. -/
theorem Program.definitions_eq_error_iff {p : Program} {cause : ProgramError} :
    p.definitions = .error cause ↔
      ∃ name, firstRepeatedName? [] (p.reactors.map ReactorDecl.name) = some name ∧
        cause = .duplicateReactor name := by
  rw [← Definitions.map_name_firstRepeated?]
  unfold definitions
  split
  · next r hr =>
    rw [hr, Option.map_some]
    constructor
    · intro h
      cases h
      exact ⟨r.name, rfl, rfl⟩
    · rintro ⟨name, hname, rfl⟩
      cases hname
      rfl
  · next hnone =>
    refine iff_of_false (by simp) ?_
    rintro ⟨name, hname, -⟩
    rw [hnone] at hname
    cases hname

/-- Whether a trigger has the name of another one can be told from the names. -/
theorem Elaborator.firstRepeated?_eq (seen : List String) (ts : List Trigger) :
    firstRepeated? seen ts = firstRepeatedName? seen (ts.map Trigger.name) := by
  induction ts generalizing seen with
  | nil => rfl
  | cons t ts ih => rw [firstRepeated?, List.map_cons, firstRepeatedName?, ih]

end Reactors

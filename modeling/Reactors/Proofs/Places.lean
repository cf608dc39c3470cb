import Mathlib.Data.List.Infix
import Reactors.Files.System
import Reactors.Proofs.FilePaths

/-!
# The places that paths lead to

A path leads to the place that its names lead to, one after the other, from the root or from the
working directory.  A name leads into a directory, two points lead back out of it, and each needs a
directory to start from.  Idle segments change nothing, as long as they stand behind directories.

## Main definitions

* `Place.after` — the place to which names lead from another.
* `FileSystem.start` — where a path starts.

## Main results

* `FileSystem.follow_eq_ok` — what a path needs to lead anywhere, and where it leads then.
* `FileSystem.follow_append_of_directories` — segments can be followed if there are directories on
  the way.
* `FileSystem.locate_eq_follow` — a path is followed from where it starts.
-/

namespace Reactors

/-! ### Following names -/

/-- The place to which a name leads from another. -/
def Place.step (place : Place) (name : List Char) : Place :=
  if name = ['.', '.'] then place.dropLast else place ++ [String.ofList name]

/-- The place to which names lead from another. -/
def Place.after (place : Place) (names : List (List Char)) : Place := names.foldl Place.step place

theorem Place.after_concat (place : Place) (names : List (List Char)) (name : List Char) :
    Place.after place (names ++ [name]) = Place.step (Place.after place names) name :=
  List.foldl_concat ..

theorem Place.step_of_ne {name : List Char} (h : name ≠ ['.', '.']) (place : Place) :
    Place.step place name = place ++ [String.ofList name] :=
  if_neg h

namespace FileSystem

variable {fs : FileSystem} {place place' : Place} {ss ts : List (List Char)} {s : List Char}

theorem isDirectory_nil (fs : FileSystem) : fs.isDirectory [] = true := by
  simp [isDirectory]

theorem isDirectory_workingDirectory (fs : FileSystem) :
    fs.isDirectory fs.workingDirectory = true := by
  simp [isDirectory]

/-- What lies around a directory is one. -/
theorem isDirectory_of_prefix (hbegins : place <+: place')
    (h : fs.isDirectory place' = true) : fs.isDirectory place = true := by
  simp only [isDirectory, Bool.or_eq_true, List.isPrefixOf_iff_prefix, List.any_eq_true,
    Bool.and_eq_true, bne_iff_ne] at h ⊢
  rcases h with h | ⟨f, hf, hbelow, hne⟩
  · exact .inl (hbegins.trans h)
  · refine .inr ⟨f, hf, hbegins.trans hbelow, ?_⟩
    rintro rfl
    exact hne (hbelow.eq_of_length_le hbegins.length_le)

/-- A name that can be followed. -/
def IsShort (name : List Char) : Prop :=
  name = ['.', '.'] ∨ (String.ofList name).utf8ByteSize ≤ longestName

/-- Following a segment means a step if it is a name, and takes a directory to start from. -/
theorem follow_cons_eq_ok : fs.follow place (s :: ss) = .ok place' ↔ fs.isDirectory place = true ∧
    (Path.isIdle s = true ∧ fs.follow place ss = .ok place' ∨
      Path.isIdle s = false ∧ IsShort s ∧ fs.follow (Place.step place s) ss = .ok place') := by
  rw [follow, Place.step, IsShort]
  cases hdirectory : fs.isDirectory place with
  | false => simp
  | true =>
    cases hidle : Path.isIdle s with
    | true => simp
    | false =>
      by_cases hback : s = ['.', '.']
      · simp [hback]
      · by_cases hlong : longestName < (String.ofList s).utf8ByteSize
        · simp [hback, hlong, Nat.not_le.2 hlong]
        · simp [hback, hlong, Nat.not_lt.1 hlong]

/-- What a path needs to lead anywhere, and where it leads then. -/
theorem follow_eq_ok (h : fs.follow place ss = .ok place') :
    place' = Place.after place (Path.namesAmong ss) ∧ (∀ s ∈ Path.namesAmong ss, IsShort s) ∧
      ∀ b s, b ++ [s] <+: Path.namesAmong ss → fs.isDirectory (Place.after place b) = true := by
  induction ss generalizing place with
  | nil =>
    cases h
    exact ⟨rfl, by simp [Path.namesAmong], by simp [Path.namesAmong]⟩
  | cons s ss ih =>
    obtain ⟨hdirectory, ⟨hidle, hrest⟩ | ⟨hname, hshort, hrest⟩⟩ := follow_cons_eq_ok.1 h
    · rw [Path.namesAmong_cons_of_idle hidle]
      exact ih hrest
    · rw [Path.namesAmong_cons_of_name hname]
      obtain ⟨hplace, hshorts, hways⟩ := ih hrest
      refine ⟨hplace, List.forall_mem_cons.2 ⟨hshort, hshorts⟩, fun b t hb => ?_⟩
      cases b with
      | nil => exact hdirectory
      | cons t' b =>
        obtain ⟨rfl, htail⟩ := List.cons_prefix_cons.1 hb
        exact hways b t htail

/-- Segments can be followed to where their names lead, if there are directories on the way, and
from there on. -/
theorem follow_append_of_directories (hshort : ∀ s ∈ Path.namesAmong ss, IsShort s)
    (hways : ∀ b, b <+: Path.namesAmong ss → fs.isDirectory (Place.after place b) = true)
    (hrest : fs.follow (Place.after place (Path.namesAmong ss)) ts = .ok place') :
    fs.follow place (ss ++ ts) = .ok place' := by
  induction ss generalizing place with
  | nil => exact hrest
  | cons s ss ih =>
    have hdirectory := hways [] List.nil_prefix
    cases hidle : Path.isIdle s with
    | true =>
      rw [Path.namesAmong_cons_of_idle hidle] at hshort hways hrest
      exact follow_cons_eq_ok.2 ⟨hdirectory, .inl ⟨hidle, ih hshort hways hrest⟩⟩
    | false =>
      rw [Path.namesAmong_cons_of_name hidle] at hshort hways hrest
      rw [List.forall_mem_cons] at hshort
      have hbehind := ih hshort.2 (fun b hb => hways (s :: b) (List.cons_prefix_cons.2 ⟨rfl, hb⟩))
        hrest
      exact follow_cons_eq_ok.2 ⟨hdirectory, .inr ⟨hidle, hshort.1, hbehind⟩⟩

/-! ### Where paths lead -/

/-- Where a path starts. -/
def start (fs : FileSystem) (path : String) : Place :=
  if Path.IsAbsolute path then [] else fs.workingDirectory

theorem isDirectory_start (fs : FileSystem) (path : String) :
    fs.isDirectory (fs.start path) = true := by
  rw [start]
  split
  · exact isDirectory_nil fs
  · exact isDirectory_workingDirectory fs

/-- The segment before the slash of an absolute path is idle like others. -/
theorem locate_eq_follow {path : String} (hne : path ≠ "")
    (hshort : path.utf8ByteSize ≤ longestPath) :
    fs.locate path = fs.follow (fs.start path) (Path.segments path.toList) := by
  rw [locate, if_neg (Nat.not_lt.2 hshort), start]
  split
  · next hpath =>
    refine absurd ?_ hne
    rw [← String.toList_eq_nil_iff, ← Path.ofSegments_segments path.toList, hpath]
    rfl
  · next rest hrest hpath =>
    have habsolute : Path.IsAbsolute path := by
      rw [Path.IsAbsolute, ← Path.ofSegments_segments path.toList, hpath,
        Path.ofSegments_cons [] hrest]
      rfl
    rw [if_pos habsolute, hpath, follow, isDirectory_nil]
    rfl
  · next hnil hroot =>
    obtain ⟨first, rest, hpath⟩ := List.exists_cons_of_ne_nil (Path.segments_ne_nil path.toList)
    have hfirst : first ≠ [] := by
      rintro rfl
      exact hroot rest hpath
    rw [if_neg (Path.not_isAbsolute hfirst hpath)]

end FileSystem

end Reactors

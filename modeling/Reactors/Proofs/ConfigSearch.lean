import Reactors.CommandLine.Run
import Reactors.Proofs.Places

/-!
# Looking for a configuration

The search for a configuration starts in the directory that the path of the design names and goes
on where the path leads without its last names.  It reads names off the text of the path and never
looks where it is, so that it ends when the names do, and two points count as a name like any
other.  What it finds is the first of the places it comes by that has a configuration.

## Main definitions

* `beginnings` — the beginnings of a list, the longest first.
* `CommandLine.Opens` — a path opens a file.
* `CommandLine.searched` — the places that are searched for the configuration of a design.
* `CommandLine.Finds` — a search finds the configuration in a directory, or none.

## Main results

* `CommandLine.Surveys.locate_join` — the file that is looked for in a directory.
* `CommandLine.Surveys.finds` — the search from a directory.
* `CommandLine.Opens.finds` — the search for the configuration of a design.
-/

namespace Reactors

/-! ### Beginnings -/

/-- The beginnings of a list, the longest first, and no more of them than there may be. -/
def beginnings {α : Type} (count : Nat) (l : List α) : List (List α) := l.inits.reverse.take count

section Beginnings

variable {α : Type}

/-- The list itself comes first, then the beginnings of the list without its last item. -/
theorem beginnings_succ (count : Nat) (l : List α) : beginnings (count + 1) l =
    l :: if l = [] then [] else beginnings count l.dropLast := by
  rcases List.eq_nil_or_concat l with rfl | ⟨l, a, rfl⟩
  · simp [beginnings]
  · rw [List.concat_eq_append, if_neg (by simp), List.dropLast_concat, beginnings,
      List.inits_append, List.reverse_append]
    rfl

theorem beginnings_one (l : List α) : beginnings 1 l = [l] := by
  rw [beginnings_succ, beginnings, List.take_zero, ite_self]

theorem prefix_of_mem_beginnings {count : Nat} {l b : List α} (h : b ∈ beginnings count l) :
    b <+: l :=
  (List.mem_inits b l).1 (List.mem_reverse.1 (List.mem_of_mem_take h))

end Beginnings

namespace CommandLine

open FileSystem (IsShort)

variable {fs : FileSystem} {directory : String}

/-- Looking for a configuration in a directory and around it, one does not get lost. -/
structure Surveys (fs : FileSystem) (directory : String) : Prop where
  room : directory.utf8ByteSize + 1 + configName.utf8ByteSize ≤ FileSystem.longestPath
  short : ∀ s ∈ Path.names directory, IsShort s
  ways : ∀ b, b <+: Path.names directory →
    fs.isDirectory (Place.after (fs.start directory) b) = true

/-- The place to which a directory leads. -/
def placeOf (fs : FileSystem) (directory : String) : Place :=
  Place.after (fs.start directory) (Path.names directory)

theorem start_parent {around : String} (fs : FileSystem)
    (haround : Path.parent? directory = some around) : fs.start around = fs.start directory := by
  simp only [FileSystem.start, Path.isAbsolute_parent? haround]

theorem Surveys.parent {around : String} (h : Surveys fs directory)
    (haround : Path.parent? directory = some around) : Surveys fs around := by
  have hbegins : Path.names around <+: Path.names directory :=
    Path.names_parent? haround ▸ List.dropLast_prefix _
  refine ⟨?_, fun s hs => h.short s (hbegins.subset hs), fun b hb => ?_⟩
  · have := Path.utf8ByteSize_parent?_lt haround
    have := h.room
    omega
  · rw [start_parent fs haround]
    exact h.ways b (hb.trans hbegins)

theorem segments_configName : Path.segments configName.toList = [configName.toList] :=
  Path.segments_of_not_mem (by decide)

theorem not_isAbsolute_configName : ¬ Path.IsAbsolute configName := by decide

/-- The file that is looked for lies in the directory. -/
theorem Surveys.locate_join (h : Surveys fs directory) :
    fs.locate (Path.join directory configName) = .ok (placeOf fs directory ++ [configName]) := by
  obtain ⟨ss, hjoin, hnames⟩ := Path.exists_segments_join directory configName
  rw [segments_configName] at hjoin
  have hne : Path.join directory configName ≠ "" := by
    intro hnil
    have hmem : configName.toList ∈ Path.segments (Path.join directory configName).toList := by
      rw [hjoin]
      exact List.mem_append_right _ List.mem_cons_self
    rw [hnil] at hmem
    cases List.eq_of_mem_singleton hmem
  have hsize := (Path.utf8ByteSize_join_le directory configName).trans h.room
  have hstart : fs.start (Path.join directory configName) = fs.start directory := by
    simp only [FileSystem.start, Path.isAbsolute_join directory not_isAbsolute_configName]
  rw [FileSystem.locate_eq_follow hne hsize, hjoin, hstart]
  -- the names of the directory are followed first, and that of the file is one step more
  refine FileSystem.follow_append_of_directories (hnames ▸ h.short) (hnames ▸ h.ways) ?_
  rw [hnames]
  refine FileSystem.follow_cons_eq_ok.2 ⟨h.ways _ List.prefix_rfl, .inr ⟨by decide, ?_, ?_⟩⟩
  · exact .inr (by decide +kernel)
  · rw [Place.step_of_ne (by decide), String.ofList_toList]
    rfl

/-! ### Looking around -/

/-- There is something under the name of a configuration in a directory. -/
def hasConfig (fs : FileSystem) (d : Place) : Bool :=
  (fs.file? (d ++ [configName])).isSome || fs.isDirectory (d ++ [configName])

/-- Looking around finds the path of the configuration in this directory, or none. -/
def Finds (fs : FileSystem) (search : StateM FileSystem (Option String)) (d : Option Place) :
    Prop :=
  ∃ path, search.run fs = (path, fs) ∧
    path.map fs.locate = d.map fun d => .ok (d ++ [configName])

theorem Finds.unique {search : StateM FileSystem (Option String)} {d d' : Option Place}
    (h : Finds fs search d) (h' : Finds fs search d') : d = d' := by
  obtain ⟨path, hrun, hpath⟩ := h
  obtain ⟨path', hrun', hpath'⟩ := h'
  obtain rfl : path = path' := congrArg Prod.fst (hrun.symm.trans hrun')
  have hinjective : Function.Injective
      fun d : Place => (.ok (d ++ [configName]) : Except FileError Place) := fun _ _ heq =>
    List.append_cancel_right (Except.ok.inj heq)
  exact Option.map_injective hinjective (hpath.symm.trans hpath')

theorem Surveys.isPresent_join (h : Surveys fs directory) :
    fs.isPresent (Path.join directory configName) = hasConfig fs (placeOf fs directory) := by
  rw [FileSystem.isPresent, h.locate_join]
  rfl

theorem run_findConfigFrom (fs : FileSystem) (levels : Nat) (directory : String) :
    (findConfigFrom FileSystem.access (levels + 1) directory).run fs =
      if fs.isPresent (Path.join directory configName) then
        (some (Path.join directory configName), fs)
      else match Path.parent? directory with
        | some around => (findConfigFrom FileSystem.access levels around).run fs
        | none => (none, fs) := by
  show (if fs.isPresent (Path.join directory configName) then _ else _ :
    StateM FileSystem (Option String)).run fs = _
  split
  · rfl
  · cases Path.parent? directory <;> rfl

/-- The configuration is found in the first directory that has one, among that of the path and those
that the path leads to without its last names. -/
theorem Surveys.finds (h : Surveys fs directory) (levels : Nat) :
    Finds fs (findConfigFrom FileSystem.access levels directory)
      (((beginnings levels (Path.names directory)).map (Place.after (fs.start directory))).find?
        (hasConfig fs)) := by
  induction levels generalizing directory with
  | zero => exact ⟨none, rfl, rfl⟩
  | succ levels ih =>
    rw [Finds, run_findConfigFrom, h.isPresent_join, beginnings_succ, List.map_cons, ← placeOf]
    cases hconfig : hasConfig fs (placeOf fs directory) with
    | true =>
      rw [List.find?_cons_of_pos hconfig]
      exact ⟨_, rfl, congrArg some h.locate_join⟩
    | false =>
      have hhere : ¬ hasConfig fs (placeOf fs directory) = true := by simp [hconfig]
      rw [List.find?_cons_of_neg hhere, if_neg Bool.false_ne_true]
      cases haround : Path.parent? directory with
      | none =>
        rw [if_pos (Path.names_of_parent?_eq_none haround)]
        exact ⟨none, rfl, rfl⟩
      | some around =>
        have hfinds := ih (h.parent haround)
        rw [start_parent fs haround, Path.names_parent? haround] at hfinds
        by_cases hnil : Path.names directory = []
        · -- without names to leave out, the search stays where it is and finds nothing
          have hnone : ((beginnings levels (Path.names directory).dropLast).map
              (Place.after (fs.start directory))).find? (hasConfig fs) = none := by
            rw [List.find?_eq_none]
            intro d hd
            obtain ⟨b, hb, rfl⟩ := List.mem_map.1 hd
            have hbegins := prefix_of_mem_beginnings hb
            rw [hnil, List.dropLast_nil, List.prefix_nil] at hbegins
            rwa [hbegins, ← hnil]
          rw [if_pos hnil]
          rw [hnone] at hfinds
          exact hfinds
        · rw [if_neg hnil]
          exact hfinds

/-! ### Designs -/

/-- A path opens a file at a place. -/
structure Opens (fs : FileSystem) (path : String) (place : Place) : Prop where
  leads : fs.locate path = .ok place
  file : (fs.file? place).isSome = true
  noDirectory : fs.isDirectory place = false

/-- The names of the directories on the way to the file of a path. -/
def directories (path : String) : List (List Char) := (Path.names path).dropLast

/-- The places that are searched for a configuration of a design. -/
def searched (fs : FileSystem) (design : String) : List Place :=
  (beginnings 3 (directories design)).map (Place.after (fs.start design))

theorem Opens.ne_empty {path : String} {place : Place} (h : Opens fs path place) : path ≠ "" := by
  rintro rfl
  cases h.leads

theorem Opens.follow {path : String} {place : Place} (h : Opens fs path place) :
    fs.follow (fs.start path) (Path.segments path.toList) = .ok place := by
  have hsize : path.utf8ByteSize ≤ FileSystem.longestPath := by
    by_contra hlong
    have hleads := h.leads
    rw [FileSystem.locate, if_pos (Nat.not_le.1 hlong)] at hleads
    cases hleads
  rw [← FileSystem.locate_eq_follow h.ne_empty hsize]
  exact h.leads

/-- A path that opens a file ends in the name of the file; in front of it stand the names of
directories. -/
theorem Opens.exists_name {path : String} {place : Place} (h : Opens fs path place) :
    ∃ name, Path.names path = directories path ++ [name] ∧
      place = Place.after (fs.start path) (directories path) ++ [String.ofList name] ∧
      (∀ s ∈ directories path, IsShort s) ∧
      ∀ b, b <+: directories path → fs.isDirectory (Place.after (fs.start path) b) = true := by
  obtain ⟨hplace, hshort, hways⟩ := FileSystem.follow_eq_ok h.follow
  rcases List.eq_nil_or_concat (Path.names path) with hnil | ⟨before, name, hnames⟩
  · -- without names, the path leads to a directory
    have hdirectory := FileSystem.isDirectory_start fs path
    rw [← Path.names, hnil] at hplace
    exact absurd (hplace ▸ h.noDirectory) (by rw [Place.after, List.foldl_nil, hdirectory]; simp)
  · rw [List.concat_eq_append] at hnames
    rw [directories, hnames, List.dropLast_concat]
    rw [← Path.names, hnames] at hplace hshort hways
    have hbefore : ∀ b, b <+: before → fs.isDirectory (Place.after (fs.start path) b) = true := by
      rintro b ⟨rest, rfl⟩
      cases rest with
      | nil => exact hways b name ⟨[], by simp⟩
      | cons s rest => exact hways b s ⟨rest ++ [name], by simp⟩
    have hname : name ≠ ['.', '.'] := by
      -- two points at the end lead to a directory
      rintro rfl
      have hdirectory := FileSystem.isDirectory_of_prefix (List.dropLast_prefix _)
        (hbefore before List.prefix_rfl)
      rw [Place.after_concat, Place.step, if_pos rfl] at hplace
      exact absurd (hplace ▸ h.noDirectory) (by rw [hdirectory]; simp)
    rw [Place.after_concat, Place.step_of_ne hname] at hplace
    exact ⟨name, rfl, hplace, fun s hs => hshort s (List.mem_append_left _ hs), hbefore⟩

/-- The directory of the file of a design is where the search starts. -/
theorem Opens.surveys {design : String} {place : Place} (h : Opens fs design place)
    (hroom : design.utf8ByteSize + configName.utf8ByteSize ≤ FileSystem.longestPath) :
    ∃ directory, Path.parent? design = some directory ∧ Surveys fs directory ∧
      Path.names directory = directories design ∧ fs.start directory = fs.start design := by
  obtain ⟨name, hnames, -, hshort, hways⟩ := h.exists_name
  cases hparent : Path.parent? design with
  | none =>
    rw [Path.names_of_parent?_eq_none hparent] at hnames
    exact absurd hnames.symm (by simp)
  | some directory =>
    have hdirectories : Path.names directory = directories design := Path.names_parent? hparent
    have hstart := start_parent fs hparent
    refine ⟨directory, rfl, ⟨?_, hdirectories ▸ hshort, ?_⟩, hdirectories, hstart⟩
    · have := Path.utf8ByteSize_parent?_lt hparent
      omega
    · rw [hstart, hdirectories]
      exact hways

theorem run_findConfig (fs : FileSystem) (design : String) :
    (findConfig FileSystem.access design).run fs =
      if fs.isFile design then
        match Path.parent? design with
        | some directory => (findConfigFrom FileSystem.access 3 directory).run fs
        | none => (none, fs)
      else (findConfigFrom FileSystem.access 3 design).run fs := by
  show (if fs.isFile design then _ else _ : StateM FileSystem (Option String)).run fs = _
  split
  · cases Path.parent? design <;> rfl
  · rfl

/-- The configuration of a design is found in the first of the searched directories that has
one. -/
theorem Opens.finds {design : String} {place : Place} (h : Opens fs design place)
    (hroom : design.utf8ByteSize + configName.utf8ByteSize ≤ FileSystem.longestPath) :
    Finds fs (findConfig FileSystem.access design)
      ((searched fs design).find? (hasConfig fs)) := by
  obtain ⟨directory, hparent, hsurveys, hnames, hstart⟩ := h.surveys hroom
  have hfile : fs.isFile design = true := by
    rw [FileSystem.isFile, h.leads]
    exact h.file
  have hfinds := hsurveys.finds 3
  rw [hnames, hstart] at hfinds
  rw [Finds, run_findConfig, if_pos hfile, hparent]
  exact hfinds

end CommandLine
end Reactors

import Reactors.Proofs.ConfigSearch
import Reactors.Proofs.Levels

/-!
# The configuration of a design

Without a named configuration, a design is elaborated under the one that the search finds, or under
the default one.  The directory of the design is always searched first.  The two around it are
searched behind it if the path leads straight into the design: it tells two directories in front of
the file, or starts at the root, and the last two that it tells do not lead back.  Then the
configuration depends on the place of the design alone, and two such paths to one design select the
same.

For other paths the search is a different one.  It ends with the names of a path that starts in the
working directory, whatever directories lie around that; and where two points lead back, it goes on
in the directory that they lead out of, which does not lie around the design.

The file systems here have no symbolic links, so the names of a path that leads straight into a
design are those of the directories around it.  With a link among the last two, the search would
follow the names and not the directories.

## Main definitions

* `Place.around` — a directory and the two around it.
* `CommandLine.Direct` — paths that lead straight into a design.
* `CommandLine.configOf` — the configuration in a directory, or the default one.
* `CommandLine.Uses` — a design is elaborated under the configuration in a directory.
* `CommandLine.loadedTimers` — the timers that a design has under the configuration it is given.

## Main results

* `CommandLine.searched_eq_around` — what is searched for a path that leads straight into a design.
* `CommandLine.Finds.uses` — what is found is used.
* `CommandLine.config_used_near_design` — the configuration of a design.
* `CommandLine.lamp_config_missed` — paths that do not lead straight into a design.
-/

namespace Reactors

/-- A directory and the two around it, as far as there are any. -/
def Place.around (directory : Place) : List Place := beginnings 3 directory

namespace CommandLine

variable {fs : FileSystem} {design : String} {place : Place} {d : Option Place}

/-! ### Paths that lead straight into a design -/

/-- A path that leads straight into a design. -/
structure Direct (fs : FileSystem) (path : String) : Prop where
  /-- The path tells two directories in front of the file, unless it starts at the root. -/
  enough : fs.start path = [] ∨ 2 ≤ (directories path).length
  /-- The last two directories that it tells do not lead back. -/
  inward : ∀ s ∈ (directories path).reverse.take 2, s ≠ ['.', '.']

/-- The directory of a file is where the names in front of its name lead. -/
theorem Opens.dropLast_eq {path : String} (h : Opens fs path place) :
    place.dropLast = Place.after (fs.start path) (directories path) := by
  obtain ⟨name, -, hplace, -, -⟩ := h.exists_name
  rw [hplace, List.dropLast_concat]

/-- The directory of a design is searched first. -/
theorem Opens.head?_searched (h : Opens fs design place) :
    (searched fs design).head? = some place.dropLast := by
  rw [searched, beginnings_succ, List.map_cons, List.head?_cons, h.dropLast_eq]

theorem beginnings_after_concat {count : Nat} {names : List (List Char)} {name : List Char}
    (start : Place) (hname : name ≠ ['.', '.']) :
    beginnings (count + 1) (Place.after start (names ++ [name])) =
      Place.after start (names ++ [name]) :: beginnings count (Place.after start names) := by
  rw [Place.after_concat, Place.step_of_ne hname, beginnings_succ, if_neg (by simp),
    List.dropLast_concat]

/-- Names that lead inward can be left out one by one to get from a place to those around it. -/
theorem map_after_beginnings {start : Place} (count : Nat) {names : List (List Char)}
    (henough : start = [] ∨ count ≤ names.length)
    (hinward : ∀ s ∈ names.reverse.take count, s ≠ ['.', '.']) :
    (beginnings (count + 1) names).map (Place.after start) =
      beginnings (count + 1) (Place.after start names) := by
  induction count generalizing names with
  | zero => rw [beginnings_one, beginnings_one, List.map_singleton]
  | succ count ih =>
    rcases List.eq_nil_or_concat names with rfl | ⟨outer, inner, rfl⟩
    · have hroot : start = [] := by simpa using henough
      rw [hroot]
      rfl
    · simp only [List.concat_eq_append, List.reverse_append, List.reverse_singleton,
        List.singleton_append, List.take_succ_cons, List.forall_mem_cons, List.length_append,
        List.length_singleton, Nat.add_le_add_iff_right] at henough hinward ⊢
      rw [beginnings_succ, if_neg (by simp), List.dropLast_concat, List.map_cons,
        ih henough hinward.2, beginnings_after_concat start hinward.1]

/-- Behind the directory of a design, those around it are searched if the path leads straight into
it. -/
theorem searched_eq_around (h : Opens fs design place) (hdirect : Direct fs design) :
    searched fs design = Place.around place.dropLast := by
  rw [h.dropLast_eq]
  exact map_after_beginnings 2 hdirect.enough hdirect.inward

/-! ### The configuration that is used -/

/-- The configuration that the file in a directory holds. -/
def configIn (fs : FileSystem) (d : Place) : Except ConfigError Config :=
  match fs.file? (d ++ [configName]) with
  | some (some text) => Config.ofToml text
  | some none => .error (.file .notText)
  | none =>
    .error (.file (if fs.isDirectory (d ++ [configName]) then .isADirectory else .notFound))

/-- The configuration in a directory, or the default one, unless the file has none. -/
def configOf (fs : FileSystem) (d : Option Place) : Option Config :=
  d.elim (some {}) fun d => (configIn fs d).toOption

/-- Without a named configuration, a design is elaborated under the one in this directory, or under
the default one. -/
structure Uses (fs : FileSystem) (design : String) (d : Option Place) : Prop where
  found : Finds fs (findConfig FileSystem.access design) d
  loaded : ∃ result, (loadConfig FileSystem.access design none).run.run fs = (result, fs) ∧
    result.toOption = configOf fs d
  elaborated : ∃ result, (loadTree FileSystem.access design none).run.run fs = (result, fs) ∧
    result.toOption = ((Program.ofPath FileSystem.access design).run fs).1.toOption.bind fun p =>
      (configOf fs d).bind fun c => (elaborate p c).toOption

/-- A step that cannot fail, before others. -/
theorem run_monadLift_bind {ε σ α β : Type} {x : StateM σ α} {s s' : σ} {a : α}
    (h : x.run s = (a, s')) (f : α → ExceptT ε (StateM σ) β) :
    ((monadLift x : ExceptT ε (StateM σ) α) >>= f).run.run s = (f a).run.run s' := by
  have hbind : ((monadLift x : ExceptT ε (StateM σ) α) >>= f).run.run s =
      (f (x.run s).1).run.run (x.run s).2 := rfl
  rw [hbind, h]

/-- A step that could have failed, before others. -/
theorem run_bind_ok {ε σ α β : Type} {x : ExceptT ε (StateM σ) α} {s s' : σ} {a : α}
    (h : x.run.run s = (.ok a, s')) (f : α → ExceptT ε (StateM σ) β) :
    (x >>= f).run.run s = (f a).run.run s' := by
  rw [ExceptT.run_bind, StateT.run_bind, h]
  rfl

/-- A step that failed, before others. -/
theorem run_bind_error {ε σ α β : Type} {x : ExceptT ε (StateM σ) α} {s s' : σ} {e : ε}
    (h : x.run.run s = (.error e, s')) (f : α → ExceptT ε (StateM σ) β) :
    (x >>= f).run.run s = (.error e, s') := by
  rw [ExceptT.run_bind, StateT.run_bind, h]
  rfl

/-- What is done with a text that is read from a file. -/
theorem run_read_bind {β : Type} (fs : FileSystem) (path : String)
    (f : Except FileError String → StateM FileSystem β) :
    (FileSystem.access.read path >>= f).run fs = (f (fs.read path)).run fs :=
  rfl

theorem run_configOfPath {path : String} {d : Place}
    (h : fs.locate path = .ok (d ++ [configName])) :
    (Config.ofPath FileSystem.access path).run fs = (configIn fs d, fs) := by
  have hread : fs.read path = match fs.file? (d ++ [configName]) with
      | some (some text) => .ok text
      | some none => .error .notText
      | none =>
        .error (if fs.isDirectory (d ++ [configName]) then .isADirectory else .notFound) := by
    rw [FileSystem.read, h]
    rfl
  rw [Config.ofPath, run_read_bind, hread, configIn]
  rcases fs.file? (d ++ [configName]) with _ | _ | text <;> rfl

theorem run_programOfPath (fs : FileSystem) (design : String) :
    ∃ read, (Program.ofPath FileSystem.access design).run fs = (read, fs) := by
  rw [Program.ofPath, run_read_bind]
  cases fs.read design <;> exact ⟨_, rfl⟩

theorem run_loadConfig_of_found {found : Option String}
    (h : (findConfig FileSystem.access design).run fs = (found, fs)) :
    (loadConfig FileSystem.access design none).run.run fs =
      match found with
      | none => (.ok {}, fs)
      | some path => (loadConfig FileSystem.access design (some path)).run.run fs := by
  refine (run_monadLift_bind h _).trans ?_
  cases found <;> rfl

theorem run_loadConfig_of_named {path : String} {d : Place}
    (h : fs.locate path = .ok (d ++ [configName])) :
    (loadConfig FileSystem.access design (some path)).run.run fs =
      ((configIn fs d).mapError fun e =>
        failed ("Failed to load configuration " ++ Text.quotedPath path) e.messages, fs) := by
  rw [loadConfig, pure_bind]
  refine (run_monadLift_bind (run_configOfPath h) _).trans ?_
  cases configIn fs d <;> rfl

theorem toOption_mapError {ε ε' α : Type} (f : ε → ε') (r : Except ε α) :
    (r.mapError f).toOption = r.toOption := by
  cases r <;> rfl

/-- The configuration that is found is loaded. -/
theorem Finds.run_loadConfig (h : Finds fs (findConfig FileSystem.access design) d) :
    ∃ result, (loadConfig FileSystem.access design none).run.run fs = (result, fs) ∧
      result.toOption = configOf fs d := by
  obtain ⟨path, hrun, hpath⟩ := h
  rw [run_loadConfig_of_found hrun]
  cases path with
  | none =>
    obtain rfl : d = none := Option.map_eq_none_iff.1 hpath.symm
    exact ⟨.ok {}, rfl, rfl⟩
  | some path =>
    obtain ⟨d, rfl, hd⟩ := Option.map_eq_some_iff.1 hpath.symm
    exact ⟨_, run_loadConfig_of_named hd.symm, toOption_mapError _ _⟩

/-- What is done with a program: it is elaborated under a configuration. -/
theorem run_loadTree {p : Program}
    (h : (Program.ofPath FileSystem.access design).run fs = (.ok p, fs)) :
    (loadTree FileSystem.access design none).run.run fs =
      (loadConfig FileSystem.access design none >>= fun c =>
        ExceptT.mk (pure ((elaborate p c).mapError fun e =>
          failed ("Failed to elaborate " ++ p.main) [e.message]))).run.run fs := by
  refine (run_monadLift_bind h _).trans ?_
  simp only [pure_bind]
  refine congrArg (fun x : ExceptT Report (StateM FileSystem) InstanceTree => x.run.run fs)
    (bind_congr fun c => ?_)
  cases elaborate p c <;> rfl

/-- The configuration that is found is used. -/
theorem Finds.uses (h : Finds fs (findConfig FileSystem.access design) d) : Uses fs design d := by
  refine ⟨h, h.run_loadConfig, ?_⟩
  obtain ⟨result, hload, hresult⟩ := h.run_loadConfig
  obtain ⟨read, hread⟩ := run_programOfPath fs design
  rw [hread, ← hresult]
  cases read with
  | error e => exact ⟨.error _, run_monadLift_bind hread _, rfl⟩
  | ok p =>
    rw [run_loadTree hread]
    cases result with
    | error report => exact ⟨.error _, run_bind_error hload _, rfl⟩
    | ok c => exact ⟨_, run_bind_ok hload _, toOption_mapError _ _⟩

/-- A design is elaborated under the configuration of the first searched directory that has one. -/
theorem Opens.uses_iff (h : Opens fs design place)
    (hroom : design.utf8ByteSize + configName.utf8ByteSize ≤ FileSystem.longestPath) :
    Uses fs design d ↔ d = (searched fs design).find? (hasConfig fs) := by
  have hfinds := h.finds hroom
  constructor
  · intro huses
    exact huses.found.unique hfinds
  · rintro rfl
    exact hfinds.uses

/-- **The configuration of a design.**  Without a named one, it is that of the first searched
directory that has one, or the default.  The directory of the design is searched first; if the path
leads straight into the design, then the search goes on with the two directories around that one and
ends there, so that all such paths to a design select the same.  What is said of straight paths
needs that a file system has no symbolic links: the names of the path must be those of the
directories around the design. -/
theorem config_used_near_design (hopens : Opens fs design place)
    (hroom : design.utf8ByteSize + configName.utf8ByteSize ≤ FileSystem.longestPath) :
    (∀ d, Uses fs design d ↔ d = (searched fs design).find? (hasConfig fs)) ∧
    (searched fs design).head? = some place.dropLast ∧
    (Direct fs design →
      ∀ d, Uses fs design d ↔ d = (Place.around place.dropLast).find? (hasConfig fs)) ∧
    ∀ other, Opens fs other place →
      other.utf8ByteSize + configName.utf8ByteSize ≤ FileSystem.longestPath →
      Direct fs design → Direct fs other → ∀ d, Uses fs design d ↔ Uses fs other d := by
  refine ⟨fun d => hopens.uses_iff hroom, hopens.head?_searched, fun hdirect d => ?_, ?_⟩
  · rw [hopens.uses_iff hroom, searched_eq_around hopens hdirect]
  · -- both paths are searched for around the same place
    intro other hother hroom' hdirect hdirect' d
    rw [hopens.uses_iff hroom, hother.uses_iff hroom', searched_eq_around hopens hdirect,
      searched_eq_around hother hdirect']

/-- The names of the timers in the tree of a design. -/
def loadedTimers (fs : FileSystem) (design : String) : Option (List String) :=
  ((loadTree FileSystem.access design none).run.run fs).1.toOption.map fun tree =>
    tree.timers.map (·.2.1.name)

/-- The timers of a design can be found out level by level, under the configuration it uses. -/
theorem Uses.loadedTimers_eq (h : Uses fs design d) :
    loadedTimers fs design =
      (((Program.ofPath FileSystem.access design).run fs).1.toOption.bind fun p =>
        (configOf fs d).bind fun c => (elaborateWithin p.reactors.length p c).toOption).map
          fun tree => tree.timers.map (·.2.1.name) := by
  obtain ⟨result, hrun, htree⟩ := h.elaborated
  rw [loadedTimers, hrun, htree]
  simp only [elaborate_eq_within]

/-- A design in the home directory, with configurations around it and beside it. -/
def lampFiles : FileSystem where
  files := [(["home", "work", "lamp", "d.json"],
      some "\x7b\"main\": \"Lamp\", \"reactor\": [\x7b\"name\": \"Lamp\"\x7d]\x7d"),
    (["home", "relab.toml"], some "startup_name = \"begin\""),
    (["home", "work", "lamp", "bulb", "relab.toml"], some "startup_name = \"glow\"")]
  workingDirectory := ["home", "work", "lamp"]

/-- The configuration two directories above that of the design is used, whichever way the path takes
before it leads straight into the design. -/
theorem lamp_config_used :
    Opens lampFiles "/home/work/lamp/d.json" ["home", "work", "lamp", "d.json"] ∧
    Uses lampFiles "/home/work/lamp/d.json" (some ["home"]) ∧
    loadedTimers lampFiles "/home/work/lamp/d.json" = some ["begin"] ∧
    ∀ d, Uses lampFiles "/home/work/lamp/d.json" d ↔
      Uses lampFiles "../..//work/./lamp/d.json" d := by
  have hopens : Opens lampFiles "/home/work/lamp/d.json" ["home", "work", "lamp", "d.json"] :=
    ⟨by rfl, by decide +kernel, by decide +kernel⟩
  have hother : Opens lampFiles "../..//work/./lamp/d.json" ["home", "work", "lamp", "d.json"] :=
    ⟨by rfl, by decide +kernel, by decide +kernel⟩
  have hdirect : Direct lampFiles "/home/work/lamp/d.json" :=
    ⟨by decide +kernel, by decide +kernel⟩
  have hdirect' : Direct lampFiles "../..//work/./lamp/d.json" :=
    ⟨by decide +kernel, by decide +kernel⟩
  have hfound : (Place.around ["home", "work", "lamp"]).find? (hasConfig lampFiles) =
      some ["home"] := by decide +kernel
  obtain ⟨-, -, hused, hsame⟩ := config_used_near_design hopens (by decide +kernel)
  have huses : Uses lampFiles "/home/work/lamp/d.json" (some ["home"]) :=
    (hused hdirect _).2 hfound.symm
  refine ⟨hopens, huses, ?_, hsame _ hother (by decide +kernel) hdirect hdirect'⟩
  rw [huses.loadedTimers_eq]
  decide +kernel

/-- The configuration around the design is not used if the path tells the file only, and one beside
the design is if the path takes the way through its directory. -/
theorem lamp_config_missed : Opens lampFiles "d.json" ["home", "work", "lamp", "d.json"] ∧
    Opens lampFiles "bulb/../d.json" ["home", "work", "lamp", "d.json"] ∧
    (Place.around ["home", "work", "lamp"]).find? (hasConfig lampFiles) = some ["home"] ∧
    Uses lampFiles "d.json" none ∧ ¬ Uses lampFiles "d.json" (some ["home"]) ∧
    Uses lampFiles "bulb/../d.json" (some ["home", "work", "lamp", "bulb"]) ∧
    ¬ Uses lampFiles "bulb/../d.json" (some ["home"]) ∧
    loadedTimers lampFiles "d.json" = some ["startup"] ∧
    loadedTimers lampFiles "bulb/../d.json" = some ["glow"] := by
  have hopens : Opens lampFiles "d.json" ["home", "work", "lamp", "d.json"] :=
    ⟨by rfl, by decide +kernel, by decide +kernel⟩
  have hother : Opens lampFiles "bulb/../d.json" ["home", "work", "lamp", "d.json"] :=
    ⟨by rfl, by decide +kernel, by decide +kernel⟩
  have hnone : (searched lampFiles "d.json").find? (hasConfig lampFiles) = none := by
    decide +kernel
  have hbeside : (searched lampFiles "bulb/../d.json").find? (hasConfig lampFiles) =
      some ["home", "work", "lamp", "bulb"] := by decide +kernel
  have huses : ∀ d, Uses lampFiles "d.json" d ↔ d = none := fun d => by
    rw [hopens.uses_iff (by decide +kernel), hnone]
  have huses' : ∀ d, Uses lampFiles "bulb/../d.json" d ↔
      d = some ["home", "work", "lamp", "bulb"] := fun d => by
    rw [hother.uses_iff (by decide +kernel), hbeside]
  refine ⟨hopens, hother, by decide +kernel, (huses _).2 rfl, fun h => ?_, (huses' _).2 rfl,
    fun h => ?_, ?_, ?_⟩
  · cases (huses _).1 h
  · cases (huses' _).1 h
  · rw [((huses _).2 rfl).loadedTimers_eq]
    decide +kernel
  · rw [((huses' _).2 rfl).loadedTimers_eq]
    decide +kernel

end CommandLine
end Reactors

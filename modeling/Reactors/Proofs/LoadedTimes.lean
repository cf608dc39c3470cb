import Reactors.Config.Loading
import Reactors.Proofs.CheckedTimes
import Reactors.Proofs.ReadValues
import Reactors.Proofs.StoredTrees
import Reactors.Proofs.Timings

/-!
# Times of loaded designs

Only zero may stand without a unit.  Nothing in a time itself says so: the rule is checked where a
time is read, be it in a design, as a text in a configuration, or as a structure there.  All times
of an elaborated tree come from these places, through overrides and references at whatever depth of
arrays, or are zero.  So the rule holds in the tree of every design that was read from a text, and
each of its times can be written, as a text and as a document, and read again.

## Main definitions

* `Expr.Measured`, `Program.Measured`, `Config.Measured` — all times in something keep the rule on
  units.

## Main results

* `Program.yields_exprs` — properties of expressions reach the programs that are read.
* `Program.yields_measured`, `Config.yields_measured` — the times of programs and configurations
  that are read.
* `mem_times_of_elaborate` — where the times of a tree come from.
* `elaborate_loaded_times_measured` — the times of the tree of a loaded design.
-/

namespace Reactors

/-! ### Times that are read -/

namespace TimeValue

theorem measured_of_checked {magnitude : Int64} {unit : TimeUnit} {t : TimeValue}
    (h : checked magnitude unit = .ok t) : t.Measured := by
  obtain ⟨rfl, hmeasured⟩ := checked_eq_ok (t := ⟨magnitude, unit⟩).1 h
  exact hmeasured

/-- A time that is read from a document keeps the rule on units. -/
theorem yields_measured : codec.Yields Measured :=
  (Codec.yields_true _).checked fun _ _ _ hcheck => measured_of_checked (mapError_eq_ok.1 hcheck)

/-- So does one that is read from a text. -/
theorem measured_of_read {text : String} {t : TimeValue} (h : read text = .ok t) : t.Measured := by
  unfold read at h
  dsimp only at h
  split at h
  · cases h
  · obtain ⟨magnitude, -, h⟩ := bind_eq_ok.1 h
    obtain ⟨unit, -, h⟩ := bind_eq_ok.1 h
    exact measured_of_checked h

/-- A time that keeps the rule on units is read back from its texts. -/
theorem decode_of_measured {t : TimeValue} (h : t.Measured) :
    ∀ text ∈ [Json.encode codec t, Json.encodePretty codec t], Json.decode codec text = .ok t := by
  intro text htext
  rw [decode_encode_eq t text htext, checked_of_measured h]
  rfl

end TimeValue

/-! ### Expressions that are read -/

namespace Expr

/-- All times in an expression keep the rule on units. -/
def Measured (x : Expr) : Prop := ∀ t ∈ x.times, t.Measured

theorem measured_of_map {α : Type} {read : Except DecodeError α} {wrap : α → Expr} {x : Expr}
    (hwrap : ∀ a, (wrap a).times = []) (h : read.map wrap = .ok x) : x.Measured := by
  obtain ⟨a, -, rfl⟩ := map_eq_ok.1 h
  rw [Measured, hwrap]
  exact fun _ ht => by cases ht

theorem measured_of_readScalar {dialect : Dialect} {tag : String} {d : Document} {x : Expr}
    (h : readScalar dialect tag d = .ok x) : x.Measured := by
  unfold readScalar at h
  -- of all tags only the fifth is that of a time, and the last one is none
  split at h
  case h_5 =>
    obtain ⟨t, ht, rfl⟩ := map_eq_ok.1 h
    exact List.forall_mem_singleton.2 (TimeValue.yields_measured dialect d t ht)
  case h_8 => cases h
  all_goals exact measured_of_map (fun _ => rfl) h

/-- The items of a list are expressions as well, however deep they stand. -/
theorem yields_measured : codec.Yields Measured := by
  intro dialect
  -- a document is the table of a list, that of a scalar, or no expression at all
  refine Expr.read.induct (fun d => ∀ x, read dialect d = .ok x → x.Measured)
    (fun ds => ∀ xs, readItems dialect ds = .ok xs → ∀ t ∈ itemTimes xs, t.Measured)
    ?_ ?_ ?_ ?_ ?_
  · intro items rest ih x h
    rw [read] at h
    obtain ⟨-, -, h⟩ := bind_eq_ok.1 h
    obtain ⟨xs, hxs, h⟩ := bind_eq_ok.1 h
    obtain ⟨-, -, h⟩ := bind_eq_ok.1 h
    cases h
    exact ih xs hxs
  · intro tag d rest hlist x h
    rw [read] at h
    · obtain ⟨-, -, h⟩ := bind_eq_ok.1 h
      obtain ⟨y, hy, h⟩ := bind_eq_ok.1 h
      obtain ⟨-, -, h⟩ := bind_eq_ok.1 h
      cases h
      exact measured_of_readScalar hy
    · exact hlist
  · intro d hlist htagged x h
    rw [read] at h
    · cases h
    · exact hlist
    · exact htagged
  · intro xs h
    cases h
    exact fun _ ht => by cases ht
  · intro d ds ih ihs xs h
    rw [readItems] at h
    obtain ⟨y, hy, h⟩ := bind_eq_ok.1 h
    obtain ⟨ys, hys, h⟩ := bind_eq_ok.1 h
    cases h
    exact List.forall_mem_append.2 ⟨ih y hy, ihs ys hys⟩

end Expr

/-! ### Programs that are read -/

section

variable {P : Expr → Prop} (h : Expr.codec.Yields P)

include h

theorem ParameterDecl.yields_default : codec.Yields fun d => P d.default :=
  .ofFields
    (.cons (Field.yields_true _) <|
     .cons (Field.yields_true _) <|
     .cons (.required h) Fields.yields_nil)
    fun (_, _, _, ()) ⟨_, _, hdefault, _⟩ => hdefault

theorem Site.yields_overrides : codec.Yields fun s => ∀ x ∈ s.overrides.values, P x :=
  .ofFields
    (.cons (Field.yields_true _) <|
     .cons (Field.yields_true _) <|
     .cons (.withDefault h.orderedMap fun _ hx => by cases hx) Fields.yields_nil)
    fun (_, _, _, ()) ⟨_, _, hoverrides, _⟩ => hoverrides

theorem TimerDecl.yields_fields : codec.Yields fun d => ∀ x ∈ d.fields, P x :=
  .ofFields
    (.cons (Field.yields_true _) <|
     .cons (.optional h) <|
     .cons (.optional h) Fields.yields_nil)
    fun (_, _, _, ()) hrow => by simpa [fields, or_imp, forall_and] using hrow

theorem ActionDecl.yields_fields : codec.Yields fun d => ∀ x ∈ d.fields, P x :=
  .ofFields
    (.cons (Field.yields_true _) <|
     .cons (Field.yields_true _) <|
     .cons (.optional h) <|
     .cons (.optional h) <|
     .cons (Field.yields_true _) Fields.yields_nil)
    fun (_, _, _, _, _, ()) hrow => by simpa [fields, or_imp, forall_and] using hrow

theorem PortDecl.yields_width : codec.Yields fun d => ∀ x ∈ d.width.toList, P x :=
  .ofFields
    (.cons (Field.yields_true _) <|
     .cons (Field.yields_true _) <|
     .cons (.optional h) Fields.yields_nil)
    fun (_, _, _, ()) hrow => by simpa using hrow

/-- What holds of all expressions that are read holds of the expressions of a definition that is
read. -/
theorem ReactorDecl.yields_exprs : codec.Yields fun r => ∀ x ∈ r.exprs, P x := by
  refine .ofFields
    (.cons (Field.yields_true _) <|
     .cons (.repeated (ParameterDecl.yields_default h)) <|
     .cons (.repeated (PortDecl.yields_width h)) <|
     .cons (.repeated (PortDecl.yields_width h)) <|
     .cons (.repeated (TimerDecl.yields_fields h)) <|
     .cons (.repeated (ActionDecl.yields_fields h)) <|
     .cons (.repeated (Site.yields_overrides h)) Fields.yields_nil) ?_
  rintro ⟨_, _, _, _, _, _, _, ⟨⟩⟩
    ⟨-, hdefaults, hinputs, houtputs, htimers, hactions, hsites, -⟩
  simp only [exprs, widths, timingFields, List.forall_mem_append, List.forall_mem_map,
    List.forall_mem_flatMap]
  exact ⟨⟨⟨hdefaults, hinputs, houtputs⟩, htimers, hactions⟩, hsites⟩

theorem Program.yields_exprs : codec.Yields fun p => ∀ x ∈ p.exprs, P x :=
  .ofFields
    (.cons (Field.yields_true _) <|
     .cons (.repeated (ReactorDecl.yields_exprs h)) Fields.yields_nil)
    fun (_, _, ()) ⟨_, hreactors, _⟩ => List.forall_mem_flatMap.2 hreactors

end

namespace Program

/-- All times in a program keep the rule on units. -/
def Measured (p : Program) : Prop := ∀ t ∈ p.times, t.Measured

theorem yields_measured : codec.Yields Measured :=
  (yields_exprs Expr.yields_measured).imp fun _ => List.forall_mem_flatMap.2

/-- A program that is read from a text keeps the rule on units. -/
theorem measured_of_ofToml {text : String} {p : Program} (h : ofToml text = .ok p) : p.Measured :=
  yields_measured.toml (mapError_eq_ok.1 h)

theorem measured_of_ofJson {text : String} {p : Program} (h : ofJson text = .ok p) : p.Measured :=
  yields_measured.json (mapError_eq_ok.1 h)

end Program

/-! ### Configurations that are read -/

namespace Config

theorem yields_measured_timeCodec : timeCodec.Yields TimeValue.Measured := by
  intro dialect d t h
  unfold timeCodec at h
  dsimp only at h
  split at h
  · exact TimeValue.measured_of_read (mapError_eq_ok.1 h)
  · exact TimeValue.yields_measured _ _ t (mapError_eq_ok.1 h)

/-- The defaults of a configuration keep the rule on units. -/
def Measured (c : Config) : Prop := ∀ t ∈ c.defaultTimes, t.Measured

theorem measured_iff {c : Config} :
    c.Measured ↔ c.defaultOffset.Measured ∧ c.defaultPeriod.Measured := by
  have hzero : TimeValue.zero.Measured := fun _ => rfl
  simp [Measured, defaultTimes, hzero]

theorem measured_default : Measured {} := measured_iff.2 ⟨fun _ => rfl, fun _ => rfl⟩

theorem yields_measured : codec.Yields Measured :=
  .ofFields
    (.cons (.withDefault yields_measured_timeCodec fun _ => rfl) <|
     .cons (.withDefault yields_measured_timeCodec fun _ => rfl) <|
     .cons (Field.yields_true _) <|
     .cons (Field.yields_true _) Fields.yields_nil)
    fun (_, _, _, _, ()) ⟨hoffset, hperiod, _⟩ => measured_iff.2 ⟨hoffset, hperiod⟩

/-- A configuration that is read from a text keeps the rule on units. -/
theorem measured_of_ofToml {text : String} {c : Config} (h : ofToml text = .ok c) :
    c.Measured := by
  obtain ⟨config, hread, h⟩ := bind_eq_ok.1 h
  obtain ⟨-, -, h⟩ := bind_eq_ok.1 h
  cases h
  exact yields_measured.toml (mapError_eq_ok.1 hread)

end Config

/-! ### Elaborated trees -/

/-- The times of an elaborated tree, in parameters and in triggers, are written in the program or
are defaults. -/
theorem mem_times_of_elaborate {p : Program} {config : Config} {tree : InstanceTree}
    (h : elaborate p config = .ok tree) :
    ∀ t ∈ tree.times, t ∈ p.times ∨ t ∈ config.defaultTimes := by
  unfold InstanceTree.times
  rw [List.forall_mem_flatMap]
  intro i hi
  obtain ⟨r, hr, -, htimed, hparameters⟩ := exists_timed h hi
  unfold Instance.times
  rw [List.forall_mem_append, List.forall_mem_flatMap]
  refine ⟨fun q hq t ht => Or.inl ?_, fun t ht => ?_⟩
  · obtain ⟨entry, hentry, rfl⟩ := List.mem_map.1 hq
    exact hparameters entry.1 entry.2 (OrderedMap.get?_eq_some_iff.2 hentry) t ht
  · rcases htimed.origin t ht with hdefault | ⟨x, hx, hxt⟩
    · exact Or.inr hdefault
    · -- the integer zero stands for the zero time, which counts as a default
      rcases Value.mem_times_of_asTime? hxt with rfl | hvalue
      · exact Or.inr (by simp [Config.defaultTimes])
      · refine Or.inl (Expr.times_valueIn hparameters x (fun t' ht' => ?_) t hvalue)
        refine Program.mem_times hr ?_ ht'
        simp only [ReactorDecl.exprs, List.mem_append]
        exact Or.inl (Or.inr hx)

/-- **The rule on units reaches the tree.**  In the tree of a program that was read from a text,
under a configuration that was read from a text or the default one, every time of a parameter, at
whatever depth of arrays, and of a trigger is zero if it stands without a unit.  So it is read back
from its own text, and from its stored form on one line or on several. -/
theorem elaborate_loaded_times_measured {p : Program} {config : Config} {tree : InstanceTree}
    (hp : ∃ text, Program.ofToml text = .ok p ∨ Program.ofJson text = .ok p)
    (hconfig : config = {} ∨ ∃ text, Config.ofToml text = .ok config)
    (h : elaborate p config = .ok tree) :
    ∀ t ∈ tree.times, (t.unit = .none → t.magnitude = 0) ∧ TimeValue.read t.text = .ok t ∧
      ∀ text ∈ [Json.encode TimeValue.codec t, Json.encodePretty TimeValue.codec t],
        Json.decode TimeValue.codec text = .ok t := by
  have hprogram : p.Measured := by
    obtain ⟨text, htoml | hjson⟩ := hp
    · exact Program.measured_of_ofToml htoml
    · exact Program.measured_of_ofJson hjson
  have hdefaults : config.Measured := by
    rcases hconfig with rfl | ⟨text, htext⟩
    · exact Config.measured_default
    · exact Config.measured_of_ofToml htext
  -- elaboration makes no times of its own
  intro t ht
  have hmeasured : t.Measured :=
    (mem_times_of_elaborate h t ht).elim (hprogram t) (hdefaults t)
  refine ⟨hmeasured, ?_, TimeValue.decode_of_measured hmeasured⟩
  rw [TimeValue.read_text]
  exact TimeValue.checked_eq_ok.2 ⟨rfl, hmeasured⟩

/-- A design with a timer that waits for a time with a unit. -/
def waitingSensor : String :=
  "\n".intercalate
    ["main = \"Sensor\"", "[[reactor]]", "name = \"Sensor\"", "[[reactor.timer]]",
      "name = \"tick\"", "offset.time.magnitude = 5", "offset.time.unit = \"msec\"", ""]

/-- A configuration with a period. -/
def slowPeriod : String := "default_period = \"3 sec\"\n"

/-- The times of both timers of the sensor are read back, of which the one that is declared has its
period from the configuration. -/
theorem waiting_sensor_measured : ∃ p config tree, Program.ofToml waitingSensor = .ok p ∧
    Config.ofToml slowPeriod = .ok config ∧ elaborate p config = .ok tree ∧
      tree.times.length = 4 ∧ ∀ t ∈ tree.times, TimeValue.read t.text = .ok t := by
  have hrun : ((Program.ofToml waitingSensor).toOption.any fun p =>
      (Config.ofToml slowPeriod).toOption.any fun config =>
        (elaborateWithin p.reactors.length p config).toOption.any fun tree =>
          tree.times.length = 4) = true := by decide +kernel
  cases hp : Program.ofToml waitingSensor with
  | error cause =>
    rw [hp] at hrun
    cases hrun
  | ok p =>
    cases hconfig : Config.ofToml slowPeriod with
    | error cause =>
      rw [hp, hconfig] at hrun
      cases hrun
    | ok config =>
      simp only [hp, hconfig, Except.toOption, Option.any_some, ← elaborate_eq_within] at hrun
      cases h : elaborate p config with
      | error cause =>
        rw [h] at hrun
        cases hrun
      | ok tree =>
        rw [h, Option.any_some, decide_eq_true_iff] at hrun
        have hread := elaborate_loaded_times_measured ⟨_, Or.inl hp⟩ (Or.inr ⟨_, hconfig⟩) h
        exact ⟨p, config, tree, rfl, rfl, h, hrun, fun t ht => (hread t ht).2.1⟩

end Reactors

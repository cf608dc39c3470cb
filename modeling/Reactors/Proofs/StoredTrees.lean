import Reactors.Instance.Dump
import Reactors.Proofs.NumberedTrees
import Reactors.Proofs.StoredValues

/-!
# Elaborated trees are read back

A stored tree is the list of its instances, and loading checks their links again.  An elaborated
tree passes these checks, apart from the one that no path comes twice.  So its text is read back
if the paths are distinct, the values and times in it can be stored, and the text is not nested
too deep for the reader, which arrays can be: a reference puts an array into another one.

## Main definitions

* `Instance.Counted` — the numbers in an instance are words of 64 bits.
* `InstanceTree.floats`, `InstanceTree.times` — the numbers and times in a tree.

## Main results

* `Instance.roundTrips`, `InstanceTree.roundTrips` — which instances and trees are read back.
* `InstanceTree.Numbered.linked_iff` — numbered trees are linked if their paths are distinct.
* `elaborate_round_trips` — which elaborated trees are read back from their texts.
-/

namespace Reactors

/-! ### Instances -/

namespace Instance

/-- The numbers of instances and the depth that are stored with an instance are words of
64 bits. -/
structure Counted (i : Instance) : Prop where
  id : i.id < UInt64.size
  parent : ∀ m ∈ i.parent, m < UInt64.size
  depth : i.depth < UInt64.size
  children : ∀ m ∈ i.children, m < UInt64.size
  owner : ∀ x ∈ i.triggers, x.parent < UInt64.size

/-- The floating point numbers in an instance: those in its parameters. -/
def floats (i : Instance) : List Binary64 := i.parameters.values.flatMap (·.value.floats)

/-- The times in an instance: those in its parameters and in its triggers. -/
def times (i : Instance) : List TimeValue :=
  i.parameters.values.flatMap (·.value.times) ++ i.triggers.flatMap (·.kind.times)

theorem storable_iff {i : Instance} :
    Storable i.floats i.times ↔
      (∀ p ∈ i.parameters.values, Storable p.value.floats p.value.times) ∧
        ∀ x ∈ i.triggers, ∀ t ∈ x.kind.times, t.Measured := by
  rw [← storable_flatMap, Storable, floats, times, List.forall_mem_append, ← and_assoc]
  refine and_congr Iff.rfl ?_
  simp only [List.mem_flatMap]
  constructor
  · exact fun h x hx t ht => h t ⟨x, hx, ht⟩
  · rintro h t ⟨x, hx, ht⟩
    exact h x hx t ht

/-- Instances are read back if their parameters and triggers are. -/
theorem roundTrips : codec.RoundTrips fun i => i.Counted ∧ Storable i.floats i.times := by
  refine (Codec.RoundTrips.ofFields
    (.cons Codec.roundTrips_natural (by decide) <|
     .cons Codec.roundTrips_text (by decide) <|
     .cons Codec.roundTrips_text (by decide) <|
     .cons (Codec.roundTrips_natural.option (Codec.notNull_of_integer fun _ => ⟨_, rfl⟩))
      (by decide) <|
     .cons Codec.roundTrips_natural (by decide) <|
     .cons Codec.roundTrips_text (by decide) <|
     .cons Codec.roundTrips_natural.list (by decide) <|
     .cons Parameter.roundTrips.orderedMap (by decide) <|
     .cons TriggerInstance.roundTrips.list (by decide) Fields.roundTrips_nil)
    fun _ => rfl).congr fun i => ?_
  rw [storable_iff]
  constructor
  · rintro ⟨hid, -, -, hparent, hdepth, -, hchildren, hparameters, htriggers, -⟩
    exact ⟨⟨hid, hparent, hdepth, hchildren, fun x hx => (htriggers x hx).1⟩, hparameters,
      fun x hx => (htriggers x hx).2⟩
  · rintro ⟨hcounted, hparameters, htriggers⟩
    exact ⟨hcounted.id, trivial, trivial, hcounted.parent, hcounted.depth, trivial,
      hcounted.children, hparameters, fun x hx => ⟨hcounted.owner x hx, htriggers x hx⟩, trivial⟩

end Instance

/-! ### Trees -/

namespace InstanceTree

/-- The floating point numbers in a tree. -/
def floats (t : InstanceTree) : List Binary64 := t.instances.flatMap Instance.floats

/-- The times in a tree. -/
def times (t : InstanceTree) : List TimeValue := t.instances.flatMap Instance.times

/-- **Trees are read back** if their links are sound, their numbers are words, and their values and
times can be stored. -/
theorem roundTrips : codec.RoundTrips fun t =>
    (∀ i ∈ t.instances, i.Counted) ∧ Storable t.floats t.times ∧ t.Linked := by
  have hinstances : instancesCodec.RoundTrips fun is =>
      ∀ i ∈ is, i.Counted ∧ Storable i.floats i.times :=
    (Codec.RoundTrips.ofFields
      (.cons Instance.roundTrips.list (by decide) Fields.roundTrips_nil) fun _ => rfl).congr
        fun _ => by simp
  -- the loader hands the instances on as they are, and refuses trees with unsound links
  have hforget (t t' : InstanceTree) (h : t.instances = t'.instances) : t = t' := by
    obtain ⟨instances, _⟩ := t
    obtain ⟨instances', _⟩ := t'
    exact mk.injEq .. ▸ h
  have hcheck (is : List Instance) (t : InstanceTree) :
      (ofInstances? is).mapError DecodeError.tree = .ok t ↔ t.instances = is ∧ t.Linked := by
    rw [mapError_eq_ok, ofInstances?_eq_ok]
  refine (hinstances.checked hforget fun is t h => ((hcheck is t).1 h).1).congr fun t => ?_
  rw [hcheck, and_iff_right rfl, floats, times, storable_flatMap, forall₂_and, and_assoc]

namespace Numbered

variable {t : InstanceTree}

/-- The links of a numbered tree are sound, so that loading only looks for paths that come
twice. -/
theorem linked_iff (h : t.Numbered) : t.Linked ↔ (paths t.instances).Nodup := by
  refine ⟨Linked.paths, fun hpaths => ⟨?_, h.id, fun n i hi hpos => ?_, fun n i hi c hc => ?_,
    hpaths⟩⟩
  · exact (h.root 0 t.root t.get?_root).2 rfl
  · cases hparent : i.parent with
    | none => exact absurd ((h.root n i hi).1 hparent) hpos.ne'
    | some m => exact ⟨m, rfl, h.parent n i m hi hparent⟩
  · obtain ⟨j, hj, hparent⟩ := (h.children n i hi c).1 hc
    exact ⟨h.parent c j n hj hparent, j, hj, hparent⟩

/-- No instance lies deeper than its number. -/
theorem depth_le (h : t.Numbered) (n : ℕ) : ∀ i, t.get? n = some i → i.depth ≤ n := by
  -- an instance lies one level below its parent, which has a smaller number
  induction n using Nat.strong_induction_on with
  | _ n ih =>
    intro i hi
    cases hparent : i.parent with
    | none =>
      have hzero : n = 0 := (h.root n i hi).1 hparent
      subst hzero
      rw [get?_root, Option.some.injEq] at hi
      rw [← hi, h.top.1]
    | some m =>
      have hlt : m < n := h.parent n i m hi hparent
      obtain ⟨p, hp⟩ : ∃ p, t.get? m = some p := by
        have hsize : n < t.size := (List.getElem?_eq_some_iff.1 hi).1
        exact ⟨_, List.getElem?_eq_getElem (hlt.trans hsize)⟩
      have hdepth := ih m hlt p hp
      rw [(h.below n i m p hi hparent hp).1]
      omega

/-- The numbers in a tree that is not too large are words. -/
theorem counted (h : t.Numbered) (hsize : t.size ≤ UInt64.size) :
    ∀ i ∈ t.instances, i.Counted := by
  intro i hi
  have hget := h.get?_of_mem hi
  have hlt (n : ℕ) (j : Instance) (hj : t.get? n = some j) : n < UInt64.size :=
    (List.getElem?_eq_some_iff.1 hj).1.trans_le hsize
  have hid := hlt i.id i hget
  refine ⟨hid, fun m hm => ?_, ?_, fun c hc => ?_, fun x hx => ?_⟩
  · exact (h.parent i.id i m hget hm).trans hid
  · exact (h.depth_le i.id i hget).trans_lt hid
  · obtain ⟨j, hj, -⟩ := (h.children i.id i hget c).1 hc
    exact hlt c j hj
  · rw [h.owner i.id i hget x hx]
    exact hid

/-- What is read of the text of a numbered tree. -/
theorem decode_eq_ok (h : t.Numbered) (hsize : t.size ≤ UInt64.size) :
    ∀ text ∈ [Json.encode codec t, Json.encodePretty codec t], ∀ loaded,
      Json.decode codec text = .ok loaded ↔
        loaded = t ∧ (paths t.instances).Nodup ∧ Storable t.floats t.times ∧
          Json.nesting text ≤ Json.deepest := by
  have hstorable : ((∀ i ∈ t.instances, i.Counted) ∧ Storable t.floats t.times ∧ t.Linked) ↔
      (paths t.instances).Nodup ∧ Storable t.floats t.times := by
    rw [and_iff_right (h.counted hsize), h.linked_iff, and_comm]
  intro text htext loaded
  rw [roundTrips.decode_eq_ok text htext, hstorable, and_assoc]

end Numbered
end InstanceTree

/-! ### Elaborated trees -/

/-- **Elaborated trees are read back** from their texts, on one line or on several, exactly if no
path comes twice, all floating point numbers are finite, all times without a unit are zero,
and the text is nested at most 127 levels deep.  What is read is the tree itself, its lists and
maps in order and its times as they were written, so that it is shown and searched alike.
Positions are words of 64 bits, which number at most `2 ^ 64` instances. -/
theorem elaborate_round_trips {p : Program} {config : Config} {tree : InstanceTree}
    (h : elaborate p config = .ok tree) (hsize : tree.size ≤ UInt64.size) :
    ∀ text ∈ [Json.encode InstanceTree.codec tree, Json.encodePretty InstanceTree.codec tree],
      ((∃ loaded, Json.decode InstanceTree.codec text = .ok loaded) ↔
        (InstanceTree.paths tree.instances).Nodup ∧
          (∀ x ∈ tree.floats, x.isFinite = true) ∧
          (∀ t ∈ tree.times, t.unit = .none → t.magnitude = 0) ∧
          Json.nesting text ≤ 127) ∧
      ∀ loaded, Json.decode InstanceTree.codec text = .ok loaded →
        loaded = tree ∧ loaded.render = tree.render ∧ loaded.find? = tree.find? := by
  obtain ⟨table, main, c, -, -, -, rfl⟩ := elaborate_eq_ok.1 h
  intro text htext
  -- the links of a numbered tree are sound, so that the checks of the loader leave the paths only
  have hread := c.numbered_toTree.decode_eq_ok hsize text htext
  constructor
  · constructor
    · rintro ⟨loaded, hloaded⟩
      obtain ⟨-, hpaths, ⟨hfloats, htimes⟩, hnesting⟩ := (hread loaded).1 hloaded
      exact ⟨hpaths, hfloats, htimes, hnesting⟩
    · rintro ⟨hpaths, hfloats, htimes, hnesting⟩
      exact ⟨c.toTree, (hread c.toTree).2 ⟨rfl, hpaths, ⟨hfloats, htimes⟩, hnesting⟩⟩
  · intro loaded hloaded
    obtain ⟨rfl, -⟩ := (hread loaded).1 hloaded
    exact ⟨rfl, rfl, rfl⟩

/-- A main reactor with a list of one row, which a site puts into the list of another reactor at
two depths. -/
def nestedRows : Program where
  main := "Main"
  reactors :=
    [((ReactorDecl.named "Main").withParameter "rows"
        (.list [.list [.float ⟨0x4004000000000000⟩, .time ⟨5, .msec⟩]])).withInstance "grid" "Grid"
          [("rows", .list [.list [.paramRef "rows"], .paramRef "rows"])],
      (ReactorDecl.named "Grid").withParameter "rows" (.list [])]

/-- The list of the site is nested deeper than any expression of the program, and it is read back
from both texts. -/
theorem nested_rows_round_trip : ∃ tree, elaborate nestedRows {} = .ok tree ∧
    tree.size ≤ UInt64.size ∧
      ∀ text ∈ [Json.encode InstanceTree.codec tree, Json.encodePretty InstanceTree.codec tree],
        Json.decode InstanceTree.codec text = .ok tree := by
  have hrun : ((elaborate nestedRows {}).toOption.any fun tree =>
      tree.size = 2 ∧ (InstanceTree.paths tree.instances).Nodup ∧
        (∀ x ∈ tree.floats, x.isFinite = true) ∧
        (∀ t ∈ tree.times, t.unit = .none → t.magnitude = 0) ∧
        (InstanceTree.codec.write tree).levels ≤ 127) = true := by
    rw [elaborate_eq_within]
    decide +kernel
  have hruns : ∃ tree, elaborate nestedRows {} = .ok tree :=
    exists_elaborate_of_within (by decide +kernel)
  obtain ⟨tree, h⟩ := hruns
  rw [h, Except.toOption, Option.any_some, decide_eq_true_iff] at hrun
  obtain ⟨hsize, hpaths, hfloats, htimes, hlevels⟩ := hrun
  have hsize' : tree.size ≤ UInt64.size := hsize ▸ by decide
  refine ⟨tree, h, hsize', fun text htext => ?_⟩
  have hnesting : Json.nesting text ≤ 127 := by
    rcases List.mem_pair.1 htext with rfl | rfl
    · rwa [Json.encode, Json.nesting_compact]
    · rwa [Json.encodePretty, Json.nesting_pretty]
  obtain ⟨hloads, hsame⟩ := elaborate_round_trips h hsize' text htext
  obtain ⟨loaded, hloaded⟩ := hloads.2 ⟨hpaths, hfloats, htimes, hnesting⟩
  rw [hloaded, (hsame loaded hloaded).1]

end Reactors

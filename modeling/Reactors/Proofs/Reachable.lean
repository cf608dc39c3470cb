import Mathlib.Logic.Relation
import Reactors.Proofs.Nesting

/-!
# What a program reaches

Elaboration looks up the main definition, and from there on only the reactors that the sites of
definitions name.  Two programs with the same definitions for all these reactors, or the
same lack of them, have the same elaboration: the same tree, or the same error.  The order of
the definitions and those that nothing leads to do not matter.

## Main results

* `Program.reactor?_eq_some_iff` — where names are distinct, look-up does not depend on the order.
* `Program.mem_of_reachable` — what is closed under sites holds all that is reachable.
* `Elaborator.expand_eq_of_reachable` — the unrolling of a definition.
* `elaborate_eq_of_reachable` — the elaboration of a program.
-/

namespace Reactors

open Relation (ReflTransGen)

/-! ### Look-up -/

namespace Program

variable {p q : Program}

/-- Where names are distinct, a definition is found exactly if it is one of the program. -/
theorem reactor?_eq_some_iff (h : (p.reactors.map ReactorDecl.name).Nodup) {name : String}
    {r : ReactorDecl} : p.reactor? name = some r ↔ r ∈ p.reactors ∧ r.name = name := by
  constructor
  · intro hfind
    exact ⟨List.mem_of_find?_eq_some hfind, by simpa using List.find?_some hfind⟩
  · rintro ⟨hr, rfl⟩
    obtain ⟨r', hfind⟩ : ∃ r', p.reactor? r.name = some r' :=
      Option.isSome_iff_exists.1 (List.find?_isSome.2 ⟨r, hr, by simp⟩)
    have hname : r'.name = r.name := by simpa using List.find?_some hfind
    have hr' : r' ∈ p.reactors := List.mem_of_find?_eq_some hfind
    rw [hfind, List.inj_on_of_nodup_map h hr' hr hname]

/-- Names that the main reactor is one of, and with every defined reactor those of its sites, are
all the names that the program can reach. -/
theorem mem_of_reachable {names : List String} (hmain : p.main ∈ names)
    (hsites : ∀ r ∈ p.reactors, r.name ∈ names → ∀ s ∈ r.sites, s.reactor ∈ names)
    {name : String} (h : ReflTransGen p.Instantiates p.main name) : name ∈ names := by
  induction h with
  | refl => exact hmain
  | @tail a _ _ hstep ih =>
    obtain ⟨r, hfind, s, hs, rfl⟩ := hstep
    have hname : r.name = a := by simpa using List.find?_some hfind
    exact hsites r (List.mem_of_find?_eq_some hfind) (hname ▸ ih) s hs

end Program

/-! ### Unrolling -/

/-- **A definition unrolls alike** among two tables that agree on all that it leads to.  The
induction is on the definitions that are not around: what a site leads to is reached from the
definition as well. -/
theorem Elaborator.expand_eq_of_reachable {e : Elaborator} {p q : Program} {t t' : Definitions}
    (ht : p.definitions = .ok t) (ht' : q.definitions = .ok t') {around : List String}
    {r : ReactorDecl} (hown : p.reactor? r.name = some r)
    (hsame : ∀ name, ReflTransGen p.Instantiates r.name name →
      q.reactor? name = p.reactor? name) (path name : String) :
    e.expand t around path name r = e.expand t' around path name r := by
  induction around, r using t.nested_induction generalizing path name with
  | step around r ih =>
    have hsite : ∀ s ∈ r.sites, p.Instantiates r.name s.reactor := fun s hs =>
      ⟨r, hown, s, hs, rfl⟩
    have hfound : ∀ s ∈ r.sites, t.get? s.reactor = t'.get? s.reactor := by
      intro s hs
      rw [← Program.reactor?_eq_get? ht, ← Program.reactor?_eq_get? ht',
        hsame _ (.single (hsite s hs))]
    funext overrides scope
    rw [expand, expand]
    by_cases hdeep : e.config.maxDepth < around.length
    · rw [if_pos hdeep, if_pos hdeep]
      rfl
    · rw [if_neg hdeep, if_neg hdeep]
      -- parameters and triggers do not depend on the table, so that only the sites are left
      refine congrArg (_ >>= ·) (funext fun parameters => congrArg (· >>= _) ?_)
      rw [expandSites_eq_unrollSites, expandSites_eq_unrollSites]
      refine unrollSites_congr hfound (fun s hs d hget hnew path name => ?_) []
      have hname : d.name = s.reactor := Definitions.name_of_get? hget
      refine ih s.reactor d hget hnew ?_ (fun name hreach => ?_) path name
      · rw [Program.reactor?_eq_get? ht, hname, hget]
      · exact hsame name (.head (hname ▸ hsite s hs) hreach)

/-! ### Programs -/

/-- Programs with distinct names that agree on all that the main reactor leads to are elaborated
alike. -/
theorem Program.elaborate_eq_of_agree {p q : Program} (hmain : q.main = p.main)
    (hp : (p.reactors.map ReactorDecl.name).Nodup) (hq : (q.reactors.map ReactorDecl.name).Nodup)
    (hsame : ∀ name, ReflTransGen p.Instantiates p.main name →
      q.reactor? name = p.reactor? name) (config : Config) :
    elaborate q config = elaborate p config := by
  obtain ⟨t, ht⟩ : ∃ t, p.definitions = .ok t := ⟨⟨p.reactors, hp⟩, definitions_eq_ok.2 rfl⟩
  obtain ⟨t', ht'⟩ : ∃ t', q.definitions = .ok t' := ⟨⟨q.reactors, hq⟩, definitions_eq_ok.2 rfl⟩
  have hfound : t'.get? p.main = t.get? p.main := by
    rw [← reactor?_eq_get? ht, ← reactor?_eq_get? ht', hsame p.main .refl]
  rw [elaborate, elaborate, ht, ht', hmain]
  dsimp only
  rw [Elaborator.elaborate_eq_map, Elaborator.elaborate_eq_map, Elaborator.expandMain,
    Elaborator.expandMain, hfound]
  cases hget : t.get? p.main with
  | none => rfl
  | some main =>
    have hname : main.name = p.main := Definitions.name_of_get? hget
    have hown : p.reactor? main.name = some main := by rw [reactor?_eq_get? ht, hname, hget]
    dsimp only
    rw [Elaborator.expand_eq_of_reachable ht ht' hown (hname ▸ hsame)]

/-- **Elaboration depends only on what the main reactor leads to.**  Two programs with the same
main reactor and distinct names, in which every reactor that can be reached has the same
definition or none in both, have the same tree or the same error.  In particular it does not
matter in which order the definitions stand, and whether there are others that cannot be
reached. -/
theorem elaborate_eq_of_reachable {p : Program}
    (hdistinct : (p.reactors.map ReactorDecl.name).Nodup) (config : Config) :
    (∀ q : Program, q.main = p.main → (q.reactors.map ReactorDecl.name).Nodup →
      (∀ name, ReflTransGen p.Instantiates p.main name → q.reactor? name = p.reactor? name) →
      elaborate q config = elaborate p config) ∧
    ∀ others reactors : List ReactorDecl, reactors.Perm (p.reactors ++ others) →
      (reactors.map ReactorDecl.name).Nodup →
      (∀ r ∈ others, ¬ReflTransGen p.Instantiates p.main r.name) →
      elaborate ⟨p.main, reactors⟩ config = elaborate p config := by
  refine ⟨fun q hmain hq hsame => Program.elaborate_eq_of_agree hmain hdistinct hq hsame config,
    fun others reactors hperm hq hothers => ?_⟩
  have hmain : (Program.mk p.main reactors).main = p.main := rfl
  refine Program.elaborate_eq_of_agree hmain hdistinct hq (fun name hreach => ?_) config
  refine Option.ext fun r => ?_
  rw [Program.reactor?_eq_some_iff hq, Program.reactor?_eq_some_iff hdistinct, hperm.mem_iff,
    List.mem_append]
  refine and_congr_left fun hname => or_iff_left fun hr => ?_
  exact hothers r hr (hname ▸ hreach)

/-- A main reactor with two sites of one reactor, which has a site of a reactor without
definition. -/
def unfinished : Program where
  main := "Main"
  reactors :=
    [((ReactorDecl.named "Main").withInstance "a" "Half" []).withInstance "b" "Half" [],
      (ReactorDecl.named "Half").withInstance "rest" "Missing" []]

/-- Two definitions that instantiate each other. -/
def leftAndRight : List ReactorDecl :=
  [(ReactorDecl.named "Left").withInstance "x" "Right" [],
    (ReactorDecl.named "Right").withInstance "y" "Left" []]

/-- The main reactor leads to three names, whatever else is defined. -/
theorem mem_of_reachable_unfinished {name : String}
    (h : ReflTransGen unfinished.Instantiates unfinished.main name) :
    name ∈ ["Main", "Half", "Missing"] :=
  Program.mem_of_reachable (by decide) (by decide) h

/-- Other definitions change nothing, wherever they stand: neither two that make a cycle, nor one
that is alone. -/
theorem unfinished_among_others :
    elaborate ⟨"Main", (unfinished.reactors ++ leftAndRight).reverse⟩ {} =
        elaborate unfinished {} ∧
      elaborate ⟨"Main", ReactorDecl.named "Left" :: unfinished.reactors⟩ {} =
        elaborate unfinished {} := by
  have hdistinct : (unfinished.reactors.map ReactorDecl.name).Nodup := by decide
  obtain ⟨hagree, hothers⟩ := elaborate_eq_of_reachable hdistinct {}
  constructor
  · refine hothers leftAndRight _ (List.reverse_perm _) (by decide) fun r hr hreach => ?_
    have hname : r.name ∈ ["Main", "Half", "Missing"] := mem_of_reachable_unfinished hreach
    have hunreached : ∀ r ∈ leftAndRight, r.name ∉ ["Main", "Half", "Missing"] := by decide
    exact hunreached r hr hname
  · refine hagree _ rfl (by decide) fun name hreach => ?_
    have hname : name ∈ ["Main", "Half", "Missing"] := mem_of_reachable_unfinished hreach
    simp only [List.mem_cons, List.not_mem_nil, or_false] at hname
    rcases hname with rfl | rfl | rfl <;> rfl

end Reactors

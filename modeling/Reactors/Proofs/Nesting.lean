import Mathlib.Data.List.Chain
import Mathlib.Data.List.Nodup
import Mathlib.Data.List.Perm.Subperm
import Reactors.Proofs.InstanceFaults

/-!
# How calls are nested

In every run of the elaboration of a program the definitions around a call form a chain: the
first one is the main definition, each one instantiates the next, and no definition comes
twice.  There are no more of them than the program has, which bounds the depth of every
call, whatever limit is configured; so a program whose hierarchy has no finite unrolling
is refused after finitely many calls too.

## Main definitions

* `Program.Instantiates` — a definition has a site for another one.
* `Call.Enclosed` — what holds of every call in the run of a program.

## Main results

* `Call.Enclosed.inside` — it passes to the calls inside.
* `Call.Enclosed.depth_lt` — the depth of a call is below the number of definitions.
* `elaborate_terminates` — the runs of elaboration.
-/

namespace Reactors

/-- The definition of a reactor has a site for another reactor. -/
def Program.Instantiates (p : Program) (a b : String) : Prop :=
  ∃ r, p.reactor? a = some r ∧ ∃ s ∈ r.sites, s.reactor = b

theorem Program.reactor?_eq_get? {p : Program} {t : Definitions} (h : p.definitions = .ok t)
    (name : String) : p.reactor? name = t.get? name := by
  rw [reactor?, Definitions.get?, Program.definitions_eq_ok.1 h]

/-! ### The definitions around a call -/

/-- The place of a call in the run of a program. -/
structure Call.Enclosed (p : Program) (k : Call) : Prop where
  /-- The depth is the number of definitions around. -/
  depth : k.depth = k.around.length
  /-- No definition is being unrolled twice. -/
  distinct : k.stack.Nodup
  /-- All of them are definitions of the program. -/
  defined : ∀ a ∈ k.stack, a ∈ p.reactors.map ReactorDecl.name
  /-- The call is for the definition with its name. -/
  own : p.reactor? k.reactor.name = some k.reactor
  /-- The outermost one is the main definition. -/
  outermost : k.stack.head? = some p.main
  /-- Each one instantiates the next. -/
  linked : k.stack.IsChain p.Instantiates

namespace Call

variable {p : Program} {t : Definitions} {k : Call}

theorem getLast?_stack (k : Call) : k.stack.getLast? = some k.reactor.name := by
  rw [stack, List.getLast?_concat]

theorem enclosed_main {main : ReactorDecl} (hmain : p.reactor? p.main = some main) :
    (Call.main main).Enclosed p := by
  have hname : main.name = p.main := by simpa using List.find?_some hmain
  have hstack : (Call.main main).stack = [main.name] := rfl
  refine ⟨rfl, ?_, ?_, ?_, ?_, ?_⟩
  · rw [hstack]
    exact List.nodup_singleton _
  · rw [hstack]
    intro a ha
    rw [List.mem_singleton.1 ha]
    exact List.mem_map_of_mem (List.mem_of_find?_eq_some hmain)
  · show p.reactor? main.name = some main
    rw [hname, hmain]
  · rw [hstack, hname]
    rfl
  · rw [hstack]
    exact List.isChain_singleton _

/-- The definition of a call instantiates those of its sites. -/
theorem Enclosed.linked_concat (h : k.Enclosed p) {s : Site} (hs : s ∈ k.reactor.sites) :
    (k.stack ++ [s.reactor]).IsChain p.Instantiates := by
  rw [List.isChain_append]
  refine ⟨h.linked, List.isChain_singleton _, ?_⟩
  intro a ha b hb
  rw [getLast?_stack, Option.mem_some_iff] at ha
  rw [List.head?_cons, Option.mem_some_iff] at hb
  rw [← ha, ← hb]
  exact ⟨k.reactor, h.own, s, hs, rfl⟩

/-- A call for a site is enclosed by one definition more: that of the call around it. -/
theorem Enclosed.inside (h : k.Enclosed p) (parameters : Scope) {s : Site} {d : ReactorDecl}
    (hs : s ∈ k.reactor.sites) (hget : p.reactor? s.reactor = some d) (hnew : d.name ∉ k.stack) :
    (k.inside parameters s d).Enclosed p := by
  have hname : d.name = s.reactor := by simpa using List.find?_some hget
  have hstack : (k.inside parameters s d).stack = k.stack ++ [d.name] := rfl
  refine ⟨?_, ?_, ?_, ?_, ?_, ?_⟩
  · exact depth_inside h.depth
  · rw [hstack, ← List.concat_eq_append]
    exact h.distinct.concat hnew
  · rw [hstack]
    intro a ha
    rcases List.mem_append.1 ha with ha | ha
    · exact h.defined a ha
    · rw [List.mem_singleton.1 ha]
      exact List.mem_map_of_mem (List.mem_of_find?_eq_some hget)
  · show p.reactor? d.name = some d
    rw [hname, hget]
  · rw [hstack, List.head?_append, h.outermost]
    rfl
  · rw [hstack, hname]
    exact h.linked_concat hs

/-- A call lies less deep than there are definitions. -/
theorem Enclosed.depth_lt (h : k.Enclosed p) : k.depth < p.reactors.length := by
  -- the definitions around and its own are as many different ones
  have hsub : k.stack ⊆ p.reactors.map ReactorDecl.name := h.defined
  have hle := (h.distinct.subperm hsub).length_le
  rw [List.length_map, stack, List.length_append, List.length_singleton, ← h.depth] at hle
  omega

end Call

/-! ### Runs of programs -/

namespace Program.Runs

variable {p : Program} {config : Config} {calls : List Call}
  {result : Except ElaborationError InstanceTree}

/-- All calls in the run of a program are enclosed in it. -/
theorem enclosed (h : p.Runs config calls result) : ∀ k ∈ calls, k.Enclosed p := by
  cases h with
  | invalid htable => exact fun _ hk => by cases hk
  | undefined htable hmain => exact fun _ hk => by cases hk
  | unrolled htable hmain hrun =>
    rw [← Program.reactor?_eq_get? htable] at hmain
    refine hrun.invariant (fun k k' hlead hk => ?_) (Call.enclosed_main hmain)
    obtain ⟨-, -, hs, hget, hnew⟩ := hlead
    rw [← Program.reactor?_eq_get? htable] at hget
    exact hk.inside _ hs hget hnew

/-- An error of the run of a program is about its table, its main reactor or, by the fault of a
call, about its hierarchy. -/
theorem fault {cause : ElaborationError} (h : p.Runs config calls (.error cause)) :
    (∃ problem, p.definitions = .error problem ∧ cause = .invalidProgram problem) ∨
      p.reactor? p.main = none ∧ cause = .unresolvedReactor p.main p.main ∨
      ∃ t main result, p.definitions = .ok t ∧ t.get? p.main = some main ∧
        Elaborator.Runs ⟨config, Expr.text⟩ t (.main main) calls result ∧
        ∃ k ∈ calls, Elaborator.Fault ⟨config, Expr.text⟩ t k cause := by
  generalize hresult : Except.error cause = result at h
  cases h with
  | @invalid problem htable =>
    cases hresult
    exact Or.inl ⟨problem, htable, rfl⟩
  | undefined htable hmain =>
    cases hresult
    rw [← Program.reactor?_eq_get? htable] at hmain
    exact Or.inr (Or.inl ⟨hmain, rfl⟩)
  | unrolled htable hmain hrun =>
    obtain ⟨k, hk, hfault⟩ := hrun.exists_fault cause (map_eq_error.1 hresult.symm)
    exact Or.inr (Or.inr ⟨_, _, _, htable, hmain, hrun, k, hk, hfault⟩)

/-- Where the limit of depth is exceeded, it is by a call. -/
theorem exists_deep {path : String} {limit : Nat}
    (h : p.Runs config calls (.error (.depthLimitExceeded path limit))) :
    ∃ k ∈ calls, config.maxDepth < k.depth := by
  rcases h.fault with ⟨_, -, hproblem⟩ | ⟨-, hmain⟩ | ⟨t, _, _, -, -, -, k, hk, hfault⟩
  · cases hproblem
  · cases hmain
  · refine ⟨k, hk, ?_⟩
    cases hfault with
    | tooDeep hdeep => exact hdeep
    | parameters hp => cases resolveParameters_eq_error hp
    | triggers _ ht =>
      cases Elaborator.triggers_eq_error ht with
      | field _ hfault => cases hfault

end Program.Runs

/-- **Elaboration terminates.**  It has a finite run for every program and every configuration, and
all runs have its result.  In every run each call lies less deep than the program has
definitions, so that counting the levels does not leave a word of 64 bits, and no definition
comes twice among those around the call and its own.  So the limit of depth is not
exceeded if it is at least the number of definitions less one. -/
theorem elaborate_terminates (p : Program) (config : Config) :
    (∃ calls, p.Runs config calls (elaborate p config)) ∧
      (∀ calls result, p.Runs config calls result → result = elaborate p config ∧
        ∀ k ∈ calls, k.depth < p.reactors.length ∧ k.stack.Nodup ∧
          (p.reactors.length ≤ UInt64.size → k.depth < UInt64.size)) ∧
      (p.reactors.length - 1 ≤ config.maxDepth →
        ∀ path limit, elaborate p config ≠ .error (.depthLimitExceeded path limit)) := by
  refine ⟨Program.exists_runs p config, fun calls result h => ⟨h.result_eq, fun k hk => ?_⟩,
    fun hlimit path limit herror => ?_⟩
  · have hlt := (h.enclosed k hk).depth_lt
    exact ⟨hlt, (h.enclosed k hk).distinct, fun hsize => Nat.lt_of_lt_of_le hlt hsize⟩
  · obtain ⟨calls, hrun⟩ := Program.exists_runs p config
    rw [herror] at hrun
    -- a call beyond the limit would lie as deep as there are definitions
    obtain ⟨k, hk, hdeep⟩ := hrun.exists_deep
    have hlt := (hrun.enclosed k hk).depth_lt
    omega

end Reactors

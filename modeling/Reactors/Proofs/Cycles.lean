import Mathlib.Logic.Relation
import Reactors.Proofs.Nesting

/-!
# Cyclic hierarchies

When a site leads to a definition that is being unrolled already, the definitions from there on
make a cycle: they are the end of the chain around the call, closed by the site.  The error
shows exactly that.  Conversely, where a definition unrolls, nothing that it leads to
leads back to itself, since every way onwards avoids the definitions before.

## Main definitions

* `Program.IsCycle` — a cycle of definitions that the main definition leads to.
* `Program.Avoids` — a definition leads neither to certain others nor into a cycle.

## Main results

* `Program.IsCycle.exists_loop` — the first definition of a cycle leads to itself.
* `Call.Enclosed.isCycle` — the definitions of a call close to a cycle.
* `Elaborator.avoids_of_expand` — what unrolls is not cyclic.
* `elaborate_cycles` — errors show cycles, and cycles make errors.
-/

namespace Reactors

/-- A cycle of definitions, its first one repeated at the end: no other comes twice, each one
instantiates the next, and the main definition leads to them. -/
structure Program.IsCycle (p : Program) (cycle : List String) : Prop where
  length : 2 ≤ cycle.length
  closed : cycle.head? = cycle.getLast?
  distinct : cycle.dropLast.Nodup
  linked : cycle.IsChain p.Instantiates
  reachable : ∀ a, cycle.head? = some a → Relation.ReflTransGen p.Instantiates p.main a

/-- The first definition of a cycle leads to itself, and the main one leads to it. -/
theorem Program.IsCycle.exists_loop {p : Program} {cycle : List String} (h : p.IsCycle cycle) :
    ∃ a, Relation.ReflTransGen p.Instantiates p.main a ∧ Relation.TransGen p.Instantiates a a := by
  obtain ⟨hlength, hclosed, -, hlinked, hreachable⟩ := h
  match cycle with
  | [] | [_] => simp at hlength
  | a :: b :: behind =>
    obtain ⟨hfirst, hrest⟩ := List.isChain_cons_cons.1 hlinked
    have hlast : (b :: behind).getLast (List.cons_ne_nil _ _) = a := by
      rw [List.head?_cons, List.getLast?_cons_cons, List.getLast?_eq_some_getLast (by simp)]
        at hclosed
      exact (Option.some.inj hclosed).symm
    exact ⟨a, hreachable a rfl, .head' hfirst
      (List.relationReflTransGen_of_exists_isChain_cons behind hrest hlast)⟩

/-! ### Errors show cycles -/

/-- A list from the first place of one of its items on. -/
theorem exists_dropWhile_ne_eq {α : Type} [DecidableEq α] {l : List α} {a : α} (ha : a ∈ l) :
    ∃ before after, l = before ++ a :: after ∧ l.dropWhile (· ≠ a) = a :: after := by
  induction l with
  | nil => cases ha
  | cons b l ih =>
    by_cases hba : b = a
    · subst hba
      exact ⟨[], l, rfl, by simp⟩
    · obtain ⟨before, after, hl, hdrop⟩ := ih ((List.mem_cons.1 ha).resolve_left (Ne.symm hba))
      refine ⟨b :: before, after, by rw [hl, List.cons_append], ?_⟩
      rw [List.dropWhile_cons_of_pos (by simpa using hba), hdrop]

/-- A definition of the stack that a site of the call names closes the stack to a cycle. -/
theorem Call.Enclosed.isCycle {p : Program} {k : Call} (h : k.Enclosed p) {s : Site}
    {d : ReactorDecl} (hs : s ∈ k.reactor.sites) (hget : p.reactor? s.reactor = some d)
    (hmet : d.name ∈ k.stack) : p.IsCycle (k.stack.dropWhile (· ≠ d.name) ++ [d.name]) := by
  have hname : d.name = s.reactor := by simpa using List.find?_some hget
  obtain ⟨before, after, hstack, hcycle⟩ := exists_dropWhile_ne_eq hmet
  rw [hcycle]
  have hclosed := h.linked_concat hs
  have hlinked := h.linked
  have hdistinct := h.distinct
  have hfirst := h.outermost
  rw [hstack] at hclosed hlinked hdistinct hfirst
  refine ⟨?_, ?_, ?_, ?_, fun a ha => ?_⟩
  · simp
  · rw [List.getLast?_concat, List.cons_append, List.head?_cons]
  · rw [List.dropLast_concat]
    exact (List.nodup_append.1 hdistinct).2.1
  · rw [List.append_assoc, ← hname] at hclosed
    exact hclosed.right_of_append
  · -- the definitions before those of the cycle are the way from the main one
    rw [List.cons_append, List.head?_cons, Option.some.injEq] at ha
    subst ha
    cases before with
    | nil =>
      rw [List.nil_append, List.head?_cons, Option.some.injEq] at hfirst
      rw [hfirst]
    | cons m before =>
      rw [List.cons_append, List.head?_cons, Option.some.injEq] at hfirst
      subst hfirst
      refine List.IsChain.cons_induction (Relation.ReflTransGen p.Instantiates p.main) _ hlinked
        (fun _ _ hstep hreach => hreach.tail hstep) .refl d.name ?_
      simp

/-- A reported cycle is one. -/
theorem Program.Runs.isCycle {p : Program} {config : Config} {calls : List Call}
    {cycle : List String} (h : p.Runs config calls (.error (.cyclicInstantiation cycle))) :
    p.IsCycle cycle := by
  rcases h.fault with ⟨_, -, hproblem⟩ | ⟨-, hmain⟩ | ⟨t, _, _, htable, -, -, k, hk, hfault⟩
  · cases hproblem
  · cases hmain
  · cases hfault with
    | parameters hp => cases resolveParameters_eq_error hp
    | triggers _ ht =>
      cases Elaborator.triggers_eq_error ht with
      | field _ hfault => cases hfault
    | cyclic hs hget hmet =>
      rw [← Program.reactor?_eq_get? htable] at hget
      exact (h.enclosed k hk).isCycle hs hget hmet

/-! ### Cycles make errors -/

/-- No way leads from a definition to one of these, or to one that leads to itself. -/
structure Program.Avoids (p : Program) (a : String) (names : List String) : Prop where
  avoids : ∀ b, Relation.TransGen p.Instantiates a b → b ∉ names
  acyclic : ∀ b, Relation.ReflTransGen p.Instantiates a b →
    ¬ Relation.TransGen p.Instantiates b b

/-- A way onwards begins with one step, behind which it avoids what it has left. -/
theorem Program.Avoids.of_steps {p : Program} {a : String} {around : List String}
    (h : ∀ b, p.Instantiates a b →
      b ∉ around ++ [a] ∧ p.Avoids b (around ++ [a] ++ [b])) : p.Avoids a (around ++ [a]) := by
  have havoids : ∀ b, Relation.TransGen p.Instantiates a b → b ∉ around ++ [a] := by
    intro b hb
    obtain ⟨first, hfirst, hrest⟩ := Relation.TransGen.head'_iff.1 hb
    obtain ⟨hnew, hbehind⟩ := h first hfirst
    rcases Relation.reflTransGen_iff_eq_or_transGen.1 hrest with rfl | htrans
    · exact hnew
    · exact fun hmem => hbehind.avoids b htrans (List.mem_append_left _ hmem)
  refine ⟨havoids, fun b hb hloop => ?_⟩
  rcases Relation.ReflTransGen.cases_head hb with rfl | ⟨first, hfirst, hrest⟩
  · exact havoids a hloop (by simp)
  · exact (h first hfirst).2.acyclic b hrest hloop

/-- Where a definition unrolls, it leads to none of the definitions around and not to itself, and
nothing that it leads to leads to itself. -/
theorem Elaborator.avoids_of_expand {p : Program} {t : Definitions} {e : Elaborator}
    (htable : p.definitions = .ok t) {around : List String} {path name : String}
    {r : ReactorDecl} {overrides : OrderedMap Expr} {scope : Scope} {c : Component}
    (hown : p.reactor? r.name = some r)
    (h : e.expand t around path name r overrides scope = .ok c) :
    p.Avoids r.name (around ++ [r.name]) := by
  refine Elaborator.expand_induction (e := e) (t := t)
    (P := fun around _ _ r _ _ _ => p.reactor? r.name = some r →
      p.Avoids r.name (around ++ [r.name])) ?_ h hown
  intro around _ _ r _ _ _ _ children _ _ _ _ hchildren hown
  refine .of_steps ?_
  -- each step from the definition is a site that unrolls
  rintro b ⟨r', hr', s, hs, rfl⟩
  rw [hown, Option.some.injEq] at hr'
  subst hr'
  obtain ⟨_, -, d, hget, hnew, -, ih⟩ := exists_of_forall₂_left hchildren hs
  have hname : d.name = s.reactor := Definitions.name_of_get? hget
  rw [← Program.reactor?_eq_get? htable] at hget
  have havoids := ih (by rw [hname, hget])
  rw [hname] at hnew havoids
  exact ⟨hnew, havoids⟩

/-! ### Programs -/

/-- **Cycles are found, and only cycles.**  The cycle that an error shows is one: it has two
entries at least, the first of which is repeated at the end and no other is; each one has a site for
the next; and the main definition leads to it.  Conversely, if the main definition leads to
one that leads to itself, there is no tree, whatever the configuration is. -/
theorem elaborate_cycles (p : Program) (config : Config) :
    (∀ cycle, elaborate p config = .error (.cyclicInstantiation cycle) → p.IsCycle cycle) ∧
      ((∃ a, Relation.ReflTransGen p.Instantiates p.main a ∧
          Relation.TransGen p.Instantiates a a) →
        ∀ tree, elaborate p config ≠ .ok tree) := by
  constructor
  · intro cycle herror
    obtain ⟨calls, hrun⟩ := Program.exists_runs p config
    rw [herror] at hrun
    exact hrun.isCycle
  · rintro ⟨a, hreach, hloop⟩ tree h
    obtain ⟨t, main, c, htable, hmain, hrun, -⟩ := elaborate_eq_ok.1 h
    rw [← Program.reactor?_eq_get? htable] at hmain
    have hname : main.name = p.main := by simpa using List.find?_some hmain
    have hown : p.reactor? main.name = some main := by rw [hname, hmain]
    -- the main definition unrolls, so that nothing behind it comes back to itself
    have hacyclic := (Elaborator.avoids_of_expand htable hown hrun).acyclic
    rw [hname] at hacyclic
    exact hacyclic a hreach hloop

/-- A plant whose pump feeds a valve, the valve a tank, and the tank the pump again. -/
def circulatingPlant : Program where
  main := "Plant"
  reactors :=
    [(ReactorDecl.named "Plant").withInstance "pump" "Pump" [],
      (ReactorDecl.named "Pump").withInstance "valve" "Valve" [],
      (ReactorDecl.named "Valve").withInstance "tank" "Tank" [],
      (ReactorDecl.named "Tank").withInstance "back" "Pump" []]

/-- The error shows the cycle of the three, and the plant has no tree under any configuration. -/
theorem circulating_plant_refused :
    elaborate circulatingPlant {} =
        .error (.cyclicInstantiation ["Pump", "Valve", "Tank", "Pump"]) ∧
      circulatingPlant.IsCycle ["Pump", "Valve", "Tank", "Pump"] ∧
      (∃ a, Relation.ReflTransGen circulatingPlant.Instantiates circulatingPlant.main a ∧
        Relation.TransGen circulatingPlant.Instantiates a a) ∧
      ∀ config tree, elaborate circulatingPlant config ≠ .ok tree := by
  have herror : elaborate circulatingPlant {} =
      .error (.cyclicInstantiation ["Pump", "Valve", "Tank", "Pump"]) :=
    elaborate_eq_error_of_within (by decide +kernel)
  have hcycle := (elaborate_cycles circulatingPlant {}).1 _ herror
  exact ⟨herror, hcycle, hcycle.exists_loop, fun config =>
    (elaborate_cycles circulatingPlant config).2 hcycle.exists_loop⟩

end Reactors

import Reactors.Proofs.Comparisons
import Reactors.Proofs.Layout

/-!
# The tree that is built

The pass that builds a tree works on all instances so far: it pushes an instance before those
inside it are known, adds to the children of a parent that stands further in front, and comes back
to write the triggers.  What it adds to them for one site is nevertheless the component of that
site, laid out from the next free number on, and nothing else in front of it changes but the list of
children of the parent.  So the tree that is built is that of the component of the main reactor,
and the pass fails with the same error as the unrolling if there is none.

## Main definitions

* `BuildState.Adds` — what a later state has more than an earlier one.
* `Elaborator.BuildsLayout` — what is built for a definition is its component, laid out.

## Main results

* `Elaborator.buildSites_agrees` — a step: the sites of a definition.
* `Elaborator.buildsLayout` — the instances for a definition, by induction on what can still be met.
* `Elaborator.elaborate_eq_map` — the tree of the main reactor.
* `Elaborator.elaborate_eq_ok`, `elaborate_eq_ok` — the successful elaborations.
-/

namespace Reactors

/-! ### Lists of instances -/

/-- Instances among which the parent, if there is one, has further children. -/
def adopted (parent : Option Nat) (children : List Nat) (is : List Instance) : List Instance :=
  parent.elim is fun p => is.modify p (·.adopting children)

/-- Changing an item leaves the items behind alone. -/
theorem modify_append_of_lt {α : Type} {as bs : List α} {n : Nat} (f : α → α)
    (h : n < as.length) : (as ++ bs).modify n f = as.modify n f ++ bs := by
  induction as generalizing n with
  | nil => cases h
  | cons a as ih =>
    cases n with
    | zero => rfl
    | succ n =>
      rw [List.cons_append, List.modify_succ_cons, List.modify_succ_cons,
        ih (Nat.lt_of_succ_lt_succ h), List.cons_append]

/-- The item behind a list is changed at the position that is the length of the list. -/
theorem modify_append_cons {α : Type} {as bs : List α} {a : α} {n : Nat} (f : α → α)
    (h : n = as.length) : (as ++ a :: bs).modify n f = as ++ f a :: bs := by
  subst h
  induction as with
  | nil => rfl
  | cons a' as ih => rw [List.cons_append, List.length_cons, List.modify_succ_cons, ih]; rfl

section

variable {parent : Option Nat} {children children' : List Nat} {is more : List Instance}

theorem length_adopted : (adopted parent children is).length = is.length := by
  cases parent with
  | none => rfl
  | some p => exact List.length_modify _ _ _

theorem adopted_nil : adopted parent [] is = is := by
  cases parent with
  | none => rfl
  | some p =>
    have hid : (fun i : Instance => i.adopting []) = id := by
      funext i
      rw [Instance.adopting, List.append_nil]
      rfl
    rw [adopted, Option.elim_some, hid, List.modify_id]

theorem adopted_append (h : ∀ p ∈ parent, p < is.length) :
    adopted parent children (is ++ more) = adopted parent children is ++ more := by
  cases parent with
  | none => rfl
  | some p => exact modify_append_of_lt _ (h p rfl)

theorem adopted_adopted :
    adopted parent children' (adopted parent children is) =
      adopted parent (children ++ children') is := by
  cases parent with
  | none => rfl
  | some p =>
    rw [adopted, adopted, adopted, Option.elim_some, Option.elim_some, Option.elim_some,
      List.modify_modify_eq]
    refine congrArg (List.modify is p) (funext fun i => ?_)
    simp [Instance.adopting]

end

/-! ### Later states -/

namespace BuildState

/-- A state with more instances than an earlier one, in which the parent lists further children. -/
structure Adds (s : BuildState) (parent : Option Nat) (children : List Nat)
    (more : List Instance) (s' : BuildState) : Prop where
  stack : s'.stack = s.stack
  nodes : s'.nodes.toList = adopted parent children s.nodes.toList ++ more

variable {s s' s'' : BuildState} {parent : Option Nat} {children children' : List Nat}
  {more more' : List Instance}

namespace Adds

theorem refl : s.Adds parent [] [] s where
  stack := rfl
  nodes := by rw [adopted_nil, List.append_nil]

theorem size (h : s.Adds parent children more s') :
    s'.nodes.size = s.nodes.size + more.length := by
  have hlength := congrArg List.length h.nodes
  rwa [List.length_append, length_adopted] at hlength

/-- What is added one after the other for one parent is added as a whole. -/
theorem trans (h : s.Adds parent children more s') (h' : s'.Adds parent children' more' s'')
    (hp : ∀ p ∈ parent, p < s.nodes.size) :
    s.Adds parent (children ++ children') (more ++ more') s'' where
  stack := h'.stack.trans h.stack
  nodes := by
    have hp' : ∀ p ∈ parent, p < (adopted parent children s.nodes.toList).length := by
      intro p hmem
      rw [length_adopted]
      exact hp p hmem
    rw [h'.nodes, h.nodes, adopted_append hp', adopted_adopted, List.append_assoc]

/-- The parent keeps everything but its children. -/
theorem getElem_parent {p : Nat} (h : s.Adds (some p) children more s') (hp : p < s.nodes.size)
    (hp' : p < s'.nodes.size) : s'.nodes[p] = s.nodes[p].adopting children := by
  have hget : s'.nodes.toList[p]? = some s'.nodes[p] := by simp [hp']
  rw [h.nodes, List.getElem?_append_left (by rw [length_adopted]; exact hp), adopted,
    Option.elim_some, List.getElem?_modify_eq] at hget
  simpa [hp] using hget.symm

end Adds

variable {i : Instance}

/-- A new instance is put behind the others, and its parent lists it. -/
theorem nodes_enter (hp : ∀ p ∈ i.parent, p < s.nodes.size) :
    (s.enter i).nodes.toList = adopted i.parent [i.id] s.nodes.toList ++ [i] := by
  rw [enter]
  cases hparent : i.parent with
  | none => simp [adopt, adopted]
  | some p =>
    have hlt : p < s.nodes.toList.length := hp p hparent
    dsimp only [adopt]
    rw [Array.toList_modify, Array.toList_push, modify_append_of_lt _ hlt]
    rfl

theorem getElem_enter (hp : ∀ p ∈ i.parent, p < s.nodes.size)
    (hlt : s.nodes.size < (s.enter i).nodes.size) : (s.enter i).nodes[s.nodes.size] = i := by
  have hget : (s.enter i).nodes.toList[s.nodes.size]? = some (s.enter i).nodes[s.nodes.size] := by
    simp
  rw [nodes_enter hp, List.getElem?_append_right (by rw [length_adopted]; exact Nat.le_refl _),
    length_adopted] at hget
  simpa using hget.symm

/-- The parent of a new instance is there already. -/
theorem lt_size_of_mem_parent_fresh (r : ReactorDecl) (name : String)
    (parent : Option (Fin s.nodes.size)) (parameters : Scope) :
    ∀ p ∈ (s.fresh r name parent parameters).parent, p < s.nodes.size := by
  intro p hp
  obtain ⟨p', -, rfl⟩ := Option.map_eq_some_iff.1 hp
  exact p'.isLt

/-- An instance that was put behind the others, the instances inside it and its triggers are added
as a whole. -/
theorem Adds.complete (triggers : List TriggerInstance) (hp : ∀ p ∈ i.parent, p < s.nodes.size)
    (hid : i.id = s.nodes.size) (hnew : i.children = [])
    (h : (s.enter i).Adds (some s.nodes.size) children more s') :
    s.Adds i.parent [s.nodes.size] ({ i with children, triggers } :: more)
      (s'.leave.setTriggers s.nodes.size triggers) where
  stack := stack_leave h.stack
  nodes := by
    have hlength : s.nodes.size = (adopted i.parent [s.nodes.size] s.nodes.toList).length := by
      rw [length_adopted]
      rfl
    have hmade : i.adopting children = { i with children } := by
      rw [Instance.adopting, hnew, List.nil_append]
    rw [setTriggers, leave]
    dsimp only
    -- the new instance is changed twice at its place: for its children, and for its triggers
    rw [Array.toList_modify, h.nodes, nodes_enter hp, hid, adopted, Option.elim_some,
      modify_append_cons _ hlength, hmade, List.append_assoc, List.singleton_append,
      modify_append_cons _ hlength]
    dsimp only
    rw [hid]

end BuildState

/-! ### The sites of a definition -/

namespace Elaborator

open BuildState (Adds)
open Component (numbers layoutAll)

variable {e : Elaborator} {t : Definitions}

/-- What is built for a definition inside others is the component of the definition, laid out from
the next free number on. -/
def BuildsLayout (e : Elaborator) (t : Definitions) (around : List String) (r : ReactorDecl) :
    Prop :=
  ∀ (s : BuildState) (name : String) (site : Option Site) (parent : Option (Fin s.nodes.size))
    (path : String) (scope : Scope), s.stack = around →
    Instance.pathIn (s.enclosing parent) name = path →
    Instance.depthIn (s.enclosing parent) = around.length →
    Instance.scopeOf (s.enclosing parent) = scope →
    Agree (· = ·)
      (fun built c => c.name = name ∧ s.Adds (parent.map Fin.val) [s.nodes.size]
        (c.layout s.nodes.size (parent.map Fin.val) around.length path) built.toBuildState)
      (e.build t s r name site parent)
      (e.expand t around path name r (Site.overridesOf site) scope)

/-- **A step of the pass.**  What is built for sites are their components, laid out one behind the
other, if this holds of the definitions that are not on the stack. -/
theorem buildSites_agrees {around : List String} {path : String} {scope : Scope}
    (hbuild : ∀ name d, t.get? name = some d → d.name ∉ around → e.BuildsLayout t around d)
    (ss : List Site) :
    ∀ (s : BuildState) (id : Fin s.nodes.size) (i : Instance) (seen : List String),
      s.stack = around → s.enclosing (some id) = some i → i.path = path →
      i.depth + 1 = around.length → i.parameters = scope →
      Agree (· = ·)
        (fun built cs => s.Adds (some id) (numbers s.nodes.size cs)
          (layoutAll s.nodes.size id around.length path cs) built.toBuildState)
        (e.buildSites t s id path seen ss) (e.expandSites t around path scope seen ss) := by
  induction ss with
  | nil =>
    intro s id i seen _ _ _ _ _
    rw [buildSites, expandSites]
    exact .ok Adds.refl
  | cons site ss ih =>
    rintro s id _ seen hstack ⟨⟩ hpath hdepth hscope
    rw [buildSites, expandSites]
    by_cases hseen : site.name ∈ seen
    · rw [if_pos hseen, if_pos hseen]
      exact .error rfl
    · rw [if_neg hseen, if_neg hseen]
      dsimp only
      cases hget : t.get? site.reactor with
      | none => exact .error rfl
      | some d =>
        dsimp only
        rw [hstack]
        by_cases hcycle : d.name ∈ around
        · rw [dif_pos hcycle, dif_pos hcycle]
          exact .error rfl
        · rw [dif_neg hcycle, dif_neg hcycle]
          refine (hbuild _ d hget hcycle s site.name (some site) (some id) _ _ hstack
            (congrArg (sitePath · site.name) hpath) hdepth hscope).bind ?_
          rintro built c ⟨hname, hbuilt⟩
          have hsize : built.nodes.size = s.nodes.size + c.size := by
            rw [hbuilt.size, Component.length_layout]
          -- the parent is found again behind the site, with one child more
          have hlt : id.val < built.nodes.size := by omega
          have hparent := hbuilt.getElem_parent id.isLt hlt
          refine (ih built.toBuildState ⟨id, hlt⟩ _ (site.name :: seen)
            (hbuilt.stack.trans hstack) rfl ?_ ?_ ?_).bind fun rest cs hrest => .ok ?_
          · exact (congrArg Instance.path hparent).trans hpath
          · exact (congrArg (Instance.depth · + 1) hparent).trans hdepth
          · exact (congrArg Instance.parameters hparent).trans hscope
          · rw [numbers, layoutAll, hname, ← hsize]
            exact hbuilt.trans hrest fun p hp => by cases hp; exact id.isLt

/-- The triggers of an instance that is there are those of its owner. -/
theorem ownTriggers_agree {i : Instance} {r : ReactorDecl} :
    Agree (· = ·) (fun own triggers => own = triggers.map (·.ownedBy i.id))
      (ownTriggers e (some i) r) (e.triggers i.owner r) := by
  rw [ownTriggers]
  cases e.triggers i.owner r with
  | error cause => exact .error rfl
  | ok triggers => exact .ok rfl

/-- **A run of the pass.**  The induction is on the definitions that are not on the stack. -/
theorem buildsLayout (around : List String) (r : ReactorDecl) : e.BuildsLayout t around r := by
  induction around, r using t.nested_induction with
  | step around r ih =>
    rintro s name site parent _ _ rfl rfl hdepth rfl
    rw [build, expand]
    simp only [hdepth]
    by_cases hdeep : e.config.maxDepth < s.stack.length
    · rw [if_pos hdeep, if_pos hdeep]
      exact .error rfl
    · rw [if_neg hdeep, if_neg hdeep]
      refine Agree.bind (R := (· = ·)) (.of_self (fun _ => rfl) fun _ _ => rfl) ?_
      rintro parameters _ rfl
      have hparent := s.lt_size_of_mem_parent_fresh r name parent parameters
      have hmade := BuildState.getElem_enter hparent (by simp)
      refine (buildSites_agrees ih r.sites _ _ _ [] rfl rfl ?_ ?_ ?_).bind fun inside cs hinside => ?_
      · exact congrArg Instance.path hmade
      · rw [List.length_append, ← hdepth]
        exact congrArg (Instance.depth · + 1) hmade
      · exact congrArg Instance.parameters hmade
      · have hlt : s.nodes.size < inside.leave.nodes.size :=
          Nat.lt_of_lt_of_le (by simp) inside.least_le
        -- the instance is as it was made, but for the list of its children
        have hleft : inside.leave.nodes[s.nodes.size] = _ :=
          (hinside.getElem_parent (by simp) hlt).trans (congrArg (Instance.adopting · _) hmade)
        rw [hleft]
        refine ownTriggers_agree.bind ?_
        rintro _ triggers rfl
        refine .ok ⟨rfl, ?_⟩
        -- behind it stand the components of the sites, one level below
        have hadds := hinside.complete (triggers.map (·.ownedBy s.nodes.size)) hparent rfl rfl
        simp only [BuildState.size_enter, List.length_append, List.length_singleton, ← hdepth]
          at hadds
        rw [Component.layout, ← hdepth]
        exact hadds

/-- **The tree that is built is that of the component of the main reactor**, and if it has none
the error is the same. -/
theorem elaborate_eq_map (e : Elaborator) (t : Definitions) (main : String) :
    e.elaborate t main = (e.expandMain t main).map Component.toTree := by
  rw [elaborate, expandMain]
  cases t.get? main with
  | none => rfl
  | some r =>
    have hrun : Agree (· = ·)
        (fun built c => c.name = r.name ∧
          BuildState.start.Adds none [0] (c.layout 0 none 0 r.name) built.toBuildState)
        (e.build t .start r r.name none none) (e.expand t [] r.name r.name r .empty .empty) :=
      buildsLayout [] r .start r.name none none _ _ rfl rfl rfl rfl
    refine (hrun.map ?_).eq
    rintro built c ⟨hname, hadds⟩
    have hnodes : built.nodes.toList = c.layout 0 none 0 c.name := by
      rw [hadds.nodes, hname]
      rfl
    rw [InstanceTree.mk.injEq]
    exact hnodes

/-- The successful elaborations of a table: the main reactor is found and unrolls. -/
theorem elaborate_eq_ok {main : String} {tree : InstanceTree} :
    e.elaborate t main = .ok tree ↔ ∃ r c, t.get? main = some r ∧
      e.expand t [] r.name r.name r .empty .empty = .ok c ∧ tree = c.toTree := by
  rw [elaborate_eq_map, expandMain, map_eq_ok]
  cases t.get? main with
  | none => simp
  | some r => simp [eq_comm]

end Elaborator

/-- The successful elaborations: those of programs with a table of definitions, in which the main
reactor is found and unrolls. -/
theorem elaborate_eq_ok {p : Program} {config : Config} {tree : InstanceTree} :
    elaborate p config = .ok tree ↔
      ∃ t main c, p.definitions = .ok t ∧ t.get? p.main = some main ∧
        Elaborator.expand ⟨config, Expr.text⟩ t [] main.name main.name main .empty .empty = .ok c ∧
        tree = c.toTree := by
  rw [elaborate]
  cases p.definitions with
  | error cause => simp
  | ok t => simp [Elaborator.elaborate_eq_ok]

end Reactors

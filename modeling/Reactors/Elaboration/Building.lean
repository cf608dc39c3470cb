import Reactors.Elaboration.Triggers
import Reactors.Instance.Tree

/-!
# Building the tree

Starting from the main reactor, one pass goes through the sites of all definitions and makes an
instance for each of them.  An instance is put behind those made before as soon as its parameters
are resolved, and is listed by its parent; then everything inside it is built, in the order of the
sites; its triggers are written back last.  The parameters of an instance are therefore complete
before any of its sites needs them.

While the sites of a definition are built, the definition stands on a stack.  A definition in which
an instantiation of itself is met again has no finite tree, and is refused.  So the definitions on
the stack are distinct, and each step inwards leaves fewer definitions that can still be met: the
pass ends.

## Main definitions

* `BuildState` — the instances so far and the stack.
* `BuildState.Later` — a state that the pass comes to when an instance is complete.
* `Definitions.unmet` — how many definitions are not on the stack.
* `Elaborator.build`, `Elaborator.buildSites` — the pass.
* `Elaborator.elaborate`, `elaborate` — the tree of a table of definitions and of a program.

## Main results

* `Definitions.unmet_append_lt` — a step inwards leaves fewer definitions.
-/

namespace Reactors

/-! ### The measure -/

/-- How many defined names are not in a list. -/
def Definitions.unmet (t : Definitions) (stack : List String) : Nat :=
  (t.names.filter (· ∉ stack)).length

/-- Adding a defined name that was not in the list leaves fewer names. -/
theorem Definitions.unmet_append_lt {t : Definitions} {stack : List String} {name : String}
    (hmem : name ∈ t.names) (hnew : name ∉ stack) :
    t.unmet (stack ++ [name]) < t.unmet stack := by
  unfold Definitions.unmet
  have hsub : t.names.filter (· ∉ stack ++ [name]) =
      (t.names.filter (· ∉ stack)).filter (· ≠ name) := by
    simp [List.filter_filter, List.mem_append, not_or, and_comm]
  rw [hsub]
  refine Nat.lt_of_le_of_ne (List.length_filter_le _ _) fun heq => ?_
  have hall := List.length_filter_eq_length_iff.1 heq name
    (List.mem_filter.2 ⟨hmem, by simpa using hnew⟩)
  simp at hall

/-! ### Places -/

/-- The path of a site inside the instance at a path. -/
def Elaborator.sitePath (path site : String) : String := path ++ "." ++ site

namespace Instance

/-- The path of an instance inside another one; without one, its name. -/
def pathIn (enclosing : Option Instance) (name : String) : String :=
  enclosing.elim name fun i => Elaborator.sitePath i.path name

/-- The depth of an instance inside another one; without one, zero. -/
def depthIn (enclosing : Option Instance) : Nat := enclosing.elim 0 (·.depth + 1)

/-- An instance with further children. -/
def adopting (i : Instance) (children : List Nat) : Instance :=
  { i with children := i.children ++ children }

end Instance

/-! ### The state of the pass -/

/-- What is known in the middle of the pass. -/
structure BuildState where
  /-- The instances so far, by number. -/
  nodes : Array Instance
  /-- The definitions whose sites are being built, the outermost first. -/
  stack : List String

namespace BuildState

/-- Nothing is built yet. -/
def start : BuildState := ⟨#[], []⟩

/-- The parent of a new instance, if it has one. -/
def enclosing (s : BuildState) (parent : Option (Fin s.nodes.size)) : Option Instance :=
  parent.map fun p => s.nodes[p]

/-- A new instance, with the next free number; nothing is inside it yet, and it has no triggers. -/
def fresh (s : BuildState) (r : ReactorDecl) (name : String) (parent : Option (Fin s.nodes.size))
    (parameters : Scope) : Instance where
  id := s.nodes.size
  name := name
  reactor := r.name
  parent := parent.map Fin.val
  depth := Instance.depthIn (s.enclosing parent)
  path := Instance.pathIn (s.enclosing parent) name
  children := []
  parameters := parameters
  triggers := []

/-- Lists an instance as the last child of its parent. -/
def adopt (s : BuildState) (parent : Option Nat) (child : Nat) : BuildState :=
  match parent with
  | none => s
  | some p => { s with nodes := s.nodes.modify p (·.adopting [child]) }

/-- Puts a new instance behind the others, and its definition on the stack. -/
def enter (s : BuildState) (i : Instance) : BuildState :=
  let pushed : BuildState := { s with nodes := s.nodes.push i }
  { pushed.adopt i.parent i.id with stack := s.stack ++ [i.reactor] }

/-- Takes the last definition from the stack. -/
def leave (s : BuildState) : BuildState := { s with stack := s.stack.dropLast }

/-- Gives an instance its triggers. -/
def setTriggers (s : BuildState) (id : Nat) (triggers : List TriggerInstance) : BuildState :=
  { s with nodes := s.nodes.modify id fun i => { i with triggers } }

@[simp] theorem size_adopt (s : BuildState) (parent : Option Nat) (child : Nat) :
    (s.adopt parent child).nodes.size = s.nodes.size := by
  cases parent with
  | none => rfl
  | some p => exact Array.size_modify

@[simp] theorem size_enter (s : BuildState) (i : Instance) :
    (s.enter i).nodes.size = s.nodes.size + 1 := by
  rw [enter, size_adopt, Array.size_push]

@[simp] theorem stack_enter (s : BuildState) (i : Instance) :
    (s.enter i).stack = s.stack ++ [i.reactor] := rfl

/-- The definition that is left is the one that was entered last. -/
theorem stack_leave {s s' : BuildState} {i : Instance} (h : s'.stack = (s.enter i).stack) :
    s'.leave.stack = s.stack := by
  rw [leave, h, stack_enter]
  exact List.dropLast_concat

@[simp] theorem size_setTriggers (s : BuildState) (id : Nat) (triggers : List TriggerInstance) :
    (s.setTriggers id triggers).nodes.size = s.nodes.size :=
  Array.size_modify

/-- A later state of the pass, with the same definitions on the stack as in an earlier one and
with at least so many instances. -/
structure Later (s : BuildState) (least : Nat) extends BuildState where
  stack_eq : stack = s.stack
  least_le : least ≤ nodes.size

end BuildState

/-! ### The pass -/

namespace Elaborator

mutual

/-- Builds an instance of a definition under a name, and everything inside it.  The main reactor
has no site and no parent. -/
def build (e : Elaborator) (t : Definitions) (s : BuildState) (r : ReactorDecl) (name : String)
    (site : Option Site) (parent : Option (Fin s.nodes.size)) :
    Except ElaborationError (s.Later (s.nodes.size + 1)) := do
  let path := Instance.pathIn (s.enclosing parent) name
  if e.config.maxDepth < Instance.depthIn (s.enclosing parent) then
    throw (.depthLimitExceeded path e.config.maxDepth)
  let parameters ← resolveParameters e.quote path r (Site.overridesOf site)
    (Instance.scopeOf (s.enclosing parent))
  let id := s.nodes.size
  let begun := s.enter (s.fresh r name parent parameters)
  have hid : id < begun.nodes.size := by simp [id, begun]
  let inside ← buildSites e t begun ⟨id, hid⟩ path [] r.sites
  let left := inside.leave
  have hleft : id < left.nodes.size := Nat.lt_of_lt_of_le hid inside.least_le
  let triggers ← ownTriggers e (some left.nodes[id]) r
  return {
    toBuildState := left.setTriggers id triggers
    stack_eq := BuildState.stack_leave inside.stack_eq
    least_le := by
      rw [BuildState.size_setTriggers]
      exact hleft }
termination_by (t.unmet (s.stack ++ [r.name]), 1, 0)

/-- Builds the sites of the instance with a number and a path; `seen` are the names of the sites
before. -/
def buildSites (e : Elaborator) (t : Definitions) (s : BuildState) (id : Fin s.nodes.size)
    (path : String) (seen : List String) :
    List Site → Except ElaborationError (s.Later s.nodes.size)
  | [] => return ⟨s, rfl, Nat.le_refl _⟩
  | site :: sites => do
    if site.name ∈ seen then throw (.duplicateName path site.name)
    match _hget : t.get? site.reactor with
    | none => throw (.unresolvedReactor (sitePath path site.name) site.reactor)
    | some d =>
      -- the cycle starts where the definition was met first
      if _hcycle : d.name ∈ s.stack then
        throw (.cyclicInstantiation (s.stack.dropWhile (· ≠ d.name) ++ [d.name]))
      else
        let built ← build e t s d site.name (some site) (some id)
        have hle : s.nodes.size ≤ built.nodes.size :=
          Nat.le_trans (Nat.le_succ _) built.least_le
        let rest ← buildSites e t built.toBuildState (id.castLE hle) path (site.name :: seen) sites
        return ⟨rest.toBuildState, rest.stack_eq.trans built.stack_eq,
          Nat.le_trans hle rest.least_le⟩
termination_by sites => (t.unmet s.stack, 0, sites.length)
decreasing_by
  · exact Prod.Lex.left _ _
      (Definitions.unmet_append_lt (Definitions.mem_names_of_get? _hget) _hcycle)
  · rw [built.stack_eq]
    exact Prod.Lex.right _ (Prod.Lex.right _ (by simp))

end

/-- The tree of the main reactor of a table of definitions. -/
def elaborate (e : Elaborator) (t : Definitions) (main : String) :
    Except ElaborationError InstanceTree :=
  match t.get? main with
  | none => .error (.unresolvedReactor main main)
  | some r => (e.build t .start r r.name none none).map fun built =>
    ⟨built.nodes.toList, List.ne_nil_of_length_pos built.least_le⟩

end Elaborator

/-- The tree of a program. -/
def elaborate (p : Program) (config : Config) : Except ElaborationError InstanceTree :=
  match p.definitions with
  | .error cause => .error (.invalidProgram cause)
  | .ok t => Elaborator.elaborate ⟨config, Expr.text⟩ t p.main

end Reactors

import Reactors.Elaboration.Building

/-!
# Unrolling the hierarchy

The hierarchy of instances as a value: every site of a definition is unrolled into a component of
its own, which holds the components of its own sites in turn.  A component does not know its
number, and it is made when those inside it are; the same checks are made in the same order as when
the tree is built, but nothing is written back.  What holds of a hierarchy can therefore be shown
by induction on its components.

## Main definitions

* `Component` — a reactor with its parameters and triggers and the components inside.
* `Elaborator.expand`, `Elaborator.expandSites` — the unrolling.
* `Elaborator.expandMain` — the component of the main reactor.
-/

namespace Reactors

/-- A reactor instantiated under a name, with everything inside it. -/
inductive Component where
  | mk (name reactor : String) (parameters : Scope) (triggers : List Trigger)
    (children : List Component)

namespace Component

/-- The name of the site. -/
def name : Component → String
  | mk name _ _ _ _ => name

/-- The reactor that is instantiated. -/
def reactor : Component → String
  | mk _ reactor _ _ _ => reactor

/-- The resolved parameters. -/
def parameters : Component → Scope
  | mk _ _ parameters _ _ => parameters

/-- The triggers. -/
def triggers : Component → List Trigger
  | mk _ _ _ triggers _ => triggers

/-- The components inside, in the order of their sites. -/
def children : Component → List Component
  | mk _ _ _ _ children => children

end Component

namespace Elaborator

/-! ### The unrolling -/

mutual

/-- Unrolls a definition under a name.  `around` are the definitions around it, the outermost
first; `scope` are the parameters of the enclosing instance. -/
def expand (e : Elaborator) (t : Definitions) (around : List String) (path name : String)
    (r : ReactorDecl) (overrides : OrderedMap Expr) (scope : Scope) :
    Except ElaborationError Component := do
  if e.config.maxDepth < around.length then
    throw (.depthLimitExceeded path e.config.maxDepth)
  let parameters ← resolveParameters e.quote path r overrides scope
  let children ← expandSites e t (around ++ [r.name]) path parameters [] r.sites
  let triggers ← e.triggers ⟨path, parameters⟩ r
  return ⟨name, r.name, parameters, triggers, children⟩
termination_by (t.unmet (around ++ [r.name]), 1, 0)

/-- Unrolls sites of the instance at a path, whose parameters are `scope`.  `stack` are the
definitions around the sites, and `seen` the names of the sites before. -/
def expandSites (e : Elaborator) (t : Definitions) (stack : List String) (path : String)
    (scope : Scope) (seen : List String) : List Site → Except ElaborationError (List Component)
  | [] => return []
  | s :: ss => do
    if s.name ∈ seen then throw (.duplicateName path s.name)
    match _hget : t.get? s.reactor with
    | none => throw (.unresolvedReactor (sitePath path s.name) s.reactor)
    | some r =>
      -- the cycle starts where the definition was met first
      if _hcycle : r.name ∈ stack then
        throw (.cyclicInstantiation (stack.dropWhile (· ≠ r.name) ++ [r.name]))
      else
        let c ← expand e t stack (sitePath path s.name) s.name r s.overrides scope
        let cs ← expandSites e t stack path scope (s.name :: seen) ss
        return c :: cs
termination_by ss => (t.unmet stack, 0, ss.length)
decreasing_by
  · exact Prod.Lex.left _ _
      (Definitions.unmet_append_lt (Definitions.mem_names_of_get? _hget) _hcycle)
  · exact Prod.Lex.right _ (Prod.Lex.right _ (by simp))

end

/-- Unrolls the main reactor, which nothing encloses and nothing overrides. -/
def expandMain (e : Elaborator) (t : Definitions) (main : String) :
    Except ElaborationError Component :=
  match t.get? main with
  | none => .error (.unresolvedReactor main main)
  | some r => e.expand t [] r.name r.name r .empty .empty

end Elaborator
end Reactors

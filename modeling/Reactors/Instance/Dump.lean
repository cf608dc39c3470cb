import Reactors.Instance.Tree

/-!
# The dump of a tree

A tree is shown as indented lines: a line for each instance, below it its parameters and its
triggers, then the instances inside it.

## Main definitions

* `InstanceTree.render` — the dump.
-/

namespace Reactors

/-- Two spaces for each level. -/
def indent (depth : Nat) : String := String.ofList (List.replicate (2 * depth) ' ')

/-- A line with its end. -/
def line (depth : Nat) (text : String) : String := indent depth ++ text ++ "\n"

/-- The origin of a parameter's value as the dump shows it. -/
def Provenance.word : Provenance → String
  | .default => "default"
  | .override => "override"

/-- A parameter as the dump shows it. -/
def Parameter.line (p : Parameter) : String :=
  "param " ++ p.name ++ " = " ++ p.value.text ++ " [" ++ p.provenance.word ++ "]"

/-- The lines of one instance. -/
def Instance.render (i : Instance) : String :=
  line i.depth (i.name ++ " : " ++ i.reactor) ++
    String.join (i.parameters.values.map fun p => line (i.depth + 1) p.line) ++
    String.join (i.triggers.map fun t => line (i.depth + 1) t.text)

/-- The dump of a tree. -/
def InstanceTree.render (t : InstanceTree) : String :=
  String.join (t.preorder.map Instance.render)

end Reactors

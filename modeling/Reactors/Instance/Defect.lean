import Reactors.Text.Numeral

/-!
# Defects of a stored instance tree

A list of instances is a tree only if their numbers and links fit together.

## Main definitions

* `TreeDefect` — what can be wrong.
* `TreeDefect.message` — the wording.
-/

namespace Reactors

/-- Why a list of instances is no tree; instances are named by their paths. -/
inductive TreeDefect where
  /-- The list is empty. -/
  | noRoot
  /-- The first instance names a parent. -/
  | rootHasParent (path : String)
  /-- The number of an instance is not its position. -/
  | misnumbered (path : String) (id position : Nat)
  /-- An instance names no parent, or one that does not precede it. -/
  | precedesParent (path : String)
  /-- A listed child does not follow the instance, or does not name it as its parent. -/
  | notAChild (path : String) (child : Nat)
  /-- Two instances have one path. -/
  | ambiguousPath
  deriving DecidableEq, Repr

namespace TreeDefect

/-- What is wrong, in words. -/
def reason : TreeDefect → String
  | .noRoot => "no root instance"
  | .rootHasParent path => "first instance " ++ path ++ " has a parent"
  | .misnumbered path id position =>
    "instance " ++ path ++ " has id " ++ Text.natural id ++ " at position " ++
      Text.natural position
  | .precedesParent path => "instance " ++ path ++ " does not follow its parent"
  | .notAChild path child =>
    "instance " ++ path ++ " lists " ++ Text.natural child ++ " as a child"
  | .ambiguousPath => "qualified names are not unique"

/-- The wording of the error. -/
def message (d : TreeDefect) : String := "Malformed instance tree: " ++ d.reason

end TreeDefect
end Reactors

import Reactors.Binary64

/-!
# Documents

The data that a stored text holds, whatever format the text is in: scalars, lists, and
tables of named entries in the order of the text, repeated names included.

A reader of a text goes as far as it can and leaves a mark where it cannot go on.  Two marks
tell apart what a consumer has to know: an `illegible` value is written by the rules of the
format but stands for nothing that can be used, and may still be passed over; behind a `broken`
place there is no further text to be had.

## Main definitions

* `Document` — the data.
* `Document.passable` — whether a value can be passed over.
* `Document.record` — a table without repeated or illegible names.
-/

namespace Reactors

/-- The data of a stored text. -/
inductive Document where
  | null
  | bool (value : Bool)
  | integer (value : Int)
  | float (value : Binary64)
  | text (value : String)
  | list (items : List Document)
  /-- Entries in the order of the text; an illegible name is `none`. -/
  | table (entries : List (Option String × Document))
  /-- Well written, but without a usable value. -/
  | illegible
  /-- The text fails here. -/
  | broken
  deriving Inhabited

namespace Document

/-! ### Passing over a value -/

mutual

/-- Whether a value can be passed over: nothing in it is broken. -/
def passable : Document → Bool
  | .list items => passableItems items
  | .table entries => passableEntries entries
  | .broken => false
  | _ => true

/-- Whether every item can be passed over. -/
def passableItems : List Document → Bool
  | [] => true
  | d :: ds => passable d && passableItems ds

/-- Whether every entry can be passed over; its name does not matter. -/
def passableEntries : List (Option String × Document) → Bool
  | [] => true
  | (_, d) :: es => passable d && passableEntries es

end

/-! ### Building documents -/

/-- A table with these names. -/
def record (entries : List (String × Document)) : Document :=
  .table (entries.map fun e => (some e.1, e.2))

/-- A value that may be missing; a missing one is null. -/
def option {α : Type} (encode : α → Document) : Option α → Document
  | none => .null
  | some a => encode a

/-- A list of values of one kind. -/
def listOf {α : Type} (encode : α → Document) (items : List α) : Document :=
  .list (items.map encode)

/-- A floating point number; one that is not finite has no stored form and is null. -/
def ofBinary64 (x : Binary64) : Document := if x.isFinite then .float x else .null

end Document
end Reactors

import Reactors.Document.Codec

/-!
# Stored structures

A structure is stored as a table of its fields.  When it is read, entries with other names are
passed over, and a field may be left out if it has a value for that case; the same field twice
is a fault.  A structure may also be read from the list of its fields in order, of which the
last ones may be missing.

The fields of a structure are a list of `Field`s indexed by their types; the values of all
of them are a `Row`.

## Main definitions

* `Field` — a field: its name, its codec, and its values when it is missing.
* `Fields`, `Row`, `Slots` — the fields of a structure, their values, and the values read so far.
* `Codec.ofFields` — the stored form of a structure.
-/

namespace Reactors

/-- A field of a stored structure. -/
structure Field (α : Type) where
  name : String
  codec : Codec α
  /-- The value of a field that a table does not mention, if it may be left out. -/
  absent : Option α
  /-- The value of a field that a list ends before, if it may be left out. -/
  unreached : Option α

namespace Field

/-- A field that must be there. -/
def required {α : Type} (name : String) (codec : Codec α) : Field α := ⟨name, codec, none, none⟩

/-- A field that has a value of its own when it is left out. -/
def withDefault {α : Type} (name : String) (codec : Codec α) (value : α) : Field α :=
  ⟨name, codec, some value, some value⟩

/-- A field whose absence from a table means that there is no value. -/
def nullable {α : Type} (name : String) (codec : Codec α) : Field (Option α) :=
  ⟨name, codec.option, some none, none⟩

end Field

/-- The fields of a structure, in order. -/
inductive Fields : List Type → Type 1 where
  | nil : Fields []
  | cons {α : Type} {αs : List Type} (field : Field α) (rest : Fields αs) : Fields (α :: αs)

/-- A value for each field. -/
def Row : List Type → Type
  | [] => Unit
  | α :: αs => α × Row αs

/-- The values of the fields that were met so far. -/
def Slots : List Type → Type
  | [] => Unit
  | α :: αs => Option α × Slots αs

namespace Fields

open Codec (require expect)

/-- No field was met yet. -/
def noSlots {αs : List Type} : Fields αs → Slots αs
  | .nil => ()
  | .cons _ fs => (none, fs.noSlots)

/-! ### Writing -/

/-- The entries of a row of values. -/
def entries {αs : List Type} : Fields αs → Row αs → List (String × Document)
  | .nil, _ => []
  | .cons f fs, (a, row) => (f.name, f.codec.write a) :: fs.entries row

/-! ### Reading a table -/

/-- Reads one entry into its slot; an entry with another name must only be passable. -/
def place {αs : List Type} (dialect : Dialect) (key : String) (d : Document) :
    Fields αs → Slots αs → Except DecodeError (Slots αs)
  | .nil, _ => (require d.passable).map fun _ => ()
  | .cons f fs, (slot, slots) =>
    if f.name = key then do
      require slot.isNone
      let a ← f.codec.read dialect d
      return (some a, slots)
    else (fs.place dialect key d slots).map fun slots => (slot, slots)

/-- Reads the entries of a table. -/
def placeAll {αs : List Type} (dialect : Dialect) (fs : Fields αs) :
    Slots αs → List (Option String × Document) → Except DecodeError (Slots αs)
  | slots, [] => .ok slots
  | slots, (k, d) :: es => do
    let key ← expect k
    let slots ← fs.place dialect key d slots
    placeAll dialect fs slots es

/-- The row of the values that were met and those of the fields that were left out. -/
def complete {αs : List Type} : Fields αs → Slots αs → Except DecodeError (Row αs)
  | .nil, _ => .ok ()
  | .cons f fs, (slot, slots) => do
    let a ← expect (slot.or f.absent)
    let row ← fs.complete slots
    return (a, row)

/-! ### Reading a list -/

/-- Reads the fields from a list of their values. -/
def readItems {αs : List Type} (dialect : Dialect) :
    Fields αs → List Document → Except DecodeError (Row αs)
  | .nil, ds => (require (!dialect.strictRows || ds.isEmpty)).map fun _ => ()
  | .cons f fs, [] => do
    let a ← expect f.unreached
    let row ← fs.readItems dialect []
    return (a, row)
  | .cons f fs, d :: ds => do
    let a ← f.codec.read dialect d
    let row ← fs.readItems dialect ds
    return (a, row)

/-- Reads the values of the fields. -/
def read {αs : List Type} (dialect : Dialect) (fs : Fields αs) :
    Document → Except DecodeError (Row αs)
  | .table es => do fs.complete (← fs.placeAll dialect fs.noSlots es)
  | .list ds => fs.readItems dialect ds
  | _ => .error .malformed

end Fields

/-- The stored form of a structure: `build` puts its fields together and `parts` takes it
apart. -/
def Codec.ofFields {α : Type} {αs : List Type} (fs : Fields αs) (build : Row αs → α)
    (parts : α → Row αs) : Codec α where
  write a := .record (fs.entries (parts a))
  read dialect d := (fs.read dialect d).map build

/-- A stored form that is read through a check. -/
def Codec.checked {α β : Type} (c : Codec α) (check : α → Except DecodeError β)
    (forget : β → α) : Codec β where
  write b := c.write (forget b)
  read dialect d := (c.read dialect d).bind check

end Reactors

import Reactors.Document
import Reactors.Document.Error
import Reactors.Decimal.Rounding
import Reactors.OrderedMap
import Reactors.Text.Numeral

/-!
# Stored forms

A codec gives a type its stored form: how a value is written as a document, and how it is
read from one.  Reading meets the parts of a document in the order in which they stand, so that
the first fault of a text is the one that is reported.

The formats differ in three points, which a `Dialect` fixes.

## Main definitions

* `Dialect` — what depends on the format of the text.
* `Codec` — a written form and its reader.
* `Codec.int64`, `Codec.text`, … — scalars.
* `Codec.option`, `Codec.list`, `Codec.orderedMap` — values in number.
* `Codec.constants`, `alternative` — one of several tagged alternatives.
-/

namespace Reactors

/-- What reading leaves to the format of the text. -/
structure Dialect where
  /-- What stands behind the tag of an alternative that has no contents. -/
  isVoid : Document → Bool
  /-- Whether a structure written as a list may hold no more items than it has fields. -/
  strictRows : Bool
  /-- Whether the contents of an alternative are read before it is known that there is only one
  tag. -/
  contentsFirst : Bool

/-- How values are written as documents, and how they are read. -/
structure Codec (α : Type) where
  write : α → Document
  read : Dialect → Document → Except DecodeError α

namespace Codec

/-- Goes on only under a condition on the shape of the document. -/
def require (condition : Bool) : Except DecodeError Unit :=
  if condition then .ok () else .error .malformed

/-- The value of a reader that knows only one way to fail. -/
def expect {α : Type} : Option α → Except DecodeError α
  | some a => .ok a
  | none => .error .malformed

/-! ### Scalars -/

/-- An integer of 64 bits with sign. -/
def int64 : Codec Int64 where
  write n := .integer n.toInt
  read _
    | .integer n => expect (Text.int64? n)
    | _ => .error .malformed

/-- A count or a position: less than `2 ^ 64`. -/
def natural : Codec Nat where
  write n := .integer n
  read _
    | .integer n => if 0 ≤ n ∧ n < (UInt64.size : Int) then .ok n.toNat else .error .malformed
    | _ => .error .malformed

/-- An integer of 64 bits without sign. -/
def uint64 : Codec UInt64 where
  write n := .integer n.toNat
  read dialect d := (natural.read dialect d).map UInt64.ofNat

/-- A floating point number; an integer stands for the number nearest to it. -/
def binary64 : Codec Binary64 where
  write := Document.ofBinary64
  read _
    | .float x => .ok x
    | .integer n => .ok (Decimal.nearestInt n)
    | _ => .error .malformed

/-- A truth value. -/
def bool : Codec Bool where
  write := .bool
  read _
    | .bool b => .ok b
    | _ => .error .malformed

/-- A string. -/
def text : Codec String where
  write := .text
  read _
    | .text s => .ok s
    | _ => .error .malformed

/-! ### Values in number -/

/-- A value that may be missing, which null stands for. -/
def option {α : Type} (c : Codec α) : Codec (Option α) where
  write := Document.option c.write
  read dialect
    | .null => .ok none
    | d => (c.read dialect d).map some

/-- A list of values. -/
def list {α : Type} (c : Codec α) : Codec (List α) where
  write := Document.listOf c.write
  read dialect
    | .list ds => ds.mapM (c.read dialect)
    | _ => .error .malformed

/-- Reads the entries of a map one after the other. -/
def readEntries {α : Type} (read : Document → Except DecodeError α) :
    OrderedMap α → List (Option String × Document) → Except DecodeError (OrderedMap α)
  | m, [] => .ok m
  | m, (k, d) :: es => do
    let key ← expect k
    let value ← read d
    readEntries read (m.set key value) es

/-- A map with its entries in order; of a repeated name the first position and the last value
count. -/
def orderedMap {α : Type} (c : Codec α) : Codec (OrderedMap α) where
  write m := Document.record (m.entries.map fun e => (e.1, c.write e.2))
  read dialect
    | .table es => readEntries (c.read dialect) .empty es
    | _ => .error .malformed

/-! ### Alternatives -/

/-- Reads one of several alternatives.  One without contents is written as its tag, or as a
table with the tag and what the format takes for nothing; one with contents as a table with
the tag and the contents.  A second tag is a fault. -/
def alternative {α : Type} (dialect : Dialect) (constant? : String → Option α)
    (contents : String → Document → Except DecodeError α) : Document → Except DecodeError α
  | .text tag => expect (constant? tag)
  | .table ((some tag, d) :: rest) => do
    require (dialect.contentsFirst || rest.isEmpty)
    let a ← match constant? tag with
      | some a => (require (dialect.isVoid d)).map fun _ => a
      | none => contents tag d
    require rest.isEmpty
    return a
  | _ => .error .malformed

/-- A type of constants, written as their tags. -/
def constants {α : Type} (all : List α) (tag : α → String) : Codec α where
  write a := .text (tag a)
  read dialect :=
    alternative dialect (fun t => all.find? (tag · == t)) fun _ _ => .error .malformed

end Codec
end Reactors

import Reactors.Document

/-!
# Building tables from keys

A TOML text names the places of its values by keys of several parts, which headers and dotted
keys may lead through the same tables.  What may be added to a table depends on how it came
about, so that the tables under construction carry two marks: `implicit` for one that no
header and no braces have opened yet, and `dotted` for one that dotted keys have created.

## Main definitions

* `Node` — values, tables and arrays of tables under construction.
* `updateAt` — changes the table that a key leads to.
* `addPair`, `addTable`, `addItem` — a pair, a section, and an item of an array of tables.
* `Node.toDocument` — the finished document.
-/

namespace Reactors
namespace Toml

/-- A place in a document under construction. -/
inductive Node where
  /-- A finished value, which nothing can be added to. -/
  | value (d : Document)
  | table (implicit dotted : Bool) (entries : List (String × Node))
  /-- An array of tables; keys lead into the last one. -/
  | tables (items : List (List (String × Node)))

/-- The entries of a table under construction. -/
abbrev Entries := List (String × Node)

/-- A pair of a key in parts and a value. -/
abbrev Pair := List String × Document

/-! ### Entries -/

/-- The node with a name. -/
def node? (name : String) : Entries → Option Node
  | [] => none
  | (k, n) :: es => if k = name then some n else node? name es

/-- Entries with the node of one name replaced. -/
def replace (name : String) (n : Node) (es : Entries) : Entries :=
  es.map fun e => if e.1 = name then (name, n) else e

/-- Changes the last of several tables. -/
def updateLast (f : Entries → Option Entries) : List Entries → Option (List Entries)
  | [] => none
  | [es] => (f es).map ([·])
  | es :: rest => (updateLast f rest).map (es :: ·)

/-! ### Following a key -/

/-- Changes the table that a key leads to, creating tables on the way.  `change` is told whether
that table was created by dotted keys.  Dotted keys must not lead into a table that was opened
by a header. -/
def updateAt (viaDots : Bool) (change : Bool → Entries → Option Entries) :
    List String → Bool → Entries → Option Entries
  | [], dotted, es => change dotted es
  | part :: parts, _, es =>
    match node? part es with
    | none =>
      (updateAt viaDots change parts viaDots []).map fun inner =>
        es ++ [(part, .table true viaDots inner)]
    | some (.value _) => none
    | some (.tables items) =>
      -- a key leads into the table that was added last
      (updateLast (updateAt viaDots change parts false) items).map fun items =>
        replace part (.tables items) es
    | some (.table implicit dotted inner) =>
      -- a table with a header of its own is closed to dotted keys
      if viaDots && !implicit then none
      else
        (updateAt viaDots change parts dotted inner).map fun inner =>
          replace part (.table implicit dotted inner) es

/-! ### Pairs -/

/-- Adds a pair to a table.  A key of one part belongs to a table that dotted keys did not create, a
longer one to a table that they did; the name must be new. -/
def addPair (es : Entries) : Pair → Option Entries
  | (path, d) =>
    match path.getLast? with
    | none => none
    | some name =>
      updateAt true
        (fun dotted es =>
          if dotted == path.dropLast.isEmpty then none
          else if (node? name es).isSome then none
          else some (es ++ [(name, .value d)]))
        path.dropLast false es

/-- Adds pairs to a table, one after the other. -/
def addPairs (es : Entries) (pairs : List Pair) : Option Entries := pairs.foldlM addPair es

/-! ### Sections -/

/-- The table that a header opens inside the table around it, with its pairs.  Only a
table that was not opened before may be there already; it moves to the end. -/
def openTable (name : String) (pairs : List Pair) (es : Entries) : Option Entries := do
  let before ← match node? name es with
    | none => some []
    | some (.table true false inner) => some inner
    | some _ => none
  let inner ← addPairs before pairs
  return es.filter (·.1 ≠ name) ++ [(name, .table false false inner)]

/-- Adds a section: the key of its header, and its pairs. -/
def addTable (es : Entries) (path : List String) (pairs : List Pair) : Option Entries :=
  match path.getLast? with
  | none => none
  | some name => updateAt false (fun _ es => openTable name pairs es) path.dropLast false es

/-- The array of tables that a header extends, with its pairs as one more table. -/
def extendTables (name : String) (pairs : List Pair) (es : Entries) : Option Entries := do
  let inner ← addPairs [] pairs
  match node? name es with
  | none => return es ++ [(name, .tables [inner])]
  | some (.tables items) => return replace name (.tables (items ++ [inner])) es
  | some _ => none

/-- Adds an item of an array of tables: the key of its header, and its pairs. -/
def addItem (es : Entries) (path : List String) (pairs : List Pair) : Option Entries :=
  match path.getLast? with
  | none => none
  | some name => updateAt false (fun _ es => extendTables name pairs es) path.dropLast false es

/-! ### The finished document -/

mutual

/-- The document of a place. -/
def Node.toDocument : Node → Document
  | .value d => d
  | .table _ _ entries => .table (entryDocuments entries)
  | .tables items => .list (itemDocuments items)

/-- The entries of a finished table. -/
def entryDocuments : List (String × Node) → List (Option String × Document)
  | [] => []
  | (k, n) :: es => (some k, n.toDocument) :: entryDocuments es

/-- The items of a finished array of tables. -/
def itemDocuments : List (List (String × Node)) → List Document
  | [] => []
  | es :: rest => .table (entryDocuments es) :: itemDocuments rest

end

/-- A table that is written between braces. -/
def inlineTable? (pairs : List Pair) : Option Document :=
  (addPairs [] pairs).map fun es => .table (entryDocuments es)

end Toml
end Reactors

import Reactors.Toml.Table
import Reactors.Toml.Token
import Reactors.Toml.Word

/-!
# Reading TOML

The tokens of a text are read one by one into statements: headers, and pairs of a key and a
value.  The state holds the containers that are still open, as for any nested format, and
the position tells what may come next.  A text is sound as a whole or has no document at all.

Line ends may stand between statements and inside lists, not inside tables between braces.
Containers may be nested up to a level of `deepest`, and keys have fewer than `longestKey`
parts.

## Main definitions

* `Statement` — a header or a pair.
* `Frame`, `Position`, `State` — what has been read so far.
* `step` — the effect of one token.
* `statements?` — the statements of a text.
* `read` — the document of a text.
-/

namespace Reactors
namespace Toml

/-- The level of the innermost containers. -/
def deepest : Nat := 79

/-- Keys have fewer parts than this. -/
def longestKey : Nat := 80

/-- One statement of a text. -/
inductive Statement where
  /-- A header that opens a table. -/
  | table (path : List String)
  /-- A header that adds a table to an array of tables. -/
  | item (path : List String)
  | pair (pair : Pair)

/-! ### The state of reading -/

/-- A key that is being read: its parts so far, the last one first, and whether one is due. -/
structure Key where
  parts : List String
  due : Bool

/-- What a value that is being read belongs to. -/
inductive Frame where
  /-- A statement with this key. -/
  | statement (path : List String)
  /-- A list, with the items before, the last one first. -/
  | item (before : List Document)
  /-- A table between braces, with the pairs before, and the key of the value. -/
  | pair (before : List Pair) (path : List String)

/-- What may come next. -/
inductive Position where
  /-- A statement. -/
  | lineStart
  /-- The end of the line. -/
  | lineEnd
  /-- Behind the first bracket of a header. -/
  | headerStart
  /-- In the key of a header. -/
  | header (array : Bool) (key : Key)
  /-- Behind the first of two closing brackets. -/
  | headerEnd (path : List String)
  /-- In the key of a statement. -/
  | key (key : Key)
  /-- Behind an equals sign. -/
  | value
  /-- In a value without quotes. -/
  | word (chars : List Char)
  /-- In a list, where an item may follow or the end. -/
  | itemStart (before : List Document)
  /-- Behind an item. -/
  | itemEnd (before : List Document)
  /-- Behind the opening brace of a table. -/
  | pairStart
  /-- In a key between braces. -/
  | pairKey (before : List Pair) (key : Key)
  /-- Behind a pair between braces. -/
  | pairEnd (before : List Pair)

/-- The statements so far, the last one first, the open containers, and the position. -/
structure State where
  done : List Statement
  frames : List Frame
  position : Position

namespace State

/-- The same state at another position. -/
def goTo (s : State) (position : Position) : State := { s with position }

/-- The state with one more container or statement around the position. -/
def enter (s : State) (frame : Frame) (position : Position) : State :=
  { s with frames := frame :: s.frames, position }

/-- The state after one more statement. -/
def add (s : State) (statement : Statement) : State :=
  { done := statement :: s.done, frames := [], position := .lineEnd }

/-- Hands over a finished value to what it belongs to. -/
def deliver (s : State) (d : Document) : State :=
  match s.frames with
  | .item before :: frames => { s with frames, position := .itemEnd (d :: before) }
  | .pair before path :: frames => { s with frames, position := .pairEnd ((path, d) :: before) }
  | .statement path :: _ => s.add (.pair (path, d))
  | [] => s

end State

/-! ### Keys -/

/-- The beginning of a key. -/
def noKey : Key := ⟨[], true⟩

/-- The effect of a token on a key, if it can continue it. -/
def Key.extend? (k : Key) : Token → Option Key
  | .blank => some k
  | .dot => if k.due then none else some { k with due := true }
  | .text false s => if k.due then some ⟨s :: k.parts, false⟩ else none
  | .word chars =>
    if k.due && chars.all isKeyChar then some ⟨String.ofList chars :: k.parts, false⟩ else none
  | _ => none

/-- The parts of a complete key. -/
def Key.path? (k : Key) : Option (List String) :=
  if !k.due && k.parts.length < longestKey then some k.parts.reverse else none

/-! ### One token -/

/-- The effect of a token that starts a value. -/
def startValue? (s : State) : Token → Option State
  | .text _ value => some (s.deliver (.text value))
  | .word chars => some (s.goTo (.word chars))
  | .openList => if s.frames.length ≤ deepest then some (s.goTo (.itemStart [])) else none
  | .openTable => if s.frames.length ≤ deepest then some (s.goTo .pairStart) else none
  | _ => none

/-- The effect of a token between statements. -/
def startStatement? (s : State) : Token → Option State
  | .blank => some s
  | .newline => some s
  | .comment => some (s.goTo .lineEnd)
  | .openList => some (s.goTo .headerStart)
  | t => (noKey.extend? t).map fun k => s.goTo (.key k)

/-- The effect of a token in the key of a header. -/
def continueHeader? (s : State) (array : Bool) (k : Key) : Token → Option State
  | .closeList => do
    let path ← k.path?
    return if array then s.goTo (.headerEnd path) else s.add (.table path)
  | t => (k.extend? t).map fun k => s.goTo (.header array k)

/-- The effect of a token in the key of a pair; `enter` gives the frame of its value. -/
def continueKey? (s : State) (k : Key) (position : Key → Position)
    (frame : List String → Frame) : Token → Option State
  | .equals => k.path?.map fun path => s.enter (frame path) .value
  | t => (k.extend? t).map fun k => s.goTo (position k)

/-- Whether a token may stand anywhere in a list. -/
def isListSpace : Token → Bool
  | .blank => true
  | .newline => true
  | .comment => true
  | _ => false

/-- The effect of a token where an item of a list may start. -/
def continueList? (s : State) (before : List Document) (t : Token) : Option State :=
  if isListSpace t then some s
  else match t with
    | .closeList => some (s.deliver (.list before.reverse))
    | t => startValue? (s.enter (.item before) .value) t

/-- The effect of a token behind an item of a list. -/
def endItem? (s : State) (before : List Document) (t : Token) : Option State :=
  if isListSpace t then some s
  else match t with
    | .comma => some (s.goTo (.itemStart before))
    | .closeList => some (s.deliver (.list before.reverse))
    | _ => none

/-- Closes a table between braces. -/
def closeTable? (s : State) (before : List Pair) : Option State :=
  (inlineTable? before.reverse).map s.deliver

/-- The effect of a token outside a value without quotes. -/
def stepOutside? (s : State) (t : Token) : Option State :=
  match s.position, t with
  | .lineStart, t => startStatement? s t
  | .lineEnd, .blank => some s
  | .lineEnd, .comment => some s
  | .lineEnd, .newline => some (s.goTo .lineStart)
  | .headerStart, .openList => some (s.goTo (.header true noKey))
  | .headerStart, t => continueHeader? s false noKey t
  | .header array k, t => continueHeader? s array k t
  | .headerEnd path, .closeList => some (s.add (.item path))
  | .key k, t => continueKey? s k .key .statement t
  | .value, .blank => some s
  | .value, t => startValue? s t
  | .itemStart before, t => continueList? s before t
  | .itemEnd before, t => endItem? s before t
  | .pairStart, .blank => some s
  | .pairStart, .closeTable => closeTable? s []
  | .pairStart, t => continueKey? s noKey (.pairKey []) (.pair []) t
  | .pairKey before k, t => continueKey? s k (.pairKey before) (.pair before) t
  | .pairEnd _, .blank => some s
  | .pairEnd before, .comma => some (s.goTo (.pairKey before noKey))
  | .pairEnd before, .closeTable => closeTable? s before
  | _, _ => none

/-- The effect of a token.  A value without quotes goes on as long as words and points follow each
other; any other token ends it. -/
def step? (s : State) (t : Token) : Option State :=
  match s.position with
  | .word chars =>
    match t with
    | .word more => some (s.goTo (.word (chars ++ more)))
    | .dot => some (s.goTo (.word (chars ++ ['.'])))
    | t => do
      let d ← word? chars
      stepOutside? (s.deliver d) t
  | _ => stepOutside? s t

/-! ### A whole text -/

/-- The statements of a text.  The end of the text ends its last line. -/
def statements? (text : List Char) : Option (List Statement) := do
  let s ← (tokens text ++ [Token.newline]).foldlM step? ⟨[], [], .lineStart⟩
  match s.position with
  | .lineStart => return s.done.reverse
  | _ => none

/-- A header with the pairs below it. -/
structure Section where
  /-- Whether the header adds a table to an array of tables. -/
  array : Bool
  path : List String
  pairs : List Pair

/-- The pairs in front of all headers, and the sections. -/
def sections : List Statement → List Pair × List Section
  | [] => ([], [])
  | .pair p :: rest =>
    let (pairs, later) := sections rest
    (p :: pairs, later)
  | .table path :: rest =>
    let (pairs, later) := sections rest
    ([], ⟨false, path, pairs⟩ :: later)
  | .item path :: rest =>
    let (pairs, later) := sections rest
    ([], ⟨true, path, pairs⟩ :: later)

/-- Adds a section to the table of the text. -/
def addSection (es : Entries) (s : Section) : Option Entries :=
  if s.array then addItem es s.path s.pairs else addTable es s.path s.pairs

/-- The text without a byte order mark in front. -/
def dropMark : List Char → List Char
  | '\uFEFF' :: r => r
  | s => s

/-- The document of a text, if the text is sound. -/
def read (text : String) : Option Document := do
  let (pairs, later) := sections (← statements? (dropMark text.toList))
  let es ← later.foldlM addSection (← addPairs [] pairs)
  return .table (entryDocuments es)

end Toml
end Reactors

import Reactors.Json.Token

/-!
# Reading JSON

The tokens of a text are read one by one against the containers that are still open.
Reading never fails: at the first fault it closes everything that is open and leaves the mark
`broken` where the fault is, so that whoever uses the document meets what stood in front of the
fault before the fault itself.

Containers may be nested up to a level of `deepest`; one that lies deeper is illegible.

## Main definitions

* `Frame`, `Position` — the open containers, and what may come next.
* `step` — the effect of one token.
* `run` — reads one value off a list of tokens.
* `Reading`, `read` — the document of a text, and whether it ends there.
-/

namespace Reactors
namespace Json

/-- An entry of a table. -/
abbrev Entry := Option String × Document

/-- The level of the innermost containers that can be used. -/
def deepest : Nat := 127

/-! ### The state of reading -/

/-- A container in which a value is being read, with what it holds so far, the last one first. -/
inductive Frame where
  | item (before : List Document)
  | entry (before : List Entry) (name : Option String)

/-- What may come next.  Apart from `value`, the position is inside a container of its own, which
lies in the innermost frame. -/
inductive Position where
  /-- A value is due. -/
  | value
  /-- Behind the opening of a list. -/
  | listStart
  /-- Behind an item. -/
  | itemEnd (before : List Document)
  /-- Behind the opening of a table. -/
  | tableStart
  /-- Behind a comma in a table: a name is due. -/
  | name (before : List Entry)
  /-- Behind a name. -/
  | nameEnd (before : List Entry) (name : Option String)
  /-- Behind an entry. -/
  | entryEnd (before : List Entry)

/-- What a token leads to. -/
inductive Step where
  | next (frames : List Frame) (position : Position)
  | finished (document : Document)
  | fault

/-! ### One token -/

/-- Hands over a finished value to the innermost frame. -/
def deliver (d : Document) : List Frame → Step
  | [] => .finished d
  | .item before :: frames => .next frames (.itemEnd (d :: before))
  | .entry before name :: frames => .next frames (.entryEnd ((name, d) :: before))

/-- Hands over a container that lies in these frames; one that lies too deep is illegible. -/
def deliverContainer (d : Document) (frames : List Frame) : Step :=
  deliver (if frames.length < deepest then d else .illegible) frames

/-- Closes a list. -/
def closeList (before : List Document) (frames : List Frame) : Step :=
  deliverContainer (.list before.reverse) frames

/-- Closes a table. -/
def closeTable (before : List Entry) (frames : List Frame) : Step :=
  deliverContainer (.table before.reverse) frames

/-- The effect of a token where a value is due. -/
def startValue (frames : List Frame) : Token → Step
  | .scalar d => deliver d frames
  | .text (some s) => deliver (.text s) frames
  | .text none => deliver .illegible frames
  | .openList => .next frames .listStart
  | .openTable => .next frames .tableStart
  | _ => .fault

/-- The effect of a token. -/
def step (frames : List Frame) (position : Position) (t : Token) : Step :=
  match position, t with
  | .value, t => startValue frames t
  | .listStart, .closeList => closeList [] frames
  | .listStart, t => startValue (.item [] :: frames) t
  | .itemEnd before, .closeList => closeList before frames
  | .itemEnd before, .comma => .next (.item before :: frames) .value
  | .tableStart, .closeTable => closeTable [] frames
  | .tableStart, .text name => .next frames (.nameEnd [] name)
  | .name before, .text name => .next frames (.nameEnd before name)
  | .nameEnd before name, .colon => .next (.entry before name :: frames) .value
  | .entryEnd before, .closeTable => closeTable before frames
  | .entryEnd before, .comma => .next frames (.name before)
  | _, _ => .fault

/-! ### A fault -/

/-- The container that a fault leaves at a position; it cannot be used if it lies too deep. -/
def brokenAt (depth : Nat) (d : Document) : Document := if depth < deepest then d else .broken

/-- What a fault at a position leaves of the innermost container. -/
def remnant (depth : Nat) : Position → Document
  | .value => .broken
  | .listStart => brokenAt depth (.list [.broken])
  | .itemEnd before => brokenAt depth (.list (before.reverse ++ [.broken]))
  | .tableStart => brokenAt depth (.table [(none, .broken)])
  | .name before => brokenAt depth (.table (before.reverse ++ [(none, .broken)]))
  | .nameEnd before name => brokenAt depth (.table (before.reverse ++ [(name, .broken)]))
  | .entryEnd before => brokenAt depth (.table (before.reverse ++ [(none, .broken)]))

/-- Puts what a fault leaves into the containers around it. -/
def enclose (d : Document) : List Frame → Document
  | [] => d
  | .item before :: frames =>
    enclose (brokenAt frames.length (.list (before.reverse ++ [d]))) frames
  | .entry before name :: frames =>
    enclose (brokenAt frames.length (.table (before.reverse ++ [(name, d)]))) frames

/-! ### A whole text -/

/-- Reads one value and returns the tokens behind it. -/
def run (frames : List Frame) (position : Position) : List Token → Document × List Token
  | [] => (enclose (remnant frames.length position) frames, [])
  | t :: ts =>
    match step frames position t with
    | .next frames position => run frames position ts
    | .finished d => (d, ts)
    | .fault => (enclose (remnant frames.length position) frames, t :: ts)

/-- A document that was read, and whether nothing but blanks stands behind it. -/
structure Reading where
  document : Document
  atEnd : Bool

/-- Reads a text. -/
def read (text : String) : Reading :=
  let (d, rest) := run [] .value (tokens text.toList)
  ⟨d, rest.isEmpty⟩

end Json
end Reactors

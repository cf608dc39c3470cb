/-!
# File paths

A path is a text of segments with slashes between them.  Empty segments and single points
stand for nothing, except a point at the very beginning; a slash at the beginning makes a
path absolute.  The operations here look at the text only: two points are a name like any
other.

## Main definitions

* `Path.parent?` — the path without its last name.
* `Path.extension?` — what stands behind the last point of the last name.
* `Path.join` — a name below a path.
-/

namespace Reactors
namespace Path

/-! ### Segments -/

/-- The segments between the slashes of a path. -/
def segments : List Char → List (List Char)
  | [] => [[]]
  | c :: r =>
    match c, segments r with
    | '/', ss => [] :: ss
    | c, s :: ss => (c :: s) :: ss
    | c, [] => [[c]]

/-- Segments with slashes between them. -/
def ofSegments : List (List Char) → List Char
  | [] => []
  | [s] => s
  | s :: ss => s ++ '/' :: ofSegments ss

/-- A segment that stands for nothing. -/
def isIdle (s : List Char) : Bool := s == [] || s == ['.']

/-- Segments without the idle ones at the end. -/
def stripIdle (ss : List (List Char)) : List (List Char) :=
  (ss.reverse.dropWhile isIdle).reverse

/-- Segments without the last one that is not idle, if there is one. -/
def dropName? (ss : List (List Char)) : Option (List (List Char)) :=
  match stripIdle ss with
  | [] => none
  | kept => some (stripIdle kept.dropLast)

/-- The last segment that is not idle. -/
def lastName? (ss : List (List Char)) : Option (List Char) := (stripIdle ss).getLast?

/-! ### Operations -/

/-- The path without its last name; the root and the empty path have none. -/
def parent? (path : String) : Option String :=
  match segments path.toList with
  | [] => none
  | [[]] => none
  | [] :: rest => (dropName? rest).map fun kept => String.ofList ('/' :: ofSegments kept)
  | first :: rest =>
    match dropName? rest with
    | some kept => some (String.ofList (ofSegments (first :: kept)))
    | none => some ""

/-- The last name, unless the path ends in one or two points. -/
def fileName? (path : String) : Option (List Char) :=
  match segments path.toList with
  | [] => none
  | first :: rest =>
    match (lastName? rest).getD first with
    | [] => none
    | ['.'] => none
    | ['.', '.'] => none
    | name => some name

/-- What stands behind the last point of the last name.  A point that starts the name does not
count. -/
def extension? (path : String) : Option String := do
  let name ← fileName? path
  let behind := (name.reverse.takeWhile (· != '.')).reverse
  if name.length ≤ behind.length + 1 then none else some (String.ofList behind)

/-- A name below a path. -/
def join (path name : String) : String :=
  if path.isEmpty then name
  else if path.toList.getLast? == some '/' then path ++ name
  else path ++ "/" ++ name

end Path
end Reactors

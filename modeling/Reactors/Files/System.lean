import Reactors.Files.Access
import Reactors.Files.Path

/-!
# A file system as a value

Files at their places below the root, and a working directory.  A directory is there if a
file lies somewhere below it, or the working directory does; so there are no empty directories
besides that one.  There are no symbolic links either: every file and every directory has one place,
and a step upwards undoes the step down before it.

## Main definitions

* `FileSystem` — files and a working directory.
* `FileSystem.locate` — the place that a path leads to.
* `FileSystem.access` — the operations on files, with the file system as their state.
-/

namespace Reactors

/-- A place below the root: the names on the way to it. -/
abbrev Place := List String

/-- Files and a working directory, without symbolic links and without empty directories. -/
structure FileSystem where
  /-- The files; one whose contents are no text has none. -/
  files : List (Place × Option String)
  workingDirectory : Place

namespace FileSystem

/-! ### Places -/

/-- The file at a place. -/
def file? (fs : FileSystem) (place : Place) : Option (Option String) :=
  (fs.files.find? (·.1 == place)).map Prod.snd

/-- Whether there is a directory at a place. -/
def isDirectory (fs : FileSystem) (place : Place) : Bool :=
  place.isPrefixOf fs.workingDirectory ||
    fs.files.any fun f => place.isPrefixOf f.1 && place != f.1

/-- What is wrong with a place that has to be a directory and is none. -/
def noDirectory (fs : FileSystem) (place : Place) : FileError :=
  if (fs.file? place).isSome then .notADirectory else .notFound

/-- How many bytes a name may have. -/
def longestName : Nat := 255

/-- How many bytes a path may have. -/
def longestPath : Nat := 4095

/-- Follows segments from a place.  Each step starts in a directory. -/
def follow (fs : FileSystem) (place : Place) : List (List Char) → Except FileError Place
  | [] => .ok place
  | s :: ss =>
    if !fs.isDirectory place then .error (fs.noDirectory place)
    else if Path.isIdle s then follow fs place ss
    else if s == ['.', '.'] then follow fs place.dropLast ss
    else if longestName < (String.ofList s).utf8ByteSize then .error .nameTooLong
    else follow fs (place ++ [String.ofList s]) ss

/-- The place that a path leads to; the last step may lead to a place where nothing is. -/
def locate (fs : FileSystem) (path : String) : Except FileError Place :=
  if longestPath < path.utf8ByteSize then .error .nameTooLong
  else match Path.segments path.toList with
    | [[]] => .error .notFound
    | [] :: rest => fs.follow [] rest
    | ss => fs.follow fs.workingDirectory ss

/-! ### Reading and writing -/

/-- The text of the file that a path leads to. -/
def read (fs : FileSystem) (path : String) : Except FileError String := do
  let place ← fs.locate path
  match fs.file? place with
  | some (some text) => return text
  | some none => throw .notText
  | none => throw (if fs.isDirectory place then .isADirectory else .notFound)

/-- Whether a path leads to a file. -/
def isFile (fs : FileSystem) (path : String) : Bool :=
  match fs.locate path with
  | .ok place => (fs.file? place).isSome
  | .error _ => false

/-- Whether a path leads to anything. -/
def isPresent (fs : FileSystem) (path : String) : Bool :=
  match fs.locate path with
  | .ok place => (fs.file? place).isSome || fs.isDirectory place
  | .error _ => false

/-- The file system with a text at the place that a path leads to. -/
def write (fs : FileSystem) (path text : String) : Except FileError FileSystem := do
  let place ← fs.locate path
  if fs.isDirectory place then throw .isADirectory
  return { fs with files := (place, some text) :: fs.files.filter (·.1 != place) }

/-- The operations on files, with the file system as their state. -/
def access : FileAccess (StateM FileSystem) where
  read path := return (← get).read path
  isFile path := return (← get).isFile path
  isPresent path := return (← get).isPresent path
  write path text := do
    match (← get).write path text with
    | .ok fs => set fs; return .ok ()
    | .error e => return .error e

end FileSystem
end Reactors

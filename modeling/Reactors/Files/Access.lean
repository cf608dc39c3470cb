/-!
# Access to files

What the library needs of a file system: reading and writing texts, and asking what is at a
path.  The functions that load designs and configurations, and the command line, work in any
monad that offers these.

## Main definitions

* `FileError` — why a file cannot be read or written.
* `FileAccess` — the operations.
-/

namespace Reactors

/-- Why a file cannot be read or written. -/
inductive FileError where
  /-- There is nothing at the path. -/
  | notFound
  /-- A file stands where the path needs a directory. -/
  | notADirectory
  /-- A directory stands where the path needs a file. -/
  | isADirectory
  /-- The path, or a name in it, is longer than the system allows. -/
  | nameTooLong
  /-- The contents are no UTF-8 text. -/
  | notText
  /-- Another failure, in the words of the system. -/
  | other (message : String)
  deriving DecidableEq, Repr

/-- The wording of the error. -/
def FileError.message : FileError → String
  | .notFound => "No such file or directory (os error 2)"
  | .notADirectory => "Not a directory (os error 20)"
  | .isADirectory => "Is a directory (os error 21)"
  | .nameTooLong => "File name too long (os error 36)"
  | .notText => "stream did not contain valid UTF-8"
  | .other message => message

/-- The operations on files, by path. -/
structure FileAccess (m : Type → Type) where
  /-- The text of a file. -/
  read : String → m (Except FileError String)
  /-- Whether there is a file at a path. -/
  isFile : String → m Bool
  /-- Whether there is anything at a path. -/
  isPresent : String → m Bool
  /-- Replaces the text of a file, or makes a new file. -/
  write : String → String → m (Except FileError Unit)

end Reactors

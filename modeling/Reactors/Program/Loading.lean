import Reactors.Files.Access
import Reactors.Files.Path
import Reactors.Json.Stored
import Reactors.Program.Stored
import Reactors.Toml.Stored

/-!
# Loading programs

A design file holds a program as TOML or as JSON; its extension tells which.

## Main definitions

* `LoadError` — why a design cannot be loaded.
* `Program.ofJson`, `Program.ofToml` — programs from texts.
* `Program.ofPath` — a program from a file.
-/

namespace Reactors

/-- Why a design cannot be loaded. -/
inductive LoadError where
  | file (cause : FileError)
  | toml (cause : DecodeError)
  | json (cause : DecodeError)
  /-- The extension of the file names no format; a file may have none. -/
  | unsupportedFormat (extension : Option String)
  deriving DecidableEq, Repr

namespace LoadError

/-- The wording of the error, followed by that of its cause if it has one. -/
def messages : LoadError → List String
  | .file cause => ["I/O error: " ++ cause.message, cause.message]
  | .toml cause => ["Failed to parse TOML design: " ++ cause.message, cause.message]
  | .json cause => ["Failed to parse JSON design: " ++ cause.message, cause.message]
  | .unsupportedFormat extension => ["Unsupported design format: " ++ extension.getD "<none>"]

end LoadError

namespace Program

/-- The program of a JSON text. -/
def ofJson (text : String) : Except LoadError Program :=
  (Json.decode Program.codec text).mapError .json

/-- The program of a TOML text. -/
def ofToml (text : String) : Except LoadError Program :=
  (Toml.decode Program.codec text).mapError .toml

/-- The program of a text in the format that an extension names. -/
def ofText (extension : Option String) (text : String) : Except LoadError Program :=
  if extension = some "toml" then ofToml text
  else if extension = some "json" then ofJson text
  else .error (.unsupportedFormat extension)

/-- The program of a design file.  The file is read before its extension is looked at. -/
def ofPath {m : Type → Type} [Monad m] (files : FileAccess m) (path : String) :
    m (Except LoadError Program) := do
  match ← files.read path with
  | .ok text => return ofText (Path.extension? path) text
  | .error cause => return .error (.file cause)

end Program
end Reactors

import Reactors.CommandLine.Run

/-!
# The program

Runs the command line on the files of the system.
-/

namespace Reactors

/-- The number that the system gives an error; some operations tell it negated. -/
def errorNumber (code : UInt32) : UInt32 := if code < 0x80000000 then code else -code

/-- The failure of a file operation.  A directory in the place of a file and a file in the place of
a directory are one kind of error, told apart by their numbers. -/
def fileError : IO.Error → FileError
  | .noFileOrDirectory .. => .notFound
  | .inappropriateType _ code _ =>
    if errorNumber code = 21 then .isADirectory else .notADirectory
  | e@(.invalidArgument _ code _) =>
    if errorNumber code = 36 then .nameTooLong else .other e.toString
  | e => .other e.toString

/-- Runs a file operation and keeps its failure. -/
def attempt {α : Type} (action : IO α) : IO (Except FileError α) := do
  try
    return .ok (← action)
  catch e =>
    return .error (fileError e)

/-- The files of the system. -/
def systemFiles : FileAccess IO where
  read path := do
    match ← attempt (IO.FS.readBinFile path) with
    | .ok bytes =>
      match String.fromUTF8? bytes with
      | some text => return .ok text
      | none => return .error .notText
    | .error e => return .error e
  isFile path := do
    match ← attempt (IO.FS.readBinFile path) with
    | .ok _ => return true
    | .error _ => return false
  isPresent path := do
    match ← attempt (IO.FS.Handle.mk path .read) with
    | .ok _ => return true
    | .error .notFound => return false
    | .error .notADirectory => return false
    | .error .nameTooLong => return false
    | .error _ => return true
  write path text := attempt (IO.FS.writeFile path text)

end Reactors

/-- Runs the command that the arguments name, and returns its exit code. -/
def main (arguments : List String) : IO UInt32 := do
  let outcome ← Reactors.CommandLine.run Reactors.systemFiles arguments
  IO.print outcome.output
  IO.eprint outcome.errors
  return outcome.code.toUInt32

import Reactors.CommandLine.Arguments
import Reactors.CommandLine.Report
import Reactors.Config.Loading
import Reactors.Elaboration.Building
import Reactors.Instance.Dump
import Reactors.Instance.Stored
import Reactors.Program.Loading
import Reactors.Text.Quoted

/-!
# Running commands

Every command loads a design and a configuration and elaborates the design.  A configuration
that is not named is looked for near the design: in the directory of its file and in the two
around it, as far as the text of the path tells them.

## Main definitions

* `findConfig` — the path of a configuration near a design.
* `loadTree` — the tree of a design.
* `Outcome` — what a run prints, and its exit code.
* `run` — runs the command that the arguments name.
-/

namespace Reactors
namespace CommandLine

variable {m : Type → Type} [Monad m]

/-! ### Looking for a configuration -/

/-- The name under which a configuration is looked for. -/
def configName : String := "relab.toml"

/-- Looks for a configuration in a directory and in those around it, `levels` in all. -/
def findConfigFrom (files : FileAccess m) : Nat → String → m (Option String)
  | 0, _ => return none
  | levels + 1, directory => do
    if ← files.isPresent (Path.join directory configName) then
      return some (Path.join directory configName)
    else match Path.parent? directory with
      | some around => findConfigFrom files levels around
      | none => return none

/-- The path of a configuration near a design. -/
def findConfig (files : FileAccess m) (design : String) : m (Option String) := do
  if ← files.isFile design then
    match Path.parent? design with
    | some directory => findConfigFrom files 3 directory
    | none => return none
  else findConfigFrom files 3 design

/-! ### Loading -/

/-- A step that failed: what it was, and the causes. -/
def failed (failure : String) (causes : List String) : Report := ⟨failure, causes⟩

/-- The configuration that is named, or one near the design, or the default. -/
def loadConfig (files : FileAccess m) (design : String) (config : Option String) :
    ExceptT Report m Config := do
  let found ← match config with
    | some path => pure (some path)
    | none => monadLift (findConfig files design)
  match found with
  | none => return {}
  | some path =>
    match ← monadLift (Config.ofPath files path) with
    | .ok c => return c
    | .error e =>
      throw (failed ("Failed to load configuration " ++ Text.quotedPath path) e.messages)

/-- The tree of a design. -/
def loadTree (files : FileAccess m) (design : String) (config : Option String) :
    ExceptT Report m InstanceTree := do
  let program ← match ← monadLift (Program.ofPath files design) with
    | .ok p => pure p
    | .error e => throw (failed ("Failed to load design " ++ Text.quotedPath design) e.messages)
  let config ← loadConfig files design config
  match elaborate program config with
  | .ok t => return t
  | .error e => throw (failed ("Failed to elaborate " ++ program.main) [e.message])

/-! ### The commands -/

/-- What `elaborate` prints or writes in a format. -/
def renderAs (format : String) (t : InstanceTree) : Except Report String :=
  if format = "text" then .ok t.render
  else if format = "json" then .ok (Json.encodePretty InstanceTree.codec t)
  else .error (failed ("Unsupported format: " ++ format ++ ". Use 'text' or 'json'") [])

/-- What a command prints. -/
def execute (files : FileAccess m) : Command → ExceptT Report m String
  | .elaborate design config format output => do
    let t ← loadTree files design config
    let rendered ← ExceptT.mk (pure (renderAs format t))
    match output with
    | none => return rendered
    | some path =>
      match ← files.write path rendered with
      | .ok () =>
        return "✅ Elaboration complete!\n📄 Output: " ++ Text.quotedPath path ++ "\n"
      | .error e => throw (failed ("Failed to write " ++ Text.quotedPath path) [e.message])
  | .check design config => do
    let t ← loadTree files design config
    return "✅ " ++ t.root.reactor ++ " elaborated: " ++ Text.natural t.size ++ " instances, " ++
      Text.natural t.timers.length ++ " timers\n"
  | .query design name config => do
    let t ← loadTree files design config
    match t.find? name with
    | some i => return Json.encodePretty Instance.codec i ++ "\n"
    | none => throw (failed ("No instance named " ++ name) [])

/-! ### A run -/

/-- What a run prints, and its exit code. -/
structure Outcome where
  code : UInt8
  output : String
  errors : String
  deriving DecidableEq, Repr

/-- The name of the program. -/
def programName : String := "relab"

/-- The version of the program. -/
def version : String := "0.1.0"

/-- How the program is called. -/
def usage : Option CommandName → String
  | none => "Usage: relab [OPTIONS] <COMMAND>\n"
  | some .elaborate => "Usage: relab elaborate [OPTIONS] <DESIGN>\n"
  | some .check => "Usage: relab check [OPTIONS] <DESIGN>\n"
  | some .query => "Usage: relab query [OPTIONS] <DESIGN> <NAME>\n"

/-- The name under which the version of the program or of a command is told. -/
def versionName : Option CommandName → String
  | none => programName
  | some c => programName ++ "-" ++ c.word

/-- Runs the command that the arguments name. -/
def run (files : FileAccess m) (arguments : List String) : m Outcome := do
  match Request.ofArguments arguments with
  | .misuse => return ⟨2, "", usage none⟩
  | .help command => return ⟨0, usage command, ""⟩
  | .version command => return ⟨0, versionName command ++ " " ++ version ++ "\n", ""⟩
  | .run command =>
    match ← (execute files command).run with
    | .ok output => return ⟨0, output, ""⟩
    | .error report => return ⟨1, "", report.text⟩

end CommandLine
end Reactors

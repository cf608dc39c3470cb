import Reactors.Config
import Reactors.Files.Access
import Reactors.Time.Reading
import Reactors.Time.Stored
import Reactors.Toml.Stored

/-!
# Loading configurations

A configuration file is a TOML text with any of the settings.  A time is written as text or
as a stored time value.

## Main definitions

* `ConfigError` — why a configuration cannot be loaded.
* `Config.codec` — the stored form of configurations.
* `Config.ofToml`, `Config.ofPath` — configurations from texts and files.
-/

namespace Reactors

/-- Why a configuration cannot be loaded. -/
inductive ConfigError where
  | file (cause : FileError)
  | parse (cause : DecodeError)
  | invalid (defect : ConfigDefect)
  deriving DecidableEq, Repr

/-- The wording of the error, followed by that of its cause if it has one. -/
def ConfigError.messages : ConfigError → List String
  | .file cause => ["I/O error: " ++ cause.message, cause.message]
  | .parse cause => ["Failed to parse configuration: " ++ cause.message, cause.message]
  | .invalid defect => [defect.message]

namespace Config

/-! ### The stored form -/

/-- What holds for a time that is written as a structure: units are strings, and a list of the
fields holds no more than these. -/
def structureDialect : Dialect where
  isVoid _ := false
  strictRows := true
  contentsFirst := true

/-- A time in a configuration, as text or as a structure.  Only a fault of the text is told in
detail. -/
def timeCodec : Codec TimeValue where
  write := TimeValue.codec.write
  read _
    | .text s => (TimeValue.read s).mapError .time
    | d => (TimeValue.codec.read structureDialect d).mapError fun _ => .malformed

/-- The fields of a configuration; each may be left out. -/
def fields : Fields [TimeValue, TimeValue, String, Nat] :=
  let default : Config := {}
  .cons (.withDefault "default_offset" timeCodec default.defaultOffset) <|
  .cons (.withDefault "default_period" timeCodec default.defaultPeriod) <|
  .cons (.withDefault "startup_name" .text default.startupName) <|
  .cons (.withDefault "max_depth" .natural default.maxDepth) .nil

/-- The stored form of configurations. -/
def codec : Codec Config :=
  .ofFields fields
    (fun (defaultOffset, defaultPeriod, startupName, maxDepth, ()) =>
      { defaultOffset, defaultPeriod, startupName, maxDepth })
    fun c => (c.defaultOffset, c.defaultPeriod, c.startupName, c.maxDepth, ())

/-! ### Loading -/

/-- The configuration of a TOML text, which must keep the rules of configurations. -/
def ofToml (text : String) : Except ConfigError Config := do
  let config ← (Toml.decode codec text).mapError .parse
  config.validate.mapError .invalid
  return config

/-- The configuration of a file. -/
def ofPath {m : Type → Type} [Monad m] (files : FileAccess m) (path : String) :
    m (Except ConfigError Config) := do
  match ← files.read path with
  | .ok text => return ofToml text
  | .error cause => return .error (.file cause)

end Config
end Reactors

import Reactors.Text.Blank
import Reactors.Time.Value

/-!
# Configuration

The settings of an elaboration: what timers without timing fields get, the name of the
startup timer, and how deep the hierarchy may be.

## Main definitions

* `Config` — the settings; its default value is the default configuration.
* `Config.validate` — the rules that a configuration file has to keep.
-/

namespace Reactors

/-- The settings of an elaboration. -/
structure Config where
  /-- The offset of a timer that gives none. -/
  defaultOffset : TimeValue := .zero
  /-- The period of a timer that gives none; zero lets it fire once. -/
  defaultPeriod : TimeValue := .zero
  /-- The name of the timer that every instance has from the start. -/
  startupName : String := "startup"
  /-- The greatest depth of an instance below the root. -/
  maxDepth : Nat := 256
  deriving DecidableEq, Repr

/-- Which rule a configuration breaks. -/
inductive ConfigDefect where
  | blankStartupName
  | negativeDefault
  deriving DecidableEq, Repr

/-- The wording of the error. -/
def ConfigDefect.message : ConfigDefect → String
  | .blankStartupName => "Invalid configuration: startup_name must not be empty"
  | .negativeDefault => "Invalid configuration: default timing values must not be negative"

namespace Config

/-- Checks the rules: the startup timer has a name, and the defaults are not negative. -/
def validate (c : Config) : Except ConfigDefect Unit :=
  if Text.isBlankString c.startupName then .error .blankStartupName
  else if c.defaultOffset.toNanos < 0 ∨ c.defaultPeriod.toNanos < 0 then .error .negativeDefault
  else .ok ()

/-- Equality of configurations, times compared as times. -/
def same (a b : Config) : Bool :=
  a.defaultOffset.same b.defaultOffset && a.defaultPeriod.same b.defaultPeriod &&
    a.startupName == b.startupName && a.maxDepth == b.maxDepth

end Config
end Reactors

import Reactors.Text.Blank
import Reactors.Time.Error

/-!
# Units of time

Eight units carry a scale; the ninth, `none`, stands for a missing unit and makes a time
value zero whatever its magnitude.

## Main definitions

* `TimeUnit.nanos` — the length of a unit in nanoseconds.
* `TimeUnit.name` — the spelling in reports.
* `TimeUnit.tag` — the spelling in stored documents.
* `TimeUnit.spellings`, `TimeUnit.read` — the spellings that are accepted, and the reader.
-/

namespace Reactors

/-- A unit of time, or none. -/
inductive TimeUnit where
  | none
  | nsec
  | usec
  | msec
  | sec
  | minute
  | hour
  | day
  | week
  deriving DecidableEq, Repr, Inhabited

namespace TimeUnit

/-- Every unit, the missing one first and then by length. -/
def all : List TimeUnit := [.none, .nsec, .usec, .msec, .sec, .minute, .hour, .day, .week]

/-- The units with a scale, the longest first. -/
def scaled : List TimeUnit := [.week, .day, .hour, .minute, .sec, .msec, .usec, .nsec]

/-- How many nanoseconds the unit lasts; a missing unit has no length. -/
def nanos : TimeUnit → Int
  | .none => 0
  | .nsec => 1
  | .usec => 1000
  | .msec => 1000000
  | .sec => 1000000000
  | .minute => 60 * 1000000000
  | .hour => 3600 * 1000000000
  | .day => 86400 * 1000000000
  | .week => 604800 * 1000000000

/-! ### Spellings -/

/-- The spelling in reports; a missing unit has none. -/
def name : TimeUnit → String
  | .none => ""
  | .nsec => "nsec"
  | .usec => "usec"
  | .msec => "msec"
  | .sec => "sec"
  | .minute => "min"
  | .hour => "hour"
  | .day => "day"
  | .week => "week"

/-- The spelling in stored documents, where a missing unit is written too. -/
def tag (u : TimeUnit) : String := if u = .none then "none" else u.name

/-- The spellings accepted for a unit, in lower case. -/
def spellings : TimeUnit → List String
  | .none => ["", "none"]
  | .nsec => ["ns", "nsec", "nsecs"]
  | .usec => ["us", "usec", "usecs"]
  | .msec => ["ms", "msec", "msecs"]
  | .sec => ["s", "sec", "secs", "second", "seconds"]
  | .minute => ["min", "mins", "minute", "minutes"]
  | .hour => ["h", "hour", "hours"]
  | .day => ["d", "day", "days"]
  | .week => ["week", "weeks"]

/-- The unit that a word in lower case spells. -/
def ofSpelling? (word : String) : Option TimeUnit :=
  all.find? fun u => word ∈ u.spellings

/-- A character with ASCII capitals turned into small letters. -/
def lower (c : Char) : Char := if 'A' ≤ c ∧ c ≤ 'Z' then Char.ofNat (c.toNat + 32) else c

/-- The word that is looked up for a text: without outer blanks, ASCII letters in lower case. -/
def word (s : List Char) : String := String.ofList ((Text.trim s).map lower)

/-- Reads a unit: blanks around it and the case of ASCII letters do not matter. -/
def read (s : List Char) : Except TimeError TimeUnit :=
  match ofSpelling? (word s) with
  | some u => .ok u
  | Option.none => .error (.unknownUnit (word s))

end TimeUnit
end Reactors

import Reactors.Time.Unit

/-!
# Time values

A time value is a magnitude with the unit it was written in.  Values are compared by the
nanoseconds they stand for, so that `1000 usec` and `1 msec` are the same time, but the
magnitude and the unit are kept for writing.

## Main definitions

* `TimeValue.toNanos` — the nanoseconds a value stands for.
* `TimeValue.same`, `TimeValue.order` — comparison by nanoseconds.
* `TimeValue.checked` — refuses a magnitude other than zero without a unit.
* `TimeValue.normalized` — the same time in the longest unit that divides it.
* `TimeValue.duration?` — whole seconds and the nanoseconds that are left.
* `TimeValue.text` — the written value.
-/

namespace Reactors

/-- A magnitude and the unit it was written in. -/
structure TimeValue where
  magnitude : Int64
  unit : TimeUnit
  deriving DecidableEq, Repr, Inhabited

/-- A span of time: whole seconds, and the nanoseconds that are left, each held by a word. -/
structure Duration where
  secondsWord : UInt64
  nanosWord : UInt32
  deriving DecidableEq, Repr

namespace Duration

/-- The whole seconds. -/
def seconds (d : Duration) : Nat := d.secondsWord.toNat

/-- The nanoseconds on top of the whole seconds. -/
def nanos (d : Duration) : Nat := d.nanosWord.toNat

end Duration

namespace TimeValue

/-- The canonical zero: no unit. -/
def zero : TimeValue := ⟨0, .none⟩

/-- The nanoseconds that a value stands for; without a unit it stands for none. -/
def toNanos (t : TimeValue) : Int := t.magnitude.toInt * t.unit.nanos

/-- Whether a value stands for no time at all. -/
def isZero (t : TimeValue) : Bool := t.toNanos == 0

/-! ### The rule on units -/

/-- The value with this magnitude and unit; only zero may stand without a unit. -/
def checked (magnitude : Int64) (unit : TimeUnit) : Except TimeError TimeValue :=
  if unit = .none ∧ magnitude ≠ 0 then .error (.missingUnit magnitude)
  else .ok ⟨magnitude, unit⟩

/-! ### Comparison -/

/-- Whether two values stand for the same time. -/
def same (a b : TimeValue) : Bool := a.toNanos == b.toNanos

/-- The order of the times that two values stand for. -/
def order (a b : TimeValue) : Ordering := compare a.toNanos b.toNanos

/-- The later of two values, the second one if they are the same time. -/
def later (a b : TimeValue) : TimeValue := if b.toNanos < a.toNanos then a else b

/-- The earlier of two values, the first one if they are the same time. -/
def earlier (a b : TimeValue) : TimeValue := if b.toNanos < a.toNanos then b else a

/-- Values by time; those of the same time keep their order. -/
def sort (ts : List TimeValue) : List TimeValue :=
  ts.mergeSort fun a b => a.toNanos ≤ b.toNanos

/-- How many different times a list of values names. -/
def countTimes (ts : List TimeValue) : Nat := (ts.map toNanos).eraseDups.length

/-! ### Other forms of the same time -/

/-- The same time in the longest unit that measures it exactly; zero has no unit. -/
def normalized (t : TimeValue) : TimeValue :=
  if t.toNanos = 0 then zero
  else
    let inUnit? (u : TimeUnit) : Option TimeValue :=
      if t.toNanos % u.nanos = 0 then
        (Text.int64? (t.toNanos / u.nanos)).map fun m => ⟨m, u⟩
      else Option.none
    (TimeUnit.scaled.findSome? inUnit?).getD t

/-- The span of time of a value; a negative one has none, nor has one of more seconds than a word
holds.  What is left behind the seconds is put into its word as it is. -/
def duration? (t : TimeValue) : Option Duration :=
  if t.toNanos < 0 then Option.none
  else
    (Text.uint64? (t.toNanos / 1000000000).toNat).map fun seconds =>
      ⟨seconds, UInt32.ofNat (t.toNanos % 1000000000).toNat⟩

/-! ### Writing -/

/-- The magnitude, then the unit if there is one. -/
def text (t : TimeValue) : String :=
  match t.unit with
  | .none => Text.integer t.magnitude.toInt
  | u => Text.integer t.magnitude.toInt ++ " " ++ u.name

end TimeValue
end Reactors

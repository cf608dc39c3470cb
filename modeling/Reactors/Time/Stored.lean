import Reactors.Document.Fields
import Reactors.Time.Value

/-!
# Stored time values

A time value is stored with its magnitude and its unit; the unit may be left out.  The rule
on units holds for stored values too.

## Main definitions

* `TimeUnit.codec`, `TimeValue.codec` — the stored forms.
-/

namespace Reactors

/-- A unit is stored as its tag. -/
def TimeUnit.codec : Codec TimeUnit := .constants TimeUnit.all TimeUnit.tag

namespace TimeValue

/-- The fields of a stored time value. -/
def fields : Fields [Int64, TimeUnit] :=
  .cons (.required "magnitude" .int64) <|
  .cons (.withDefault "unit" TimeUnit.codec .none) .nil

/-- A stored time value whose unit is not checked. -/
def uncheckedCodec : Codec TimeValue :=
  .ofFields fields (fun (magnitude, unit, ()) => ⟨magnitude, unit⟩)
    fun t => (t.magnitude, t.unit, ())

/-- A time value is stored as its two fields, and refused when the rule on units is broken. -/
def codec : Codec TimeValue :=
  uncheckedCodec.checked (fun t => (checked t.magnitude t.unit).mapError .time) id

end TimeValue
end Reactors

/-!
# Binary floating point numbers

A double-precision number is its 64 bits: a sign, an exponent of eleven bits and a
fraction of fifty-two.  The numbers of this library are only read, compared and
printed, never added, so the bits and their exact meaning are all that is needed;
there is no rounding in this module.

## Main definitions

* `Binary64` — the bits.
* `Binary64.significand`, `Binary64.exponent` — a finite number is
  `significand * 2 ^ exponent`, up to its sign.
* `Binary64.equal` — equality of numbers: the two zeros are equal, a NaN equals nothing.
-/

namespace Reactors

/-- A number in the binary64 format, given by its bits. -/
structure Binary64 where
  bits : UInt64
  deriving DecidableEq, Repr, Inhabited

namespace Binary64

/-! ### The three fields -/

/-- The value of the sign bit: `2 ^ 63`. -/
def signUnit : Nat := 1 <<< 63

/-- The value of the lowest bit of the exponent: `2 ^ 52`. -/
def exponentUnit : Nat := 1 <<< 52

/-- Whether the sign bit is set. -/
def negative (x : Binary64) : Bool := signUnit ≤ x.bits.toNat

/-- The bits below the sign: the number without its sign. -/
def magnitudeBits (x : Binary64) : Nat := x.bits.toNat % signUnit

/-- The exponent field. -/
def exponentField (x : Binary64) : Nat := x.magnitudeBits / exponentUnit

/-- The fraction field. -/
def fraction (x : Binary64) : Nat := x.bits.toNat % exponentUnit

/-! ### Classes of numbers -/

/-- Neither infinite nor a NaN: the exponent field is not all ones. -/
def isFinite (x : Binary64) : Bool := x.exponentField < 2047

/-- Not a number. -/
def isNaN (x : Binary64) : Bool := x.exponentField == 2047 && x.fraction != 0

/-- One of the two zeros. -/
def isZero (x : Binary64) : Bool := x.magnitudeBits == 0

/-! ### The value of a finite number -/

/-- The significand: the fraction, with the leading one of a normal number in front. -/
def significand (x : Binary64) : Nat :=
  if x.exponentField = 0 then x.fraction else exponentUnit + x.fraction

/-- The power of two that the significand is multiplied with. -/
def exponent (x : Binary64) : Int :=
  if x.exponentField = 0 then -1074 else (x.exponentField : Int) - 1075

/-! ### Building numbers -/

/-- The magnitude bits of the infinities. -/
def infinityBits : Nat := 2047 * exponentUnit

/-- A number from its sign and the bits below. -/
def ofParts (negative : Bool) (magnitude : Nat) : Binary64 :=
  ⟨UInt64.ofNat (if negative then signUnit + magnitude else magnitude)⟩

/-- Infinity, with a sign. -/
def infinity (negative : Bool) : Binary64 := ofParts negative infinityBits

/-- Zero, with a sign. -/
def zero (negative : Bool) : Binary64 := ofParts negative 0

/-- The quiet NaN. -/
def nan (negative : Bool) : Binary64 := ofParts negative (infinityBits + exponentUnit / 2)

/-! ### Comparison -/

/-- Equality of numbers: a NaN equals nothing, and the two zeros are equal. -/
def equal (x y : Binary64) : Bool :=
  !x.isNaN && !y.isNaN && (x == y || (x.isZero && y.isZero))

end Binary64
end Reactors

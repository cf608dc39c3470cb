import Reactors.Binary64

/-!
# Rounding to binary64

Every nonnegative rational has a nearest binary64 number; of two that are equally
near, the one with an even significand is taken.  The rounding is exact: it divides
natural numbers and never approximates on the way.

The bits of a nonnegative number count the binary64 grid: with the exponent `q` and
the significand `m`, they are `(q + 1074) * 2 ^ 52 + m`.  A significand that is rounded up
to the next power of two therefore carries into the exponent by itself, and beyond the
largest finite number the count reaches the bits of infinity.

## Main definitions

* `divNearestEven` — the integer nearest to a quotient.
* `nearestBits` — the magnitude bits nearest to a quotient of natural numbers.
* `nearest` — the number nearest to `± digits * 10 ^ exponent`.
-/

namespace Reactors
namespace Decimal

/-! ### Quotients -/

/-- The integer nearest to `num / den`; a half goes to the even neighbour. -/
def divNearestEven (num den : Nat) : Nat :=
  let q := num / den
  let twice := 2 * (num % den)
  if twice < den then q
  else if den < twice then q + 1
  else if q % 2 = 0 then q
  else q + 1

/-- The quotient `num / (den * 2 ^ q)`, again as a numerator and a denominator. -/
def scaleDown (num den : Nat) (q : Int) : Nat × Nat :=
  if 0 ≤ q then (num, den <<< q.toNat) else (num <<< (-q).toNat, den)

/-- The exponent of the largest power of two that is at most `num / den`. -/
def floorLog2 (num den : Nat) : Int :=
  let guess : Int := (Nat.log2 num : Int) - Nat.log2 den
  let (n, d) := scaleDown num den guess
  if d ≤ n then guess else guess - 1

/-- The magnitude bits of the binary64 number nearest to `num / den`, where `den` is not zero. -/
def nearestBits (num den : Nat) : Nat :=
  if num = 0 then 0
  else
    -- the unit in the last place: 53 bits of the quotient, fewer next to zero
    let q := max (floorLog2 num den - 52) (-1074)
    let (n, d) := scaleDown num den q
    -- a significand that rounds up to the next power of two carries into the exponent
    min ((q + 1074).toNat * Binary64.exponentUnit + divNearestEven n d) Binary64.infinityBits

/-! ### Decimal numbers -/

/-- How many digits a natural number has; zero has none. -/
def digitCount (n : Nat) : Nat := if n = 0 then 0 else (Nat.toDigits 10 n).length

/-- The magnitude bits nearest to `digits * 10 ^ exponent`.  A number of more than 310 digits
before the point is beyond the largest finite number, and one that starts after more than 330
zeros is below half the smallest, so that no huge power is ever computed. -/
def nearestMagnitude (digits : Nat) (exponent : Int) : Nat :=
  if digits = 0 then 0
  else
    let places := (digitCount digits : Int) + exponent
    if 310 < places then Binary64.infinityBits
    else if places < -330 then 0
    else if 0 ≤ exponent then nearestBits (digits * Nat.pow 10 exponent.toNat) 1
    else nearestBits digits (Nat.pow 10 (-exponent).toNat)

/-- The binary64 number nearest to `± digits * 10 ^ exponent`. -/
def nearest (negative : Bool) (digits : Nat) (exponent : Int) : Binary64 :=
  .ofParts negative (nearestMagnitude digits exponent)

/-- The binary64 number nearest to an integer. -/
def nearestInt (n : Int) : Binary64 := nearest (n < 0) n.natAbs 0

end Decimal
end Reactors

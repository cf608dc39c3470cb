import Reactors.Decimal.Rounding

/-!
# Shortest decimals

A binary64 number is written with the fewest digits that read back as the same number,
and among the decimals of that length with the one nearest to it.

The exact value of a finite number is itself a decimal.  For each count of digits from
one to seventeen its two neighbours on the grid of decimals with that many digits are
tried; the first grid with a neighbour that reads back gives the answer, of two the nearer
one.  Seventeen digits always suffice.

## Main definitions

* `Decimal` — digits and a power of ten.
* `Tie` — which of two equally near neighbours is taken.
* `ofMagnitude` — the exact decimal value of a finite number.
* `shortest` — the shortest decimal of a finite number.
-/

namespace Reactors

/-- The nonnegative decimal number `digits * 10 ^ exponent`. -/
structure Decimal where
  digits : Nat
  exponent : Int
  deriving DecidableEq, Repr, Inhabited

namespace Decimal

/-! ### Exact values -/

/-- The exact value of a finite number without its sign. -/
def ofMagnitude (x : Binary64) : Decimal :=
  if 0 ≤ x.exponent then ⟨x.significand <<< x.exponent.toNat, 0⟩
  else ⟨x.significand * Nat.pow 5 (-x.exponent).toNat, x.exponent⟩

/-- The same number without zeros at the end of its digits. -/
def stripZeros (d : Decimal) : Decimal :=
  let zeros := ((Nat.toDigits 10 d.digits).reverse.takeWhile (· == '0')).length
  if d.digits = 0 then ⟨0, 0⟩ else ⟨d.digits / Nat.pow 10 zeros, d.exponent + zeros⟩

/-! ### The search -/

/-- Which of two neighbours at the same distance is taken. -/
inductive Tie where
  | up
  | toEven
  deriving DecidableEq, Repr

/-- Whether a decimal reads back as the given number, signs apart. -/
def readsBack (x : Binary64) (d : Decimal) : Bool :=
  nearestMagnitude d.digits d.exponent == x.magnitudeBits

/-- Whether the lower neighbour is taken when `rest` of a grid step `step` lies above it and
both neighbours read back. -/
def takesLower (tie : Tie) (lower rest step : Nat) : Bool :=
  2 * rest < step || (2 * rest == step && tie == .toEven && lower % 2 == 0)

/-- The neighbour of the exact value on the grid of decimals that drop `dropped` of its digits
and still reads back, if there is one. -/
def onGrid? (tie : Tie) (x : Binary64) (exact : Decimal) (dropped : Nat) : Option Decimal :=
  let step := Nat.pow 10 dropped
  let lower := exact.digits / step
  let rest := exact.digits % step
  let below := stripZeros ⟨lower, exact.exponent + dropped⟩
  let above := stripZeros ⟨lower + 1, exact.exponent + dropped⟩
  match readsBack x below, readsBack x above with
  | true, true => some (if takesLower tie lower rest step then below else above)
  | true, false => some below
  | false, true => some above
  | false, false => none

/-- The shortest decimal that reads back as the finite number `x`, signs apart. -/
def shortest (tie : Tie) (x : Binary64) : Decimal :=
  let exact := ofMagnitude x
  let count := digitCount exact.digits
  -- `n` digits more than one are kept, so that the shortest candidate comes first
  let tries := (List.range 17).filter (· < count)
  (tries.findSome? fun n => onGrid? tie x exact (count - (n + 1))).getD exact.stripZeros

end Decimal
end Reactors

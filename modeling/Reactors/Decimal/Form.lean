import Reactors.Decimal.Shortest

/-!
# Written forms of floating point numbers

A number is written with its shortest digits, either positionally with at least one digit
after the point or in scientific notation.  What a written form decides is one record;
reports and stored documents have one each.

## Main definitions

* `Form` — the decisions of a written form.
* `Form.write` — a number in a written form.
* `Form.report` — the form used in reports.
* `Form.stored` — the form used in stored documents.
-/

namespace Reactors
namespace Decimal

/-- The decisions of a written form. -/
structure Form where
  /-- The least power of ten of a leading digit that is written positionally. -/
  lowestPositional : Int
  /-- The greatest power of ten of a leading digit that is written positionally. -/
  highestPositional : Int
  /-- Whether a nonnegative exponent carries a plus sign. -/
  signedExponent : Bool
  /-- Which of two equally near decimals of the least length is taken. -/
  tie : Tie
  deriving Repr

namespace Form

/-! ### The two forms -/

/-- Reports write `0.0001` and `1000000000000000.0` positionally, and `1e-5` and `1e16` beyond. -/
def report : Form := ⟨-4, 15, false, .up⟩

/-- Stored documents write `0.00001` and `1000000000000000.0` positionally, and `1e-6` and `1e+16`
beyond. -/
def stored : Form := ⟨-5, 15, true, .toEven⟩

/-! ### Writing -/

/-- Digits with the point after the first `places` of them; zeros fill up both sides. -/
def positional (digits : List Char) (places : Int) : List Char :=
  if places ≤ 0 then
    ['0', '.'] ++ List.replicate (-places).toNat '0' ++ digits
  else if digits.length ≤ places.toNat then
    digits ++ List.replicate (places.toNat - digits.length) '0' ++ ['.', '0']
  else
    digits.take places.toNat ++ ['.'] ++ digits.drop places.toNat

/-- Digits in scientific notation, the first one standing for `10 ^ power`. -/
def scientific (signed : Bool) (digits : List Char) (power : Int) : List Char :=
  let mantissa := match digits with
    | d :: e :: r => d :: '.' :: e :: r
    | short => short
  let sign := if power < 0 then ['-'] else if signed then ['+'] else []
  mantissa ++ ['e'] ++ sign ++ Nat.toDigits 10 power.natAbs

/-- A decimal that is not zero, in a written form. -/
def writeDecimal (form : Form) (d : Decimal) : List Char :=
  let digits := Nat.toDigits 10 d.digits
  let power := (digits.length : Int) - 1 + d.exponent
  if form.lowestPositional ≤ power ∧ power ≤ form.highestPositional then
    positional digits (power + 1)
  else
    scientific form.signedExponent digits power

/-- A number without its sign, in a written form. -/
def writeMagnitude (form : Form) (x : Binary64) : List Char :=
  if x.isZero then ['0', '.', '0']
  else if x.isFinite then writeDecimal form (shortest form.tie x)
  else ['i', 'n', 'f']

/-- A number in a written form. -/
def write (form : Form) (x : Binary64) : String :=
  if x.isNaN then "NaN"
  else String.ofList ((if x.negative then ['-'] else []) ++ writeMagnitude form x)

end Form
end Decimal
end Reactors

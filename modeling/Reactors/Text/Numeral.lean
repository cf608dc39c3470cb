/-!
# Decimal numerals

Whole numbers as they are written and read: digits without a group mark, a minus sign in
front of a negative number.  Reading also takes a plus sign and zeros in front.

## Main definitions

* `natural`, `integer` — the written numbers.
* `readNatural?`, `readInteger?` — the readers.
* `int64?` — an integer that fits 64 bits with sign.

## Main results

* `toInt_of_int64?`, `int64?_toInt` — a number that fits is kept, and a word fits.
* `toNat_of_uint64?`, `uint64?_toNat` — the same without a sign.
-/

namespace Reactors
namespace Text

/-! ### Writing -/

/-- A natural number in decimal digits. -/
def natural (n : Nat) : String := String.ofList (Nat.toDigits 10 n)

/-- An integer in decimal digits, with a minus sign if it is negative. -/
def integer (n : Int) : String :=
  String.ofList ((if n < 0 then ['-'] else []) ++ Nat.toDigits 10 n.natAbs)

/-! ### Reading -/

/-- One of the ten ASCII digits. -/
def isDigit (c : Char) : Bool := '0' ≤ c && c ≤ '9'

/-- The value of a digit in any base up to sixteen; letters count from ten. -/
def digitValue (c : Char) : Nat :=
  if isDigit c then c.toNat - '0'.toNat
  else if 'a' ≤ c ∧ c ≤ 'f' then c.toNat - 'a'.toNat + 10
  else c.toNat - 'A'.toNat + 10

/-- One of the hexadecimal digits, of either case. -/
def isHexDigit (c : Char) : Bool :=
  isDigit c || ('a' ≤ c && c ≤ 'f') || ('A' ≤ c && c ≤ 'F')

/-- The number that digits stand for in a base. -/
def valueOfDigits (base : Nat) (s : List Char) : Nat :=
  s.foldl (fun n c => n * base + digitValue c) 0

/-- The number written by a nonempty text of digits. -/
def readNatural? (s : List Char) : Option Nat :=
  if s ≠ [] ∧ s.all isDigit then some (valueOfDigits 10 s) else none

/-- The number written by digits behind an optional sign. -/
def readInteger? : List Char → Option Int
  | '-' :: r => (readNatural? r).map fun n => -(n : Int)
  | '+' :: r => (readNatural? r).map fun n => (n : Int)
  | s => (readNatural? s).map fun n => (n : Int)

/-! ### Word sizes -/

/-- The integer as a word of 64 bits with sign, if it fits. -/
def int64? (n : Int) : Option Int64 :=
  if Int64.minValue.toInt ≤ n ∧ n ≤ Int64.maxValue.toInt then some (Int64.ofInt n) else none

theorem toInt_of_int64? {n : Int} {w : Int64} (h : int64? n = some w) : w.toInt = n := by
  unfold int64? at h
  split at h
  · next hn =>
    obtain rfl := Option.some.inj h
    rw [Int64.toInt_minValue, Int64.toInt_maxValue] at hn
    exact Int64.toInt_ofInt_of_le hn.1 (by omega)
  · cases h

theorem int64?_toInt (w : Int64) : int64? w.toInt = some w := by
  have hrange : Int64.minValue.toInt ≤ w.toInt ∧ w.toInt ≤ Int64.maxValue.toInt := by
    rw [Int64.toInt_minValue, Int64.toInt_maxValue]
    exact ⟨w.le_toInt, Int.le_of_lt_add_one w.toInt_lt⟩
  rw [int64?, if_pos hrange, Int64.ofInt_toInt]

/-- The natural number as a word of 64 bits, if it fits. -/
def uint64? (n : Nat) : Option UInt64 :=
  if n < UInt64.size then some (UInt64.ofNat n) else none

theorem toNat_of_uint64? {n : Nat} {w : UInt64} (h : uint64? n = some w) : w.toNat = n := by
  unfold uint64? at h
  split at h
  · next hn =>
    obtain rfl := Option.some.inj h
    exact UInt64.toNat_ofNat_of_lt' hn
  · cases h

theorem uint64?_toNat (w : UInt64) : uint64? w.toNat = some w := by
  rw [uint64?, if_pos w.toNat_lt, UInt64.ofNat_toNat]

end Text
end Reactors

import Mathlib.Data.List.TakeWhile
import Reactors.Proofs.Rounding
import Reactors.Text.Numeral

/-!
# Shortest decimals read back

The digits found for a number are rounded to that number again: the search keeps only
decimals that are, and where it finds none, the exact value is its own spelling.  Dropping zeros
at the end changes the digits of a decimal but not its value.

## Main definitions

* `Decimal.value` — the value of a decimal.

## Main results

* `Text.valueOfDigits_toDigits` — the digits of a number stand for it.
* `Decimal.value_stripZeros`, `Decimal.value_ofMagnitude` — decimals of one value.
* `Decimal.gridBits_shortest` — the shortest decimal of a finite number is rounded to it.
-/

namespace Reactors

/-! ### Digits -/

namespace Text

theorem isDigit_of_mem_toDigits {n : ℕ} {c : Char} (hc : c ∈ Nat.toDigits 10 n) :
    isDigit c = true := by
  have hdigit : c.isDigit = true := Nat.isDigit_of_mem_toDigits (by decide) (by decide) hc
  simpa [Char.isDigit, isDigit, Char.le_def] using hdigit

theorem foldl_digitValue {s : List Char} (hs : ∀ c ∈ s, isDigit c = true) (n : ℕ) :
    s.foldl (fun n c => n * 10 + digitValue c) n = Nat.ofDigitChars 10 s n := by
  induction s generalizing n with
  | nil => rfl
  | cons c s ih =>
    have hc : digitValue c = c.toNat - '0'.toNat := if_pos (hs c List.mem_cons_self)
    rw [List.foldl_cons, Nat.ofDigitChars_cons, hc, Nat.mul_comm n 10]
    exact ih (fun d hd => hs d (List.mem_cons_of_mem c hd)) _

theorem valueOfDigits_eq {s : List Char} (hs : ∀ c ∈ s, isDigit c = true) :
    valueOfDigits 10 s = Nat.ofDigitChars 10 s 0 :=
  foldl_digitValue hs 0

theorem valueOfDigits_toDigits (n : ℕ) : valueOfDigits 10 (Nat.toDigits 10 n) = n := by
  rw [valueOfDigits_eq fun c => isDigit_of_mem_toDigits, Nat.ofDigitChars_ten_toDigits]

/-- Zeros behind digits multiply by powers of ten. -/
theorem valueOfDigits_append_zeros (s : List Char) (k : ℕ) :
    valueOfDigits 10 (s ++ List.replicate k '0') = valueOfDigits 10 s * 10 ^ k := by
  induction k with
  | zero => rw [List.replicate_zero, List.append_nil, pow_zero, mul_one]
  | succ k ih =>
    have hzero : digitValue '0' = 0 := rfl
    rw [List.replicate_succ', ← List.append_assoc, valueOfDigits, List.foldl_append,
      List.foldl_cons, List.foldl_nil, hzero, add_zero, ← valueOfDigits, ih, pow_succ, mul_assoc]

/-- Zeros in front of digits do not count. -/
theorem valueOfDigits_zeros_append (s : List Char) (k : ℕ) :
    valueOfDigits 10 (List.replicate k '0' ++ s) = valueOfDigits 10 s := by
  induction k with
  | zero => rfl
  | succ k ih => exact ih

end Text

namespace Decimal

open Text (valueOfDigits)

/-- The value of a decimal. -/
def value (d : Decimal) : ℚ := d.digits * 10 ^ d.exponent

/-! ### Zeros at the end -/

/-- Digits before the zeros at their end. -/
theorem exists_digits_eq (n : ℕ) :
    ∃ s, Nat.toDigits 10 n =
      s ++ List.replicate ((Nat.toDigits 10 n).reverse.takeWhile (· == '0')).length '0' := by
  generalize hs : Nat.toDigits 10 n = s
  have hzeros : s.reverse.takeWhile (· == '0') =
      List.replicate (s.reverse.takeWhile (· == '0')).length '0' :=
    List.eq_replicate_iff.2 ⟨rfl, fun c hc => by simpa using List.mem_takeWhile_imp hc⟩
  refine ⟨(s.reverse.dropWhile (· == '0')).reverse, ?_⟩
  calc s = (s.reverse.takeWhile (· == '0') ++ s.reverse.dropWhile (· == '0')).reverse := by
        rw [List.takeWhile_append_dropWhile, List.reverse_reverse]
    _ = _ := by rw [List.reverse_append, hzeros, List.reverse_replicate, List.length_replicate]

theorem value_stripZeros (d : Decimal) : d.stripZeros.value = d.value := by
  rw [stripZeros]
  generalize hzeros : ((Nat.toDigits 10 d.digits).reverse.takeWhile (· == '0')).length = k
  split_ifs with hdigits
  · rw [value, value, hdigits, Nat.cast_zero, zero_mul, zero_mul]
  · obtain ⟨s, hs⟩ := exists_digits_eq d.digits
    have hsplit : d.digits = valueOfDigits 10 s * 10 ^ k := by
      rw [← Text.valueOfDigits_append_zeros, ← hzeros, ← hs, Text.valueOfDigits_toDigits]
    have hpow : 0 < 10 ^ k := Nat.pow_pos (by decide)
    rw [value, value, hsplit, Nat.pow_eq, Nat.mul_div_cancel _ hpow, add_comm,
      zpow_add₀ (by norm_num), zpow_natCast]
    push_cast
    rw [mul_assoc]

/-! ### Exact values -/

theorem value_ofMagnitude (x : Binary64) : (ofMagnitude x).value = x.value := by
  rw [ofMagnitude, Binary64.value]
  split_ifs with hexp
  · obtain ⟨n, hn⟩ := Int.eq_ofNat_of_zero_le hexp
    rw [value, hn, Int.toNat_natCast, Nat.shiftLeft_eq, zpow_zero, mul_one, zpow_natCast]
    push_cast
    rfl
  · obtain ⟨n, hn⟩ := Int.eq_ofNat_of_zero_le (a := -x.exponent) (by omega)
    have hexp' : x.exponent = -n := by omega
    have hten : (10 : ℚ) = 5 * 2 := by norm_num
    have hfive : (5 : ℚ) ^ n ≠ 0 := by positivity
    rw [value, hn, hexp', Int.toNat_natCast, Nat.pow_eq, zpow_neg, zpow_neg, zpow_natCast,
      zpow_natCast, hten, mul_pow, mul_inv]
    push_cast
    rw [mul_assoc, mul_inv_cancel_left₀ hfive]

/-! ### The search -/

theorem readsBack_iff {x : Binary64} {d : Decimal} :
    readsBack x d = true ↔ gridBits d.value = x.magnitudeBits := by
  rw [readsBack, beq_iff_eq, nearestMagnitude_eq, value]

/-- The search keeps only decimals that read back. -/
theorem readsBack_of_onGrid? {tie : Tie} {x : Binary64} {exact d : Decimal} {dropped : ℕ}
    (h : onGrid? tie x exact dropped = some d) : readsBack x d = true := by
  rw [onGrid?] at h
  -- what reads back below and above the value decides between the four ways
  split at h
  · next hbelow habove =>
    rw [← Option.some.inj h]
    split_ifs <;> assumption
  · next hbelow _ => exact Option.some.inj h ▸ hbelow
  · next _ habove => exact Option.some.inj h ▸ habove
  · cases h

/-- **The shortest decimal of a finite number is rounded to the number.** -/
theorem gridBits_shortest (tie : Tie) {x : Binary64} (hx : x.isFinite = true) :
    gridBits (shortest tie x).value = x.magnitudeBits := by
  rw [shortest]
  generalize hfound : List.findSome? _ _ = found
  cases found with
  | none =>
    -- the exact value is left, and it reads back since the number is its own nearest one
    rw [Option.getD_none, value_stripZeros, value_ofMagnitude]
    exact gridBits_value hx
  | some d =>
    obtain ⟨n, -, hn⟩ := List.exists_of_findSome?_eq_some hfound
    exact readsBack_iff.1 (readsBack_of_onGrid? hn)

/-- The shortest decimal of a number other than zero has a value. -/
theorem digits_shortest_pos (tie : Tie) {x : Binary64} (hx : x.isFinite = true)
    (hzero : x.isZero = false) : 0 < (shortest tie x).digits := by
  rcases Nat.eq_zero_or_pos (shortest tie x).digits with hdigits | hpos
  · have hbits := gridBits_shortest tie hx
    rw [value, hdigits, Nat.cast_zero, zero_mul, gridBits, if_pos rfl] at hbits
    rw [Binary64.isZero, ← hbits] at hzero
    cases hzero
  · exact hpos

end Decimal
end Reactors

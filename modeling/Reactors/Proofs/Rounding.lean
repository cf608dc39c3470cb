import Mathlib.Algebra.Order.Floor.Semifield
import Mathlib.Data.Int.Log
import Mathlib.Data.Rat.Floor
import Mathlib.Tactic.Linarith
import Mathlib.Tactic.NormNum
import Reactors.Decimal.Shortest

/-!
# Rounding by value

A decimal number has many spellings, and a rational many quotients, but what they are rounded to
depends on their value alone.  The algorithm guesses an exponent from the lengths of the operands,
shifts them against each other and leaves out numbers that are far too large or too small; here
it is compared with rounding a rational number as it is defined: to the nearest place of the
grid around it, halves to the even one.

## Main definitions

* `Decimal.roundEven`, `Decimal.gridBits` — the nearest integer and the nearest place of the grid.
* `Binary64.value` — the value of a finite number without its sign.

## Main results

* `Decimal.nearestBits_eq`, `Decimal.nearestMagnitude_eq` — the algorithm rounds by value.
* `Decimal.gridBits_value` — a finite number is the one nearest to its value.
* `Decimal.gridBits_lt` — numbers below `2 ^ 1023` stay finite.
-/

namespace Reactors

/-- The value of a finite number without its sign. -/
def Binary64.value (x : Binary64) : ℚ := x.significand * 2 ^ x.exponent

namespace Decimal

/-! ### Integers -/

/-- The integer nearest to a nonnegative number; a half goes to the even neighbour. -/
def roundEven (v : ℚ) : ℕ :=
  if 2 * (v - ⌊v⌋₊) < 1 then ⌊v⌋₊
  else if 1 < 2 * (v - ⌊v⌋₊) then ⌊v⌋₊ + 1
  else if ⌊v⌋₊ % 2 = 0 then ⌊v⌋₊
  else ⌊v⌋₊ + 1

theorem floor_le_roundEven (v : ℚ) : ⌊v⌋₊ ≤ roundEven v := by
  unfold roundEven
  split_ifs <;> omega

theorem roundEven_le (v : ℚ) : roundEven v ≤ ⌊v⌋₊ + 1 := by
  unfold roundEven
  split_ifs <;> omega

theorem roundEven_natCast (n : ℕ) : roundEven n = n := by
  simp [roundEven]

theorem roundEven_eq_zero {v : ℚ} (hv : 2 * v < 1) : roundEven v = 0 := by
  have hfloor : ⌊v⌋₊ = 0 := Nat.floor_eq_zero.2 (by linarith)
  rw [roundEven, hfloor, Nat.cast_zero, sub_zero, if_pos hv]

variable {num den : ℕ}

/-- Dividing with rest rounds the quotient. -/
theorem divNearestEven_eq (hden : 0 < den) :
    divNearestEven num den = roundEven (num / den) := by
  have hpos : (0 : ℚ) < den := Nat.cast_pos.2 hden
  have hfloor : ⌊(num / den : ℚ)⌋₊ = num / den := Nat.floor_div_eq_div num den
  have hdiv : (den : ℚ) * (num / den : ℕ) + (num % den : ℕ) = num := by
    exact_mod_cast Nat.div_add_mod num den
  have hrest : 2 * ((num : ℚ) / den - (num / den : ℕ)) = (2 * (num % den) : ℕ) / den := by
    rw [eq_div_iff hpos.ne', mul_assoc, sub_mul, div_mul_cancel₀ _ hpos.ne']
    push_cast
    linarith
  rw [roundEven, divNearestEven, hfloor, hrest]
  simp only [div_lt_one hpos, one_lt_div hpos, Nat.cast_lt]

/-! ### Exponents -/

theorem scaleDown_pos (hden : 0 < den) (q : ℤ) : 0 < (scaleDown num den q).2 := by
  unfold scaleDown
  split_ifs
  · rw [Nat.shiftLeft_eq]
    exact Nat.mul_pos hden (Nat.two_pow_pos _)
  · exact hden

/-- Shifting divides the quotient by a power of two. -/
theorem scaleDown_div (num den : ℕ) (q : ℤ) :
    ((scaleDown num den q).1 : ℚ) / (scaleDown num den q).2 = num / den / 2 ^ q := by
  unfold scaleDown
  split_ifs with hq
  · obtain ⟨n, rfl⟩ := Int.eq_ofNat_of_zero_le hq
    rw [Nat.shiftLeft_eq, Int.toNat_natCast, zpow_natCast, div_div]
    push_cast
    rfl
  · obtain ⟨n, hn⟩ := Int.eq_ofNat_of_zero_le (a := -q) (by omega)
    rw [Nat.shiftLeft_eq, hn, Int.toNat_natCast, ← neg_neg q, hn, zpow_neg, zpow_natCast]
    push_cast
    rw [div_inv_eq_mul, div_mul_eq_mul_div]

/-- The guess from the lengths of the operands is the exponent of the quotient, or one more. -/
theorem log_div_bounds (hnum : 0 < num) (hden : 0 < den) :
    (Nat.log2 num : ℤ) - Nat.log2 den - 1 ≤ Int.log 2 (num / den : ℚ) ∧
      Int.log 2 (num / den : ℚ) < (Nat.log2 num : ℤ) - Nat.log2 den + 1 := by
  have hnum' : (0 : ℚ) < num := Nat.cast_pos.2 hnum
  have hden' : (0 : ℚ) < den := Nat.cast_pos.2 hden
  have hquot : (0 : ℚ) < num / den := div_pos hnum' hden'
  have hnumLe : (2 : ℚ) ^ (Nat.log2 num : ℤ) ≤ num := by
    exact_mod_cast Nat.log2_self_le hnum.ne'
  have hnumLt : (num : ℚ) < 2 ^ ((Nat.log2 num : ℤ) + 1) := by
    exact_mod_cast Nat.lt_log2_self (n := num)
  have hdenLe : (2 : ℚ) ^ (Nat.log2 den : ℤ) ≤ den := by
    exact_mod_cast Nat.log2_self_le hden.ne'
  have hdenLt : (den : ℚ) < 2 ^ ((Nat.log2 den : ℤ) + 1) := by
    exact_mod_cast Nat.lt_log2_self (n := den)
  constructor
  · rw [← Int.zpow_le_iff_le_log Nat.one_lt_two hquot, Nat.cast_ofNat, sub_sub,
      zpow_sub₀ two_ne_zero]
    exact div_le_div₀ hnum'.le hnumLe hden' hdenLt.le
  · rw [← Int.lt_zpow_iff_log_lt Nat.one_lt_two hquot, Nat.cast_ofNat, sub_add_eq_add_sub,
      zpow_sub₀ two_ne_zero]
    exact div_lt_div₀ hnumLt hdenLe (zpow_pos two_pos _).le (zpow_pos two_pos _)

theorem floorLog2_eq (hnum : 0 < num) (hden : 0 < den) :
    floorLog2 num den = Int.log 2 (num / den : ℚ) := by
  have hquot : (0 : ℚ) < num / den := div_pos (Nat.cast_pos.2 hnum) (Nat.cast_pos.2 hden)
  obtain ⟨hlow, hhigh⟩ := log_div_bounds hnum hden
  -- the comparison of the shifted operands decides between the two
  have htest (q : ℤ) : (scaleDown num den q).2 ≤ (scaleDown num den q).1 ↔
      q ≤ Int.log 2 (num / den : ℚ) := by
    have hpos : (0 : ℚ) < (scaleDown num den q).2 := Nat.cast_pos.2 (scaleDown_pos hden q)
    have hpow : (0 : ℚ) < 2 ^ q := zpow_pos two_pos q
    rw [← Int.zpow_le_iff_le_log Nat.one_lt_two hquot, Nat.cast_ofNat, ← one_le_div hpow,
      ← scaleDown_div, one_le_div hpos, Nat.cast_le]
  rw [floorLog2]
  simp only [htest]
  split_ifs <;> omega

/-! ### The grid -/

/-- The exponent of the step of the grid around a positive number. -/
def stepExponent (v : ℚ) : ℤ := max (Int.log 2 v - 52) (-1074)

/-- The magnitude bits of the place nearest to a nonnegative number on the grid of the binary64
numbers, which ends at infinity. -/
def gridBits (v : ℚ) : ℕ :=
  if v = 0 then 0
  else
    min ((stepExponent v + 1074).toNat * Binary64.exponentUnit +
      roundEven (v / 2 ^ stepExponent v)) Binary64.infinityBits

/-- **Quotients are rounded by value.** -/
theorem nearestBits_eq (hden : 0 < den) : nearestBits num den = gridBits (num / den) := by
  rw [nearestBits, gridBits]
  rcases Nat.eq_zero_or_pos num with rfl | hnum
  · simp
  · have hne : (num / den : ℚ) ≠ 0 := (div_pos (Nat.cast_pos.2 hnum) (Nat.cast_pos.2 hden)).ne'
    rw [if_neg hnum.ne', if_neg hne]
    simp only [floorLog2_eq hnum hden, divNearestEven_eq (scaleDown_pos hden _), scaleDown_div,
      stepExponent]

theorem exponentUnit_eq : Binary64.exponentUnit = 2 ^ 52 := rfl

theorem infinityBits_eq : Binary64.infinityBits = 2047 * 2 ^ 52 := rfl

/-- Numbers far below the smallest one are rounded to zero. -/
theorem gridBits_eq_zero {v : ℚ} (hv : 0 ≤ v) (hsmall : v < 2 ^ (-1075 : ℤ)) :
    gridBits v = 0 := by
  rcases hv.eq_or_lt with rfl | hpos
  · rw [gridBits, if_pos rfl]
  · have hlog : Int.log 2 v < -1075 :=
      (Int.lt_zpow_iff_log_lt Nat.one_lt_two hpos).1 (by exact_mod_cast hsmall)
    have hround : roundEven (v / 2 ^ (-1074 : ℤ)) = 0 := by
      refine roundEven_eq_zero ?_
      rw [← mul_div_assoc, div_lt_one (zpow_pos two_pos _)]
      calc 2 * v < 2 * 2 ^ (-1075 : ℤ) := by linarith
        _ = 2 ^ (-1074 : ℤ) := by rw [← zpow_one_add₀ two_ne_zero]; rfl
    have hstep : stepExponent v = -1074 := max_eq_right (by omega)
    rw [gridBits, if_neg hpos.ne', hstep, hround, neg_add_cancel, Int.toNat_zero, Nat.zero_mul,
      Nat.zero_add, Nat.zero_min]

/-- Numbers from `2 ^ 1024` on are rounded to infinity. -/
theorem gridBits_eq_infinityBits {v : ℚ} (hlarge : 2 ^ (1024 : ℤ) ≤ v) :
    gridBits v = Binary64.infinityBits := by
  have hpos : 0 < v := lt_of_lt_of_le (zpow_pos two_pos _) hlarge
  have hlog : 1024 ≤ Int.log 2 v :=
    (Int.zpow_le_iff_le_log Nat.one_lt_two hpos).1 (by exact_mod_cast hlarge)
  have hround : 2 ^ 52 ≤ roundEven (v / 2 ^ (Int.log 2 v - 52)) := by
    refine le_trans (Nat.le_floor ?_) (floor_le_roundEven _)
    rw [le_div_iff₀ (zpow_pos two_pos _)]
    calc ((2 ^ 52 : ℕ) : ℚ) * 2 ^ (Int.log 2 v - 52)
        = 2 ^ (52 : ℤ) * 2 ^ (Int.log 2 v - 52) := by push_cast; rfl
      _ = 2 ^ Int.log 2 v := by rw [← zpow_add₀ two_ne_zero]; congr 1; omega
      _ ≤ v := by exact_mod_cast Int.zpow_log_le_self Nat.one_lt_two hpos
  have hstep : stepExponent v = Int.log 2 v - 52 := max_eq_left (by omega)
  rw [gridBits, if_neg hpos.ne', hstep, exponentUnit_eq, infinityBits_eq]
  refine min_eq_right ?_
  have hplaces : 2046 ≤ (Int.log 2 v - 52 + 1074).toNat := by omega
  have := Nat.mul_le_mul_right (2 ^ 52) hplaces
  omega

/-- Numbers below `2 ^ 1023` are rounded to finite ones. -/
theorem gridBits_lt {v : ℚ} (hv : 0 ≤ v) (hsmall : v < 2 ^ (1023 : ℤ)) :
    gridBits v < Binary64.infinityBits := by
  rcases hv.eq_or_lt with rfl | hpos
  · rw [gridBits, if_pos rfl, infinityBits_eq]
    decide
  · have hlog : Int.log 2 v < 1023 :=
      (Int.lt_zpow_iff_log_lt Nat.one_lt_two hpos).1 (by exact_mod_cast hsmall)
    rw [gridBits, if_neg hpos.ne', exponentUnit_eq, infinityBits_eq]
    generalize hq : stepExponent v = q
    rw [stepExponent] at hq
    -- rounding may reach the next power of two, which is below the infinite one still
    have hround : roundEven (v / 2 ^ q) ≤ 2 ^ 53 := by
      have hquot : 0 ≤ v / 2 ^ q := div_nonneg hv (zpow_pos two_pos q).le
      refine le_trans (roundEven_le _) ((Nat.floor_lt hquot).2 ?_)
      rw [div_lt_iff₀ (zpow_pos two_pos _)]
      calc v < 2 ^ (Int.log 2 v + 1) := by
            exact_mod_cast Int.lt_zpow_succ_log_self Nat.one_lt_two v
        _ ≤ 2 ^ (53 + q) := zpow_le_zpow_right₀ one_le_two (by omega)
        _ = ((2 ^ 53 : ℕ) : ℚ) * 2 ^ q := by rw [zpow_add₀ two_ne_zero]; push_cast; rfl
    have hplaces : (q + 1074).toNat ≤ 2044 := by omega
    have := Nat.mul_le_mul_right (2 ^ 52) hplaces
    refine lt_of_le_of_lt (min_le_left _ _) ?_
    omega

/-! ### Finite numbers -/

theorem fraction_lt (x : Binary64) : x.fraction < 2 ^ 52 :=
  Nat.mod_lt _ (Nat.two_pow_pos 52)

theorem magnitudeBits_eq (x : Binary64) :
    x.magnitudeBits = x.exponentField * 2 ^ 52 + x.fraction := by
  have hsplit : x.magnitudeBits % 2 ^ 52 = x.fraction :=
    Nat.mod_mod_of_dvd _ (Nat.pow_dvd_pow 2 (by decide : 52 ≤ 63))
  rw [Binary64.exponentField, exponentUnit_eq, ← hsplit, Nat.div_add_mod']

theorem log_mul_zpow_lt {m k : ℕ} (hm : 0 < m) (hlt : m < 2 ^ k) (q : ℤ) :
    Int.log 2 (m * 2 ^ q : ℚ) < k + q := by
  have hpow : (0 : ℚ) < 2 ^ q := zpow_pos two_pos q
  rw [← Int.lt_zpow_iff_log_lt Nat.one_lt_two (mul_pos (Nat.cast_pos.2 hm) hpow), Nat.cast_ofNat,
    zpow_add₀ two_ne_zero, zpow_natCast]
  exact mul_lt_mul_of_pos_right (by exact_mod_cast hlt) hpow

theorem le_log_mul_zpow {m k : ℕ} (hle : 2 ^ k ≤ m) (q : ℤ) :
    k + q ≤ Int.log 2 (m * 2 ^ q : ℚ) := by
  have hpow : (0 : ℚ) < 2 ^ q := zpow_pos two_pos q
  have hm : 0 < m := lt_of_lt_of_le (Nat.two_pow_pos k) hle
  rw [← Int.zpow_le_iff_le_log Nat.one_lt_two (mul_pos (Nat.cast_pos.2 hm) hpow), Nat.cast_ofNat,
    zpow_add₀ two_ne_zero, zpow_natCast]
  exact mul_le_mul_of_nonneg_right (by exact_mod_cast hle) hpow.le

/-- Multiples of the step of the grid are not rounded. -/
theorem gridBits_mul_zpow {m : ℕ} (hm : 0 < m) {q : ℤ} (hstep : stepExponent (m * 2 ^ q) = q) :
    gridBits (m * 2 ^ q) = min ((q + 1074).toNat * 2 ^ 52 + m) (2047 * 2 ^ 52) := by
  have hpow : (0 : ℚ) < 2 ^ q := zpow_pos two_pos q
  have hpos : (0 : ℚ) < m * 2 ^ q := mul_pos (Nat.cast_pos.2 hm) hpow
  rw [gridBits, if_neg hpos.ne', hstep, mul_div_cancel_right₀ _ hpow.ne', roundEven_natCast,
    exponentUnit_eq, infinityBits_eq]

/-- **A finite number is the one nearest to its value.** -/
theorem gridBits_value {x : Binary64} (hx : x.isFinite = true) :
    gridBits x.value = x.magnitudeBits := by
  have hfield : x.exponentField < 2047 := by simpa [Binary64.isFinite] using hx
  have hfraction := fraction_lt x
  rw [Binary64.value, Binary64.significand, Binary64.exponent, magnitudeBits_eq, exponentUnit_eq]
  by_cases hzero : x.exponentField = 0
  · -- next to zero the place is the fraction itself
    simp only [hzero, if_true, Nat.zero_mul, Nat.zero_add]
    rcases Nat.eq_zero_or_pos x.fraction with hfrac | hfrac
    · rw [hfrac, Nat.cast_zero, zero_mul, gridBits, if_pos rfl]
    · have hlog := log_mul_zpow_lt hfrac hfraction (-1074)
      have hstep : stepExponent (x.fraction * 2 ^ (-1074 : ℤ)) = -1074 := max_eq_right (by omega)
      rw [gridBits_mul_zpow hfrac hstep]
      omega
  · -- the leading one adds to the fraction what the exponent field counts from one
    simp only [hzero, if_false]
    generalize hsig : 2 ^ 52 + x.fraction = m
    generalize hexp : (x.exponentField : ℤ) - 1075 = q
    have hlow := le_log_mul_zpow (by omega : 2 ^ 52 ≤ m) q
    have hhigh := log_mul_zpow_lt (by omega) (by omega : m < 2 ^ 53) q
    have hstep : stepExponent (m * 2 ^ q) = q := by
      rw [stepExponent]
      omega
    rw [gridBits_mul_zpow (by omega) hstep]
    omega

/-! ### Decimal numbers -/

/-- A number lies between the powers of ten that its digits count to. -/
theorem digitCount_bounds {n : ℕ} (hn : 0 < n) :
    10 ^ (digitCount n - 1) ≤ n ∧ n < 10 ^ digitCount n ∧ 0 < digitCount n := by
  have hcount : digitCount n = (Nat.toDigits 10 n).length := if_neg hn.ne'
  have hpos : 0 < (Nat.toDigits 10 n).length := Nat.length_toDigits_pos
  have hlt (k : ℕ) (hk : 0 < k) : (Nat.toDigits 10 n).length ≤ k ↔ n < 10 ^ k :=
    Nat.length_toDigits_le_iff (by decide) hk
  rw [hcount]
  refine ⟨?_, (hlt _ hpos).1 le_rfl, hpos⟩
  by_contra hsmall
  rcases Nat.eq_zero_or_pos ((Nat.toDigits 10 n).length - 1) with hzero | hmore
  · rw [hzero] at hsmall
    omega
  · have := (hlt _ hmore).2 (Nat.lt_of_not_le hsmall)
    omega

/-- A decimal number lies between the powers of ten that its places count to. -/
theorem decimal_bounds {digits : ℕ} (hdigits : 0 < digits) (exponent : ℤ) :
    (10 : ℚ) ^ ((digitCount digits : ℤ) + exponent - 1) ≤ digits * 10 ^ exponent ∧
      (digits * 10 ^ exponent : ℚ) < 10 ^ ((digitCount digits : ℤ) + exponent) := by
  obtain ⟨hlow, hhigh, hcount⟩ := digitCount_bounds hdigits
  have hpow : (0 : ℚ) < 10 ^ exponent := zpow_pos (by norm_num) _
  have hten : (10 : ℚ) ≠ 0 := by norm_num
  constructor
  · have hplaces : (digitCount digits : ℤ) + exponent - 1 =
        (digitCount digits - 1 : ℕ) + exponent := by omega
    rw [hplaces, zpow_add₀ hten, zpow_natCast]
    exact mul_le_mul_of_nonneg_right (by exact_mod_cast hlow) hpow.le
  · rw [zpow_add₀ hten, zpow_natCast]
    exact mul_lt_mul_of_pos_right (by exact_mod_cast hhigh) hpow

theorem two_pow_le_ten_pow : (2 : ℚ) ^ (1024 : ℤ) ≤ 10 ^ (310 : ℤ) := by
  have h : 2 ^ 1024 ≤ 10 ^ 310 := by decide +kernel
  exact_mod_cast h

theorem ten_pow_le_two_pow : (10 : ℚ) ^ (-330 : ℤ) ≤ 2 ^ (-1075 : ℤ) := by
  have h : 2 ^ 1075 ≤ 10 ^ 330 := by decide +kernel
  rw [zpow_neg, zpow_neg]
  exact inv_anti₀ (zpow_pos two_pos _) (by exact_mod_cast h)

/-- **Decimal numbers are rounded by value.**  That no huge powers are computed makes no
difference. -/
theorem nearestMagnitude_eq (digits : ℕ) (exponent : ℤ) :
    nearestMagnitude digits exponent = gridBits (digits * 10 ^ exponent) := by
  rw [nearestMagnitude]
  rcases Nat.eq_zero_or_pos digits with rfl | hdigits
  · rw [if_pos rfl, Nat.cast_zero, zero_mul, gridBits, if_pos rfl]
  obtain ⟨hlow, hhigh⟩ := decimal_bounds hdigits exponent
  have hten : (1 : ℚ) ≤ 10 := by norm_num
  rw [if_neg hdigits.ne']
  dsimp only
  -- the count of the digits tells what is too large or too small; the rest is one division
  split_ifs with hlarge hsmall hexp
  · refine (gridBits_eq_infinityBits ?_).symm
    calc (2 : ℚ) ^ (1024 : ℤ) ≤ 10 ^ (310 : ℤ) := two_pow_le_ten_pow
      _ ≤ 10 ^ ((digitCount digits : ℤ) + exponent - 1) := zpow_le_zpow_right₀ hten (by omega)
      _ ≤ digits * 10 ^ exponent := hlow
  · refine (gridBits_eq_zero ?_ ?_).symm
    · exact le_trans (zpow_pos (by norm_num) _).le hlow
    · calc (digits * 10 ^ exponent : ℚ) < 10 ^ ((digitCount digits : ℤ) + exponent) := hhigh
        _ ≤ 10 ^ (-330 : ℤ) := zpow_le_zpow_right₀ hten (by omega)
        _ ≤ 2 ^ (-1075 : ℤ) := ten_pow_le_two_pow
  · obtain ⟨n, rfl⟩ := Int.eq_ofNat_of_zero_le hexp
    rw [nearestBits_eq Nat.one_pos, Int.toNat_natCast, zpow_natCast, Nat.pow_eq]
    push_cast
    rw [div_one]
  · obtain ⟨n, hn⟩ := Int.eq_ofNat_of_zero_le (a := -exponent) (by omega)
    obtain rfl : exponent = -n := by omega
    have hpow : 0 < 10 ^ n := Nat.pow_pos (by decide)
    rw [hn, Int.toNat_natCast, Nat.pow_eq, nearestBits_eq hpow, zpow_neg, zpow_natCast,
      ← div_eq_mul_inv]
    push_cast
    rfl

end Decimal
end Reactors

import Reactors.Decimal.Form
import Reactors.Json.Token
import Reactors.Proofs.ShortestDecimals

/-!
# Numbers read back from JSON

An integer is written with its digits and read as itself, unless it is beyond the largest finite
number.  A finite floating point number is written with its shortest digits, positionally or in
scientific notation; either way it is read as the decimal that was written, which is
rounded to the number it was written for.

## Main results

* `Json.number?_integer` — a written integer is read as itself.
* `Json.number?_stored` — so is a written floating point number.
* `Json.isWordChar_of_number?` — a number is a word of its own.
-/

namespace Reactors

/-- A number is put together from its sign and its magnitude. -/
theorem Binary64.ofParts_eq (x : Binary64) : ofParts x.negative x.magnitudeBits = x := by
  obtain ⟨bits⟩ := x
  have hunit : signUnit = 2 ^ 63 := rfl
  have hbits : bits.toNat < 2 ^ 64 := bits.toNat_lt
  rw [ofParts, negative, magnitudeBits, mk.injEq, hunit]
  simp only [decide_eq_true_eq]
  split_ifs with hsign
  · have hmag : 2 ^ 63 + bits.toNat % 2 ^ 63 = bits.toNat := by omega
    rw [hmag, UInt64.ofNat_toNat]
  · rw [Nat.mod_eq_of_lt (Nat.lt_of_not_le hsign), UInt64.ofNat_toNat]

/-- Numbers with magnitude bits below those of infinity are finite. -/
theorem Binary64.isFinite_ofParts {negative : Bool} {magnitude : ℕ}
    (h : magnitude < infinityBits) : (ofParts negative magnitude).isFinite = true := by
  have hunit : signUnit = 2 ^ 63 := rfl
  rw [Decimal.infinityBits_eq] at h
  have hbits : (ofParts negative magnitude).bits.toNat % 2 ^ 63 = magnitude := by
    rw [ofParts, UInt64.toNat_ofNat', hunit]
    split_ifs <;> omega
  rw [isFinite, exponentField, magnitudeBits, hunit, hbits, Decimal.exponentUnit_eq,
    decide_eq_true_eq]
  omega

/-- Integers of 64 bits are far below the largest finite number. -/
theorem Decimal.isFinite_nearestInt {n : ℤ} (hn : n.natAbs < 2 ^ 64) :
    (nearestInt n).isFinite = true := by
  refine Binary64.isFinite_ofParts ?_
  rw [nearestMagnitude_eq, zpow_zero, mul_one]
  refine gridBits_lt (Nat.cast_nonneg _) ?_
  calc ((n.natAbs : ℕ) : ℚ) < (2 ^ 64 : ℕ) := Nat.cast_lt.2 hn
    _ = 2 ^ (64 : ℤ) := by push_cast; rfl
    _ ≤ 2 ^ (1023 : ℤ) := zpow_le_zpow_right₀ one_le_two (by decide)

namespace Json

open Text (isDigit valueOfDigits)
open Decimal (gridBits nearest)

/-! ### The first digit -/

theorem exists_toDigits_eq_cons {n : ℕ} (hn : 0 < n) :
    ∃ c s, Nat.toDigits 10 n = c :: s ∧ c ≠ '0' := by
  induction n using Nat.strong_induction_on with
  | _ n ih =>
    rw [Nat.toDigits_eq_if (by decide)]
    split_ifs with hsmall
    · refine ⟨Nat.digitChar n, [], rfl, fun hzero => ?_⟩
      rw [Nat.digitChar_eq_zero] at hzero
      omega
    · obtain ⟨c, s, hs, hc⟩ := ih (n / 10) (by omega) (by omega)
      exact ⟨c, s ++ [Nat.digitChar (n % 10)], by rw [hs, List.cons_append], hc⟩

theorem isWhole_cons {c : Char} (hc : c ≠ '0') (s : List Char) : isWhole (c :: s) = true := by
  rw [isWhole]
  · exact bne_iff_ne.2 hc
  · rintro rfl
    exact absurd rfl hc

theorem isWhole_toDigits (n : ℕ) : isWhole (Nat.toDigits 10 n) = true := by
  rcases Nat.eq_zero_or_pos n with rfl | hn
  · rfl
  · obtain ⟨c, s, hs, hc⟩ := exists_toDigits_eq_cons hn
    rw [hs]
    exact isWhole_cons hc s

/-! ### A number and its parts -/

/-- A sign in front of the digits of a number. -/
def sign (negative : Bool) : List Char := if negative then ['-'] else []

theorem ne_of_isDigit {c d : Char} (hc : isDigit c = true) (hd : isDigit d = false) : c ≠ d := by
  rintro rfl
  rw [hc] at hd
  cases hd

/-- The digits at the start of a text. -/
theorem takeWhile_isDigit {whole : List Char} (behind : List Char)
    (hwhole : ∀ c ∈ whole, isDigit c = true) (hbehind : ∀ c ∈ behind.head?, isDigit c = false) :
    (whole ++ behind).takeWhile isDigit = whole ∧ (whole ++ behind).dropWhile isDigit = behind := by
  have htake : behind.takeWhile isDigit = [] := by
    cases behind with
    | nil => rfl
    | cons c s => exact List.takeWhile_cons_of_neg (by simp [hbehind c rfl])
  have hdrop : behind.dropWhile isDigit = behind := by
    cases behind with
    | nil => rfl
    | cons c s => exact List.dropWhile_cons_of_neg (by simp [hbehind c rfl])
  rw [List.takeWhile_append_of_pos hwhole, List.dropWhile_append_of_pos hwhole, htake, hdrop]
  exact ⟨List.append_nil whole, rfl⟩

/-- What is read of a number that is cut into its parts. -/
theorem number?_parts {negative : Bool} {whole behind fraction tail : List Char} {exponent : ℤ}
    (hwhole : isWhole whole = true) (hdigits : ∀ c ∈ whole, isDigit c = true)
    (hbehind : ∀ c ∈ behind.head?, isDigit c = false)
    (hfraction : splitFraction? behind = some (fraction, tail))
    (hexponent : exponent? tail = some exponent) :
    number? (sign negative ++ (whole ++ behind)) =
      let digits := valueOfDigits 10 (whole ++ fraction)
      let number := nearest negative digits (exponent - fraction.length)
      some (if !behind.isEmpty || (negative && digits == 0) then ofNearest number
        else if !number.isFinite then .illegible
        else .integer (if negative then -(digits : ℤ) else digits)) := by
  -- the digits do not begin with a sign of their own
  have hhead : ((sign negative ++ (whole ++ behind)).head? == some '-') = negative := by
    cases negative with
    | true => rfl
    | false =>
      cases whole with
      | nil => cases hwhole
      | cons c s =>
        have hc : c ≠ '-' := ne_of_isDigit (hdigits c List.mem_cons_self) rfl
        simpa [sign] using hc
  have hunsigned : (if negative then (sign negative ++ (whole ++ behind)).drop 1
      else sign negative ++ (whole ++ behind)) = whole ++ behind := by
    cases negative <;> rfl
  obtain ⟨htake, hdrop⟩ := takeWhile_isDigit behind hdigits hbehind
  rw [number?]
  simp only [hhead, hunsigned, htake, hdrop, hwhole, hfraction, hexponent, Bool.not_true,
    Bool.false_eq_true, if_false, Option.bind_eq_bind, Option.bind_some]
  split_ifs <;> rfl

/-! ### Integers -/

/-- A written integer is read as itself, unless it is beyond the largest finite number. -/
theorem number?_integer (n : ℤ) :
    number? (Text.integer n).toList =
      some (if (Decimal.nearestInt n).isFinite then .integer n else .illegible) := by
  have htext : (Text.integer n).toList =
      sign (decide (n < 0)) ++ (Nat.toDigits 10 n.natAbs ++ []) := by
    rw [Text.integer, String.toList_ofList, List.append_nil, sign]
    simp only [decide_eq_true_eq]
  rw [htext, number?_parts (isWhole_toDigits _) (fun c => Text.isDigit_of_mem_toDigits)
    (fun c hc => by cases hc) rfl rfl]
  simp only [List.append_nil, Text.valueOfDigits_toDigits, List.isEmpty_nil, Decimal.nearestInt,
    List.length_nil]
  by_cases hneg : n < 0
  · have hdigits : n.natAbs ≠ 0 := by omega
    have hvalue : -|n| = n := by rw [abs_of_neg hneg, neg_neg]
    by_cases hfinite : (nearest true n.natAbs 0).isFinite = true <;>
      simp [hneg, hdigits, hvalue, hfinite]
  · have hvalue : |n| = n := abs_of_nonneg (Int.not_lt.1 hneg)
    by_cases hfinite : (nearest false n.natAbs 0).isFinite = true <;>
      simp [hneg, hvalue, hfinite]

/-! ### Decimals -/

theorem nearest_eq (negative : Bool) (digits : ℕ) (exponent : ℤ) :
    nearest negative digits exponent = .ofParts negative (gridBits (digits * 10 ^ exponent)) := by
  rw [nearest, Decimal.nearestMagnitude_eq]

variable {negative : Bool} {whole fraction s : List Char} {c : Char}

/-- A number with a point is rounded to the nearest one. -/
theorem number?_point (hwhole : isWhole whole = true) (hdigits : ∀ c ∈ whole, isDigit c = true)
    (hfraction : ∀ c ∈ fraction, isDigit c = true) (hne : fraction ≠ []) :
    number? (sign negative ++ (whole ++ '.' :: fraction)) =
      some (ofNearest (.ofParts negative
        (gridBits (valueOfDigits 10 (whole ++ fraction) * 10 ^ (-fraction.length : ℤ))))) := by
  have hsplit : splitFraction? ('.' :: fraction) = some (fraction, []) := by
    obtain ⟨htake, hdrop⟩ := takeWhile_isDigit [] hfraction fun c hc => by cases hc
    rw [List.append_nil] at htake hdrop
    rw [splitFraction?, htake, hdrop, if_neg (by simpa using hne)]
  rw [number?_parts hwhole hdigits (fun c hc => by cases hc; rfl) hsplit rfl, ← nearest_eq]
  simp

theorem isDigit_of_mem_zeros {k : ℕ} : ∀ d ∈ List.replicate k '0', isDigit d = true := by
  intro d hd
  rw [List.eq_of_mem_replicate hd]
  rfl

theorem isDigit_of_mem_zero : ∀ d ∈ ['0'], isDigit d = true := isDigit_of_mem_zeros (k := 1)

/-- Zeros may stand between the point and the digits. -/
theorem number?_zeros_append (hdigits : ∀ d ∈ s, isDigit d = true) (hne : s ≠ []) (k : ℕ) :
    number? (sign negative ++ (['0', '.'] ++ List.replicate k '0' ++ s)) =
      some (ofNearest (.ofParts negative
        (gridBits (valueOfDigits 10 s * 10 ^ (-(k + s.length : ℕ) : ℤ))))) := by
  have hfraction : ∀ d ∈ List.replicate k '0' ++ s, isDigit d = true := fun d hd =>
    (List.mem_append.1 hd).elim (isDigit_of_mem_zeros d) (hdigits d)
  have htext : ['0', '.'] ++ List.replicate k '0' ++ s =
      ['0'] ++ '.' :: (List.replicate k '0' ++ s) := by
    simp
  have hvalue : valueOfDigits 10 (['0'] ++ (List.replicate k '0' ++ s)) = valueOfDigits 10 s :=
    Text.valueOfDigits_zeros_append s (k + 1)
  rw [htext, number?_point rfl isDigit_of_mem_zero hfraction (by simp [hne]), hvalue,
    List.length_append, List.length_replicate]

/-- Zeros may stand between the digits and the point. -/
theorem number?_append_zeros (hdigits : ∀ d ∈ c :: s, isDigit d = true) (hc : c ≠ '0') (k : ℕ) :
    number? (sign negative ++ (c :: s ++ List.replicate k '0' ++ ['.', '0'])) =
      some (ofNearest (.ofParts negative
        (gridBits (valueOfDigits 10 (c :: s) * 10 ^ (k : ℤ))))) := by
  have hfirst : isWhole (c :: s ++ List.replicate k '0') = true := isWhole_cons hc _
  have hwhole : ∀ d ∈ c :: s ++ List.replicate k '0', isDigit d = true := fun d hd =>
    (List.mem_append.1 hd).elim (hdigits d) (isDigit_of_mem_zeros d)
  have hvalue : valueOfDigits 10 (c :: s ++ List.replicate k '0' ++ ['0']) =
      valueOfDigits 10 (c :: s) * 10 ^ (k + 1) := by
    rw [List.append_assoc, ← List.replicate_succ', Text.valueOfDigits_append_zeros]
  have hpow : ((valueOfDigits 10 (c :: s) * 10 ^ (k + 1) : ℕ) : ℚ) * 10 ^ (-(1 : ℕ) : ℤ) =
      valueOfDigits 10 (c :: s) * 10 ^ (k : ℤ) := by
    rw [zpow_natCast, zpow_neg, zpow_natCast, pow_one]
    push_cast
    rw [pow_succ, ← mul_assoc, mul_inv_cancel_right₀ (by norm_num)]
  rw [number?_point hfirst hwhole isDigit_of_mem_zero (List.cons_ne_nil _ _), hvalue,
    List.length_singleton, hpow]

/-- The point may stand behind the first `k + 1` digits. -/
theorem number?_take_drop (hdigits : ∀ d ∈ c :: s, isDigit d = true) (hc : c ≠ '0') {k : ℕ}
    (hk : k < s.length) :
    number? (sign negative ++ (c :: s.take k ++ '.' :: s.drop k)) =
      some (ofNearest (.ofParts negative
        (gridBits (valueOfDigits 10 (c :: s) * 10 ^ (-(s.length - k : ℕ) : ℤ))))) := by
  have hwhole : ∀ d ∈ c :: s.take k, isDigit d = true := fun d hd =>
    hdigits d (List.cons_subset_cons c (List.take_subset k s) hd)
  have hfraction : ∀ d ∈ s.drop k, isDigit d = true := fun d hd =>
    hdigits d (List.mem_cons_of_mem c (List.mem_of_mem_drop hd))
  have hne : s.drop k ≠ [] := List.ne_nil_of_length_pos (by rw [List.length_drop]; omega)
  rw [number?_point (isWhole_cons hc _) hwhole hfraction hne, List.cons_append,
    List.take_append_drop, List.length_drop]

/-- A positional decimal is rounded to the nearest number. -/
theorem number?_positional (hdigits : ∀ d ∈ c :: s, isDigit d = true) (hc : c ≠ '0')
    (places : ℤ) :
    number? (sign negative ++ Decimal.Form.positional (c :: s) places) =
      some (ofNearest (.ofParts negative
        (gridBits (valueOfDigits 10 (c :: s) * 10 ^ (places - (c :: s).length))))) := by
  rw [Decimal.Form.positional]
  split_ifs with hlow hhigh
  · rw [number?_zeros_append hdigits (List.cons_ne_nil c s)]
    congr 6
    omega
  · rw [number?_append_zeros hdigits hc]
    congr 6
    omega
  · obtain ⟨k, hk⟩ : ∃ k : ℕ, places.toNat = k + 1 := ⟨places.toNat - 1, by omega⟩
    rw [List.length_cons, hk] at hhigh
    rw [hk, List.take_succ_cons, List.drop_succ_cons, List.append_assoc, List.singleton_append,
      number?_take_drop hdigits hc (Nat.lt_of_succ_lt_succ (Nat.lt_of_not_le hhigh)),
      List.length_cons]
    congr 6
    omega

/-! ### Scientific notation -/

theorem readNatural?_toDigits (n : ℕ) : Text.readNatural? (Nat.toDigits 10 n) = some n := by
  have hdigits : (Nat.toDigits 10 n).all isDigit = true :=
    List.all_eq_true.2 fun d hd => Text.isDigit_of_mem_toDigits hd
  rw [Text.readNatural?, if_pos ⟨Nat.toDigits_ne_nil, hdigits⟩, Text.valueOfDigits_toDigits]

/-- A written exponent is read as itself. -/
theorem readInteger?_written (signed : Bool) (power : ℤ) :
    Text.readInteger? ((if power < 0 then ['-'] else if signed then ['+'] else []) ++
      Nat.toDigits 10 power.natAbs) = some power := by
  have hread := readNatural?_toDigits power.natAbs
  split_ifs with hneg hsigned
  · have hvalue : -|power| = power := by rw [abs_of_neg hneg, neg_neg]
    simp [Text.readInteger?, hread, hvalue]
  · have hvalue : |power| = power := abs_of_nonneg (Int.not_lt.1 hneg)
    simp [Text.readInteger?, hread, hvalue]
  · have hvalue : |power| = power := abs_of_nonneg (Int.not_lt.1 hneg)
    have hplain (c : Char) (hc : isDigit c = false) (r : List Char) :
        Nat.toDigits 10 power.natAbs ≠ c :: r := by
      intro hr
      have hmem : c ∈ Nat.toDigits 10 power.natAbs := hr ▸ List.mem_cons_self
      rw [Text.isDigit_of_mem_toDigits hmem] at hc
      cases hc
    rw [List.nil_append, Text.readInteger?.eq_3 _ (hplain '-' rfl) (hplain '+' rfl), hread]
    simp [hvalue]

/-- A decimal in scientific notation is rounded to the nearest number. -/
theorem number?_scientific (hdigits : ∀ d ∈ c :: s, isDigit d = true) (hc : c ≠ '0')
    (signed : Bool) (power : ℤ) :
    number? (sign negative ++ Decimal.Form.scientific signed (c :: s) power) =
      some (ofNearest (.ofParts negative
        (gridBits (valueOfDigits 10 (c :: s) * 10 ^ (power - s.length))))) := by
  obtain ⟨t, ht⟩ : ∃ t, (if power < 0 then ['-'] else if signed then ['+'] else []) ++
      Nat.toDigits 10 power.natAbs = t := ⟨_, rfl⟩
  have hread : exponent? ('e' :: t) = some power := ht ▸ readInteger?_written signed power
  have hfirst : ∀ d ∈ [c], isDigit d = true := List.forall_mem_singleton.2
    (hdigits c List.mem_cons_self)
  -- a point is written only where digits follow it
  cases s with
  | nil =>
    have htext : Decimal.Form.scientific signed [c] power = [c] ++ 'e' :: t := by
      simp [Decimal.Form.scientific, ht]
    have hsplit : splitFraction? ('e' :: t) = some ([], 'e' :: t) := rfl
    rw [htext, number?_parts (isWhole_cons hc []) hfirst (fun d hd => by cases hd; rfl) hsplit
      hread, ← nearest_eq]
    simp
  | cons d s =>
    have htext : Decimal.Form.scientific signed (c :: d :: s) power =
        [c] ++ '.' :: (d :: s ++ 'e' :: t) := by
      simp [Decimal.Form.scientific, ht]
    have hfraction : ∀ x ∈ d :: s, isDigit x = true := fun x hx =>
      hdigits x (List.mem_cons_of_mem c hx)
    have hsplit : splitFraction? ('.' :: (d :: s ++ 'e' :: t)) = some (d :: s, 'e' :: t) := by
      obtain ⟨htake, hdrop⟩ :=
        takeWhile_isDigit ('e' :: t) hfraction fun x hx => by cases hx; rfl
      rw [splitFraction?, htake, hdrop, if_neg (by simp)]
    rw [htext, number?_parts (isWhole_cons hc []) hfirst (fun x hx => by cases hx; rfl) hsplit
      hread, ← nearest_eq]
    simp

/-! ### Floating point numbers -/

/-- A written decimal is rounded to the nearest number. -/
theorem number?_writeDecimal (form : Decimal.Form) {d : Decimal} (hd : 0 < d.digits) :
    number? (sign negative ++ form.writeDecimal d) =
      some (ofNearest (.ofParts negative (gridBits d.value))) := by
  obtain ⟨c, s, hs, hc⟩ := exists_toDigits_eq_cons hd
  have hdigits : ∀ x ∈ c :: s, isDigit x = true := fun x hx =>
    Text.isDigit_of_mem_toDigits (hs ▸ hx)
  have hvalue : valueOfDigits 10 (c :: s) = d.digits := by rw [← hs, Text.valueOfDigits_toDigits]
  rw [Decimal.Form.writeDecimal, Decimal.value, hs]
  split_ifs with hpositional
  · rw [number?_positional hdigits hc, hvalue]
    congr 6
    omega
  · rw [number?_scientific hdigits hc, hvalue, List.length_cons]
    congr 6
    omega

/-- **A written finite number is read as itself.** -/
theorem number?_stored {x : Binary64} (hx : x.isFinite = true) :
    number? (Decimal.Form.stored.write x).toList = some (.float x) := by
  have hnan : x.isNaN = false := by
    have hfield : x.exponentField < 2047 := by simpa [Binary64.isFinite] using hx
    simp [Binary64.isNaN, hfield.ne]
  have htext : (Decimal.Form.stored.write x).toList =
      sign x.negative ++ Decimal.Form.stored.writeMagnitude x := by
    rw [Decimal.Form.write, hnan, if_neg Bool.false_ne_true, String.toList_ofList, sign]
  have hself : ofNearest (.ofParts x.negative x.magnitudeBits) = .float x := by
    rw [Binary64.ofParts_eq, ofNearest, if_pos hx]
  rw [htext, Decimal.Form.writeMagnitude]
  -- zero has no shortest digits, and is written as it is
  by_cases hzero : x.isZero = true
  · have hbits : x.magnitudeBits = 0 := by simpa [Binary64.isZero] using hzero
    have hpoint : (['0', '.', '0'] : List Char) = ['0'] ++ '.' :: ['0'] := rfl
    rw [if_pos hzero, hpoint,
      number?_point rfl isDigit_of_mem_zero isDigit_of_mem_zero (List.cons_ne_nil _ _)]
    have hvalue : gridBits (valueOfDigits 10 (['0'] ++ ['0']) * 10 ^ (-['0'].length : ℤ)) = 0 := by
      have hdigits : valueOfDigits 10 (['0'] ++ ['0']) = 0 := rfl
      rw [hdigits, Nat.cast_zero, zero_mul, gridBits, if_pos rfl]
    rw [hvalue, ← hbits, hself]
  · have hpos := Decimal.digits_shortest_pos Decimal.Form.stored.tie hx (by simpa using hzero)
    rw [if_neg hzero, if_pos hx, number?_writeDecimal _ hpos, Decimal.gridBits_shortest _ hx, hself]

/-! ### Words -/

theorem isWordChar_of_isDigit (hc : isDigit c = true) : isWordChar c = true := by
  simp [isWordChar, hc]

theorem isWordChar_of_readNatural? {n : ℕ} (h : Text.readNatural? s = some n) :
    ∀ c ∈ s, isWordChar c = true := by
  rw [Text.readNatural?] at h
  split_ifs at h with hs
  exact fun c hc => isWordChar_of_isDigit (List.all_eq_true.1 hs.2 c hc)

theorem isWordChar_of_readInteger? {n : ℤ} (h : Text.readInteger? s = some n) :
    ∀ c ∈ s, isWordChar c = true := by
  rw [Text.readInteger?.eq_def] at h
  split at h
  all_goals
    obtain ⟨m, hm, -⟩ := Option.map_eq_some_iff.1 h
    obtain ⟨k, hk, -⟩ := Option.bind_eq_some_iff.1 hm
  · exact List.forall_mem_cons.2 ⟨rfl, isWordChar_of_readNatural? hk⟩
  · exact List.forall_mem_cons.2 ⟨rfl, isWordChar_of_readNatural? hk⟩
  · exact isWordChar_of_readNatural? hk

theorem isWordChar_of_exponent? {n : ℤ} (h : exponent? s = some n) :
    ∀ c ∈ s, isWordChar c = true := by
  rw [exponent?.eq_def] at h
  split at h
  · exact fun c hc => by cases hc
  · exact List.forall_mem_cons.2 ⟨rfl, isWordChar_of_readInteger? h⟩
  · exact List.forall_mem_cons.2 ⟨rfl, isWordChar_of_readInteger? h⟩
  · cases h

theorem isWordChar_of_splitFraction? {tail : List Char}
    (h : splitFraction? s = some (fraction, tail)) (htail : ∀ c ∈ tail, isWordChar c = true) :
    ∀ c ∈ s, isWordChar c = true := by
  rw [splitFraction?.eq_def] at h
  split at h
  · next r =>
    dsimp only at h
    split_ifs at h
    obtain ⟨-, rfl⟩ := Prod.mk.inj (Option.some.inj h)
    refine List.forall_mem_cons.2 ⟨rfl, fun c hc => ?_⟩
    rw [← List.takeWhile_append_dropWhile (p := isDigit) (l := r)] at hc
    rcases List.mem_append.1 hc with hdigit | hrest
    · exact isWordChar_of_isDigit (List.mem_takeWhile_imp hdigit)
    · exact htail c hrest
  · obtain ⟨-, rfl⟩ := Prod.mk.inj (Option.some.inj h)
    exact htail

/-- A number without its sign begins with digits, which a fraction and an exponent follow. -/
theorem exists_parts_of_number? {d : Document} (h : number? s = some d) :
    ∃ fraction tail exponent,
      splitFraction? ((if s.head? == some '-' then s.drop 1 else s).dropWhile isDigit) =
        some (fraction, tail) ∧ exponent? tail = some exponent := by
  rw [number?] at h
  dsimp only at h
  generalize (if s.head? == some '-' then s.drop 1 else s) = unsigned at h ⊢
  by_cases hwhole : isWhole (unsigned.takeWhile isDigit) = true
  · rw [if_neg (by simp [hwhole])] at h
    obtain ⟨⟨fraction, tail⟩, hfraction, h⟩ := Option.bind_eq_some_iff.1 h
    obtain ⟨exponent, hexponent, -⟩ := Option.bind_eq_some_iff.1 h
    exact ⟨fraction, tail, exponent, hfraction, hexponent⟩
  · rw [if_pos (by simpa using hwhole)] at h
    cases h

/-- A number is made of characters of words only. -/
theorem isWordChar_of_number? {d : Document} (h : number? s = some d) :
    ∀ c ∈ s, isWordChar c = true := by
  obtain ⟨fraction, tail, exponent, hfraction, hexponent⟩ := exists_parts_of_number? h
  have hunsigned : ∀ c ∈ if s.head? == some '-' then s.drop 1 else s, isWordChar c = true := by
    generalize (if s.head? == some '-' then s.drop 1 else s) = unsigned at hfraction ⊢
    intro c hc
    rw [← List.takeWhile_append_dropWhile (p := isDigit) (l := unsigned)] at hc
    rcases List.mem_append.1 hc with hdigit | hrest
    · exact isWordChar_of_isDigit (List.mem_takeWhile_imp hdigit)
    · exact isWordChar_of_splitFraction? hfraction (isWordChar_of_exponent? hexponent) c hrest
  split_ifs at hunsigned with hneg
  · cases s with
    | nil => exact hunsigned
    | cons c s =>
      obtain rfl : c = '-' := by simpa using hneg
      exact List.forall_mem_cons.2 ⟨rfl, hunsigned⟩
  · exact hunsigned

/-- A number is none of the literals. -/
theorem word?_of_number? {d : Document} (h : number? s = some d) : word? s = some d := by
  have hplain (literal : List Char) (hliteral : number? literal = none) : s ≠ literal := by
    rintro rfl
    rw [hliteral] at h
    cases h
  rw [word?, if_neg (hplain _ (by decide)), if_neg (hplain _ (by decide)),
    if_neg (hplain _ (by decide)), h]

end Json
end Reactors

import Reactors.Proofs.JsonNumbers
import Reactors.Proofs.Trimming
import Reactors.Time.Reading

/-!
# Signs and digits

The number of a time is what its text begins with: an optional sign and digits, as many as there
are.  A longer beginning of this kind would have to go on with the next character, so the longest
one is reached where that character is neither a digit nor a sign at the front, and there the text
is split.  What is cut off stands for a number unless it has no digit.

## Main definitions

* `Text.SignedDigits`, `Text.GoesOn` — a sign with digits, and the characters that extend it.
* `Text.Denotes`, `Text.Unfit` — the number of a sign with digits, and those that have no number of
  64 bits.
* `TimeValue.SplitsInto` — the longest beginning of a sign and digits.

## Main results

* `TimeValue.readMagnitude_of_denotes`, `TimeValue.readMagnitude_of_unfit` — reading the number.
* `TimeValue.splitsInto_iff` — where a text is split.
-/

namespace Reactors

namespace Text

theorem isDigit_iff {c : Char} : isDigit c = true ↔ 48 ≤ c.toNat ∧ c.toNat ≤ 57 := by
  simp [isDigit, Char.le_def, UInt32.le_iff_toNat_le]

theorem isBlank_of_isDigit {c : Char} (h : isDigit c = true) : isBlank c = false := by
  have hrange := isDigit_iff.1 h
  exact isBlank_of_graphic (by omega) (by omega)

/-! ### Signs and digits -/

/-- An optional sign and ASCII digits behind it, of which there may be none. -/
inductive SignedDigits : List Char → Prop where
  | unsigned {digits : List Char} (h : ∀ c ∈ digits, isDigit c = true) : SignedDigits digits
  | signed {sign : Char} {digits : List Char} (hsign : sign = '+' ∨ sign = '-')
      (h : ∀ c ∈ digits, isDigit c = true) : SignedDigits (sign :: digits)

/-- A character that goes on with a sign and digits: a digit, or the sign if nothing stands in
front of it. -/
def GoesOn (d : List Char) (c : Char) : Prop := isDigit c = true ∨ d = [] ∧ (c = '+' ∨ c = '-')

namespace SignedDigits

variable {d e : List Char} {c : Char}

theorem goesOn (h : SignedDigits (d ++ c :: e)) : GoesOn d c := by
  generalize hs : d ++ c :: e = s at h
  cases h with
  | unsigned h =>
    subst hs
    exact .inl (h c (List.mem_append_right d List.mem_cons_self))
  | signed hsign h =>
    cases d with
    | nil =>
      obtain ⟨rfl, -⟩ := List.cons.inj hs
      exact .inr ⟨rfl, hsign⟩
    | cons a d =>
      obtain ⟨-, rfl⟩ := List.cons.inj hs
      exact .inl (h c (List.mem_append_right d List.mem_cons_self))

theorem concat (hd : SignedDigits d) (hc : GoesOn d c) : SignedDigits (d ++ [c]) := by
  cases hd with
  | unsigned h =>
    rcases hc with hc | ⟨rfl, hsign⟩
    · exact .unsigned (List.forall_mem_append.2 ⟨h, List.forall_mem_singleton.2 hc⟩)
    · exact .signed hsign h
  | signed hsign h =>
    rcases hc with hc | ⟨hnil, -⟩
    · exact .signed hsign (List.forall_mem_append.2 ⟨h, List.forall_mem_singleton.2 hc⟩)
    · cases hnil

theorem isBlank_of_mem (h : SignedDigits d) (hc : c ∈ d) : isBlank c = false := by
  cases h with
  | unsigned h => exact isBlank_of_isDigit (h c hc)
  | signed hsign h =>
    rcases List.mem_cons.1 hc with rfl | hc
    · rcases hsign with rfl | rfl <;> rfl
    · exact isBlank_of_isDigit (h c hc)

end SignedDigits

/-- Behind a sign or a digit, blanks do not go on with the number and shield it from what follows
them. -/
theorem not_goesOn_behind_blanks {d between u : List Char} (hne : d ≠ [])
    (hbetween : ∀ c ∈ between, isBlank c = true) (hhead : ∀ c ∈ u.head?, ¬GoesOn d c) :
    ∀ c ∈ (between ++ u).head?, ¬GoesOn d c := by
  cases between with
  | nil => exact hhead
  | cons b r =>
    intro c hc hgoes
    obtain rfl := Option.some.inj hc
    rcases hgoes with hdigit | ⟨hnil, -⟩
    · have hblank := hbetween b List.mem_cons_self
      rw [isBlank_of_isDigit hdigit] at hblank
      cases hblank
    · exact hne hnil

/-! ### Numbers -/

/-- The integer that digits behind an optional sign stand for; there is at least one digit. -/
inductive Denotes : List Char → ℤ → Prop where
  | plain {digits : List Char} (hne : digits ≠ []) (h : ∀ c ∈ digits, isDigit c = true) :
      Denotes digits (Nat.ofDigitChars 10 digits 0)
  | plus {digits : List Char} (hne : digits ≠ []) (h : ∀ c ∈ digits, isDigit c = true) :
      Denotes ('+' :: digits) (Nat.ofDigitChars 10 digits 0)
  | minus {digits : List Char} (hne : digits ≠ []) (h : ∀ c ∈ digits, isDigit c = true) :
      Denotes ('-' :: digits) (-(Nat.ofDigitChars 10 digits 0))

/-- There is no digit, or the number does not fit 64 bits with sign. -/
def Unfit (d : List Char) : Prop :=
  (∀ c ∈ d, isDigit c = false) ∨ ∃ n, Denotes d n ∧ (n < -2 ^ 63 ∨ 2 ^ 63 ≤ n)

variable {d digits : List Char} {n : ℤ}

theorem readNatural?_of_digits (hne : digits ≠ []) (h : ∀ c ∈ digits, isDigit c = true) :
    readNatural? digits = some (Nat.ofDigitChars 10 digits 0) := by
  rw [readNatural?, if_pos ⟨hne, List.all_eq_true.2 h⟩, valueOfDigits_eq h]

theorem readInteger?_of_denotes (h : Denotes d n) : readInteger? d = some n := by
  cases h with
  | plain hne h =>
    cases d with
    | nil => exact absurd rfl hne
    | cons c r =>
      have hc : isDigit c = true := h c List.mem_cons_self
      rw [readInteger?.eq_3, readNatural?_of_digits hne h]
      · rfl
      · rintro r' ⟨⟩
        cases hc
      · rintro r' ⟨⟩
        cases hc
  | plus hne h =>
    rw [readInteger?, readNatural?_of_digits hne h]
    rfl
  | minus hne h =>
    rw [readInteger?, readNatural?_of_digits hne h]
    rfl

/-- A sign and digits stand for a number if there is a digit among them. -/
theorem SignedDigits.exists_denotes (h : SignedDigits d) :
    (∀ c ∈ d, isDigit c = false) ∨ ∃ n, Denotes d n := by
  cases h with
  | unsigned h =>
    by_cases hne : d = []
    · exact .inl fun c hc => by simp [hne] at hc
    · exact .inr ⟨_, .plain hne h⟩
  | @signed sign digits hsign h =>
    by_cases hne : digits = []
    · subst hne
      refine .inl (List.forall_mem_singleton.2 ?_)
      rcases hsign with rfl | rfl <;> rfl
    · rcases hsign with rfl | rfl
      · exact .inr ⟨_, .plus hne h⟩
      · exact .inr ⟨_, .minus hne h⟩

theorem readInteger?_of_no_digit (hnone : ∀ c ∈ d, isDigit c = false) :
    readInteger? d = none := by
  have hnot {digits : List Char} (hdigits : ∀ c ∈ digits, isDigit c = false) :
      readNatural? digits = none := by
    rw [readNatural?, if_neg]
    rintro ⟨hne, hall⟩
    obtain ⟨c, hc⟩ := List.exists_mem_of_ne_nil digits hne
    have hdigit : isDigit c = true := List.all_eq_true.1 hall c hc
    rw [hdigits c hc] at hdigit
    cases hdigit
  rw [readInteger?.eq_def]
  split
  · rw [hnot (List.forall_mem_cons.1 hnone).2]
    rfl
  · rw [hnot (List.forall_mem_cons.1 hnone).2]
    rfl
  · rw [hnot hnone]
    rfl

end Text

namespace TimeValue

open Text

variable {t d u : List Char} {m : Int64}

/-! ### The magnitude of a time -/

theorem readMagnitude_of_denotes (h : Denotes d m.toInt) : readMagnitude d = .ok m := by
  rw [readMagnitude, readInteger?_of_denotes h, Option.bind_some, int64?_toInt]

theorem readMagnitude_of_unfit (h : Unfit d) :
    readMagnitude d = .error (.invalidMagnitude (String.ofList d)) := by
  have hnone : (readInteger? d).bind int64? = none := by
    rcases h with hnone | ⟨n, hn, hrange⟩
    · rw [readInteger?_of_no_digit hnone, Option.bind_none]
    · rw [readInteger?_of_denotes hn, Option.bind_some, int64?, if_neg]
      rw [Int64.toInt_minValue, Int64.toInt_maxValue]
      omega
  rw [readMagnitude, hnone]

/-- A sign and digits stand for a number of 64 bits, or are unfit. -/
theorem exists_denotes_or_unfit (h : SignedDigits d) :
    (∃ m : Int64, Denotes d m.toInt) ∨ Unfit d := by
  rcases h.exists_denotes with hnone | ⟨n, hn⟩
  · exact .inr (.inl hnone)
  · by_cases hrange : n < -2 ^ 63 ∨ 2 ^ 63 ≤ n
    · exact .inr (.inr ⟨n, hn, hrange⟩)
    · have hkept : (Int64.ofInt n).toInt = n := Int64.toInt_ofInt_of_le (by omega) (by omega)
      exact .inl ⟨Int64.ofInt n, hkept.symm ▸ hn⟩

/-! ### Where a text is split -/

/-- The longest beginning of a text that is a sign with digits, and what follows it. -/
structure SplitsInto (t d u : List Char) : Prop where
  append : t = d ++ u
  signed : SignedDigits d
  longest : ∀ p, SignedDigits p → p <+: t → p.length ≤ d.length

/-- The beginning is the longest one if the next character does not go on with it. -/
theorem splitsInto_iff_head :
    SplitsInto t d u ↔ t = d ++ u ∧ SignedDigits d ∧ ∀ c ∈ u.head?, ¬GoesOn d c := by
  constructor
  · rintro ⟨rfl, hd, hlongest⟩
    refine ⟨rfl, hd, fun c hc hgoes => ?_⟩
    obtain ⟨r, rfl⟩ : ∃ r, u = c :: r := List.head?_eq_some_iff.1 hc
    have hlonger := hlongest (d ++ [c]) (hd.concat hgoes) ⟨r, by simp⟩
    simp at hlonger
  · rintro ⟨rfl, hd, hhead⟩
    refine ⟨rfl, hd, fun p hp hprefix => ?_⟩
    by_contra hlonger
    obtain ⟨e, rfl⟩ : d <+: p :=
      List.prefix_of_prefix_length_le (List.prefix_append d u) hprefix (by omega)
    cases e with
    | nil => simp at hlonger
    | cons c e =>
      obtain ⟨r, hr⟩ := (List.prefix_append_right_inj d).1 hprefix
      exact hhead c (hr ▸ rfl) hp.goesOn

theorem splitMagnitude_append (hd : SignedDigits d) (hhead : ∀ c ∈ u.head?, ¬GoesOn d c) :
    splitMagnitude (d ++ u) = (d, u) := by
  have hrest : ∀ c ∈ u.head?, isDigit c = false := fun c hc =>
    Bool.eq_false_iff.2 fun hdigit => hhead c hc (.inl hdigit)
  cases hd with
  | unsigned h =>
    obtain ⟨htake, hdrop⟩ := Json.takeWhile_isDigit u h hrest
    cases d with
    | nil =>
      cases u with
      | nil => rfl
      | cons c u =>
        have hsign : ¬(c = '+' ∨ c = '-') := fun hsign => hhead c rfl (.inr ⟨rfl, hsign⟩)
        rw [List.nil_append] at htake hdrop ⊢
        rw [splitMagnitude, if_neg hsign, htake, hdrop]
    | cons c d =>
      have hc : isDigit c = true := h c List.mem_cons_self
      have hsign : ¬(c = '+' ∨ c = '-') := not_or.2
        ⟨Json.ne_of_isDigit hc rfl, Json.ne_of_isDigit hc rfl⟩
      rw [List.cons_append] at htake hdrop ⊢
      rw [splitMagnitude, if_neg hsign, htake, hdrop]
  | signed hsign h =>
    obtain ⟨htake, hdrop⟩ := Json.takeWhile_isDigit u h hrest
    rw [List.cons_append, splitMagnitude, if_pos hsign, htake, hdrop]

theorem exists_splitsInto (t : List Char) : ∃ d u, SplitsInto t d u := by
  have hnil : SignedDigits [] := .unsigned fun c hc => by cases hc
  cases t with
  | nil => exact ⟨[], [], splitsInto_iff_head.2 ⟨rfl, hnil, fun c hc => by cases hc⟩⟩
  | cons a r =>
    -- the number is the longest beginning of the text that can be one
    by_cases ha : GoesOn [] a
    · have hdigits : ∀ c ∈ r.takeWhile isDigit, isDigit c = true := fun c =>
        List.mem_takeWhile_imp
      have hsigned : SignedDigits (a :: r.takeWhile isDigit) := by
        rcases ha with ha | ⟨-, hsign⟩
        · exact .unsigned (List.forall_mem_cons.2 ⟨ha, hdigits⟩)
        · exact .signed hsign hdigits
      refine ⟨a :: r.takeWhile isDigit, r.dropWhile isDigit, splitsInto_iff_head.2
        ⟨?_, hsigned, fun c hc hgoes => ?_⟩⟩
      · rw [List.cons_append, List.takeWhile_append_dropWhile]
      · rcases hgoes with hdigit | ⟨hempty, -⟩
        · have hnot := List.head?_dropWhile_not isDigit r
          rw [hc] at hnot
          exact absurd hdigit (Bool.eq_false_iff.1 hnot)
        · cases hempty
    · refine ⟨[], a :: r, splitsInto_iff_head.2 ⟨rfl, hnil, fun c hc => ?_⟩⟩
      obtain rfl := Option.some.inj hc
      exact ha

/-- **Where a text is split**: behind the longest beginning of a sign and digits. -/
theorem splitsInto_iff : SplitsInto t d u ↔ splitMagnitude t = (d, u) := by
  have hsplit {d u : List Char} (h : SplitsInto t d u) : splitMagnitude t = (d, u) := by
    obtain ⟨rfl, hd, hhead⟩ := splitsInto_iff_head.1 h
    exact splitMagnitude_append hd hhead
  refine ⟨hsplit, fun h => ?_⟩
  obtain ⟨d', u', h'⟩ := exists_splitsInto t
  obtain ⟨rfl, rfl⟩ := Prod.mk.inj (h.symm.trans (hsplit h'))
  exact h'

end TimeValue
end Reactors

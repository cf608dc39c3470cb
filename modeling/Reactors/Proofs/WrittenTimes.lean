import Reactors.Proofs.SignedDigits

/-!
# Written times

The text of a time is its magnitude with a unit behind it.  Reading the text finds both again: the
longest beginning of a sign and digits is the written magnitude, since a blank or nothing follows
it, and the name of a unit is one of its spellings.  What is left is the rule on units, so that
the text of a time is refused exactly if the time itself breaks the rule.

## Main definitions

* `TimeUnit.behind` — what stands behind the magnitude in the text of a time.

## Main results

* `TimeValue.splitMagnitude_written` — where the magnitude of a written time ends.
* `TimeValue.read_text` — reading the text of a time.
-/

namespace Reactors

namespace Text

/-! ### Written integers -/

theorem toList_integer (n : ℤ) :
    (integer n).toList = (if n < 0 then ['-'] else []) ++ Nat.toDigits 10 n.natAbs :=
  String.toList_ofList

theorem toList_integer_ne_nil (n : ℤ) : (integer n).toList ≠ [] := by
  rw [toList_integer]
  exact List.append_ne_nil_of_right_ne_nil _ Nat.toDigits_ne_nil

theorem signedDigits_integer (n : ℤ) : SignedDigits (integer n).toList := by
  have hdigits : ∀ c ∈ Nat.toDigits 10 n.natAbs, isDigit c = true := fun _ =>
    isDigit_of_mem_toDigits
  rw [toList_integer]
  split_ifs
  · exact .signed (.inr rfl) hdigits
  · exact .unsigned hdigits

theorem readInteger?_integer (n : ℤ) : readInteger? (integer n).toList = some n := by
  rw [toList_integer]
  exact Json.readInteger?_written false n

end Text

/-! ### Units behind a magnitude -/

namespace TimeUnit

/-- What stands behind the magnitude in the text of a time: a blank and the name of the unit, or
nothing. -/
def behind : TimeUnit → List Char
  | .none => []
  | u => ' ' :: u.name.toList

theorem head?_behind (u : TimeUnit) : ∀ c ∈ u.behind.head?, c = ' ' := by
  intro c hc
  cases u with
  | none => cases hc
  | _ => exact (Option.some.inj hc).symm

theorem getLast?_behind (u : TimeUnit) : ∀ c ∈ u.behind.getLast?, Text.isBlank c = false := by
  have hlast : u.behind.getLast?.all (!Text.isBlank ·) = true := by cases u <;> rfl
  intro c hc
  rw [hc, Option.all_some, Bool.not_eq_true'] at hlast
  exact hlast

/-- The name of a unit is one of its spellings. -/
theorem read_behind (u : TimeUnit) : read u.behind = .ok u := by
  cases u <;> rfl

end TimeUnit

namespace TimeValue

theorem toList_text (t : TimeValue) :
    t.text.toList = (Text.integer t.magnitude.toInt).toList ++ t.unit.behind := by
  obtain ⟨magnitude, unit⟩ := t
  cases unit with
  | none => exact (List.append_nil _).symm
  | _ =>
    rw [text, String.toList_append, String.toList_append, List.append_assoc]
    rfl

/-! ### Reading the text of a time -/

/-- The magnitude of a written time ends where its digits end. -/
theorem splitMagnitude_written (n : ℤ) {rest : List Char}
    (hrest : ∀ c ∈ rest.head?, Text.isDigit c = false) :
    splitMagnitude ((Text.integer n).toList ++ rest) = ((Text.integer n).toList, rest) := by
  refine splitMagnitude_append (Text.signedDigits_integer n) fun c hc hgoes => ?_
  rcases hgoes with hdigit | ⟨hempty, -⟩
  · rw [hrest c hc] at hdigit
    cases hdigit
  · exact Text.toList_integer_ne_nil n hempty

theorem readMagnitude_integer (m : Int64) :
    readMagnitude (Text.integer m.toInt).toList = .ok m := by
  rw [readMagnitude, Text.readInteger?_integer, Option.bind_some, Text.int64?_toInt]

/-- The text of a time has no outer blanks. -/
theorem trim_text (t : TimeValue) : Text.trim t.text.toList = t.text.toList := by
  have hmagnitude := Text.toList_integer_ne_nil t.magnitude.toInt
  rw [toList_text]
  refine Text.trim_eq_self (fun c hc => ?_) fun c hc => ?_
  · rw [List.head?_append_of_ne_nil _ hmagnitude] at hc
    exact (Text.signedDigits_integer _).isBlank_of_mem (List.mem_of_mem_head? hc)
  · cases hbehind : t.unit.behind with
    | nil =>
      rw [hbehind, List.append_nil] at hc
      exact (Text.signedDigits_integer _).isBlank_of_mem (List.mem_of_getLast? hc)
    | cons d s =>
      rw [List.getLast?_append_of_ne_nil _ (hbehind ▸ List.cons_ne_nil d s)] at hc
      exact t.unit.getLast?_behind c hc

/-- **Reading the text of a time** finds its magnitude and its unit, and applies the rule on units
to them. -/
theorem read_text (t : TimeValue) : read t.text = checked t.magnitude t.unit := by
  have hsplit : splitMagnitude t.text.toList =
      ((Text.integer t.magnitude.toInt).toList, t.unit.behind) := by
    rw [toList_text]
    refine splitMagnitude_written _ fun c hc => ?_
    rw [t.unit.head?_behind c hc]
    rfl
  have hne : t.text.toList.isEmpty = false := by
    rw [toList_text, List.isEmpty_eq_false_iff]
    exact List.append_ne_nil_of_left_ne_nil (Text.toList_integer_ne_nil _) _
  unfold read
  dsimp only
  rw [trim_text, hne, hsplit]
  dsimp only
  rw [readMagnitude_integer, t.unit.read_behind]
  rfl

end TimeValue
end Reactors

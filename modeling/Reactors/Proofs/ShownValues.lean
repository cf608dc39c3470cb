import Reactors.Value

/-!
# Values and their literal expressions

A value is shown in two ways: the dump of a tree writes it directly, and error reports write its
literal expression.  The dump puts the commas between the items of an array while it goes through
them, reports join the texts of the items.  Both come to the same text for everything but code,
which the dump keeps with its delimiters and reports show without them, at whatever depth it stands.

## Main definitions

* `Value.mapCode` — a value with all code in it replaced.
* `Value.codes` — the code in a value.

## Main results

* `Value.itemsText_eq_intercalate` — commas written in passing are commas between texts.
* `Value.text_toExpr` — the text of the literal expression.
* `Value.texts_differ_in_code_only` — the two texts of a value.
-/

namespace Reactors
namespace Value

/-! ### The code in a value -/

mutual

/-- A value with all code in it replaced, at whatever depth of arrays. -/
def mapCode (f : String → String) : Value → Value
  | .array items => .array (mapItemCode f items)
  | .code c => .code (f c)
  | v => v

/-- The items of an array with all code in them replaced. -/
def mapItemCode (f : String → String) : List Value → List Value
  | [] => []
  | v :: vs => mapCode f v :: mapItemCode f vs

end

mutual

/-- The code in a value. -/
def codes : Value → List String
  | .array items => itemCodes items
  | .code c => [c]
  | _ => []

/-- The code in the items of an array. -/
def itemCodes : List Value → List String
  | [] => []
  | v :: vs => codes v ++ itemCodes vs

end

variable {f : String → String}

mutual

/-- Nothing is replaced in a value if all its code stays as it is. -/
theorem mapCode_eq_self : ∀ v : Value, (∀ c ∈ v.codes, f c = c) → v.mapCode f = v
  | .array items, h => by rw [mapCode, mapItemCode_eq_self items h]
  | .code c, h => by rw [mapCode, h c List.mem_cons_self]
  | .int _, _ | .float _, _ | .bool _, _ | .str _, _ | .time _, _ => rfl

theorem mapItemCode_eq_self :
    ∀ vs : List Value, (∀ c ∈ itemCodes vs, f c = c) → mapItemCode f vs = vs
  | [], _ => rfl
  | v :: vs, h => by
    rw [itemCodes, List.forall_mem_append] at h
    rw [mapItemCode, mapCode_eq_self v h.1, mapItemCode_eq_self vs h.2]

end

/-! ### The two texts -/

/-- Commas that are written between the items in passing are commas between their texts. -/
theorem itemsText_eq_intercalate (vs : List Value) :
    itemsText vs = ", ".intercalate (vs.map text) := by
  induction vs with
  | nil => rfl
  | cons v vs ih =>
    cases vs with
    | nil => rw [itemsText, List.map_singleton, String.intercalate_singleton]
    | cons w ws =>
      rw [itemsText, ih]
      · simp only [List.map_cons, String.intercalate_cons_cons]
      · exact List.cons_ne_nil w ws

mutual

/-- **The text of the literal expression** of a value is that of the value with its code shown as
code is shown in reports. -/
theorem text_toExpr : ∀ v : Value, v.toExpr.text = (v.mapCode Program.codeText).text
  | .array items => by
    rw [toExpr, Expr.text, itemTexts_itemExprs items, mapCode, text, itemsText_eq_intercalate]
  | .code _ | .int _ | .float _ | .bool _ | .str _ | .time _ => rfl

theorem itemTexts_itemExprs : ∀ vs : List Value,
    Expr.itemTexts (itemExprs vs) = (mapItemCode Program.codeText vs).map text
  | [] => rfl
  | v :: vs => by
    rw [itemExprs, Expr.itemTexts, text_toExpr v, itemTexts_itemExprs vs, mapItemCode,
      List.map_cons]

end

/-- **The two texts of a value differ in its code only**: the literal expression has the text of the
value with all code in it replaced by what is shown of it, and without code the texts are equal. -/
theorem texts_differ_in_code_only (v : Value) :
    v.toExpr.text = (v.mapCode Program.codeText).text ∧
    (v.codes = [] → v.toExpr.text = v.text) := by
  refine ⟨text_toExpr v, fun hcodes => ?_⟩
  have hsame : v.mapCode Program.codeText = v :=
    mapCode_eq_self v fun c hc => by simp [hcodes] at hc
  rw [text_toExpr, hsame]

/-- A row of a time and a string has no code, and has one text. -/
theorem plain_row_shown_alike :
    codes (.array [.time ⟨1, .msec⟩, .str "a"]) = [] ∧
    Expr.text (toExpr (.array [.time ⟨1, .msec⟩, .str "a"])) = "[1 msec, \"a\"]" ∧
    text (.array [.time ⟨1, .msec⟩, .str "a"]) = "[1 msec, \"a\"]" := by
  have hcodes : codes (.array [.time ⟨1, .msec⟩, .str "a"]) = [] := rfl
  have htext : text (.array [.time ⟨1, .msec⟩, .str "a"]) = "[1 msec, \"a\"]" := by decide +kernel
  obtain ⟨-, halike⟩ := texts_differ_in_code_only (.array [.time ⟨1, .msec⟩, .str "a"])
  exact ⟨hcodes, (halike hcodes).trans htext, htext⟩

/-- Code in a row of rows is shown without its delimiters. -/
example : Expr.text (toExpr (.array [.int 1, .array [.code "\x7b= x =\x7d"]])) = "[1, [x]]" ∧
    text (.array [.int 1, .array [.code "\x7b= x =\x7d"]]) = "[1, [\x7b= x =\x7d]]" := by
  decide +kernel

end Value
end Reactors

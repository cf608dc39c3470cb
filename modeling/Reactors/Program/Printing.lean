import Reactors.Decimal.Form
import Reactors.Program.Code
import Reactors.Program.Expr
import Reactors.Text.Quoted

/-!
# Expressions in reports

Expressions, types and references are shown much as they are written in a design.  The
texts are for people: nothing reads them back.

## Main definitions

* `Expr.text`, `TypeExpr.text`, `VarRef.text` — the shown texts.
* `ExprPrinter` — how a report quotes expressions.
-/

namespace Reactors

/-- A truth value in words. -/
def boolText (b : Bool) : String := if b then "true" else "false"

namespace Expr

mutual

/-- The text of an expression. -/
def text : Expr → String
  | .int n => Text.integer n.toInt
  | .float x => Decimal.Form.report.write x
  | .bool b => boolText b
  | .str s => Text.quoted s
  | .time t => t.text
  | .paramRef name => name
  | .list items => "[" ++ ", ".intercalate (itemTexts items) ++ "]"
  | .code c => Program.codeText c

/-- The texts of the items of a list. -/
def itemTexts : List Expr → List String
  | [] => []
  | e :: es => text e :: itemTexts es

end

end Expr

/-- A printer decides how the expressions of a design are quoted in error reports. -/
abbrev ExprPrinter := Expr → String

/-- The text of a type: an array has its size, if it is fixed, in brackets. -/
def TypeExpr.text (t : TypeExpr) : String :=
  match t.array with
  | some (.fixed size) => t.base ++ "[" ++ Text.natural size.toNat ++ "]"
  | some .variable => t.base ++ "[]"
  | none => t.base

/-- The text of a reference. -/
def VarRef.text (v : VarRef) : String :=
  match v.container with
  | some container => container ++ "." ++ v.var
  | none => v.var

end Reactors

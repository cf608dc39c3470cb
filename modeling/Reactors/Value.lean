import Reactors.Program.Printing

/-!
# Resolved values

What a parameter stands for once all references are resolved: literals and arrays of them.

## Main definitions

* `Value` — resolved values.
* `Value.first?`, `Value.initial` — what an array contributes where a single value is wanted.
* `Value.asTime?`, `Value.asInt?` — values that can serve as a duration or a number.
* `Value.toExpr` — the literal expression of a value.
* `Value.text` — the value in the dump of a tree; code stands there as it is.
* `Parameter` — a value with its name and where it came from.
-/

namespace Reactors

/-- A constant without references. -/
inductive Value where
  | int (value : Int64)
  | float (value : Binary64)
  | bool (value : Bool)
  | str (value : String)
  | time (value : TimeValue)
  | array (items : List Value)
  /-- Code of the target language, with its delimiters. -/
  | code (text : String)
  deriving Inhabited

namespace Value

/-! ### Views -/

/-- The first element of an array, or the value itself if it is none. -/
def first? : Value → Option Value
  | .array items => items.head?
  | v => some v

/-- What a reference to the value yields: the first element of an array that has one, else the
whole value. -/
def initial (v : Value) : Value := v.first?.getD v

/-- The value as a duration: a time, or the integer zero. -/
def asTime? : Value → Option TimeValue
  | .time t => some t
  | .int n => if n = 0 then some .zero else none
  | _ => none

/-- The value as an integer. -/
def asInt? : Value → Option Int64
  | .int n => some n
  | _ => none

/-! ### Literals -/

mutual

/-- The literal expression of a value. -/
def toExpr : Value → Expr
  | .int n => .int n
  | .float x => .float x
  | .bool b => .bool b
  | .str s => .str s
  | .time t => .time t
  | .array items => .list (itemExprs items)
  | .code c => .code c

/-- The literal expressions of the items of an array. -/
def itemExprs : List Value → List Expr
  | [] => []
  | v :: vs => toExpr v :: itemExprs vs

end

/-! ### Text -/

mutual

/-- The text of a value; code is shown with its delimiters. -/
def text : Value → String
  | .int n => Text.integer n.toInt
  | .float x => Decimal.Form.report.write x
  | .bool b => boolText b
  | .str s => Text.quoted s
  | .time t => t.text
  | .array items => "[" ++ itemsText items ++ "]"
  | .code c => c

/-- The texts of the items of an array, with commas between them. -/
def itemsText : List Value → String
  | [] => ""
  | [v] => text v
  | v :: vs => text v ++ ", " ++ itemsText vs

end

/-! ### Comparison -/

mutual

/-- Whether two values are equal: times are compared as times, floating point numbers as
numbers. -/
def same : Value → Value → Bool
  | .int a, .int b => a == b
  | .float a, .float b => a.equal b
  | .bool a, .bool b => a == b
  | .str a, .str b => a == b
  | .time a, .time b => a.same b
  | .array as, .array bs => sameItems as bs
  | .code a, .code b => a == b
  | _, _ => false

/-- Whether two lists of values are equal, item by item. -/
def sameItems : List Value → List Value → Bool
  | [], [] => true
  | a :: as, b :: bs => same a b && sameItems as bs
  | _, _ => false

end

end Value

/-! ### Parameters -/

/-- Where the value of a parameter came from. -/
inductive Provenance where
  /-- The default of the definition. -/
  | default
  /-- The site of the instance. -/
  | override
  deriving DecidableEq, Repr

/-- A parameter of an instance with its value. -/
structure Parameter where
  name : String
  value : Value
  provenance : Provenance

namespace Parameter

/-- Whether the site gave the value. -/
def isOverridden (p : Parameter) : Bool := p.provenance == .override

/-- Equality of parameters, their values compared as values. -/
def same (a b : Parameter) : Bool :=
  a.name == b.name && a.value.same b.value && a.provenance == b.provenance

end Parameter
end Reactors

import Reactors.Binary64
import Reactors.Time.Value

/-!
# Expressions, types and references of a design

Expressions appear as parameter values and in the timing and width fields of declarations.
They are literals, references to a parameter of the enclosing instance, and lists of these.

## Main definitions

* `Expr` — expressions.
* `Expr.same` — equality of expressions by what they mean.
* `ArraySpec`, `TypeExpr`, `VarRef` — target types, and references to ports and actions.
-/

namespace Reactors

/-- An expression. -/
inductive Expr where
  | int (value : Int64)
  | float (value : Binary64)
  | bool (value : Bool)
  | str (value : String)
  | time (value : TimeValue)
  /-- The value of a parameter of the enclosing instance. -/
  | paramRef (name : String)
  | list (items : List Expr)
  /-- Code of the target language, with its delimiters. -/
  | code (text : String)
  deriving Inhabited

namespace Expr

/-- The parameter that an expression refers to, if it is a reference. -/
def asParamRef? : Expr → Option String
  | .paramRef name => some name
  | _ => none

mutual

/-- Whether two expressions mean the same: times are compared as times and floating point
numbers as numbers. -/
def same : Expr → Expr → Bool
  | .int a, .int b => a == b
  | .float a, .float b => a.equal b
  | .bool a, .bool b => a == b
  | .str a, .str b => a == b
  | .time a, .time b => a.same b
  | .paramRef a, .paramRef b => a == b
  | .list as, .list bs => sameItems as bs
  | .code a, .code b => a == b
  | _, _ => false

/-- Whether two lists of expressions mean the same, item by item. -/
def sameItems : List Expr → List Expr → Bool
  | [], [] => true
  | a :: as, b :: bs => same a b && sameItems as bs
  | _, _ => false

end

end Expr

/-! ### Types and references -/

/-- How many elements an array type has. -/
inductive ArraySpec where
  | fixed (size : UInt64)
  | variable
  deriving DecidableEq, Repr

/-- A type of the target language, or an array of it. -/
structure TypeExpr where
  base : String
  array : Option ArraySpec
  deriving DecidableEq, Repr

/-- The type with this name. -/
def TypeExpr.named (base : String) : TypeExpr := ⟨base, none⟩

/-- A port or an action, of the enclosing reactor or of an instance in it. -/
structure VarRef where
  container : Option String
  var : String
  deriving DecidableEq, Repr

end Reactors

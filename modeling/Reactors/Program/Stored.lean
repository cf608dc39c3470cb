import Reactors.Program.Declarations
import Reactors.Time.Stored

/-!
# Stored programs

The stored forms of expressions, declarations and programs.  An expression is a table with one
entry, its kind and its contents; a declaration is a table of its fields, most of which
may be left out.

## Main definitions

* `Expr.codec`, `TypeExpr.codec`, `VarRef.codec` — expressions, types and references.
* `ReactorDecl.codec`, `Program.codec` — definitions and programs.
-/

namespace Reactors

open Codec (require)

/-! ### Expressions -/

namespace Expr

mutual

/-- An expression as a document. -/
def write : Expr → Document
  | .int n => .record [("int", Codec.int64.write n)]
  | .float x => .record [("float", Codec.binary64.write x)]
  | .bool b => .record [("bool", Codec.bool.write b)]
  | .str s => .record [("str", Codec.text.write s)]
  | .time t => .record [("time", TimeValue.codec.write t)]
  | .paramRef name => .record [("param_ref", Codec.text.write name)]
  | .list items => .record [("list", .list (writeItems items))]
  | .code c => .record [("code", Codec.text.write c)]

/-- The items of a list as documents. -/
def writeItems : List Expr → List Document
  | [] => []
  | e :: es => write e :: writeItems es

end

/-- Reads the contents of an expression that is not a list. -/
def readScalar (dialect : Dialect) (tag : String) (d : Document) : Except DecodeError Expr :=
  match tag with
  | "int" => (Codec.int64.read dialect d).map .int
  | "float" => (Codec.binary64.read dialect d).map .float
  | "bool" => (Codec.bool.read dialect d).map .bool
  | "str" => (Codec.text.read dialect d).map .str
  | "time" => (TimeValue.codec.read dialect d).map .time
  | "param_ref" => (Codec.text.read dialect d).map .paramRef
  | "code" => (Codec.text.read dialect d).map .code
  | _ => .error .malformed

mutual

/-- Reads an expression. -/
def read (dialect : Dialect) : Document → Except DecodeError Expr
  | .table ((some "list", .list items) :: rest) => do
    require (dialect.contentsFirst || rest.isEmpty)
    let es ← readItems dialect items
    require rest.isEmpty
    return .list es
  | .table ((some tag, d) :: rest) => do
    require (dialect.contentsFirst || rest.isEmpty)
    let e ← readScalar dialect tag d
    require rest.isEmpty
    return e
  | _ => .error .malformed

/-- Reads the items of a list. -/
def readItems (dialect : Dialect) : List Document → Except DecodeError (List Expr)
  | [] => .ok []
  | d :: ds => do
    let e ← read dialect d
    let es ← readItems dialect ds
    return e :: es

end

/-- The stored form of expressions. -/
def codec : Codec Expr := ⟨write, read⟩

end Expr

/-! ### Types and references -/

/-- A fixed size is a tag with a number; the open size is a tag alone. -/
def ArraySpec.codec : Codec ArraySpec where
  write
    | .fixed size => .record [("fixed", Codec.uint64.write size)]
    | .variable => .text "variable"
  read dialect :=
    Codec.alternative dialect (fun tag => if tag = "variable" then some .variable else none)
      fun tag d =>
        if tag = "fixed" then (Codec.uint64.read dialect d).map .fixed else .error .malformed

/-- The stored form of types. -/
def TypeExpr.codec : Codec TypeExpr :=
  .ofFields
    (.cons (.required "base" .text) <|
     .cons (.withDefault "array" ArraySpec.codec.option none) .nil)
    (fun (base, array, ()) => ⟨base, array⟩) fun t => (t.base, t.array, ())

/-- The stored form of references. -/
def VarRef.codec : Codec VarRef :=
  .ofFields
    (.cons (.withDefault "container" Codec.text.option none) <|
     .cons (.required "variable" .text) .nil)
    (fun (container, var, ()) => ⟨container, var⟩) fun v => (v.container, v.var, ())

/-! ### Declarations -/

/-- The stored form of parameters. -/
def ParameterDecl.codec : Codec ParameterDecl :=
  .ofFields
    (.cons (.required "name" .text) <|
     .cons (.withDefault "ty" TypeExpr.codec.option none) <|
     .cons (.required "default" Expr.codec) .nil)
    (fun (name, type, default, ()) => ⟨name, type, default⟩)
    fun p => (p.name, p.type, p.default, ())

/-- The stored form of sites. -/
def Site.codec : Codec Site :=
  .ofFields
    (.cons (.required "name" .text) <|
     .cons (.required "reactor" .text) <|
     .cons (.withDefault "overrides" Expr.codec.orderedMap .empty) .nil)
    (fun (name, reactor, overrides, ()) => ⟨name, reactor, overrides⟩)
    fun s => (s.name, s.reactor, s.overrides, ())

/-- The stored form of timers. -/
def TimerDecl.codec : Codec TimerDecl :=
  .ofFields
    (.cons (.required "name" .text) <|
     .cons (.withDefault "offset" Expr.codec.option none) <|
     .cons (.withDefault "period" Expr.codec.option none) .nil)
    (fun (name, offset, period, ()) => ⟨name, offset, period⟩)
    fun t => (t.name, t.offset, t.period, ())

/-- The tag of an origin. -/
def ActionOrigin.tag : ActionOrigin → String
  | .logical => "logical"
  | .physical => "physical"

/-- The stored form of origins. -/
def ActionOrigin.codec : Codec ActionOrigin := .constants [.logical, .physical] ActionOrigin.tag

/-- The stored form of actions. -/
def ActionDecl.codec : Codec ActionDecl :=
  .ofFields
    (.cons (.required "name" .text) <|
     .cons (.withDefault "origin" ActionOrigin.codec .logical) <|
     .cons (.withDefault "min_delay" Expr.codec.option none) <|
     .cons (.withDefault "min_spacing" Expr.codec.option none) <|
     .cons (.withDefault "ty" TypeExpr.codec.option none) .nil)
    (fun (name, origin, minDelay, minSpacing, type, ()) =>
      ⟨name, origin, minDelay, minSpacing, type⟩)
    fun a => (a.name, a.origin, a.minDelay, a.minSpacing, a.type, ())

/-- The stored form of ports. -/
def PortDecl.codec : Codec PortDecl :=
  .ofFields
    (.cons (.required "name" .text) <|
     .cons (.withDefault "ty" TypeExpr.codec.option none) <|
     .cons (.withDefault "width" Expr.codec.option none) .nil)
    (fun (name, type, width, ()) => ⟨name, type, width⟩)
    fun p => (p.name, p.type, p.width, ())

/-! ### Definitions and programs -/

/-- The stored form of definitions. -/
def ReactorDecl.codec : Codec ReactorDecl :=
  .ofFields
    (.cons (.required "name" .text) <|
     .cons (.withDefault "parameter" ParameterDecl.codec.list []) <|
     .cons (.withDefault "input" PortDecl.codec.list []) <|
     .cons (.withDefault "output" PortDecl.codec.list []) <|
     .cons (.withDefault "timer" TimerDecl.codec.list []) <|
     .cons (.withDefault "action" ActionDecl.codec.list []) <|
     .cons (.withDefault "instance" Site.codec.list []) .nil)
    (fun (name, parameters, inputs, outputs, timers, actions, sites, ()) =>
      ⟨name, parameters, inputs, outputs, timers, actions, sites⟩)
    fun r =>
      (r.name, r.parameters, r.inputs, r.outputs, r.timers, r.actions, r.sites, ())

/-- The stored form of programs. -/
def Program.codec : Codec Program :=
  .ofFields
    (.cons (.required "main" .text) <|
     .cons (.withDefault "reactor" ReactorDecl.codec.list []) .nil)
    (fun (main, reactors, ()) => ⟨main, reactors⟩) fun p => (p.main, p.reactors, ())

end Reactors

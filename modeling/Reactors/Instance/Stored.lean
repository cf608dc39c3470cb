import Reactors.Instance.Tree
import Reactors.Program.Stored

/-!
# Stored values and trees

The stored forms of values, parameters, triggers, instances and trees.  A stored tree is
its list of instances, and is refused when they do not form a tree.

## Main definitions

* `Value.codec`, `Parameter.codec`, `TriggerInstance.codec` — the contents of an instance.
* `Instance.codec`, `InstanceTree.codec` — instances and trees.
-/

namespace Reactors

open Codec (require)

/-! ### Values -/

namespace Value

mutual

/-- A value as a document. -/
def write : Value → Document
  | .int n => .record [("int", Codec.int64.write n)]
  | .float x => .record [("float", Codec.binary64.write x)]
  | .bool b => .record [("bool", Codec.bool.write b)]
  | .str s => .record [("str", Codec.text.write s)]
  | .time t => .record [("time", TimeValue.codec.write t)]
  | .array items => .record [("array", .list (writeItems items))]
  | .code c => .record [("code", Codec.text.write c)]

/-- The items of an array as documents. -/
def writeItems : List Value → List Document
  | [] => []
  | v :: vs => write v :: writeItems vs

end

/-- Reads the contents of a value that is not an array. -/
def readScalar (dialect : Dialect) (tag : String) (d : Document) : Except DecodeError Value :=
  match tag with
  | "int" => (Codec.int64.read dialect d).map .int
  | "float" => (Codec.binary64.read dialect d).map .float
  | "bool" => (Codec.bool.read dialect d).map .bool
  | "str" => (Codec.text.read dialect d).map .str
  | "time" => (TimeValue.codec.read dialect d).map .time
  | "code" => (Codec.text.read dialect d).map .code
  | _ => .error .malformed

mutual

/-- Reads a value. -/
def read (dialect : Dialect) : Document → Except DecodeError Value
  | .table ((some "array", .list items) :: rest) => do
    require (dialect.contentsFirst || rest.isEmpty)
    let vs ← readItems dialect items
    require rest.isEmpty
    return .array vs
  | .table ((some tag, d) :: rest) => do
    require (dialect.contentsFirst || rest.isEmpty)
    let v ← readScalar dialect tag d
    require rest.isEmpty
    return v
  | _ => .error .malformed

/-- Reads the items of an array. -/
def readItems (dialect : Dialect) : List Document → Except DecodeError (List Value)
  | [] => .ok []
  | d :: ds => do
    let v ← read dialect d
    let vs ← readItems dialect ds
    return v :: vs

end

/-- The stored form of values. -/
def codec : Codec Value := ⟨write, read⟩

end Value

/-! ### Parameters -/

/-- The tag of a provenance. -/
def Provenance.tag : Provenance → String
  | .default => "default"
  | .override => "override"

/-- The stored form of provenances. -/
def Provenance.codec : Codec Provenance := .constants [.default, .override] Provenance.tag

/-- The stored form of parameters. -/
def Parameter.codec : Codec Parameter :=
  .ofFields
    (.cons (.required "name" .text) <|
     .cons (.required "value" Value.codec) <|
     .cons (.required "provenance" Provenance.codec) .nil)
    (fun (name, value, provenance, ()) => ⟨name, value, provenance⟩)
    fun p => (p.name, p.value, p.provenance, ())

/-! ### Triggers -/

/-- The stored form of timers. -/
def Timer.codec : Codec Timer :=
  .ofFields
    (.cons (.required "offset" TimeValue.codec) <|
     .cons (.required "period" TimeValue.codec) <|
     .cons (.required "startup" .bool) .nil)
    (fun (offset, period, startup, ()) => ⟨offset, period, startup⟩)
    fun t => (t.offset, t.period, t.startup, ())

/-- The stored form of actions. -/
def Action.codec : Codec Action :=
  .ofFields
    (.cons (.required "origin" ActionOrigin.codec) <|
     .cons (.required "min_delay" TimeValue.codec) <|
     .cons (.nullable "min_spacing" TimeValue.codec) .nil)
    (fun (origin, minDelay, minSpacing, ()) => ⟨origin, minDelay, minSpacing⟩)
    fun a => (a.origin, a.minDelay, a.minSpacing, ())

/-- The tag of a direction. -/
def PortDirection.tag : PortDirection → String
  | .input => "input"
  | .output => "output"

/-- The stored form of directions. -/
def PortDirection.codec : Codec PortDirection := .constants [.input, .output] PortDirection.tag

/-- The stored form of ports. -/
def Port.codec : Codec Port :=
  .ofFields
    (.cons (.required "direction" PortDirection.codec) <|
     .cons (.nullable "width" .uint64) .nil)
    (fun (direction, width, ()) => ⟨direction, width⟩) fun p => (p.direction, p.width, ())

/-- A kind is a table with one entry, its tag and its contents. -/
def TriggerKind.codec : Codec TriggerKind where
  write
    | .timer t => .record [("timer", Timer.codec.write t)]
    | .action a => .record [("action", Action.codec.write a)]
    | .port p => .record [("port", Port.codec.write p)]
  read dialect :=
    Codec.alternative dialect (fun _ => none) fun tag d =>
      match tag with
      | "timer" => (Timer.codec.read dialect d).map .timer
      | "action" => (Action.codec.read dialect d).map .action
      | "port" => (Port.codec.read dialect d).map .port
      | _ => .error .malformed

/-- The stored form of the triggers of instances. -/
def TriggerInstance.codec : Codec TriggerInstance :=
  .ofFields
    (.cons (.required "parent" .natural) <|
     .cons (.required "name" .text) <|
     .cons (.required "kind" TriggerKind.codec) .nil)
    (fun (parent, name, kind, ()) => ⟨⟨name, kind⟩, parent⟩)
    fun t => (t.parent, t.name, t.kind, ())

/-! ### Instances and trees -/

/-- The stored form of instances. -/
def Instance.codec : Codec Instance :=
  .ofFields
    (.cons (.required "id" .natural) <|
     .cons (.required "name" .text) <|
     .cons (.required "reactor" .text) <|
     .cons (.nullable "parent" .natural) <|
     .cons (.required "depth" .natural) <|
     .cons (.required "qualified_name" .text) <|
     .cons (.required "children" Codec.natural.list) <|
     .cons (.required "parameters" Parameter.codec.orderedMap) <|
     .cons (.required "triggers" TriggerInstance.codec.list) .nil)
    (fun (id, name, reactor, parent, depth, path, children, parameters, triggers, ()) =>
      ⟨id, name, reactor, parent, depth, path, children, parameters, triggers⟩)
    fun i =>
      (i.id, i.name, i.reactor, i.parent, i.depth, i.path, i.children, i.parameters,
        i.triggers, ())

/-- The stored form of a list of instances. -/
def instancesCodec : Codec (List Instance) :=
  .ofFields (.cons (.required "instances" Instance.codec.list) .nil)
    (fun (instances, ()) => instances) fun instances => (instances, ())

/-- The stored form of trees. -/
def InstanceTree.codec : Codec InstanceTree :=
  instancesCodec.checked (fun is => (InstanceTree.ofInstances? is).mapError .tree)
    InstanceTree.instances

end Reactors

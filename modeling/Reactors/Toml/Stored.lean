import Reactors.Document.Fields
import Reactors.Toml.Reader

/-!
# Values stored as TOML

## Main definitions

* `dialect` — the dialect of TOML texts.
* `decode` — reads a value from a text.
-/

namespace Reactors
namespace Toml

/-- In TOML an empty container stands for no contents, rows may hold more than a structure has
fields, and an alternative with a second tag is refused before its contents are read. -/
def dialect : Dialect where
  isVoid
    | .table [] => true
    | .list [] => true
    | _ => false
  strictRows := false
  contentsFirst := false

/-- Reads a value from a text, which must be sound as a whole. -/
def decode {α : Type} (c : Codec α) (text : String) : Except DecodeError α :=
  match read text with
  | some d => c.read dialect d
  | none => .error .malformed

end Toml
end Reactors

import Reactors.Document.Fields
import Reactors.Json.Reader
import Reactors.Json.Writer

/-!
# Values stored as JSON

## Main definitions

* `dialect` — the dialect of JSON texts.
* `decode` — reads a value from a text.
* `encode`, `encodePretty` — the text of a value, on one line and on several.
-/

namespace Reactors
namespace Json

/-- In JSON null stands for no contents, rows are strict, and what a tag holds is read before
further tags are noticed. -/
def dialect : Dialect where
  isVoid
    | .null => true
    | _ => false
  strictRows := true
  contentsFirst := true

/-- Reads a value from a text.  A fault behind the value counts only if the value is sound. -/
def decode {α : Type} (c : Codec α) (text : String) : Except DecodeError α := do
  let reading := read text
  let a ← c.read dialect reading.document
  Codec.require reading.atEnd
  return a

/-- The text of a value on one line. -/
def encode {α : Type} (c : Codec α) (a : α) : String := compact (c.write a)

/-- The text of a value on indented lines. -/
def encodePretty {α : Type} (c : Codec α) (a : α) : String := pretty (c.write a)

end Json
end Reactors

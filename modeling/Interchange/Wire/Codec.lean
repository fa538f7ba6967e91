import Interchange.Schema.ModelPart
import Interchange.Wire.Layout
import Interchange.Wire.Value

/-!
# Codecs

A codec says how the values of one type are written and read. It is a tree with the shape of the
type, and every node knows the default of its type: the value that stands for itself by being left
out.

* `Codec.default`: the value that is left out.
* `Codec.layout`: how the written values are delimited.
-/

namespace Interchange.Wire

open Schema (Builtin ModelPart)

/-- How the values of a type are written and read. Parts are sorted by number. -/
inductive Codec where
  | scalar (kind : Builtin) (default : Value)
  | string (default : Value)
  | bytes (default : Value)
  | array (element : Codec) (default : Value)
  | map (key value : Codec) (default : Value)
  | record (name : String) (fields : List (ModelPart Codec)) (default : Value)
  | union (name : String) (variants : List (ModelPart (Option Codec))) (default : Value)

namespace Codec

/-- The value that is left out. -/
def default : Codec → Value
  | scalar _ value => value
  | string value => value
  | bytes value => value
  | array _ value => value
  | map _ _ value => value
  | record _ _ value => value
  | union _ _ value => value

/-- The layout of the written values. -/
def layout : Codec → Layout
  | scalar kind _ => .ofBuiltin kind
  | _ => .lengthPrefixed

end Codec

end Interchange.Wire

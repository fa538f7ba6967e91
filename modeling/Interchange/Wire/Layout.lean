import Interchange.Schema.Builtin

/-!
# Layouts

A field of a message announces how its bytes are laid out, so that a reader that does not know the
field can skip it. The announcement is a tag: the id of the field and the three-bit code of the
layout in one number.
-/

namespace Interchange.Wire

open Schema (Builtin)

/-- How the bytes of a value are delimited. -/
inductive Layout where
  | varint
  | lengthPrefixed
  | fixed32
  | fixed64
  | fixed128
deriving DecidableEq, Repr

namespace Layout

def all : List Layout :=
  [varint, lengthPrefixed, fixed32, fixed64, fixed128]

/-- The name of a layout in messages. -/
def text : Layout → String
  | varint => "Varint"
  | lengthPrefixed => "LengthPrefixed"
  | fixed32 => "Fixed32"
  | fixed64 => "Fixed64"
  | fixed128 => "Fixed128"

/-- The code of a layout in a tag. -/
def code : Layout → Nat
  | varint => 0
  | lengthPrefixed => 1
  | fixed32 => 2
  | fixed64 => 3
  | fixed128 => 4

/-- The layout with a code. -/
def ofCode? : Nat → Option Layout
  | 0 => some varint
  | 1 => some lengthPrefixed
  | 2 => some fixed32
  | 3 => some fixed64
  | 4 => some fixed128
  | _ => none

theorem ofCode?_code (layout : Layout) : ofCode? layout.code = some layout := by
  cases layout <;> rfl

theorem code_lt (layout : Layout) : layout.code < 8 := by
  cases layout <;> decide

/-- The layout of a built-in type. `void` takes no bytes and is never announced. -/
def ofBuiltin : Builtin → Layout
  | .float32 => fixed32
  | .float64 => fixed64
  | .uuid => fixed128
  | .string => lengthPrefixed
  | .array => lengthPrefixed
  | .map => lengthPrefixed
  | _ => varint

/-- The tag of a field: eight times its id, plus the code of its layout. -/
def tag (layout : Layout) (id : UInt32) : Nat :=
  8 * id.toNat + layout.code

end Layout

end Interchange.Wire

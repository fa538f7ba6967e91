import Interchange.Schema.Error
import Interchange.Wire.Layout

/-!
# Errors of the wire format

Why a value cannot be written or bytes cannot be read. `WireError.message` holds the wording.
-/

namespace Interchange.Wire

open Schema (Builtin)

/-- What a number turned out to be too large for. -/
inductive NumberTarget where
  | varint
  | integer (kind : Builtin)
deriving DecidableEq, Repr

def NumberTarget.text : NumberTarget → String
  | varint => "a 64-bit varint"
  | integer kind => kind.name

/-- Why a value cannot be written or bytes cannot be read. -/
inductive WireError where
  | numberOutOfRange (target : NumberTarget)
  | invalidBool (value : Nat)
  | invalidTagValue (tag : String) (value : Nat)
  | streamClosed (expected available : Nat)
  | invalidLayout (code : Nat)
  | unexpectedLayout (model : String) (field : UInt32) (expected found : Layout)
  | invalidUtf8
  /-- A value of one type where another is asked for. -/
  | typeMismatch (expected found : String)
  /-- A field that the message does not declare. -/
  | undeclaredField (model : String) (id : UInt32)
  /-- A payload of a variant that declares none. -/
  | undeclaredPayload (tag variant : String) (found : String)
  /-- An element that took no byte of a region that has some left. -/
  | emptyElement (unread : Nat)
  /-- A type that is not read as a scalar. -/
  | notScalar (kind : Builtin)
  | unknownType (name : String)
  | arityMismatch (model : String) (expected found : Nat)
  | voidElement (type : String)
  /-- A type that leaves a template parameter without an argument. Arities rule this out. -/
  | unboundParameter
  | cancelled
  /-- A sink that takes no more bytes. -/
  | sinkFull
deriving DecidableEq, Repr

namespace WireError

/-- The wording shared by all mismatches. -/
def mismatchText (expected found : String) : String :=
  "expected " ++ expected ++ ", found " ++ found

def message : WireError → String
  | numberOutOfRange target => "number does not fit " ++ target.text
  | invalidBool value => "invalid bool value " ++ toString value
  | invalidTagValue tag value => "invalid tag value " ++ toString value ++ " for " ++ tag
  | streamClosed expected available =>
    "stream closed: expected " ++ toString expected ++ " byte(s), " ++ toString available
      ++ " available"
  | invalidLayout code => "invalid wire kind " ++ toString code
  | unexpectedLayout model field expected found =>
    "field " ++ toString field ++ " of " ++ model ++ " arrived as " ++ found.text ++ ", expected "
      ++ expected.text
  | invalidUtf8 => "string is not valid UTF-8"
  | typeMismatch expected found => mismatchText expected found
  | undeclaredField model id => mismatchText ("a field of " ++ model) ("field id " ++ toString id)
  | undeclaredPayload tag variant found =>
    mismatchText (tag ++ "." ++ variant ++ " without payload") found
  | emptyElement unread =>
    mismatchText "an element occupying bytes" (toString unread ++ " unread byte(s)")
  | notScalar kind => mismatchText "a fixed-shape builtin" kind.name
  | unknownType name => "unknown type " ++ name
  | arityMismatch model expected found =>
    model ++ " expects " ++ Schema.CompileError.argumentCounts expected found
  | voidElement type => type ++ " would hold void elements"
  | unboundParameter => "a template parameter has no argument"
  | cancelled => "operation cancelled"
  | sinkFull => "I/O error: write zero"

end WireError

end Interchange.Wire

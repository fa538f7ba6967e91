import Interchange.Wire.Codec
import Interchange.Wire.Scalar

/-!
# Writing values

A composite value is a byte string with its length in front. Fields that are equal to their default
are left out, and a message or a tag that is equal to its default is the empty byte string.

* `Codec.encode`: writing a value. A value of another type is an error.
-/

namespace Interchange.Wire

open Schema (Builtin ModelPart)

namespace Codec

/-- Writes the bytes of another writing with their length in front. If that writing fails, nothing
is written. -/
def framed (content : Writing) : Writing :=
  match content.toBytes with
  | .ok written => .put (Varint.encode written.length) (.piece written)
  | .error error => .fail error

/-- Writes the empty byte string. -/
def empty : Writing :=
  .piece (Varint.encode 0)

/-- Writes the items of an array, one after the other. -/
def encodeItems (encode : Value → Writing) : List Value → Writing
  | [] => .done
  | item :: rest => (encode item).andThen (encodeItems encode rest)

/-- Writes the entries of a map, each key before its value. -/
def encodeEntries (encodeKey encodeValue : Value → Writing) : List (Value × Value) → Writing
  | [] => .done
  | (key, value) :: rest =>
    ((encodeKey key).andThen (encodeValue value)).andThen (encodeEntries encodeKey encodeValue rest)

/-- The first field that the message does not declare. -/
def undeclared? (parts : List (ModelPart Codec)) (fields : List (UInt32 × Value)) : Option UInt32 :=
  (fields.find? fun field => (ModelPart.find? parts field.1).isNone).map Prod.fst

mutual

/-- Writes a value. -/
def encode : Codec → Value → Writing
  | .scalar kind _, value =>
    match value with
    | .scalar s => if s.kind = kind then s.write else .fail (.typeMismatch kind.name s.kind.name)
    | other => .fail (.typeMismatch kind.name other.typeName)
  | .string _, value =>
    match value with
    | .string text => framed (.piece (utf8 text))
    | other => .fail (.typeMismatch "string" other.typeName)
  | .bytes _, value =>
    match value with
    | .bytes content => framed (.piece content)
    | other => .fail (.typeMismatch "bytes" other.typeName)
  | .array element _, value =>
    match value with
    | .array items => framed (encodeItems element.encode items)
    | other => .fail (.typeMismatch "array" other.typeName)
  | .map keys values _, value =>
    match value with
    | .map entries => framed (encodeEntries keys.encode values.encode entries)
    | other => .fail (.typeMismatch "map" other.typeName)
  | .record name parts default, value =>
    match value with
    | .message fields =>
      match undeclared? parts fields with
      | some id => .fail (.undeclaredField name id)
      | none =>
        if Value.message fields = default then empty else framed (encodeFields parts fields)
    | other => .fail (.typeMismatch name other.typeName)
  | .union name variants default, value =>
    match value with
    | .tag number payload =>
      if Value.tag number payload = default then empty
      else encodeVariant name variants number payload
    | other => .fail (.typeMismatch name other.typeName)

/-- Writes the fields of a message that are there and not equal to their default, each behind its
tag. -/
def encodeFields : List (ModelPart Codec) → List (UInt32 × Value) → Writing
  | [], _ => .done
  | ⟨id, _, codec⟩ :: rest, fields =>
    match Fields.get? fields id with
    | none => encodeFields rest fields
    | some value =>
      if value = codec.default then encodeFields rest fields
      else
        (Writing.piece (Varint.encode (codec.layout.tag id))).andThen
          ((codec.encode value).andThen (encodeFields rest fields))

/-- Writes the variant of a tag with a given number. A payload that is missing is its default; the
variant zero with its default is the empty byte string. -/
def encodeVariant (name : String) :
    List (ModelPart (Option Codec)) → (number : UInt32) → Option Value → Writing
  | [], number, _ => .fail (.invalidTagValue name number.toNat)
  | ⟨declared, variant, none⟩ :: rest, number, payload =>
    if declared = number then
      match payload with
      | some value => .fail (.undeclaredPayload name variant value.typeName)
      | none => if number = 0 then empty else framed (.piece (Varint.encode number.toNat))
    else encodeVariant name rest number payload
  | ⟨declared, _, some codec⟩ :: rest, number, payload =>
    if declared = number then
      let value := payload.getD codec.default
      if number = 0 ∧ value = codec.default then empty
      else framed ((Writing.piece (Varint.encode number.toNat)).andThen (codec.encode value))
    else encodeVariant name rest number payload

end

end Codec

end Interchange.Wire

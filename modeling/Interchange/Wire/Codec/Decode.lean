import Interchange.Wire.Codec
import Interchange.Wire.Scalar

/-!
# Reading values

A composite value is read in two steps: its bytes first, as many as their length says, and then what
they mean. A message starts as its default; each entry of its bytes gives one field a value, and
entries of fields that it does not declare are skipped.

* `Codec.decode`: reading a value.
-/

namespace Interchange.Wire

open Schema (Builtin ModelPart)

namespace Codec

/-- Reads text. -/
def readText : Reading Value := do
  match utf8? (← Reading.region) with
  | some text => return .string text
  | none => .fail .invalidUtf8

/-- A key and its value. -/
def entry (key value : Reading Value) : Reading (Value × Value) := do
  let k ← key
  let v ← value
  return (k, v)

/-- One field of a message with its id; a field that is not declared is skipped. -/
def fieldEntry (name : String) (readers : List (ModelPart (Layout × Reading Value))) :
    Reading (Option (UInt32 × Value)) := do
  let (id, layout) ← Reading.ofExcept (splitTag (← Varint.read))
  match readers.find? fun part => part.number.toNat == id with
  | none => do
    layout.skip
    return none
  | some ⟨number, _, expected, reading⟩ =>
    if layout = expected then return some (number, ← reading)
    else .fail (.unexpectedLayout name number expected layout)

/-- The message that a region holds. -/
def messageOf (name : String) (default : Value)
    (readers : List (ModelPart (Layout × Reading Value))) (region : Bytes) :
    Except WireError Value :=
  match default with
  | .message fields => do
    let entries ← elements (fieldEntry name readers) region
    return .message (Fields.setAll fields (entries.filterMap id))
  | other => .error (.typeMismatch name other.typeName)

/-- The payload that the rest of a region holds; an empty rest stands for the default. -/
def payloadOf (default : Value) (reading : Reading Value) (rest : Bytes) : Except WireError Value :=
  if rest.isEmpty then .ok default else (reading.run rest).1

/-- The tag that a region holds. The empty region stands for the default, and so does a zero that is
not declared. -/
def tagOf (name : String) (default : Value)
    (readers : List (ModelPart (Option (Value × Reading Value)))) (region : Bytes) :
    Except WireError Value :=
  if region.isEmpty then .ok default
  else
    match Varint.read.run region with
    | (.error error, _) => .error error
    | (.ok number, rest) =>
      match readers.find? fun part => part.number.toNat == number with
      | none => if number = 0 then .ok default else .error (.invalidTagValue name number)
      | some ⟨declared, _, none⟩ => .ok (.tag declared none)
      | some ⟨declared, _, some (missing, reading)⟩ => do
        return .tag declared (some (← payloadOf missing reading rest))

mutual

/-- Reads a value. How the parts of a composite value are read is only asked once its bytes are
there, so a reading costs no more than its bytes call for. -/
def decode : Codec → Reading Value
  | .scalar kind _ => do return .scalar (← Scalar.read kind)
  | .string _ => readText
  | .bytes _ => do return .bytes (← Reading.region)
  | .array element _ => do
    let region ← Reading.region
    let items ← Reading.ofExcept (elements element.decode region)
    return .array items
  | .map keys values _ => do
    let region ← Reading.region
    let entries ← Reading.ofExcept (elements (entry keys.decode values.decode) region)
    return .map entries
  | .record name parts default => do
    let region ← Reading.region
    Reading.ofExcept (messageOf name default (fieldReaders parts) region)
  | .union name variants default => do
    let region ← Reading.region
    Reading.ofExcept (tagOf name default (variantReaders variants) region)

/-- How each field of a message is read. -/
def fieldReaders : List (ModelPart Codec) → List (ModelPart (Layout × Reading Value))
  | [] => []
  | ⟨number, name, codec⟩ :: rest =>
    ⟨number, name, codec.layout, codec.decode⟩ :: fieldReaders rest

/-- How the payload of each variant is read, if it has one, and what stands for it if it is
missing. -/
def variantReaders :
    List (ModelPart (Option Codec)) → List (ModelPart (Option (Value × Reading Value)))
  | [] => []
  | ⟨number, name, none⟩ :: rest => ⟨number, name, none⟩ :: variantReaders rest
  | ⟨number, name, some codec⟩ :: rest =>
    ⟨number, name, some (codec.default, codec.decode)⟩ :: variantReaders rest

end

end Codec

end Interchange.Wire

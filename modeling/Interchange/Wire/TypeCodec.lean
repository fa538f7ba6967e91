import Interchange.Wire.ClosedType
import Interchange.Wire.Codec.Decode
import Interchange.Wire.Codec.Encode

/-!
# Codecs of types

The codec of a closed type. The arguments of a type get their codecs first; the codec of the
definition is then put together from them and from the codecs of the earlier definitions it refers
to.

The steps can be taken in any monad above `Option`, and `keep` wraps each of them: it may put the
codec of a type aside, or hand out one that was put aside before.

* `Instance`: a closed type and its codec.
* `codecAt`: the codec of a definition for given arguments.
* `codecOf`: the codec of a closed type, where nothing is put aside.
-/

namespace Interchange.Wire

open Schema

/-- A closed type and its codec. -/
structure Instance where
  type : ClosedType
  codec : Codec

/-- The zero of a type of fixed shape. -/
def Scalar.zero : Builtin → Scalar
  | .bool => .bool false
  | .int8 => .int8 0
  | .int16 => .int16 0
  | .int32 => .int32 0
  | .int64 => .int64 0
  | .uint8 => .uint8 0
  | .uint16 => .uint16 0
  | .uint32 => .uint32 0
  | .uint64 => .uint64 0
  | .float32 => .float32 0
  | .float64 => .float64 0
  | .uuid => .uuid ⟨List.replicate 16 0, List.length_replicate⟩
  | _ => .void

/-- The codec of a built-in type for given arguments. An array of `uint8` is a byte string. -/
def builtinCodec (definitions : List Definition) (kind : Builtin) (args : List Instance) :
    Option Codec :=
  match kind, args with
  | .string, _ => some (.string (.string ""))
  | .array, element :: _ =>
    if element.type.builtin? definitions = some .uint8 then some (.bytes (.bytes []))
    else some (.array element.codec (.array []))
  | .map, key :: value :: _ => some (.map key.codec value.codec (.map []))
  | .array, _ => none
  | .map, _ => none
  | kind, _ => some (.scalar kind (.scalar (Scalar.zero kind)))

/-- The codec of a message. Its default has all fields, each with its own default. -/
def messageCodec (name : String) (fields : List (ModelPart Codec)) : Codec :=
  let defaults := fields.map fun field => (field.number, field.content.default)
  .record name fields (.message (Fields.setAll [] defaults))

/-- The codec of a tag. Its default is the variant zero, with the default of its payload if it
declares one. -/
def tagCodec (name : String) (variants : List (ModelPart (Option Codec))) : Codec :=
  let payload := ((ModelPart.find? variants 0).bind ModelPart.content).map Codec.default
  .union name variants (.tag 0 payload)

/-! ## Steps -/

section

variable {m : Type → Type} [Monad m] [MonadLiftT Option m]

mutual

/-- The instance of a reference: a parameter is the argument at its position, and a definition gets
its codec from `build`. -/
def instanceOf (build : Nat → List Instance → m Codec) (args : List Instance) : TypeRef → m Instance
  | .parameter _ _ index _ => liftM args[index]?
  | .model _ target inner => do
    let instances ← instancesOf build args inner
    let codec ← build target instances
    return ⟨.mk target (instances.map Instance.type), codec⟩

def instancesOf (build : Nat → List Instance → m Codec) (args : List Instance) :
    List TypeRef → m (List Instance)
  | [] => return []
  | reference :: rest => do
    let first ← instanceOf build args reference
    let others ← instancesOf build args rest
    return first :: others

end

/-- Parts with other contents. -/
def partsWith {α β : Type} (content : α → m β) : List (ModelPart α) → m (List (ModelPart β))
  | [] => return []
  | part :: rest => do
    let first ← content part.content
    let others ← partsWith content rest
    return ⟨part.number, part.name, first⟩ :: others

/-- The codec of what a reference stands for. -/
def referenceCodec (build : Nat → List Instance → m Codec) (args : List Instance)
    (reference : TypeRef) : m Codec := do
  let found ← instanceOf build args reference
  return found.codec

/-- The codec of a payload, if there is one. -/
def payloadCodec (build : Nat → List Instance → m Codec) (args : List Instance) :
    Option TypeRef → m (Option Codec)
  | none => return none
  | some reference => do
    let codec ← referenceCodec build args reference
    return some codec

/-- The codec of a definition, with the codecs of earlier definitions from `build`. -/
def bodyCodec (build : Nat → List Instance → m Codec) (definitions : List Definition)
    (definition : Definition) (type : ClosedType) (args : List Instance) : m Codec :=
  match definition.body with
  | .builtin kind => liftM (builtinCodec definitions kind args)
  | .message fields _ => do
    let parts ← partsWith (referenceCodec build args) fields
    return messageCodec (type.describe definitions) parts
  | .tag variants _ => do
    let parts ← partsWith (payloadCodec build args) variants
    return tagCodec (type.describe definitions) parts

/-- The codec of a definition that stands below `bound`, for given arguments. -/
def codecAt (keep : ClosedType → m Codec → m Codec) (definitions : List Definition) :
    (bound : Nat) → (slot : Nat) → (args : List Instance) → m Codec
  | 0, _, _ => liftM (none : Option Codec)
  | bound + 1, slot, args =>
    if slot = bound then
      match definitions[bound]? with
      | none => liftM (none : Option Codec)
      | some definition =>
        let type := ClosedType.mk slot (args.map Instance.type)
        keep type (bodyCodec (codecAt keep definitions bound) definitions definition type args)
    else codecAt keep definitions bound slot args

mutual

/-- The codec of a closed type, with the codecs of its arguments first. -/
def typeCodec (keep : ClosedType → m Codec → m Codec) (definitions : List Definition) :
    ClosedType → m Codec
  | .mk slot args => do
    let instances ← typeInstances keep definitions args
    codecAt keep definitions definitions.length slot instances

def typeInstances (keep : ClosedType → m Codec → m Codec) (definitions : List Definition) :
    List ClosedType → m (List Instance)
  | [] => return []
  | type :: rest => do
    let codec ← typeCodec keep definitions type
    let others ← typeInstances keep definitions rest
    return ⟨type, codec⟩ :: others

end

end

/-! ## Codecs -/

/-- Puts nothing aside. -/
def keepNothing (_ : ClosedType) (codec : Option Codec) : Option Codec :=
  codec

/-- The codec of a closed type. A type that `resolve` gives always has one. -/
def codecOf (definitions : List Definition) (type : ClosedType) : Option Codec :=
  typeCodec keepNothing definitions type

end Interchange.Wire

import Interchange.Wire.ClosedType
import Interchange.Wire.Error

/-!
# Finding types

A closed type is found by the name of its definition and its arguments. An array and a map never
hold `void`, and this is checked whenever a type is put together: for an array or a map itself, and
for a template through its fields and payloads.

* `checkVoid`: no array or map of a type holds `void`.
* `Models.resolve`: the type of a name with arguments.
* `Models.arrayOf`, `Models.mapOf`, `ofBuiltin?`: types of the built-in definitions.
-/

namespace Interchange.Wire

open Schema

/-- The types inside the fields or payloads of a template; a definition that is no template has
none. -/
def templateTypes (definition : Definition) : List TypeRef :=
  if definition.parameters.isEmpty then []
  else
    match definition.body with
    | .builtin _ => []
    | .message fields _ => fields.map ModelPart.content
    | .tag variants _ => variants.filterMap ModelPart.content

/-- The definition is an array or a map. -/
def isContainer (definition : Definition) : Bool :=
  match definition.builtin? with
  | some kind => kind.isContainer
  | none => false

/-- Checks a type whose definition stands below `bound`. A definition refers only to earlier ones,
so the bound falls at every step inward. A field that is a template parameter by itself needs no
check: its type was checked when it was put together. -/
def checkVoid (definitions : List Definition) : (bound : Nat) → ClosedType → Except WireError Unit
  | 0, _ => .ok ()
  | bound + 1, type =>
    if type.slot = bound then
      match definitions[bound]? with
      | none => .ok ()
      | some definition =>
        if isContainer definition
            && type.args.any (fun arg => arg.builtin? definitions == some .void) then
          .error (.voidElement (type.describe definitions))
        else
          ((templateTypes definition).filter fun reference => !reference.isParameter).forM
            fun reference =>
              match reference.close type.args with
              | some inner => checkVoid definitions bound inner
              | none => .error .unboundParameter
    else checkVoid definitions bound type

/-- A type that passed the check. -/
def checked (models : Models) (type : ClosedType) : Except WireError ClosedType := do
  checkVoid models.definitions models.definitions.length type
  return type

/-- A built-in type without arguments. -/
def ofBuiltin? (kind : Builtin) : Option ClosedType :=
  if kind.arity = 0 then some (.mk kind.index []) else none

def arrayOf (models : Models) (element : ClosedType) : Except WireError ClosedType :=
  checked models (.mk Builtin.array.index [element])

def mapOf (models : Models) (key value : ClosedType) : Except WireError ClosedType :=
  checked models (.mk Builtin.map.index [key, value])

/-- The place of the definition with a name: a name or second name of a built-in type, or a full
name. -/
def slotNamed? (models : Models) (name : String) : Option Nat :=
  match Builtin.lookup? name with
  | some kind => some kind.index
  | none => models.slot? (Identifier.parse name)

/-- The type of a name with arguments. -/
def resolve (models : Models) (name : String) (args : List ClosedType) :
    Except WireError ClosedType :=
  match slotNamed? models name with
  | none => .error (.unknownType name)
  | some slot =>
    match models.definitions[slot]? with
    | none => .error (.unknownType name)
    | some definition =>
      if definition.arity = args.length then checked models (.mk slot args)
      else .error (.arityMismatch name definition.arity args.length)

end Interchange.Wire

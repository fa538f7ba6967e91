import Interchange.Schema.Identifier

/-!
# Built-in types

The sixteen types that every project has. They live in the namespace `ks`, which no declaration may
enter. Some also have a shorter or more familiar name.
-/

namespace Interchange.Schema

/-- A built-in type. -/
inductive Builtin where
  | bool
  | int8
  | int16
  | int32
  | int64
  | uint8
  | uint16
  | uint32
  | uint64
  | float32
  | float64
  | string
  | uuid
  | void
  | array
  | map
deriving DecidableEq, Repr

namespace Builtin

/-- All built-in types in the order of their definitions. -/
def all : List Builtin :=
  [.bool, .int8, .int16, .int32, .int64, .uint8, .uint16, .uint32, .uint64, .float32, .float64,
    .string, .uuid, .void, .array, .map]

/-- The namespace of the built-in types. -/
def scope : String := "ks"

def name : Builtin → String
  | bool => "bool"
  | int8 => "int8"
  | int16 => "int16"
  | int32 => "int32"
  | int64 => "int64"
  | uint8 => "uint8"
  | uint16 => "uint16"
  | uint32 => "uint32"
  | uint64 => "uint64"
  | float32 => "float32"
  | float64 => "float64"
  | string => "string"
  | uuid => "uuid"
  | void => "void"
  | array => "array"
  | map => "map"

/-- The number of type arguments. -/
def arity : Builtin → Nat
  | array => 1
  | map => 2
  | _ => 0

def identifier (kind : Builtin) : Identifier :=
  ⟨scope, kind.name⟩

/-- The place of a built-in type among all of them. -/
def index : Builtin → Nat
  | bool => 0
  | int8 => 1
  | int16 => 2
  | int32 => 3
  | int64 => 4
  | uint8 => 5
  | uint16 => 6
  | uint32 => 7
  | uint64 => 8
  | float32 => 9
  | float64 => 10
  | string => 11
  | uuid => 12
  | void => 13
  | array => 14
  | map => 15

/-- Array and map hold elements; the others hold none. -/
def isContainer : Builtin → Bool
  | array => true
  | map => true
  | _ => false

def isSigned : Builtin → Bool
  | int8 => true
  | int16 => true
  | int32 => true
  | int64 => true
  | _ => false

def isUnsigned : Builtin → Bool
  | uint8 => true
  | uint16 => true
  | uint32 => true
  | uint64 => true
  | _ => false

/-- Second names of built-in types. -/
def aliases : List (String × Builtin) :=
  [("byte", uint8), ("sbyte", int8), ("short", int16), ("ushort", uint16), ("int", int32),
    ("uint", uint32), ("long", int64), ("ulong", uint64), ("float", float32), ("double", float64),
    ("guid", uuid)]

/-- The built-in type of an unqualified name, its own or a second one. -/
def lookup? (text : String) : Option Builtin :=
  match all.find? (fun kind => kind.name == text) with
  | some kind => some kind
  | none => (aliases.find? (fun entry => entry.1 == text)).map Prod.snd

theorem all_getElem?_index (kind : Builtin) : all[kind.index]? = some kind := by
  cases kind <;> rfl

theorem mem_all (kind : Builtin) : kind ∈ all := by
  cases kind <;> decide

end Builtin

end Interchange.Schema

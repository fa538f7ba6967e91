import Interchange.Bytes
import Interchange.Schema.Builtin

/-!
# Values

The data that the wire format carries. Scalars are the values of built-in types of fixed shape;
floats are kept as their bits, so a NaN equals itself and the two zeros differ. The fields of a
message are sorted by id, each id once. A map keeps its entries in the order in which they are
written, also those with equal keys.

* `Value.eqb_iff`: `Value.eqb` decides equality.
* `Fields.set`, `Fields.get?`: the fields of a message by id.
-/

namespace Interchange.Wire

open Schema (Builtin)

/-- A value of a type of fixed shape. -/
inductive Scalar where
  | bool (value : Bool)
  | int8 (value : Int8)
  | int16 (value : Int16)
  | int32 (value : Int32)
  | int64 (value : Int64)
  | uint8 (value : UInt8)
  | uint16 (value : UInt16)
  | uint32 (value : UInt32)
  | uint64 (value : UInt64)
  | float32 (bits : UInt32)
  | float64 (bits : UInt64)
  | uuid (bytes : Block 16)
  | void
deriving DecidableEq, Repr

/-- The built-in type of a scalar. -/
def Scalar.kind : Scalar → Builtin
  | bool _ => .bool
  | int8 _ => .int8
  | int16 _ => .int16
  | int32 _ => .int32
  | int64 _ => .int64
  | uint8 _ => .uint8
  | uint16 _ => .uint16
  | uint32 _ => .uint32
  | uint64 _ => .uint64
  | float32 _ => .float32
  | float64 _ => .float64
  | uuid _ => .uuid
  | void => .void

/-- A value. -/
inductive Value where
  | scalar (scalar : Scalar)
  | string (text : String)
  /-- The value of an array of `uint8`. -/
  | bytes (bytes : Bytes)
  | array (items : List Value)
  | map (entries : List (Value × Value))
  | message (fields : List (UInt32 × Value))
  | tag (value : UInt32) (payload : Option Value)
deriving Repr

namespace Value

/-- How messages name the kind of a value. -/
def typeName : Value → String
  | scalar s => s.kind.name
  | string _ => "string"
  | bytes _ => "bytes"
  | array _ => "array"
  | map _ => "map"
  | message _ => "message"
  | tag _ _ => "tag"

/-! ## Equality -/

mutual

def eqb : Value → Value → Bool
  | .scalar a, .scalar b => decide (a = b)
  | .string a, .string b => decide (a = b)
  | .bytes a, .bytes b => decide (a = b)
  | .array a, .array b => eqbItems a b
  | .map a, .map b => eqbEntries a b
  | .message a, .message b => eqbFields a b
  | .tag a p, .tag b q => decide (a = b) && eqbPayload p q
  | _, _ => false

def eqbItems : List Value → List Value → Bool
  | [], [] => true
  | a :: as, b :: bs => eqb a b && eqbItems as bs
  | _, _ => false

def eqbEntries : List (Value × Value) → List (Value × Value) → Bool
  | [], [] => true
  | (k, v) :: as, (l, w) :: bs => eqb k l && eqb v w && eqbEntries as bs
  | _, _ => false

def eqbFields : List (UInt32 × Value) → List (UInt32 × Value) → Bool
  | [], [] => true
  | (i, v) :: as, (j, w) :: bs => decide (i = j) && eqb v w && eqbFields as bs
  | _, _ => false

def eqbPayload : Option Value → Option Value → Bool
  | none, none => true
  | some a, some b => eqb a b
  | _, _ => false

end

mutual

theorem eqb_iff : (a b : Value) → (eqb a b = true ↔ a = b)
  | .scalar a, b => by cases b <;> simp [eqb]
  | .string a, b => by cases b <;> simp [eqb]
  | .bytes a, b => by cases b <;> simp [eqb]
  | .array a, b => by cases b <;> simp [eqb, eqbItems_iff a]
  | .map a, b => by cases b <;> simp [eqb, eqbEntries_iff a]
  | .message a, b => by cases b <;> simp [eqb, eqbFields_iff a]
  | .tag a p, b => by cases b <;> simp [eqb, eqbPayload_iff p]

theorem eqbItems_iff : (a b : List Value) → (eqbItems a b = true ↔ a = b)
  | [], b => by cases b <;> simp [eqbItems]
  | v :: as, b => by cases b <;> simp [eqbItems, eqb_iff v, eqbItems_iff as]

theorem eqbEntries_iff : (a b : List (Value × Value)) → (eqbEntries a b = true ↔ a = b)
  | [], b => by cases b <;> simp [eqbEntries]
  | (k, v) :: as, b => by
    cases b with
    | nil => simp [eqbEntries]
    | cons entry bs =>
      obtain ⟨l, w⟩ := entry
      simp [eqbEntries, eqb_iff k, eqb_iff v, eqbEntries_iff as]

theorem eqbFields_iff : (a b : List (UInt32 × Value)) → (eqbFields a b = true ↔ a = b)
  | [], b => by cases b <;> simp [eqbFields]
  | (i, v) :: as, b => by
    cases b with
    | nil => simp [eqbFields]
    | cons entry bs =>
      obtain ⟨j, w⟩ := entry
      simp [eqbFields, eqb_iff v, eqbFields_iff as]

theorem eqbPayload_iff : (a b : Option Value) → (eqbPayload a b = true ↔ a = b)
  | none, b => by cases b <;> simp [eqbPayload]
  | some v, b => by cases b <;> simp [eqbPayload, eqb_iff v]

end

instance : DecidableEq Value :=
  fun a b => decidable_of_iff (eqb a b = true) (eqb_iff a b)

end Value

/-! ## Fields -/

namespace Fields

/-- The value of a field. -/
def get? (fields : List (UInt32 × Value)) (id : UInt32) : Option Value :=
  (fields.find? fun field => field.1 == id).map Prod.snd

/-- Gives a field a value. A value that it had is gone. -/
def set : (fields : List (UInt32 × Value)) → (id : UInt32) → Value → List (UInt32 × Value)
  | [], id, value => [(id, value)]
  | (other, old) :: rest, id, value =>
    if id < other then (id, value) :: (other, old) :: rest
    else if id = other then (id, value) :: rest
    else (other, old) :: set rest id value

/-- Sets fields in the order of a list, so that the last value of an id stays. -/
def setAll (fields entries : List (UInt32 × Value)) : List (UInt32 × Value) :=
  entries.foldl (fun sofar entry => set sofar entry.1 entry.2) fields

end Fields

end Interchange.Wire

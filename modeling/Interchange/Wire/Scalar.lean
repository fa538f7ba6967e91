import Interchange.Wire.Value
import Interchange.Wire.Varint
import Interchange.Wire.Writing

/-!
# Scalars on the wire

Truth values and integers are variable-length numbers, floats are their bits and a uuid is its
bytes. `void` takes no bytes.

* `Scalar.write`: writing a scalar.
* `Scalar.read`: reading a scalar of a built-in type.
-/

namespace Interchange.Wire

open Schema (Builtin)

namespace Scalar

/-- The bytes of a scalar. -/
def encode : Scalar → Bytes
  | bool value => Varint.encode value.toNat
  | int8 value => Varint.encode (Zigzag.encode value.toInt)
  | int16 value => Varint.encode (Zigzag.encode value.toInt)
  | int32 value => Varint.encode (Zigzag.encode value.toInt)
  | int64 value => Varint.encode (Zigzag.encode value.toInt)
  | uint8 value => Varint.encode value.toNat
  | uint16 value => Varint.encode value.toNat
  | uint32 value => Varint.encode value.toNat
  | uint64 value => Varint.encode value.toNat
  | float32 bits => leBytes 4 bits.toNat
  | float64 bits => leBytes 8 bits.toNat
  | uuid bytes => bytes.val
  | void => []

/-- Writes a scalar; `void` writes nothing at all. -/
def write : Scalar → Writing
  | void => .done
  | scalar => .piece scalar.encode

/-- Reads an integer that is folded onto the natural numbers. Of the `2 * half` integers that fit,
half are negative. -/
def readSigned (kind : Builtin) (half : Nat) : Reading Int := do
  let n := Zigzag.decode (← Varint.read)
  if -half ≤ n ∧ n < half then return n else .fail (.numberOutOfRange (.integer kind))

/-- Reads a natural number below `size`. -/
def readUnsigned (kind : Builtin) (size : Nat) : Reading Nat := do
  let n ← Varint.read
  if n < size then return n else .fail (.numberOutOfRange (.integer kind))

def readBool : Reading Bool := do
  match ← Varint.read with
  | 0 => return false
  | 1 => return true
  | other => .fail (.invalidBool other)

/-- Reads a scalar of a built-in type. -/
def read : Builtin → Reading Scalar
  | .bool => do return .bool (← readBool)
  | .int8 => do return .int8 (Int8.ofInt (← readSigned .int8 (Int8.size / 2)))
  | .int16 => do return .int16 (Int16.ofInt (← readSigned .int16 (Int16.size / 2)))
  | .int32 => do return .int32 (Int32.ofInt (← readSigned .int32 (Int32.size / 2)))
  | .int64 => do return .int64 (Int64.ofInt (← readSigned .int64 (Int64.size / 2)))
  | .uint8 => do return .uint8 (UInt8.ofNat (← readUnsigned .uint8 UInt8.size))
  | .uint16 => do return .uint16 (UInt16.ofNat (← readUnsigned .uint16 UInt16.size))
  | .uint32 => do return .uint32 (UInt32.ofNat (← readUnsigned .uint32 UInt32.size))
  | .uint64 => do return .uint64 (UInt64.ofNat (← readUnsigned .uint64 UInt64.size))
  | .float32 => do return .float32 (UInt32.ofNat (leValue (← Reading.block 4).val))
  | .float64 => do return .float64 (UInt64.ofNat (leValue (← Reading.block 8).val))
  | .uuid => do return .uuid (← Reading.block 16)
  | .void => return .void
  | .string => .fail (.notScalar .string)
  | .array => .fail (.notScalar .array)
  | .map => .fail (.notScalar .map)

end Scalar

end Interchange.Wire

import Interchange.Wire.Reading

/-!
# Variable-length numbers

A number below 2^64 is written in groups of seven bits, the lowest group first, one group a byte.
The high bit is set on the last byte and on no other, so zero is the byte `0x80`. A reader takes ten
bytes at most, and the tenth holds the one bit that is left.

Signed numbers are folded onto the natural numbers first, the negative ones between the others.

* `Varint.encode`, `Varint.read`: writing and reading.
* `Zigzag.encode`, `Zigzag.decode`: folding and unfolding.
* `Reading.region`: the bytes behind a length.
-/

namespace Interchange.Wire

namespace Varint

/-- The longest encoding has ten bytes. -/
def maxLength : Nat := 10

/-- The groups of a number, the last one marked. -/
def encode (value : Nat) : Bytes :=
  if value < 128 then [UInt8.ofNat (value + 128)]
  else UInt8.ofNat (value % 128) :: encode (value / 128)

/-- Reads groups while `left` bytes may follow. `weight` is what the next group counts, and `sum` is
the value of the groups before it. -/
def readGroups : (left weight sum : Nat) → Reading Nat
  | 0, _, _ => .fail (.numberOutOfRange .varint)
  | left + 1, weight, sum => do
    let byte ← Reading.byte
    let payload := byte.toNat % 128
    if left = 0 ∧ 1 < payload then .fail (.numberOutOfRange .varint)
    else if 128 ≤ byte.toNat then return sum + weight * payload
    else readGroups left (weight * 128) (sum + weight * payload)

/-- Reads one number. -/
def read : Reading Nat :=
  readGroups maxLength 1 0

end Varint

namespace Zigzag

/-- Folds an integer onto the natural numbers: 0, -1, 1, -2, 2, and so on. -/
def encode (n : Int) : Nat :=
  if 0 ≤ n then 2 * n.toNat else 2 * (-n).toNat - 1

/-- The integer at a place of that row. -/
def decode (n : Nat) : Int :=
  if n % 2 = 0 then (n / 2 : Nat) else -((n / 2 : Nat) : Int) - 1

theorem decode_encode (n : Int) : decode (encode n) = n := by
  unfold encode decode
  split
  next hNonneg =>
    rw [if_pos (by omega)]
    omega
  next hNeg =>
    rw [if_neg (by omega)]
    omega

theorem encode_decode (n : Nat) : encode (decode n) = n := by
  unfold encode decode
  split
  next hEven =>
    rw [if_pos (by omega)]
    omega
  next hOdd =>
    rw [if_neg (by omega)]
    omega

end Zigzag

/-! ## Lengths -/

/-- A byte string with its length in front. -/
def lengthPrefixed (bytes : Bytes) : Bytes :=
  Varint.encode bytes.length ++ bytes

/-- The bytes behind a length. -/
def Reading.region : Reading Bytes := do
  let length ← Varint.read
  let block ← Reading.block length
  return block.val

/-! ## Tags -/

/-- The id and the layout in the tag of a field. Ids of 2^32 and more are kept, so that the field
can be skipped. -/
def splitTag (tag : Nat) : Except WireError (Nat × Layout) :=
  match Layout.ofCode? (tag % 8) with
  | some layout => .ok (tag / 8, layout)
  | none => .error (.invalidLayout (tag % 8))

/-- Takes the bytes of one value without looking at them. -/
def Layout.skip : Layout → Reading Unit
  | .varint => do
    let _ ← Varint.read
    return ()
  | .lengthPrefixed => do
    let _ ← Reading.region
    return ()
  | .fixed32 => do
    let _ ← Reading.block 4
    return ()
  | .fixed64 => do
    let _ ← Reading.block 8
    return ()
  | .fixed128 => do
    let _ ← Reading.block 16
    return ()

end Interchange.Wire

import Interchange.Wire.Scalar
import Interchange.Wire.Stream
import Mathlib.Algebra.Group.Int.Defs
import Mathlib.Algebra.Group.Nat.Defs
import Mathlib.Data.List.Forall2

/-!
# Readings of written bytes

A reading takes exactly some bytes, whatever follows them, and returns a value. This holds of the
readings of numbers, lengths and scalars for the bytes that were written for them, and it passes on
to sequences and repetitions.

* `Reading.Reads`: a reading takes given bytes and returns a value.
* `Varint.reads_encode`: numbers.
* `Reading.reads_region`: byte strings behind their length.
* `Scalar.reads_encode`: scalars.
* `elements_eq_ok`: repetition.
* `Reads.region`: the same on a region, which counts the bytes.
-/

namespace Interchange.Wire

namespace Reading

variable {α β : Type}

/-- A reading takes the bytes and returns the value, whatever follows. -/
def Reads (reading : Reading α) (bytes : Bytes) (value : α) : Prop :=
  ∀ rest, reading.run (bytes ++ rest) = (.ok value, rest)

theorem reads_pure (value : α) : Reads (pure value) [] value :=
  fun _ => rfl

theorem Reads.bind {reading : Reading α} {f : α → Reading β} {first second : Bytes} {a : α} {b : β}
    (hFirst : reading.Reads first a) (hNext : (f a).Reads second b) :
    (reading >>= f).Reads (first ++ second) b := by
  intro rest
  rw [run_bind, List.append_assoc, hFirst]
  exact hNext rest

theorem Reads.map {reading : Reading α} {bytes : Bytes} {a : α} (hReads : reading.Reads bytes a)
    (f : α → β) : (reading >>= fun a => pure (f a)).Reads bytes (f a) := by
  have hBoth : (reading >>= fun a => pure (f a)).Reads (bytes ++ []) (f a) :=
    hReads.bind (reads_pure (f a))
  rwa [List.append_nil] at hBoth

/-- A check at the end that passes. -/
theorem Reads.bind_nil {reading : Reading α} {f : α → Reading β} {bytes : Bytes} {a : α} {b : β}
    (hReads : reading.Reads bytes a) (hNext : (f a).Reads [] b) :
    (reading >>= f).Reads bytes b := by
  have hBoth := hReads.bind hNext
  rwa [List.append_nil] at hBoth

theorem reads_ofExcept {result : Except WireError α} {value : α} (hResult : result = .ok value) :
    (ofExcept result).Reads [] value := by
  subst hResult
  exact reads_pure value

theorem Reads.ofExcept_bind {result : Except WireError α} {value : α} {f : α → Reading β}
    {bytes : Bytes} {b : β} (hResult : result = .ok value) (hNext : (f value).Reads bytes b) :
    (ofExcept result >>= f).Reads bytes b := by
  subst hResult
  exact hNext

theorem reads_block {n : Nat} (block : Block n) : (Reading.block n).Reads block.val block := by
  intro rest
  simp only [Reading.block, run, runWith, serveBytes, split?_append]

theorem reads_byte (byte : UInt8) : Reading.byte.Reads [byte] byte := by
  intro rest
  have hSplit := split?_append 1 ⟨[byte], rfl⟩ rest
  simp only [Reading.byte, run, runWith, serveBytes]
  rw [hSplit]
  rfl

theorem reads_byte_bind {f : UInt8 → Reading β} {byte : UInt8} {bytes : Bytes} {b : β}
    (hNext : (f byte).Reads bytes b) : (Reading.byte >>= f).Reads (byte :: bytes) b :=
  (reads_byte byte).bind hNext

end Reading

open Reading
open Schema (Builtin)

/-! ## Numbers -/

namespace Varint

theorem encode_ne_nil (value : Nat) : encode value ≠ [] := by
  rw [encode]
  split <;> simp

/-- The last group ends the number. -/
theorem reads_last_group {left value : Nat} (weight sum : Nat) (hValue : value < 128)
    (hFits : left = 0 → value < 2) :
    (readGroups (left + 1) weight sum).Reads
      [UInt8.ofNat (value + 128)] (sum + weight * value) := by
  have hByte : (UInt8.ofNat (value + 128)).toNat = value + 128 := by
    rw [UInt8.toNat_ofNat']
    omega
  have hPayload : (value + 128) % 128 = value := by omega
  rw [readGroups]
  refine reads_byte_bind ?_
  simp only [hByte, hPayload]
  rw [if_neg (by omega), if_pos (by omega)]
  exact reads_pure _

/-- A number that fits the groups that are left is read back. -/
theorem reads_readGroups (left weight sum value : Nat) (hValue : value < 2 * 128 ^ left) :
    (readGroups (left + 1) weight sum).Reads (encode value) (sum + weight * value) := by
  induction left generalizing weight sum value with
  | zero =>
    rw [encode, if_pos (by omega)]
    exact reads_last_group weight sum (by omega) (by omega)
  | succ left ih =>
    rw [encode]
    split
    next hLast => exact reads_last_group weight sum hLast (by omega)
    next hMore =>
      have hByte : (UInt8.ofNat (value % 128)).toNat = value % 128 := by
        rw [UInt8.toNat_ofNat']
        omega
      have hPayload : value % 128 % 128 = value % 128 := by omega
      have hRest : value / 128 < 2 * 128 ^ left := by
        rw [Nat.pow_succ] at hValue
        omega
      have hSum : sum + weight * (value % 128) + weight * 128 * (value / 128) =
          sum + weight * value := by
        rw [Nat.add_assoc, Nat.mul_assoc, ← Nat.mul_add, Nat.mod_add_div]
      have hTail := ih (weight * 128) (sum + weight * (value % 128)) (value / 128) hRest
      rw [hSum] at hTail
      rw [readGroups]
      refine reads_byte_bind ?_
      simp only [hByte, hPayload]
      rw [if_neg (by omega), if_neg (by omega)]
      exact hTail

/-- Every number below 2^64 is read back. -/
theorem reads_encode {value : Nat} (hValue : value < 2 ^ 64) : read.Reads (encode value) value := by
  have hGroups := reads_readGroups 9 1 0 value (by omega)
  rwa [Nat.zero_add, Nat.one_mul] at hGroups

end Varint

/-! ## Lengths -/

theorem Reading.reads_region {bytes : Bytes} (hLength : bytes.length < 2 ^ 64) :
    Reading.region.Reads (lengthPrefixed bytes) bytes := by
  have hBlock := (reads_block ⟨bytes, rfl⟩).map Subtype.val
  exact (Varint.reads_encode hLength).bind hBlock

/-! ## Scalars -/

theorem Zigzag.encode_lt {value : Int} (hLow : -2 ^ 63 ≤ value) (hHigh : value < 2 ^ 63) :
    encode value < 2 ^ 64 := by
  unfold encode
  split <;> omega

namespace Scalar

theorem reads_readUnsigned (kind : Builtin) {size value : Nat} (hSize : size ≤ 2 ^ 64)
    (hValue : value < size) : (readUnsigned kind size).Reads (Varint.encode value) value := by
  refine (Varint.reads_encode (by omega)).bind_nil ?_
  rw [if_pos hValue]
  exact reads_pure value

theorem reads_readSigned (kind : Builtin) {half : Nat} {value : Int} (hHalf : half ≤ 2 ^ 63)
    (hLow : -half ≤ value) (hHigh : value < half) :
    (readSigned kind half).Reads (Varint.encode (Zigzag.encode value)) value := by
  refine (Varint.reads_encode (Zigzag.encode_lt (by omega) (by omega))).bind_nil ?_
  rw [Zigzag.decode_encode, if_pos ⟨hLow, hHigh⟩]
  exact reads_pure value

theorem reads_readBool (value : Bool) : readBool.Reads (Varint.encode value.toNat) value := by
  cases value with
  | false => exact (Varint.reads_encode (by decide)).bind_nil (reads_pure false)
  | true => exact (Varint.reads_encode (by decide)).bind_nil (reads_pure true)

/-- Every scalar is read back. -/
theorem reads_encode (scalar : Scalar) : (Scalar.read scalar.kind).Reads scalar.encode scalar := by
  cases scalar with
  | bool value => exact (reads_readBool value).map _
  | int8 value =>
    have hRead := (reads_readSigned .int8 (by decide) value.le_toInt value.toInt_lt).map
      fun n => Scalar.int8 (Int8.ofInt n)
    rwa [Int8.ofInt_toInt] at hRead
  | int16 value =>
    have hRead := (reads_readSigned .int16 (by decide) value.le_toInt value.toInt_lt).map
      fun n => Scalar.int16 (Int16.ofInt n)
    rwa [Int16.ofInt_toInt] at hRead
  | int32 value =>
    have hRead := (reads_readSigned .int32 (by decide) value.le_toInt value.toInt_lt).map
      fun n => Scalar.int32 (Int32.ofInt n)
    rwa [Int32.ofInt_toInt] at hRead
  | int64 value =>
    have hRead := (reads_readSigned .int64 (by decide) value.le_toInt value.toInt_lt).map
      fun n => Scalar.int64 (Int64.ofInt n)
    rwa [Int64.ofInt_toInt] at hRead
  | uint8 value =>
    have hRead := (reads_readUnsigned .uint8 (by decide) value.toNat_lt).map
      fun n => Scalar.uint8 (UInt8.ofNat n)
    rwa [UInt8.ofNat_toNat] at hRead
  | uint16 value =>
    have hRead := (reads_readUnsigned .uint16 (by decide) value.toNat_lt).map
      fun n => Scalar.uint16 (UInt16.ofNat n)
    rwa [UInt16.ofNat_toNat] at hRead
  | uint32 value =>
    have hRead := (reads_readUnsigned .uint32 (by decide) value.toNat_lt).map
      fun n => Scalar.uint32 (UInt32.ofNat n)
    rwa [UInt32.ofNat_toNat] at hRead
  | uint64 value =>
    have hRead := (reads_readUnsigned .uint64 (by decide) value.toNat_lt).map
      fun n => Scalar.uint64 (UInt64.ofNat n)
    rwa [UInt64.ofNat_toNat] at hRead
  | float32 bits =>
    have hBits : leValue (leBlock 4 bits.toNat).val = bits.toNat := by
      rw [leBlock, leValue_leBytes]
      exact Nat.mod_eq_of_lt bits.toNat_lt
    have hRead := (reads_block (leBlock 4 bits.toNat)).map
      fun block => Scalar.float32 (UInt32.ofNat (leValue block.val))
    rwa [hBits, UInt32.ofNat_toNat] at hRead
  | float64 bits =>
    have hBits : leValue (leBlock 8 bits.toNat).val = bits.toNat := by
      rw [leBlock, leValue_leBytes]
      exact Nat.mod_eq_of_lt bits.toNat_lt
    have hRead := (reads_block (leBlock 8 bits.toNat)).map
      fun block => Scalar.float64 (UInt64.ofNat (leValue block.val))
    rwa [hBits, UInt64.ofNat_toNat] at hRead
  | uuid bytes => exact (reads_block bytes).map Scalar.uuid
  | void => exact reads_pure _

/-- Only `void` takes no bytes. -/
theorem encode_ne_nil {scalar : Scalar} (hKind : scalar.kind ≠ .void) : scalar.encode ≠ [] := by
  cases scalar with
  | uuid bytes =>
    intro hEmpty
    have hLength := bytes.property
    rw [show bytes.val = [] from hEmpty] at hLength
    cases hLength
  | void => exact absurd rfl hKind
  | float32 bits => exact List.cons_ne_nil _ _
  | float64 bits => exact List.cons_ne_nil _ _
  | _ => exact Varint.encode_ne_nil _

end Scalar

/-! ## Repetition -/

/-- Chunks that are read one after the other, each of them at least one byte. -/
theorem elements_eq_ok {α : Type} {item : Reading α} {chunks : List Bytes} {values : List α}
    (hChunks : List.Forall₂ (fun chunk value => chunk ≠ [] ∧
      item.Reads chunk value) chunks values) :
    elements item chunks.flatten = .ok values := by
  induction hChunks with
  | nil =>
    rw [elements]
    rfl
  | @cons chunk value chunks values hFirst _ ih =>
    obtain ⟨hChunk, hReads⟩ := hFirst
    have hSome : (chunk :: chunks).flatten.isEmpty = false := by
      cases chunk with
      | nil => exact absurd rfl hChunk
      | cons byte rest => rfl
    have hLess : chunks.flatten.length < (chunk :: chunks).flatten.length := by
      have hPositive := List.length_pos_iff.2 hChunk
      rw [List.flatten_cons, List.length_append]
      omega
    rw [elements, hSome]
    simp only [Bool.false_eq_true, if_false]
    rw [List.flatten_cons] at hLess ⊢
    rw [hReads]
    simp only [hLess, dite_true, ih]

/-! ## Regions -/

/-- A reading leaves a region what it leaves of the bytes, and the region counts what is taken. -/
theorem runWith_region {α : Type} (reading : Reading α) (position : Nat) (bytes : Bytes) :
    reading.runWith id Region.serve ⟨position, bytes⟩ =
      ((reading.run bytes).1,
        ⟨position + (bytes.length - (reading.run bytes).2.length), (reading.run bytes).2⟩) := by
  induction reading generalizing position bytes with
  | done value => simp [Reading.runWith, Reading.run]
  | fail error => simp [Reading.runWith, Reading.run]
  | take n next ih =>
    simp only [Reading.runWith, Reading.run, Reading.serveBytes, Region.serve]
    cases hSplit : split? n bytes with
    | none => simp [Region.remaining]
    | some pair =>
      obtain ⟨block, rest⟩ := pair
      have hBytes := split?_eq_some hSplit
      have hLess := run_length_le (next block) rest
      have hNext := ih block (position + n) rest
      simp only [hNext]
      simp only [Reading.run] at hLess ⊢
      rw [hBytes, List.length_append, block.property]
      congr 2
      omega

theorem Reading.Reads.region {α : Type} {reading : Reading α} {bytes : Bytes} {value : α}
    (hReads : reading.Reads bytes value) (rest : Bytes) :
    reading.runWith id Region.serve (Region.ofBytes (bytes ++ rest)) =
      (.ok value, ⟨bytes.length, rest⟩) := by
  rw [Region.ofBytes, runWith_region, hReads rest]
  simp

end Interchange.Wire

import Interchange.Proofs.Wire.Reads
import Mathlib.Algebra.BigOperators.Ring.Finset

/-!
# Numbers in groups of seven bits

What is read as a number depends on where the first marked byte stands, and on nothing behind it. A
number may be written in more groups than it needs, as long as ten bytes are enough; the tenth byte
has room for one bit. All bits of the groups are in the number, so a number that is read has at
least as many groups as it needs, and writing takes exactly those.

* `Varint.isLast`, `Varint.payloadAt`: the two parts of a byte.
* `Varint.Complete`: bytes that start with a number.
* `Varint.run_readGroups_of_complete`, `Varint.run_readGroups_of_short`,
  `Varint.run_readGroups_of_long`: the three ways in which reading ends.
* `Varint.length_encode_le`: a number is written in no more groups than it needs.
* `Varint.joinGroups`, `Varint.splitWord`: reading and writing in words of 64 bits, by shifts and
  masks.
* `Varint.toNat_joinGroups`, `Varint.splitWord_eq`: they are sums and divisions.
* `Varint.read_groups`: reading is exact, and writing is shortest.
-/

namespace Interchange.Wire.Varint

open Reading
open Finset (range)

/-! ## Groups -/

/-- The byte is marked as the last one of a number. -/
def isLast (byte : UInt8) : Bool :=
  128 ≤ byte.toNat

/-- The seven bits of the byte at a place. -/
def payloadAt (bytes : Bytes) (i : Nat) : Nat :=
  (bytes.getD i 0).toNat % 128

/-- The value of the first `n` groups. -/
def groupSum (bytes : Bytes) (n : Nat) : Nat :=
  ∑ i ∈ range n, payloadAt bytes i * 128 ^ i

theorem payloadAt_lt (bytes : Bytes) (i : Nat) : payloadAt bytes i < 128 :=
  Nat.mod_lt _ (by decide)

theorem payloadAt_tail (bytes : Bytes) (i : Nat) :
    payloadAt bytes.tail i = payloadAt bytes (i + 1) := by
  cases bytes <;> rfl

theorem groupSum_succ (bytes : Bytes) (n : Nat) :
    groupSum bytes (n + 1) = payloadAt bytes 0 + 128 * groupSum bytes.tail n := by
  have hShift : ∀ i, payloadAt bytes (i + 1) * 128 ^ (i + 1) =
      128 * (payloadAt bytes.tail i * 128 ^ i) := by
    intro i
    rw [payloadAt_tail, Nat.pow_succ, Nat.mul_left_comm 128, Nat.mul_comm 128]
  rw [groupSum, Finset.sum_range_succ', Finset.sum_congr rfl fun i _ => hShift i, ← Finset.mul_sum,
    Nat.add_comm, Nat.pow_zero, Nat.mul_one]
  rfl

theorem groupSum_succ_last (bytes : Bytes) (n : Nat) :
    groupSum bytes (n + 1) = groupSum bytes n + payloadAt bytes n * 128 ^ n :=
  Finset.sum_range_succ _ n

theorem groupSum_lt (bytes : Bytes) (n : Nat) : groupSum bytes n < 128 ^ n := by
  induction n generalizing bytes with
  | zero => exact Nat.one_pos
  | succ n ih =>
    have hFirst := payloadAt_lt bytes 0
    have hRest := ih bytes.tail
    rw [groupSum_succ, Nat.pow_succ]
    omega

/-- Every group can be found in the number again. -/
theorem groupSum_digit {bytes : Bytes} {n i : Nat} (hLess : i < n) :
    groupSum bytes n / 128 ^ i % 128 = payloadAt bytes i := by
  induction i generalizing bytes n with
  | zero =>
    obtain ⟨n, rfl⟩ := Nat.exists_eq_succ_of_ne_zero (Nat.ne_of_gt hLess)
    have hFirst := payloadAt_lt bytes 0
    rw [groupSum_succ, Nat.pow_zero, Nat.div_one]
    omega
  | succ i ih =>
    obtain ⟨n, rfl⟩ := Nat.exists_eq_succ_of_ne_zero (Nat.ne_zero_of_lt hLess)
    have hFirst := payloadAt_lt bytes 0
    have hRest : (payloadAt bytes 0 + 128 * groupSum bytes.tail n) / 128 =
        groupSum bytes.tail n := by
      omega
    rw [groupSum_succ, Nat.pow_succ', ← Nat.div_div_eq_div_mul, hRest,
      ih (Nat.lt_of_succ_lt_succ hLess), payloadAt_tail]

/-! ## Reading -/

theorem run_readGroups_nil (left weight sum : Nat) :
    (readGroups (left + 1) weight sum).run [] = (.error (.streamClosed 1 0), []) := by
  rw [readGroups, run_bind]
  rfl

/-- One group. -/
theorem run_readGroups_cons (left weight sum : Nat) (byte : UInt8) (bytes : Bytes) :
    (readGroups (left + 1) weight sum).run (byte :: bytes) =
      if left = 0 ∧ 1 < byte.toNat % 128 then (.error (.numberOutOfRange .varint), bytes)
      else if isLast byte then (.ok (sum + weight * (byte.toNat % 128)), bytes)
      else (readGroups left (weight * 128) (sum + weight * (byte.toNat % 128))).run bytes := by
  have hByte : Reading.byte.run (byte :: bytes) = (.ok byte, bytes) := reads_byte byte bytes
  rw [readGroups, run_bind, hByte]
  simp only [isLast, decide_eq_true_eq]
  split
  · rfl
  · split
    · rfl
    · rfl

/-- The first marked byte stands at a place where a number may end: before the place `last`, or at
that place with a group of one bit. -/
structure Complete (last : Nat) (bytes : Bytes) (k : Nat) : Prop where
  place : bytes.findIdx? isLast = some k
  room : k < last ∨ k = last ∧ payloadAt bytes k ≤ 1

theorem run_readGroups_of_complete {left k : Nat} {bytes : Bytes}
    (hComplete : Complete left bytes k) (weight sum : Nat) :
    (readGroups (left + 1) weight sum).run bytes =
      (.ok (sum + weight * groupSum bytes (k + 1)), bytes.drop (k + 1)) := by
  obtain ⟨hPlace, hRoom⟩ := hComplete
  induction bytes generalizing left k weight sum with
  | nil => cases hPlace
  | cons byte bytes ih =>
    rw [List.findIdx?_cons] at hPlace
    rw [run_readGroups_cons, groupSum_succ]
    split at hPlace
    next hLast =>
      cases hPlace
      have hFits : payloadAt (byte :: bytes) 0 = byte.toNat % 128 := rfl
      rw [if_neg (by omega), if_pos hLast]
      rfl
    next hMore =>
      obtain ⟨j, hBehind, rfl⟩ := Option.map_eq_some_iff.1 hPlace
      obtain ⟨left, rfl⟩ := Nat.exists_eq_succ_of_ne_zero (show left ≠ 0 by omega)
      rw [← payloadAt_tail] at hRoom
      have hRest := ih (weight * 128) (sum + weight * (byte.toNat % 128)) hBehind
        (hRoom.imp Nat.lt_of_succ_lt_succ (And.imp Nat.succ.inj id))
      have hFirst : payloadAt (byte :: bytes) 0 = byte.toNat % 128 := rfl
      rw [if_neg (by omega), if_neg hMore, hRest, hFirst, Nat.mul_add, Nat.mul_assoc, Nat.add_assoc]
      rfl

theorem run_readGroups_of_short {left : Nat} {bytes : Bytes} (hNone : bytes.findIdx? isLast = none)
    (hShort : bytes.length ≤ left) (weight sum : Nat) :
    (readGroups (left + 1) weight sum).run bytes = (.error (.streamClosed 1 0), []) := by
  induction bytes generalizing left weight sum with
  | nil => exact run_readGroups_nil left weight sum
  | cons byte bytes ih =>
    rw [List.findIdx?_cons] at hNone
    split at hNone
    next => cases hNone
    next hMore =>
      rw [List.length_cons] at hShort
      obtain ⟨left, rfl⟩ := Nat.exists_eq_succ_of_ne_zero (show left ≠ 0 by omega)
      rw [run_readGroups_cons, if_neg (by omega), if_neg hMore]
      exact ih (Option.map_eq_none_iff.1 hNone) (Nat.le_of_succ_le_succ hShort) _ _

theorem run_readGroups_of_long {left : Nat} {bytes : Bytes} (hNot : ∀ k, ¬ Complete left bytes k)
    (hLong : left < bytes.length) (weight sum : Nat) :
    (readGroups (left + 1) weight sum).run bytes =
      (.error (.numberOutOfRange .varint), bytes.drop (left + 1)) := by
  induction bytes generalizing left weight sum with
  | nil => cases hLong
  | cons byte bytes ih =>
    rw [run_readGroups_cons]
    split
    next hWide => rw [hWide.1, List.drop_one, List.tail_cons]
    next hFits =>
      split
      next hLast =>
        refine absurd ⟨by rw [List.findIdx?_cons, if_pos hLast], ?_⟩ (hNot 0)
        have hFirst : payloadAt (byte :: bytes) 0 = byte.toNat % 128 := rfl
        omega
      next hMore =>
        cases left with
        | zero => rfl
        | succ left =>
          refine ih (fun k hComplete => hNot (k + 1) ⟨?_, ?_⟩) (Nat.lt_of_succ_lt_succ hLong) _ _
          · rw [List.findIdx?_cons, if_neg hMore, hComplete.place]
            rfl
          · rw [← payloadAt_tail]
            exact hComplete.room.imp Nat.succ_lt_succ (And.imp (congrArg Nat.succ) id)

/-! ## Writing -/

/-- A number is written in no more groups than it needs. -/
theorem length_encode_le {value n : Nat} (hValue : value < 128 ^ (n + 1)) :
    (encode value).length ≤ n + 1 := by
  induction n generalizing value with
  | zero =>
    rw [encode, if_pos (by omega)]
    exact Nat.le_refl _
  | succ n ih =>
    rw [encode]
    split
    next => exact Nat.succ_le_succ (Nat.zero_le _)
    next =>
      have hRest : value / 128 < 128 ^ (n + 1) := by
        rw [Nat.pow_succ] at hValue
        omega
      exact Nat.succ_le_succ (ih hRest)

/-! ## Words -/

/-- The first `n` groups in a word, each shifted to its place. -/
def joinGroups (bytes : Bytes) : Nat → UInt64
  | 0 => 0
  | n + 1 => joinGroups bytes n ||| (bytes.getD n 0 &&& 0x7f).toUInt64 <<< UInt64.ofNat (7 * n)

/-- Groups do not overlap in a word, so putting them together is adding them up. -/
theorem toNat_joinGroups {bytes : Bytes} {n : Nat} (hPlaces : n ≤ 10)
    (hFits : groupSum bytes n < 2 ^ 64) : (joinGroups bytes n).toNat = groupSum bytes n := by
  induction n with
  | zero => rfl
  | succ n ih =>
    rw [groupSum_succ_last] at hFits ⊢
    have hPower : 128 ^ n = 2 ^ (7 * n) := (Nat.pow_mul 2 7 n).symm
    have hAmount : (UInt64.ofNat (7 * n)).toNat % 64 = 7 * n := by
      rw [UInt64.toNat_ofNat']
      omega
    have hMask : (bytes.getD n 0 &&& 0x7f).toNat = payloadAt bytes n := by
      rw [UInt8.toNat_and]
      exact Nat.and_two_pow_sub_one_eq_mod _ 7
    have hGroup : ((bytes.getD n 0 &&& 0x7f).toUInt64 <<< UInt64.ofNat (7 * n)).toNat =
        payloadAt bytes n * 128 ^ n := by
      rw [UInt64.toNat_shiftLeft, hAmount, UInt8.toNat_toUInt64, hMask, Nat.shiftLeft_eq, ← hPower]
      exact Nat.mod_eq_of_lt (Nat.lt_of_le_of_lt (Nat.le_add_left _ _) hFits)
    -- The groups before this one end below its place.
    have hBelow : groupSum bytes n < 2 ^ (7 * n) := hPower ▸ Varint.groupSum_lt bytes n
    rw [joinGroups, UInt64.toNat_or, ih (by omega) (by omega), hGroup, hPower, Nat.or_comm,
      Nat.mul_comm, ← Nat.two_pow_add_eq_or_of_lt hBelow, Nat.add_comm]

theorem toNat_shiftRight_seven (value : UInt64) : (value >>> 7).toNat = value.toNat / 128 := by
  rw [UInt64.toNat_shiftRight, Nat.shiftRight_eq_div_pow]
  rfl

/-- The groups of a word, the last one marked. -/
def splitWord (value : UInt64) : Bytes :=
  let payload := (value &&& 0x7f).toUInt8
  if value >>> 7 = 0 then [payload ||| 0x80] else payload :: splitWord (value >>> 7)
termination_by value.toNat
decreasing_by
  rename_i hMore
  have hShift := toNat_shiftRight_seven value
  have hLeft : (value >>> 7).toNat ≠ 0 := fun hZero => hMore (UInt64.toNat_inj.1 hZero)
  omega

/-- The lowest group of a word, without its mark and with it. -/
theorem lowestGroup_eq (value : UInt64) :
    (value &&& 0x7f).toUInt8 = UInt8.ofNat (value.toNat % 128) ∧
      (value &&& 0x7f).toUInt8 ||| 0x80 = UInt8.ofNat (value.toNat % 128 + 128) := by
  have hLess : value.toNat % 128 < 2 ^ 7 := Nat.mod_lt _ (by decide)
  have hMask : (value &&& 0x7f).toNat = value.toNat % 128 := by
    rw [UInt64.toNat_and]
    exact Nat.and_two_pow_sub_one_eq_mod value.toNat 7
  have hGroup : (value &&& 0x7f).toUInt8.toNat = value.toNat % 128 := by
    rw [UInt64.toNat_toUInt8, hMask]
    omega
  rw [← UInt8.toNat_inj, ← UInt8.toNat_inj, UInt8.toNat_or, hGroup, UInt8.toNat_ofNat',
    UInt8.toNat_ofNat']
  refine ⟨by omega, ?_⟩
  show value.toNat % 128 ||| 2 ^ 7 * 1 = _
  rw [Nat.or_comm, ← Nat.two_pow_add_eq_or_of_lt hLess]
  omega

/-- Masking and shifting a word is dividing its number. -/
theorem splitWord_eq (value : UInt64) : splitWord value = encode value.toNat := by
  fun_induction splitWord value with
  | case1 value payload hLast =>
    have hZero : (value >>> 7).toNat = 0 := congrArg UInt64.toNat hLast
    rw [toNat_shiftRight_seven] at hZero
    have hSmall : value.toNat < 128 := by omega
    rw [encode, if_pos hSmall, (lowestGroup_eq value).2, Nat.mod_eq_of_lt hSmall]
  | case2 value payload hMore ih =>
    have hLarge : ¬ value.toNat < 128 := fun hSmall => hMore <| UInt64.toNat_inj.1 <|
      (toNat_shiftRight_seven value).trans (Nat.div_eq_of_lt hSmall)
    rw [ih, toNat_shiftRight_seven, encode.eq_def value.toNat, if_neg hLarge]
    exact congrArg (· :: encode (value.toNat / 128)) (lowestGroup_eq value).1

/-! ## Both -/

theorem lt_length_of_findIdx? {bytes : Bytes} {k : Nat} (hPlace : bytes.findIdx? isLast = some k) :
    k < bytes.length :=
  (List.findIdx?_eq_some_iff_findIdx_eq.1 hPlace).1

/-- Ten groups that end with a single bit have room in 64 bits. -/
theorem Complete.groupSum_lt {bytes : Bytes} {k : Nat} (hComplete : Complete 9 bytes k) :
    groupSum bytes (k + 1) < 2 ^ 64 := by
  rcases hComplete.room with hLess | ⟨rfl, hBit⟩
  · have hSum := Varint.groupSum_lt bytes (k + 1)
    have hPow : 128 ^ (k + 1) ≤ 128 ^ 9 := Nat.pow_le_pow_right (by decide) hLess
    omega
  · have hSum := Varint.groupSum_lt bytes 9
    have hTenth := groupSum_succ_last bytes 9
    omega

theorem Complete.toNat_joinGroups {bytes : Bytes} {k : Nat} (hComplete : Complete 9 bytes k) :
    (joinGroups bytes (k + 1)).toNat = groupSum bytes (k + 1) := by
  have hRoom := hComplete.room
  exact Varint.toNat_joinGroups (by omega) hComplete.groupSum_lt

/-- A region counts what is dropped from its bytes. -/
theorem read_region {bytes : Bytes} {n : Nat} {result : Except WireError Nat}
    (hLength : n ≤ bytes.length) (hRun : read.run bytes = (result, bytes.drop n)) :
    read.runWith id Region.serve (.ofBytes bytes) = (result, ⟨n, bytes.drop n⟩) := by
  rw [Region.ofBytes, runWith_region, hRun, List.length_drop, Nat.zero_add,
    Nat.sub_sub_self hLength]

theorem read_of_complete {bytes : Bytes} {k : Nat} (hComplete : Complete 9 bytes k) :
    read.runWith id Region.serve (.ofBytes bytes) =
      (.ok (groupSum bytes (k + 1)), ⟨k + 1, bytes.drop (k + 1)⟩) := by
  have hRun := run_readGroups_of_complete hComplete 1 0
  rw [Nat.zero_add, Nat.one_mul] at hRun
  exact read_region (lt_length_of_findIdx? hComplete.place) hRun

theorem read_of_short {bytes : Bytes} (hNone : bytes.findIdx? isLast = none)
    (hShort : bytes.length < 10) :
    read.runWith id Region.serve (.ofBytes bytes) =
      (.error (.streamClosed 1 0), ⟨bytes.length, []⟩) := by
  have hRun := run_readGroups_of_short hNone (Nat.le_of_lt_succ hShort) 1 0
  have hRegion := read_region (Nat.le_refl _) (hRun.trans (by rw [List.drop_length]))
  rwa [List.drop_length] at hRegion

theorem read_of_long {bytes : Bytes} (hNot : ∀ k, ¬ Complete 9 bytes k)
    (hOther : ¬ (bytes.findIdx? isLast = none ∧ bytes.length < 10)) :
    read.runWith id Region.serve (.ofBytes bytes) =
      (.error (.numberOutOfRange .varint), ⟨10, bytes.drop 10⟩) := by
  have hLong : 9 < bytes.length := by
    cases hPlace : bytes.findIdx? isLast with
    | none => exact Nat.lt_of_not_ge fun hShort => hOther ⟨hPlace, Nat.lt_succ_of_le hShort⟩
    | some k =>
      have hLess := lt_length_of_findIdx? hPlace
      have hRoom : ¬ k < 9 := fun hRoom => hNot k ⟨hPlace, Or.inl hRoom⟩
      omega
  exact read_region hLong (run_readGroups_of_long hNot hLong 1 0)

/-- A number that is read takes as many bytes as it has groups. -/
theorem complete_of_read {bytes : Bytes} {value : Nat} {after : Region}
    (hRead : read.runWith id Region.serve (.ofBytes bytes) = (.ok value, after)) :
    ∃ k, Complete 9 bytes k ∧ value = groupSum bytes (k + 1) ∧ after.position = k + 1 := by
  by_cases hComplete : ∃ k, Complete 9 bytes k
  · obtain ⟨k, hComplete⟩ := hComplete
    cases (read_of_complete hComplete).symm.trans hRead
    exact ⟨k, hComplete, rfl, rfl⟩
  · exfalso
    by_cases hShort : bytes.findIdx? isLast = none ∧ bytes.length < 10
    · cases (read_of_short hShort.1 hShort.2).symm.trans hRead
    · cases (read_of_long (not_exists.1 hComplete) hShort).symm.trans hRead

/-- Reading is exact: where a number may end at the first marked byte, the number is the sum of the
groups up to there, each in its place and all in 64 bits, and these bytes are taken. Shifting the
groups into a word gives the same number. Otherwise the bytes ended too soon, or ten bytes were
taken and are no number. Writing is shortest: a number of 64 bits takes ten bytes at most, the same
ones that masks and shifts of a word give, is read back whatever follows it, and is not read from
fewer bytes. -/
theorem read_groups :
    (∀ bytes k, Complete 9 bytes k →
      read.runWith id Region.serve (.ofBytes bytes) =
          (.ok (∑ i ∈ range (k + 1), payloadAt bytes i * 128 ^ i), ⟨k + 1, bytes.drop (k + 1)⟩) ∧
        ∑ i ∈ range (k + 1), payloadAt bytes i * 128 ^ i < 2 ^ 64 ∧
        (∀ i ≤ k,
          (∑ i ∈ range (k + 1), payloadAt bytes i * 128 ^ i) / 128 ^ i % 128 = payloadAt bytes i) ∧
        (joinGroups bytes (k + 1)).toNat = ∑ i ∈ range (k + 1), payloadAt bytes i * 128 ^ i) ∧
    (∀ bytes, bytes.findIdx? isLast = none → bytes.length < 10 →
      read.runWith id Region.serve (.ofBytes bytes) =
        (.error (.streamClosed 1 0), ⟨bytes.length, []⟩)) ∧
    (∀ bytes, (∀ k, ¬ Complete 9 bytes k) →
      ¬ (bytes.findIdx? isLast = none ∧ bytes.length < 10) →
        read.runWith id Region.serve (.ofBytes bytes) =
          (.error (.numberOutOfRange .varint), ⟨10, bytes.drop 10⟩)) ∧
    ∀ value : UInt64, (encode value.toNat).length ≤ 10 ∧ splitWord value = encode value.toNat ∧
      (∀ rest, read.runWith id Region.serve (.ofBytes (encode value.toNat ++ rest)) =
        (.ok value.toNat, ⟨(encode value.toNat).length, rest⟩)) ∧
      ∀ bytes after, read.runWith id Region.serve (.ofBytes bytes) = (.ok value.toNat, after) →
        (encode value.toNat).length ≤ after.position := by
  refine ⟨fun bytes k hComplete => ⟨read_of_complete hComplete, hComplete.groupSum_lt,
    fun i hLe => ?_, hComplete.toNat_joinGroups⟩, fun bytes => read_of_short,
    fun bytes => read_of_long, fun value => ⟨?_, splitWord_eq value, ?_, ?_⟩⟩
  · exact groupSum_digit (Nat.lt_succ_of_le hLe)
  · exact length_encode_le (Nat.lt_of_lt_of_le value.toNat_lt (by decide))
  · exact (reads_encode value.toNat_lt).region
  · intro bytes after hRead
    obtain ⟨k, _, hValue, hPosition⟩ := complete_of_read hRead
    rw [hPosition, hValue]
    exact length_encode_le (Varint.groupSum_lt bytes (k + 1))

/-- The largest number takes ten bytes. With one more bit in the tenth byte the bytes are no number,
nine bytes of them end too soon, and two bytes may stand for zero. -/
theorem read_largest :
    read.runWith id Region.serve (.ofBytes (List.replicate 9 0x7f ++ [0x81])) =
        (.ok 18446744073709551615, ⟨10, []⟩) ∧
      read.runWith id Region.serve (.ofBytes (List.replicate 9 0x7f ++ [0x82, 0xff])) =
        (.error (.numberOutOfRange .varint), ⟨10, [0xff]⟩) ∧
      read.runWith id Region.serve (.ofBytes (List.replicate 9 0x7f)) =
        (.error (.streamClosed 1 0), ⟨9, []⟩) ∧
      read.runWith id Region.serve (.ofBytes [0x00, 0x80]) = (.ok 0, ⟨2, []⟩) ∧
      (encode 0).length ≤ 2 := by
  obtain ⟨hComplete, hShort, hLong, hEncode⟩ := read_groups
  have hZero : read.runWith id Region.serve (.ofBytes [0x00, 0x80]) = (.ok 0, ⟨2, []⟩) :=
    (hComplete [0x00, 0x80] 1 ⟨by decide, by decide⟩).1
  refine ⟨(hComplete (List.replicate 9 0x7f ++ [0x81]) 9 ⟨by decide, by decide⟩).1,
    hLong (List.replicate 9 0x7f ++ [0x82, 0xff]) ?_ (by decide),
    hShort (List.replicate 9 0x7f) (by decide) (by decide), hZero, (hEncode 0).2.2.2 _ _ hZero⟩
  rintro k ⟨hPlace, hRoom⟩
  obtain rfl : 9 = k := Option.some.inj hPlace
  revert hRoom
  decide

end Interchange.Wire.Varint

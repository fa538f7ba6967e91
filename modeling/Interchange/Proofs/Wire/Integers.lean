import Interchange.Proofs.Wire.Reads
import Interchange.Wire.Codec.Decode

/-!
# Integers in their widths

Signed integers are folded onto the natural numbers before they are written. In a word of 64 bits
the fold is two shifts and an exclusive or, and it reaches every word once. Folding keeps the width:
the integers of a width are folded onto the numbers of that width, half of them negative. So a
number on the wire is an integer of a type exactly if it has room in the width of the type, whether
the type is signed or not.

* `Zigzag.foldWord`, `Zigzag.unfoldWord`: the fold on words.
* `Zigzag.toNat_foldWord`, `Zigzag.toInt_unfoldWord`: folding words is folding integers.
* `Zigzag.decode_inRange_iff`: the width of a folded integer.
* `InWidth`: what a reader of integers makes of a number.
* `decode_integer`: the range of every integer type.
-/

namespace Interchange.Wire

open Schema (Builtin)

/-! ## Folding words -/

namespace Zigzag

/-- Folds a word: the sign becomes the lowest bit, and a negative integer has its other bits
flipped. -/
def foldWord (n : Int64) : UInt64 :=
  ((n <<< 1) ^^^ (n >>> 63)).toUInt64

/-- Unfolds a word: the lowest bit tells whether the others are flipped. -/
def unfoldWord (u : UInt64) : Int64 :=
  (u >>> 1).toInt64 ^^^ -(u &&& 1).toInt64

/-- Shifting the sign over the whole word leaves a mask. -/
theorem sshiftRight_eq_mask (x : BitVec 64) :
    x.sshiftRight 63 = if x.msb then BitVec.allOnes 64 else 0#64 := by
  have hLt := x.isLt
  refine BitVec.eq_of_toNat_eq ?_
  cases hSign : x.msb with
  | false =>
    have hLow := BitVec.msb_eq_false_iff_two_mul_lt.1 hSign
    rw [BitVec.toNat_sshiftRight_of_msb_false hSign, Nat.shiftRight_eq_div_pow]
    simp only [Bool.false_eq_true, if_false, BitVec.toNat_ofNat]
    omega
  | true =>
    have hHigh := BitVec.msb_eq_true_iff_two_mul_ge.1 hSign
    rw [BitVec.toNat_sshiftRight_of_msb_true hSign, Nat.shiftRight_eq_div_pow]
    simp only [if_true, BitVec.toNat_allOnes]
    omega

/-- Folding a word is folding its integer, and the result has room in a word. -/
theorem toNat_foldWord (n : Int64) : (foldWord n).toNat = encode n.toInt := by
  show ((n.toBitVec <<< 1) ^^^ n.toBitVec.sshiftRight 63).toNat = encode n.toBitVec.toInt
  generalize n.toBitVec = x
  have hLt := x.isLt
  have hInt := BitVec.toInt_eq_msb_cond x
  have hDouble : (x <<< 1).toNat = x.toNat * 2 % 2 ^ 64 := by
    rw [BitVec.toNat_shiftLeft, Nat.shiftLeft_eq, Nat.pow_one]
  rw [sshiftRight_eq_mask, encode]
  cases hSign : x.msb with
  | false =>
    have hLow := BitVec.msb_eq_false_iff_two_mul_lt.1 hSign
    rw [hSign, if_neg Bool.false_ne_true] at hInt
    rw [if_neg Bool.false_ne_true, BitVec.xor_zero, hDouble, if_pos (by omega)]
    omega
  | true =>
    have hHigh := BitVec.msb_eq_true_iff_two_mul_ge.1 hSign
    rw [hSign, if_pos rfl] at hInt
    rw [if_pos rfl, BitVec.xor_allOnes, BitVec.toNat_not, hDouble, if_neg (by omega)]
    omega

/-- The lowest bit of a word, negated, is a mask. -/
theorem neg_lowest_eq_mask (x : BitVec 64) :
    -(x &&& 1#64) = if x.toNat % 2 = 0 then 0#64 else BitVec.allOnes 64 := by
  have hBit : (x &&& 1#64).toNat = x.toNat % 2 := by
    rw [BitVec.toNat_and]
    exact Nat.and_one_is_mod x.toNat
  refine BitVec.eq_of_toNat_eq ?_
  rw [BitVec.toNat_neg, hBit]
  split
  next hEven =>
    rw [hEven]
    rfl
  next hOdd =>
    rw [Nat.mod_two_ne_zero.1 hOdd]
    rfl

/-- Unfolding a word is unfolding its number, and the result has room in a word. -/
theorem toInt_unfoldWord (u : UInt64) : (unfoldWord u).toInt = decode u.toNat := by
  show ((u.toBitVec >>> 1) ^^^ -(u.toBitVec &&& 1#64)).toInt = decode u.toBitVec.toNat
  generalize u.toBitVec = x
  have hLt := x.isLt
  have hHalf : (x >>> 1).toNat = x.toNat / 2 := by
    rw [BitVec.toNat_ushiftRight, Nat.shiftRight_eq_div_pow, Nat.pow_one]
  rw [neg_lowest_eq_mask, decode]
  split
  next hEven => rw [BitVec.xor_zero, BitVec.toInt_eq_toNat_cond, hHalf, if_pos (by omega)]
  next hOdd =>
    rw [BitVec.xor_allOnes, BitVec.toInt_eq_toNat_cond, BitVec.toNat_not, hHalf, if_neg (by omega)]
    omega

theorem unfoldWord_foldWord (n : Int64) : unfoldWord (foldWord n) = n := by
  rw [← Int64.toInt_inj, toInt_unfoldWord, toNat_foldWord, decode_encode]

theorem foldWord_unfoldWord (u : UInt64) : foldWord (unfoldWord u) = u := by
  rw [← UInt64.toNat_inj, toNat_foldWord, toInt_unfoldWord, encode_decode]

/-- A number unfolds to one of the integers of a width exactly if it has room in that width. -/
theorem decode_inRange_iff (u half : Nat) :
    (-(half : Int) ≤ decode u ∧ decode u < half) ↔ u < 2 * half := by
  rw [decode]
  split <;> omega

end Zigzag

/-! ## Integer types -/

/-- The integer types, each with its sign and its width in bits. -/
inductive IntegerType : (kind : Builtin) → (signed : Bool) → (width : Nat) → Prop
  | int8 : IntegerType .int8 true 8
  | int16 : IntegerType .int16 true 16
  | int32 : IntegerType .int32 true 32
  | int64 : IntegerType .int64 true 64
  | uint8 : IntegerType .uint8 false 8
  | uint16 : IntegerType .uint16 false 16
  | uint32 : IntegerType .uint32 false 32
  | uint64 : IntegerType .uint64 false 64

/-- The integer that a scalar is. -/
def Scalar.integer? : Scalar → Option Int
  | int8 value => some value.toInt
  | int16 value => some value.toInt
  | int32 value => some value.toInt
  | int64 value => some value.toInt
  | uint8 value => some value.toNat
  | uint16 value => some value.toNat
  | uint32 value => some value.toNat
  | uint64 value => some value.toNat
  | _ => none

section

variable {ε σ : Type} {raise : WireError → ε} {serve : (n : Nat) → σ → Except ε (Block n) × σ}

/-- What a reader of integers makes of a number on the wire: the integer that it stands for if it
has room in the width of the type, and an error otherwise. -/
structure InWidth (raise : WireError → ε) (kind : Builtin) (signed : Bool) (width u : Nat)
    (result : Except ε Value) : Prop where
  accepted : u < 2 ^ width → ∃ scalar n, result = .ok (.scalar scalar) ∧ scalar.kind = kind ∧
    scalar.integer? = some n ∧ (signed = true → Zigzag.encode n = u) ∧ (signed = false → n = u)
  refused : 2 ^ width ≤ u → result = .error (raise (.numberOutOfRange (.integer kind)))

/-! ## Reading -/

variable {source after : σ} {u : Nat} {kind : Builtin} {signed : Bool} {width : Nat}
  {default : Value}

theorem Reading.runWith_bind_of_ok {α β : Type} {reading : Reading α}
    {f : α → Reading β} {value : α}
    (hRun : reading.runWith raise serve source = (.ok value, after)) :
    (reading >>= f).runWith raise serve source = (f value).runWith raise serve after := by
  show (reading.bind f).runWith raise serve source = _
  rw [runWith_bind, hRun]

theorem Reading.runWith_map {α β : Type} {reading : Reading α} {result : Except ε α}
    (hRun : reading.runWith raise serve source = (result, after)) (f : α → β) :
    (reading >>= fun value => pure (f value)).runWith raise serve source =
      (result.map f, after) := by
  show (reading.bind _).runWith raise serve source = _
  rw [runWith_bind, hRun]
  cases result with
  | ok value => rfl
  | error failure => rfl

/-- A number on the wire that is narrowed to a width: itself, or what it stands for, if it has
room. -/
def narrowed {α : Type} (raise : WireError → ε) (kind : Builtin) (size u : Nat)
    (value : α) : Except ε α :=
  if u < size then .ok value else .error (raise (.numberOutOfRange (.integer kind)))

theorem Scalar.runWith_readSigned (kind : Builtin) (half : Nat)
    (hRead : Varint.read.runWith raise serve source = (.ok u, after)) :
    (readSigned kind half).runWith raise serve source =
      (narrowed raise kind (2 * half) u (Zigzag.decode u), after) := by
  rw [readSigned, Reading.runWith_bind_of_ok hRead, narrowed]
  simp only [Zigzag.decode_inRange_iff]
  split
  · rfl
  · rfl

theorem Scalar.runWith_readUnsigned (kind : Builtin) (size : Nat)
    (hRead : Varint.read.runWith raise serve source = (.ok u, after)) :
    (readUnsigned kind size).runWith raise serve source =
      (narrowed raise kind size u u, after) := by
  rw [readUnsigned, Reading.runWith_bind_of_ok hRead, narrowed]
  split
  · rfl
  · rfl

/-- A codec whose type narrows the number and makes a scalar of what comes out. -/
theorem decode_narrowed {α : Type} {number : Reading α} {value : α} {make : α → Scalar} {n : Int}
    (hType : Scalar.read kind = number >>= fun value => pure (make value))
    (hNumber : number.runWith raise serve source = (narrowed raise kind (2 ^ width) u value, after))
    (hKind : (make value).kind = kind) (hInteger : u < 2 ^ width → (make value).integer? = some n)
    (hSigned : signed = true → Zigzag.encode n = u) (hUnsigned : signed = false → n = u) :
    ∃ result, (Codec.scalar kind default).decode.runWith raise serve source = (result, after) ∧
      InWidth raise kind signed width u result := by
  have hScalar := Reading.runWith_map hNumber make
  rw [← hType] at hScalar
  refine ⟨_, Reading.runWith_map hScalar Value.scalar, fun hFits => ?_, fun hWide => ?_⟩
  · rw [narrowed, if_pos hFits]
    exact ⟨make value, n, rfl, hKind, hInteger hFits, hSigned, hUnsigned⟩
  · rw [narrowed, if_neg (Nat.not_lt.2 hWide)]
    rfl

/-- A signed type, of which `make` makes scalars of the integers of its width. -/
theorem decode_signed {half : Nat} {make : Int → Scalar}
    (hType : Scalar.read kind = Scalar.readSigned kind half >>= fun n => pure (make n))
    (hHalf : 2 * half = 2 ^ width) (hKind : ∀ n, (make n).kind = kind)
    (hMake : ∀ n : Int, -half ≤ n → n < half → (make n).integer? = some n)
    (hRead : Varint.read.runWith raise serve source = (.ok u, after)) :
    ∃ result, (Codec.scalar kind default).decode.runWith raise serve source = (result, after) ∧
      InWidth raise kind true width u result := by
  have hNumber := Scalar.runWith_readSigned kind half hRead
  rw [hHalf] at hNumber
  refine decode_narrowed hType hNumber (hKind _) (fun hFits => ?_) (fun _ => Zigzag.encode_decode u)
    Bool.noConfusion
  rw [← hHalf] at hFits
  obtain ⟨hLow, hHigh⟩ := (Zigzag.decode_inRange_iff u half).2 hFits
  exact hMake _ hLow hHigh

/-- An unsigned type, of which `make` makes scalars of the numbers of its width. -/
theorem decode_unsigned {make : Nat → Scalar}
    (hType : Scalar.read kind = Scalar.readUnsigned kind (2 ^ width) >>= fun n => pure (make n))
    (hKind : ∀ n, (make n).kind = kind) (hMake : ∀ n < 2 ^ width, (make n).integer? = some n)
    (hRead : Varint.read.runWith raise serve source = (.ok u, after)) :
    ∃ result, (Codec.scalar kind default).decode.runWith raise serve source = (result, after) ∧
      InWidth raise kind false width u result :=
  decode_narrowed hType (Scalar.runWith_readUnsigned kind (2 ^ width) hRead) (hKind u) (hMake u)
    Bool.noConfusion fun _ => rfl

end

/-- Folding words is a bijection between the signed and the unsigned words, and it is the fold of
the integers that they are. From any source, a number that is read for an integer type is an integer
of that type exactly if it has room in the width of the type: a signed one is unfolded, an unsigned
one is the number itself, and a number that is too large is reported. Nothing is taken but the
number. -/
theorem decode_integer :
    Function.LeftInverse Zigzag.unfoldWord Zigzag.foldWord ∧
    Function.RightInverse Zigzag.unfoldWord Zigzag.foldWord ∧
    (∀ n : Int64, Zigzag.encode n.toInt = (Zigzag.foldWord n).toNat) ∧
    (∀ u : UInt64, Zigzag.decode u.toNat = (Zigzag.unfoldWord u).toInt) ∧
    ∀ (kind : Builtin) (signed : Bool) (width : Nat), IntegerType kind signed width →
      ∀ (default : Value) (ε σ : Type) (raise : WireError → ε)
        (serve : (n : Nat) → σ → Except ε (Block n) × σ) (source after : σ) (u : Nat),
        Varint.read.runWith raise serve source = (.ok u, after) →
          ∃ result,
            (Codec.scalar kind default).decode.runWith raise serve source = (result, after) ∧
            InWidth raise kind signed width u result := by
  refine ⟨Zigzag.unfoldWord_foldWord, Zigzag.foldWord_unfoldWord,
    fun n => (Zigzag.toNat_foldWord n).symm, fun u => (Zigzag.toInt_unfoldWord u).symm, ?_⟩
  intro kind signed width hType default ε σ raise serve source after u hRead
  cases hType with
  | int8 =>
    refine decode_signed rfl rfl (fun _ => rfl) (fun n hLow hHigh => ?_) hRead
    exact congrArg some (Int8.toInt_ofInt_of_le hLow hHigh)
  | int16 =>
    refine decode_signed rfl rfl (fun _ => rfl) (fun n hLow hHigh => ?_) hRead
    exact congrArg some (Int16.toInt_ofInt_of_le hLow hHigh)
  | int32 =>
    refine decode_signed rfl rfl (fun _ => rfl) (fun n hLow hHigh => ?_) hRead
    exact congrArg some (Int32.toInt_ofInt_of_le hLow hHigh)
  | int64 =>
    refine decode_signed rfl rfl (fun _ => rfl) (fun n hLow hHigh => ?_) hRead
    exact congrArg some (Int64.toInt_ofInt_of_le hLow hHigh)
  | uint8 =>
    refine decode_unsigned rfl (fun _ => rfl) (fun n hFits => ?_) hRead
    exact congrArg (fun n : Nat => some (n : Int)) (UInt8.toNat_ofNat_of_lt' hFits)
  | uint16 =>
    refine decode_unsigned rfl (fun _ => rfl) (fun n hFits => ?_) hRead
    exact congrArg (fun n : Nat => some (n : Int)) (UInt16.toNat_ofNat_of_lt' hFits)
  | uint32 =>
    refine decode_unsigned rfl (fun _ => rfl) (fun n hFits => ?_) hRead
    exact congrArg (fun n : Nat => some (n : Int)) (UInt32.toNat_ofNat_of_lt' hFits)
  | uint64 =>
    refine decode_unsigned rfl (fun _ => rfl) (fun n hFits => ?_) hRead
    exact congrArg (fun n : Nat => some (n : Int)) (UInt64.toNat_ofNat_of_lt' hFits)

/-- The largest number of eight bits is the least integer of that width, the next number is too
large for it, and the largest number of all is the least integer of 64 bits. -/
theorem decode_extremes :
    (∃ scalar, (Codec.scalar .int8 (.scalar (.int8 0))).decode.runWith id Region.serve
        (.ofBytes [0x7f, 0x81]) = (.ok (.scalar scalar), ⟨2, []⟩) ∧ scalar.integer? = some (-128)) ∧
      (Codec.scalar .int8 (.scalar (.int8 0))).decode.runWith id Region.serve
        (.ofBytes [0x00, 0x82]) =
        (.error (.numberOutOfRange (.integer .int8)), ⟨2, []⟩) ∧
      (∃ scalar, (Codec.scalar .int64 (.scalar (.int64 0))).decode.runWith id Region.serve
        (.ofBytes (List.replicate 9 0x7f ++ [0x81])) = (.ok (.scalar scalar), ⟨10, []⟩) ∧
          scalar.integer? = some Int64.minValue.toInt) ∧
      Zigzag.foldWord Int64.minValue = 18446744073709551615 := by
  obtain ⟨-, hRight, -, -, hDecode⟩ := decode_integer
  have hUnfold : ∀ {n : Int} {u : Nat}, Zigzag.encode n = u → n = Zigzag.decode u := by
    rintro n _ rfl
    exact (Zigzag.decode_encode n).symm
  refine ⟨?_, ?_, ?_, hRight 18446744073709551615⟩
  · obtain ⟨_, hRun, hWidth⟩ := hDecode .int8 true 8 .int8 (.scalar (.int8 0)) WireError Region id
      Region.serve (.ofBytes [0x7f, 0x81]) ⟨2, []⟩ 255 rfl
    obtain ⟨scalar, n, rfl, _, hInteger, hFold, _⟩ := hWidth.accepted (by decide)
    exact ⟨scalar, hRun, hInteger.trans (congrArg some (hUnfold (hFold rfl)))⟩
  · obtain ⟨_, hRun, hWidth⟩ := hDecode .int8 true 8 .int8 (.scalar (.int8 0)) WireError Region id
      Region.serve (.ofBytes [0x00, 0x82]) ⟨2, []⟩ 256 rfl
    rwa [hWidth.refused (by decide)] at hRun
  · obtain ⟨_, hRun, hWidth⟩ :=
      hDecode .int64 true 64 .int64 (.scalar (.int64 0)) WireError Region id
      Region.serve (.ofBytes (List.replicate 9 0x7f ++ [0x81])) ⟨10, []⟩ 18446744073709551615 rfl
    obtain ⟨scalar, n, rfl, _, hInteger, hFold, _⟩ := hWidth.accepted (by decide)
    exact ⟨scalar, hRun, hInteger.trans (congrArg some (hUnfold (hFold rfl)))⟩

end Interchange.Wire

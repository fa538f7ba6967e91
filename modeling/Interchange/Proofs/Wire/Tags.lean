import Interchange.Proofs.Wire.Messages

/-!
# Codecs that carry tags

A tag is written as the number of its variant and the payload behind it. The default, which is the
variant zero with the default of its payload, is written as nothing.

* `carries_tag_default`: the default, also if no variant has the number zero.
* `carries_bare`: a variant without a payload.
* `carries_payload`: a variant with a payload, which may be missing.
-/

namespace Interchange.Wire.Codec

open Schema (Builtin ModelPart)
open Reading

/-- The default of a tag. -/
def tagDefault (variants : List (ModelPart (Option Codec))) : Value :=
  .tag 0 (((ModelPart.find? variants 0).bind ModelPart.content).map default)

/-- The variant that is written is the one with the number. -/
theorem encodeVariant_eq (name : String) (variants : List (ModelPart (Option Codec)))
    (number : UInt32) (payload : Option Value) :
    encodeVariant name variants number payload =
      match ModelPart.find? variants number with
      | none => .fail (.invalidTagValue name number.toNat)
      | some ⟨_, variant, none⟩ =>
        match payload with
        | some value => .fail (.undeclaredPayload name variant value.typeName)
        | none => if number = 0 then empty else framed (.piece (Varint.encode number.toNat))
      | some ⟨_, _, some codec⟩ =>
        if number = 0 ∧ payload.getD codec.default = codec.default then empty
        else framed ((Writing.piece (Varint.encode number.toNat)).andThen
          (codec.encode (payload.getD codec.default))) := by
  induction variants with
  | nil => rfl
  | cons variant rest ih =>
    obtain ⟨declared, variant, content⟩ := variant
    by_cases hNumber : declared = number
    · have hFind : ModelPart.find? (⟨declared, variant, content⟩ :: rest) number =
          some ⟨declared, variant, content⟩ := by
        simp [ModelPart.find?, hNumber]
      rw [hFind]
      cases content with
      | none => cases payload <;> rw [encodeVariant, if_pos hNumber]
      | some codec => rw [encodeVariant, if_pos hNumber]
    · have hFind : ModelPart.find? (⟨declared, variant, content⟩ :: rest) number =
          ModelPart.find? rest number := by
        simp [ModelPart.find?, hNumber]
      rw [hFind, ← ih]
      cases content with
      | none => cases payload <;> rw [encodeVariant, if_neg hNumber]
      | some codec => rw [encodeVariant, if_neg hNumber]

/-! ## Regions of tags -/

theorem find?_variantReaders (variants : List (ModelPart (Option Codec))) (number : UInt32) :
    ((variantReaders variants).find? fun part => part.number.toNat == number.toNat) =
      (ModelPart.find? variants number).map
        (ModelPart.map (Option.map fun codec => (codec.default, codec.decode))) := by
  rw [variantReaders_eq_map, find?_toNat]
  intro variant
  rfl

theorem tagOf_bare {name variant : String} {default : Value} {number : UInt32}
    {variants : List (ModelPart (Option Codec))}
    (hFind : ModelPart.find? variants number = some ⟨number, variant, none⟩) :
    tagOf name default (variantReaders variants) (Varint.encode number.toNat) =
      .ok (.tag number none) := by
  have hRead : Varint.read.run (Varint.encode number.toNat) = (.ok number.toNat, []) := by
    simpa using Varint.reads_encode (Nat.lt_trans number.toNat_lt (by decide)) []
  rw [tagOf, if_neg (by simp [Varint.encode_ne_nil]), hRead]
  simp only [find?_variantReaders, hFind]
  rfl

theorem tagOf_payload {name variant : String} {default result : Value} {number : UInt32}
    {variants : List (ModelPart (Option Codec))} {codec : Codec} {bytes : Bytes}
    (hFind : ModelPart.find? variants number = some ⟨number, variant, some codec⟩)
    (hEmpty : bytes = [] → result = codec.default) (hReads : codec.decode.Reads bytes result) :
    tagOf name default (variantReaders variants) (Varint.encode number.toNat ++ bytes) =
      .ok (.tag number (some result)) := by
  have hRead := Varint.reads_encode (Nat.lt_trans number.toNat_lt (by decide)) bytes
  have hPayload : payloadOf codec.default codec.decode bytes = .ok result := by
    rw [payloadOf]
    by_cases hNil : bytes = []
    · rw [if_pos (by simp [hNil]), hEmpty hNil]
    · have hRun := hReads []
      rw [List.append_nil] at hRun
      rw [if_neg (by simp [hNil]), hRun]
  rw [tagOf, if_neg (by simp [Varint.encode_ne_nil]), hRead]
  simp only [find?_variantReaders, hFind, Option.map_some, ModelPart.map, hPayload]
  rfl

/-! ## Tags -/

section

variable {writers readers : List (ModelPart (Option Codec))} (name name' : String)

theorem reads_tag {region : Bytes} {result : Value} (hLength : region.length < 2 ^ 64)
    (hTag : tagOf name' (tagDefault readers) (variantReaders readers) region = .ok result) :
    (tagCodec name' readers).decode.Reads (lengthPrefixed region) result :=
  (reads_region hLength).bind_nil (reads_ofExcept hTag)

/-- What is written as nothing comes back as the default. -/
theorem carries_nothing {value : Value}
    (hWritten : ((tagCodec name writers).encode value).toBytes = .ok (lengthPrefixed [])) :
    (tagCodec name writers).Carries (tagCodec name' readers) value (tagDefault readers)
      (lengthPrefixed []) :=
  carries_region [] rfl rfl hWritten fun hLength => reads_tag name' hLength rfl

theorem carries_tag_default :
    (tagCodec name writers).Carries (tagCodec name' readers) (tagDefault writers)
      (tagDefault readers) (lengthPrefixed []) := by
  refine carries_nothing name name' ?_
  rw [tagCodec, tagDefault, encode, if_pos rfl]
  exact toBytes_empty

/-- A variant without a payload. -/
theorem carries_bare {number : UInt32} {variant variant' : String}
    (hWriter : ModelPart.find? writers number = some ⟨number, variant, none⟩)
    (hReader : ModelPart.find? readers number = some ⟨number, variant', none⟩) :
    ∃ bytes, (tagCodec name writers).Carries (tagCodec name' readers) (.tag number none)
      (.tag number none) bytes := by
  by_cases hZero : number = 0
  · subst hZero
    have hDefaults : (tagCodec name writers).Carries (tagCodec name' readers)
        (tagDefault writers) (tagDefault readers) _ := carries_tag_default name name'
    simp only [tagDefault, hWriter, hReader, Option.bind_some, Option.map_none] at hDefaults
    exact ⟨_, hDefaults⟩
  · have hOther : Value.tag number none ≠ tagDefault writers := by
      intro hEq
      exact hZero (Value.tag.inj hEq).1
    refine ⟨_, carries_region (Varint.encode number.toNat) rfl rfl ?_ fun hLength => ?_⟩
    · rw [tagCodec, encode, ← tagDefault, if_neg hOther, encodeVariant_eq, hWriter]
      simp only [if_neg hZero]
      exact toBytes_framed (Writing.toBytes_piece _)
    · exact reads_tag name' hLength (tagOf_bare hReader)

/-- A variant with a payload. A payload that is missing is the default. -/
theorem carries_payload {number : UInt32} {variant variant' : String} {writer reader : Codec}
    {payload : Option Value} {result : Value} {bytes : Bytes}
    (hWriter : ModelPart.find? writers number = some ⟨number, variant, some writer⟩)
    (hReader : ModelPart.find? readers number = some ⟨number, variant', some reader⟩)
    (hCarries : writer.Carries reader (payload.getD writer.default) result bytes)
    (hDefault : payload.getD writer.default = writer.default → result = reader.default) :
    ∃ bytes, (tagCodec name writers).Carries (tagCodec name' readers) (.tag number payload)
      (.tag number (some result)) bytes := by
  by_cases hNothing : number = 0 ∧ payload.getD writer.default = writer.default
  · obtain ⟨rfl, hPayload⟩ := hNothing
    have hResult : tagDefault readers = .tag 0 (some result) := by
      simp [tagDefault, hReader, hDefault hPayload]
    rw [← hResult]
    refine ⟨_, carries_nothing name name' ?_⟩
    rw [tagCodec, encode]
    split
    · exact toBytes_empty
    · rw [encodeVariant_eq, hWriter]
      simp only [hPayload, and_self, if_true]
      exact toBytes_empty
  · have hOther : Value.tag number payload ≠ tagDefault writers := by
      intro hEq
      obtain ⟨rfl, hPayload⟩ := Value.tag.inj hEq
      refine hNothing ⟨rfl, ?_⟩
      simp [hPayload, hWriter]
    refine ⟨_, carries_region (Varint.encode number.toNat ++ bytes) rfl rfl ?_ fun hLength => ?_⟩
    · rw [tagCodec, encode, ← tagDefault, if_neg hOther, encodeVariant_eq, hWriter]
      simp only [if_neg hNothing]
      exact toBytes_framed (Writing.toBytes_andThen (Writing.toBytes_piece _) hCarries.written)
    · refine reads_tag name' hLength (tagOf_payload hReader (fun hNil => (hCarries.void hNil).2) ?_)
      rw [List.length_append] at hLength
      exact hCarries.reads (by omega)

end

end Interchange.Wire.Codec

import Interchange.Proofs.Wire.Shape
import Interchange.Wire.Shelf

/-!
# Codecs and shapes

The codec of a closed type depends on the shape of the type and on the codecs of the types that the
shape refers to, and on nothing else. Every proper type has one.

* `Shape.codec?`: the codec of a shape.
* `Proper.codecOf_eq`: the codec of a type is the codec of its shape.
-/

namespace Interchange.Wire

open Schema

namespace Shape

/-- The codec of a payload, if there is one. -/
def payloadCodec? (build : ClosedType → Option Codec) : Option ClosedType → Option (Option Codec)
  | none => some none
  | some type => (build type).map some

/-- The codec of a shape, with the codecs of its parts from `build`. -/
def codec? (build : ClosedType → Option Codec) (name : String) : Shape → Option Codec
  | scalar kind => some (.scalar kind (.scalar (Scalar.zero kind)))
  | string => some (.string (.string ""))
  | bytes => some (.bytes (.bytes []))
  | array element => (build element).map (.array · (.array []))
  | map key value =>
    (build key).bind fun keyCodec =>
      (build value).map fun valueCodec => .map keyCodec valueCodec (.map [])
  | message fields => (partsWith build fields).map (messageCodec name)
  | tag variants => (partsWith (payloadCodec? build) variants).map (tagCodec name)

theorem payloadCodec?_eq_some {build : ClosedType → Option Codec} {payload : Option ClosedType}
    {codec? : Option Codec} : payloadCodec? build payload = some codec? ↔
      Option.Rel (fun inner codec => build inner = some codec) payload codec? := by
  cases payload with
  | none => cases codec? <;> simp [payloadCodec?]
  | some inner => cases codec? <;> simp [payloadCodec?]

end Shape

/-! ## Instances -/

theorem instancesOf_eq_some {build : Nat → List Instance → Option Codec} {args : List Instance}
    {references : List TypeRef} {instances : List Instance} :
    instancesOf build args references = some instances ↔
      List.Forall₂ (fun reference found => instanceOf build args reference = some found) references
        instances := by
  induction references generalizing instances with
  | nil => simp [instancesOf, eq_comm]
  | cons reference rest ih =>
    simp only [instancesOf, Option.bind_eq_bind, Option.bind_eq_some_iff, Option.pure_def,
      Option.some.injEq, ih, List.forall₂_cons_left_iff]
    constructor
    · rintro ⟨first, hFirst, others, hRest, rfl⟩
      exact ⟨first, others, hFirst, hRest, rfl⟩
    · rintro ⟨first, others, hFirst, hRest, rfl⟩
      exact ⟨first, hFirst, others, hRest, rfl⟩

/-- Building gives the codecs of the types of earlier definitions. -/
def BuildsCodecs (definitions earlier : List Definition)
    (build : Nat → List Instance → Option Codec) :
    Prop :=
  ∀ (target : Nat) (definition : Definition) (instances : List Instance),
    earlier[target]? = some definition →
    (∀ found ∈ instances, found.Faithful definitions) → instances.length = definition.arity →
    ∃ codec, build target instances = some codec ∧
      codecOf definitions (.mk target (instances.map Instance.type)) = some codec

/-- The instance of a reference is the type that it becomes, with the codec of that type. -/
theorem instanceOf_spec {definitions earlier : List Definition} {owner : Nat}
    {build : Nat → List Instance → Option Codec} {args : List Instance} {reference : TypeRef}
    (hBuild : BuildsCodecs definitions earlier build)
    (hArgs : ∀ found ∈ args, found.Faithful definitions)
    (hFits : reference.Fits earlier owner args.length) :
    ∃ found, instanceOf build args reference = some found ∧ found.Faithful definitions ∧
      reference.close (args.map Instance.type) = some found.type := by
  induction hFits with
  | parameter hIndex =>
    refine ⟨_, List.getElem?_eq_getElem hIndex, hArgs _ (List.getElem_mem hIndex), ?_⟩
    simp [TypeRef.close, hIndex]
  | @model site target inner definition hTarget _ hArity _ ih =>
    obtain ⟨instances, hInstances⟩ := exists_forall₂ ih
    have hFaithful : ∀ found ∈ instances, found.Faithful definitions := by
      intro found hFound
      obtain ⟨_, _, _, hOne, _⟩ := exists_of_mem_right hInstances hFound
      exact hOne
    have hTypes : TypeRef.closeAll (args.map Instance.type) inner =
        some (instances.map Instance.type) := by
      rw [closeAll_eq_some, List.forall₂_map_right_iff]
      exact hInstances.imp fun _ _ hOne => hOne.2.2
    obtain ⟨codec, hCodec, hType⟩ := hBuild target definition instances hTarget hFaithful
      (hInstances.length_eq.symm.trans hArity)
    refine ⟨⟨.mk target (instances.map Instance.type), codec⟩, ?_, hType, ?_⟩
    · rw [instanceOf, instancesOf_eq_some.2 (hInstances.imp fun _ _ hOne => hOne.1)]
      simp [hCodec]
    · rw [TypeRef.close, hTypes]

/-! ## Definitions -/

/-- Parts whose contents can be taken in two steps, and in one. -/
theorem partsWith_exists {α β γ : Type} {f : α → Option β} {g : β → Option γ} {h : α → Option γ}
    {parts : List (ModelPart α)}
    (hEach : ∀ part ∈ parts, ∃ b c, f part.content = some b ∧ g b = some c ∧
      h part.content = some c) :
    ∃ bs cs, partsWith f parts = some bs ∧ partsWith g bs = some cs ∧
      partsWith h parts = some cs := by
  induction parts with
  | nil => exact ⟨[], [], rfl, rfl, rfl⟩
  | cons part rest ih =>
    obtain ⟨⟨b, c, hf, hg, hh⟩, hRest⟩ := List.forall_mem_cons.1 hEach
    obtain ⟨bs, cs, hfs, hgs, hhs⟩ := ih hRest
    refine ⟨⟨part.number, part.name, b⟩ :: bs, ⟨part.number, part.name, c⟩ :: cs, ?_, ?_, ?_⟩
    · simp [partsWith, hf, hfs]
    · simp [partsWith, hg, hgs]
    · simp [partsWith, hh, hhs]

theorem builtinCodec_spec {definitions : List Definition} {kind : Builtin} {args : List Instance}
    (name : String) (hArgs : ∀ found ∈ args, found.Faithful definitions)
    (hArity : args.length = kind.arity) :
    ∃ shape codec, Shape.ofBuiltin? definitions kind (args.map Instance.type) = some shape ∧
      shape.codec? (codecOf definitions) name = some codec ∧
      builtinCodec definitions kind args = some codec := by
  cases kind with
  | array =>
    obtain ⟨element, rfl⟩ := List.length_eq_one_iff.1 hArity
    have hElement : codecOf definitions element.type = some element.codec :=
      hArgs element List.mem_cons_self
    by_cases hByte : element.type.builtin? definitions = some .uint8
    · refine ⟨.bytes, _, ?_, rfl, ?_⟩
      · simp [Shape.ofBuiltin?, hByte]
      · simp [builtinCodec, hByte]
    · refine ⟨.array element.type, .array element.codec (.array []), ?_, ?_, ?_⟩
      · simp [Shape.ofBuiltin?, hByte]
      · simp [Shape.codec?, hElement]
      · simp [builtinCodec, hByte]
  | map =>
    obtain ⟨key, value, rfl⟩ := List.length_eq_two.1 hArity
    have hKey : codecOf definitions key.type = some key.codec := hArgs key (by simp)
    have hValue : codecOf definitions value.type = some value.codec := hArgs value (by simp)
    refine ⟨.map key.type value.type, .map key.codec value.codec (.map []), rfl, ?_, rfl⟩
    simp [Shape.codec?, hKey, hValue]
  | _ => exact ⟨_, _, rfl, rfl, rfl⟩

/-- The codec of a definition is the codec of its shape. -/
theorem bodyCodec_spec {definitions earlier : List Definition} {owner : Nat}
    {definition : Definition} {build : Nat → List Instance → Option Codec} {args : List Instance}
    (type : ClosedType) (hBuild : BuildsCodecs definitions earlier build)
    (hArgs : ∀ found ∈ args, found.Faithful definitions) (hArity : args.length = definition.arity)
    (hReferences : ∀ reference ∈ definition.references,
      reference.Fits earlier owner definition.arity) :
    ∃ shape codec,
      Shape.ofDefinition? definitions definition (args.map Instance.type) = some shape ∧
      shape.codec? (codecOf definitions) (type.describe definitions) = some codec ∧
      bodyCodec build definitions definition type args = some codec := by
  have hReference : ∀ reference ∈ definition.references, ∃ closed codec,
      reference.close (args.map Instance.type) = some closed ∧
      codecOf definitions closed = some codec ∧
      referenceCodec build args reference = some codec := by
    intro reference hMem
    have hFits := hReferences reference hMem
    rw [← hArity] at hFits
    obtain ⟨found, hFound, hFaithful, hClose⟩ := instanceOf_spec hBuild hArgs hFits
    exact ⟨found.type, found.codec, hClose, hFaithful, by simp [referenceCodec, hFound]⟩
  obtain ⟨identifier, parameters, body⟩ := definition
  cases body with
  | builtin kind => exact builtinCodec_spec _ hArgs hArity
  | message fields retired =>
    obtain ⟨types, codecs, hTypes, hCodecs, hParts⟩ := partsWith_exists fun field hField =>
      hReference field.content (List.mem_map_of_mem hField)
    refine ⟨.message types, messageCodec (type.describe definitions) codecs, ?_, ?_, ?_⟩
    · simp [Shape.ofDefinition?, hTypes]
    · simp [Shape.codec?, hCodecs]
    · simp [bodyCodec, hParts]
  | tag variants retired =>
    have hPayload : ∀ variant ∈ variants, ∃ closed codec,
        Shape.closePayload (args.map Instance.type) variant.content = some closed ∧
        Shape.payloadCodec? (codecOf definitions) closed = some codec ∧
        payloadCodec build args variant.content = some codec := by
      rintro ⟨number, name, payload⟩ hVariant
      cases payload with
      | none => exact ⟨none, none, rfl, rfl, rfl⟩
      | some reference =>
        obtain ⟨closed, codec, hClose, hCodec, hBuilt⟩ :=
          hReference reference (List.mem_filterMap.2 ⟨_, hVariant, rfl⟩)
        refine ⟨some closed, some codec, ?_, ?_, ?_⟩
        · simp [Shape.closePayload, hClose]
        · simp [Shape.payloadCodec?, hCodec]
        · simp [payloadCodec, hBuilt]
    obtain ⟨types, codecs, hTypes, hCodecs, hParts⟩ := partsWith_exists hPayload
    refine ⟨.tag types, tagCodec (type.describe definitions) codecs, ?_, ?_, ?_⟩
    · simp [Shape.ofDefinition?, hTypes]
    · simp [Shape.codec?, hCodecs]
    · simp [bodyCodec, hParts]

/-! ## Types -/

/-- Below its bound, building gives the codec of a type. -/
theorem codecAt_eq_codecOf {definitions : List Definition} {bound slot : Nat} {args : List Instance}
    (hBound : bound ≤ definitions.length) (hSlot : slot < bound)
    (hArgs : ∀ found ∈ args, found.Faithful definitions) :
    codecAt keepNothing definitions bound slot args =
      codecOf definitions (.mk slot (args.map Instance.type)) := by
  rw [codecOf_mk hArgs, codecAt_eq args bound hSlot,
    codecAt_eq args definitions.length (by omega)]

theorem codecOf_mk_spec {definitions : List Definition} (hArena : Arena definitions) {slot : Nat}
    {definition : Definition} {args : List Instance} (hSlot : definitions[slot]? = some definition)
    (hArgs : ∀ found ∈ args, found.Faithful definitions) (hArity : args.length = definition.arity) :
    ∃ shape codec, ClosedType.shape? definitions (.mk slot (args.map Instance.type)) = some shape ∧
      shape.codec? (codecOf definitions)
        (ClosedType.describe definitions (.mk slot (args.map Instance.type))) = some codec ∧
      codecOf definitions (.mk slot (args.map Instance.type)) = some codec := by
  -- The references of a definition lead to earlier places, so the induction is on the place.
  induction slot using Nat.strongRecOn generalizing definition args with
  | _ slot ih =>
    have hLess : slot < definitions.length := (List.getElem?_eq_some_iff.1 hSlot).1
    have hBuild : BuildsCodecs definitions (definitions.take slot)
        (codecAt keepNothing definitions slot) := by
      intro target other instances hTarget hFaithful hLength
      obtain ⟨hEarlier, hOther⟩ := getElem?_of_take hTarget
      obtain ⟨_, codec, _, _, hCodec⟩ := ih target hEarlier hOther hFaithful hLength
      exact ⟨codec, (codecAt_eq_codecOf (by omega) hEarlier hFaithful).trans hCodec, hCodec⟩
    obtain ⟨shape, codec, hShape, hCodec, hBody⟩ :=
      bodyCodec_spec (.mk slot (args.map Instance.type)) hBuild hArgs hArity
        (hArena.references slot definition hSlot)
    refine ⟨shape, codec, ?_, hCodec, ?_⟩
    · rw [ClosedType.shape?, ClosedType.slot, hSlot]
      exact hShape
    · rw [codecOf_mk hArgs, codecAt_eq args _ hLess, codecAt, if_pos rfl, hSlot]
      exact hBody

/-- Types with codecs are the types of faithful instances. -/
theorem exists_instances {definitions : List Definition} {types : List ClosedType}
    (hEach : ∀ type ∈ types, ∃ codec, codecOf definitions type = some codec) :
    ∃ instances : List Instance, instances.map Instance.type = types ∧
      ∀ found ∈ instances, found.Faithful definitions := by
  induction types with
  | nil => exact ⟨[], rfl, by simp⟩
  | cons type rest ih =>
    obtain ⟨⟨codec, hCodec⟩, hRest⟩ := List.forall_mem_cons.1 hEach
    obtain ⟨instances, rfl, hFaithful⟩ := ih hRest
    exact ⟨⟨type, codec⟩ :: instances, rfl, List.forall_mem_cons.2 ⟨hCodec, hFaithful⟩⟩

namespace ClosedType

/-- A proper type has a shape and a codec, and the codec is that of the shape. -/
theorem Proper.codec {definitions : List Definition} (hArena : Arena definitions)
    {type : ClosedType} (hType : type.Proper definitions) :
    ∃ shape codec, type.shape? definitions = some shape ∧
      shape.codec? (codecOf definitions) (type.describe definitions) = some codec ∧
      codecOf definitions type = some codec := by
  induction hType with
  | mk hSlot hArity _ ih =>
    obtain ⟨instances, rfl, hFaithful⟩ := exists_instances fun arg hArg => by
      obtain ⟨_, codec, _, _, hCodec⟩ := ih arg hArg
      exact ⟨codec, hCodec⟩
    exact codecOf_mk_spec hArena hSlot hFaithful (by simpa using hArity)

/-- The codec of a type is that of its shape. -/
theorem Proper.codecOf_eq {definitions : List Definition} (hArena : Arena definitions)
    {type : ClosedType} {shape : Shape} (hType : type.Proper definitions)
    (hShape : type.shape? definitions = some shape) :
    codecOf definitions type =
      shape.codec? (codecOf definitions) (type.describe definitions) := by
  obtain ⟨other, codec, hOther, hCodec, hType⟩ := hType.codec hArena
  cases hOther.symm.trans hShape
  rw [hType, hCodec]

end ClosedType

end Interchange.Wire

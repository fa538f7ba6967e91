import Interchange.Proofs.Wire.Tags
import Interchange.Proofs.Wire.TypeCodec
import Interchange.Wire.Transfer

/-!
# Typed values

A value has a type if it is made as the shape of the type says. A message may lack fields that its
type declares, and a tag may lack the payload of its variant, unless presence is required. Filling a
value puts the defaults of their types where something is missing, at every depth.

* `HasType`: the values of a type.
* `fill`: a value with nothing missing.
* `fill_of_required`: where nothing is missing, filling changes nothing.
* `codec_induction`: induction over the codec of a type.
* `default_hasType`: the default of a type is a value of the type in which nothing is missing.
* `HasType.required_fill`: where a value was filled, nothing is missing.
-/

namespace Interchange.Wire

open Schema (Arena Builtin Definition ModelPart Models)

/-- Whether fields and payloads that a type declares may be missing. -/
inductive Presence where
  | optional
  | required

/-- The values of a type. -/
inductive HasType (definitions : List Definition) (presence : Presence) : ClosedType → Value → Prop
  | scalar {type : ClosedType} (scalar : Scalar)
      (hShape : type.shape? definitions = some (.scalar scalar.kind)) :
      HasType definitions presence type (.scalar scalar)
  | string {type : ClosedType} (text : String) (hShape : type.shape? definitions = some .string) :
      HasType definitions presence type (.string text)
  | bytes {type : ClosedType} (bytes : Bytes) (hShape : type.shape? definitions = some .bytes) :
      HasType definitions presence type (.bytes bytes)
  | array {type element : ClosedType} {items : List Value}
      (hShape : type.shape? definitions = some (.array element))
      (hItems : ∀ item ∈ items, HasType definitions presence element item) :
      HasType definitions presence type (.array items)
  | map {type key value : ClosedType} {entries : List (Value × Value)}
      (hShape : type.shape? definitions = some (.map key value))
      (hKeys : ∀ entry ∈ entries, HasType definitions presence key entry.1)
      (hValues : ∀ entry ∈ entries, HasType definitions presence value entry.2) :
      HasType definitions presence type (.map entries)
  | message {type : ClosedType} {parts : List (ModelPart ClosedType)}
      {fields : List (UInt32 × Value)} (hShape : type.shape? definitions = some (.message parts))
      (hAscending : Fields.Ascending fields)
      (hDeclared : ∀ field ∈ fields, ∃ part ∈ parts, part.number = field.1)
      (hFields : ∀ field ∈ fields, ∀ part ∈ parts, part.number = field.1 →
        HasType definitions presence part.content field.2)
      (hPresent : presence = .required → ∀ part ∈ parts, ∃ field ∈ fields, field.1 = part.number) :
      HasType definitions presence type (.message fields)
  | bare {type : ClosedType} {variants : List (ModelPart (Option ClosedType))} {number : UInt32}
      {name : String} (hShape : type.shape? definitions = some (.tag variants))
      (hVariant : ⟨number, name, none⟩ ∈ variants) :
      HasType definitions presence type (.tag number none)
  | payload {type inner : ClosedType} {variants : List (ModelPart (Option ClosedType))}
      {number : UInt32} {name : String} {value : Value}
      (hShape : type.shape? definitions = some (.tag variants))
      (hVariant : ⟨number, name, some inner⟩ ∈ variants)
      (hPayload : HasType definitions presence inner value) :
      HasType definitions presence type (.tag number (some value))
  | missing {type inner : ClosedType} {variants : List (ModelPart (Option ClosedType))}
      {number : UInt32} {name : String} (hShape : type.shape? definitions = some (.tag variants))
      (hVariant : ⟨number, name, some inner⟩ ∈ variants) (hPresence : presence = .optional) :
      HasType definitions presence type (.tag number none)
  /-- Zero is the default of a tag also if no variant has this number. -/
  | undeclared {type : ClosedType} {variants : List (ModelPart (Option ClosedType))}
      (hShape : type.shape? definitions = some (.tag variants))
      (hVariants : ∀ variant ∈ variants, variant.number ≠ 0) :
      HasType definitions presence type (.tag 0 none)

/-! ## Filling -/

/-- The default of a type. Every proper type has one. -/
def defaultValue (models : Models) (type : ClosedType) : Value :=
  match defaultOf models type with
  | .ok value => value
  | .error _ => .scalar .void

theorem defaultValue_eq {models : Models} {type : ClosedType} {codec : Codec}
    (hCodec : codecOf models.definitions type = some codec) :
    defaultValue models type = codec.default := by
  rw [defaultValue, defaultOf, shelvedCodecOf_eq, hCodec]

mutual

/-- A value of a type with the default wherever a field or a payload is missing. -/
@[simp] def fill (models : Models) (type : ClosedType) : Value → Value
  | .scalar scalar => .scalar scalar
  | .string text => .string text
  | .bytes bytes => .bytes bytes
  | .array items =>
    match type.shape? models.definitions with
    | some (.array element) => .array (fillItems models element items)
    | _ => .array items
  | .map entries =>
    match type.shape? models.definitions with
    | some (.map key value) => .map (fillEntries models key value entries)
    | _ => .map entries
  | .message fields =>
    match type.shape? models.definitions with
    | some (.message parts) =>
      let filled := fillFields models parts fields
      .message (parts.map fun part =>
        (part.number, (Fields.get? filled part.number).getD (defaultValue models part.content)))
    | _ => .message fields
  | .tag number payload =>
    match type.shape? models.definitions with
    | some (.tag variants) =>
      match (ModelPart.find? variants number).bind ModelPart.content with
      | some inner => .tag number (some (fillPayload models inner payload))
      | none => .tag number payload
    | _ => .tag number payload

@[simp] def fillItems (models : Models) (element : ClosedType) : List Value → List Value
  | [] => []
  | item :: rest => fill models element item :: fillItems models element rest

@[simp] def fillEntries (models : Models) (key value : ClosedType) :
    List (Value × Value) → List (Value × Value)
  | [] => []
  | (k, v) :: rest => (fill models key k, fill models value v) :: fillEntries models key value rest

/-- Each field by the type of its part. -/
@[simp] def fillFields (models : Models) (parts : List (ModelPart ClosedType)) :
    List (UInt32 × Value) → List (UInt32 × Value)
  | [] => []
  | (number, value) :: rest =>
    match ModelPart.find? parts number with
    | some part => (number, fill models part.content value) :: fillFields models parts rest
    | none => (number, value) :: fillFields models parts rest

@[simp] def fillPayload (models : Models) (inner : ClosedType) : Option Value → Value
  | some value => fill models inner value
  | none => defaultValue models inner

end

section

variable {models : Models}

theorem fillItems_eq_map (element : ClosedType) (items : List Value) :
    fillItems models element items = items.map (fill models element) := by
  induction items with
  | nil => rfl
  | cons item rest ih => rw [fillItems, ih, List.map_cons]

theorem fillEntries_eq_map (key value : ClosedType) (entries : List (Value × Value)) :
    fillEntries models key value entries =
      entries.map fun entry => (fill models key entry.1, fill models value entry.2) := by
  induction entries with
  | nil => rfl
  | cons entry rest ih => rw [fillEntries, ih, List.map_cons]

theorem get?_fillFields {parts : List (ModelPart ClosedType)} {part : ModelPart ClosedType}
    (hFind : ModelPart.find? parts part.number = some part) (fields : List (UInt32 × Value)) :
    Fields.get? (fillFields models parts fields) part.number =
      (Fields.get? fields part.number).map (fill models part.content) := by
  induction fields with
  | nil => rfl
  | cons field rest ih =>
    obtain ⟨number, value⟩ := field
    rw [fillFields, Fields.get?_cons]
    by_cases hNumber : number = part.number
    · subst hNumber
      rw [hFind, if_pos rfl]
      simp [Fields.get?_cons]
    · split
      · rw [Fields.get?_cons, if_neg hNumber, if_neg hNumber, ih]
      · rw [Fields.get?_cons, if_neg hNumber, if_neg hNumber, ih]

/-! What filling does to a value of each shape. -/

variable {type : ClosedType} {variants : List (ModelPart (Option ClosedType))} {number : UInt32}

theorem fill_array {element : ClosedType}
    (hShape : type.shape? models.definitions = some (.array element)) (items : List Value) :
    fill models type (.array items) = .array (items.map (fill models element)) := by
  rw [fill, hShape, ← fillItems_eq_map]

theorem fill_map {key value : ClosedType}
    (hShape : type.shape? models.definitions = some (.map key value))
    (entries : List (Value × Value)) :
    fill models type (.map entries) =
      .map (entries.map fun entry => (fill models key entry.1, fill models value entry.2)) := by
  rw [fill, hShape, ← fillEntries_eq_map]

theorem fill_message (hArena : Arena models.definitions) {parts : List (ModelPart ClosedType)}
    (hShape : type.shape? models.definitions = some (.message parts))
    (fields : List (UInt32 × Value)) :
    fill models type (.message fields) = .message (parts.map fun part => (part.number,
      ((Fields.get? fields part.number).map (fill models part.content)).getD
        (defaultValue models part.content))) := by
  rw [fill, hShape]
  refine congrArg Value.message (List.map_congr_left fun part hPart => ?_)
  rw [get?_fillFields (ModelPart.find?_of_mem (ClosedType.shape?_nodup hArena hShape) hPart)]

theorem fill_payload (hArena : Arena models.definitions) {name : String} {inner : ClosedType}
    (hShape : type.shape? models.definitions = some (.tag variants))
    (hVariant : ⟨number, name, some inner⟩ ∈ variants) (payload : Option Value) :
    fill models type (.tag number payload) =
      .tag number (some (fillPayload models inner payload)) := by
  have hFind := ModelPart.find?_of_mem (ClosedType.shape?_nodup hArena hShape) hVariant
  simp only [fill, hShape, hFind, Option.bind_some]

theorem fill_bare (hArena : Arena models.definitions) {name : String}
    (hShape : type.shape? models.definitions = some (.tag variants))
    (hVariant : ⟨number, name, none⟩ ∈ variants) (payload : Option Value) :
    fill models type (.tag number payload) = .tag number payload := by
  have hFind := ModelPart.find?_of_mem (ClosedType.shape?_nodup hArena hShape) hVariant
  simp only [fill, hShape, hFind, Option.bind_some]

theorem fill_undeclared (hShape : type.shape? models.definitions = some (.tag variants))
    (hVariants : ∀ variant ∈ variants, variant.number ≠ number) (payload : Option Value) :
    fill models type (.tag number payload) = .tag number payload := by
  simp only [fill, hShape, ModelPart.find?_eq_none.2 hVariants, Option.bind_none]

/-! ## Values in which nothing is missing -/

/-- Where nothing is missing, filling changes nothing. -/
theorem fill_of_required (hArena : Arena models.definitions) {value : Value}
    (hTyped : HasType models.definitions .required type value) :
    fill models type value = value := by
  induction hTyped with
  | scalar scalar hShape => rw [fill]
  | string text hShape => rw [fill]
  | bytes bytes hShape => rw [fill]
  | array hShape _ ih =>
    rw [fill_array hShape, List.map_congr_left ih, List.map_id']
  | map hShape _ _ ihKeys ihValues =>
    rw [fill_map hShape]
    refine congrArg Value.map ((List.map_congr_left fun entry hEntry => ?_).trans (List.map_id' _))
    rw [ihKeys entry hEntry, ihValues entry hEntry]
  | @message type parts fields hShape hAscending hDeclared _ hPresent ih =>
    have hNumbers : (parts.map ModelPart.number).Pairwise (· < ·) :=
      ClosedType.shape?_ascending hArena hShape
    have hNodup : (parts.map ModelPart.number).Nodup := ClosedType.shape?_nodup hArena hShape
    rw [fill_message hArena hShape]
    refine congrArg Value.message (Fields.ext ?_ hAscending fun number => ?_)
    · rw [Fields.Ascending, List.map_map]
      exact hNumbers
    · rw [Fields.get?_map_parts]
      cases hGet : Fields.get? fields number with
      | none =>
        -- A part with this number would have a field.
        rw [Option.map_eq_none_iff]
        by_contra hSome
        obtain ⟨part, hFind⟩ := Option.ne_none_iff_exists'.1 hSome
        obtain ⟨hPart, rfl⟩ := ModelPart.find?_eq_some hFind
        obtain ⟨field, hField, hNumber⟩ := hPresent rfl part hPart
        exact Fields.get?_eq_none.1 hGet field hField hNumber
      | some value =>
        have hField := Fields.mem_of_get? hGet
        obtain ⟨part, hPart, rfl⟩ := hDeclared _ hField
        rw [ModelPart.find?_of_mem hNodup hPart, Option.map_some, hGet, Option.map_some,
          Option.getD_some, ih _ hField part hPart rfl]
  | bare hShape hVariant => exact fill_bare hArena hShape hVariant none
  | payload hShape hVariant _ ih => rw [fill_payload hArena hShape hVariant, fillPayload, ih]
  | missing _ _ hPresence => cases hPresence
  | undeclared hShape hVariants => exact fill_undeclared hShape hVariants none

end

/-! ## Defaults -/

theorem optionRel_imp {α β : Type} {R S : α → β → Prop} (hImp : ∀ a b, R a b → S a b) {a : Option α}
    {b : Option β} (hRel : Option.Rel R a b) : Option.Rel S a b := by
  cases hRel with
  | none => exact .none
  | some hRel => exact .some (hImp _ _ hRel)

/-- Looking up a number in parts with related contents. -/
theorem find?_related {α β : Type} {R : α → β → Prop} {parts : List (ModelPart α)}
    {others : List (ModelPart β)} (hParts : List.Forall₂ (ModelPart.Related R) parts others)
    (number : UInt32) :
    Option.Rel (ModelPart.Related R) (ModelPart.find? parts number)
      (ModelPart.find? others number) := by
  induction hParts with
  | nil => exact .none
  | @cons part other rest others hRelated _ ih =>
    rw [ModelPart.find?, ModelPart.find?, List.find?_cons, List.find?_cons, hRelated.number]
    split
    · exact .some hRelated
    · exact ih

section

variable {definitions : List Definition} {type : ClosedType}

theorem message_default_hasType (hArena : Arena definitions) (name : String)
    {fields : List (ModelPart ClosedType)} {parts : List (ModelPart Codec)}
    (hShape : type.shape? definitions = some (.message fields))
    (hParts : List.Forall₂ (ModelPart.Related fun inner codec =>
      HasType definitions .required inner codec.default) fields parts) :
    HasType definitions .required type (messageCodec name parts).default := by
  have hNumbers : parts.map ModelPart.number = fields.map ModelPart.number :=
    map_eq_map_of_forall₂ hParts fun _ _ _ hRelated => hRelated.number
  have hAscending : (parts.map ModelPart.number).Pairwise (· < ·) := by
    rw [hNumbers]
    exact ClosedType.shape?_ascending hArena hShape
  rw [Codec.messageCodec_default hAscending]
  refine .message hShape ?_ ?_ ?_ ?_
  · rw [Fields.Ascending, List.map_map]
    exact hAscending
  · rw [List.forall_mem_map]
    intro part hPart
    obtain ⟨field, hField, hRelated⟩ := exists_of_mem_right hParts hPart
    exact ⟨field, hField, hRelated.number.symm⟩
  · rw [List.forall_mem_map]
    intro part hPart field hField hNumber
    obtain ⟨other, hOther, hRelated⟩ := exists_of_mem_right hParts hPart
    obtain rfl : other = field :=
      List.inj_on_of_nodup_map (ClosedType.shape?_nodup hArena hShape) hOther hField
        (hRelated.number.symm.trans hNumber.symm)
    exact hRelated.content
  · intro _ field hField
    obtain ⟨part, hPart, hRelated⟩ := exists_of_mem_left hParts hField
    exact ⟨_, List.mem_map_of_mem hPart, hRelated.number⟩

theorem tag_default_hasType (name : String) {variants : List (ModelPart (Option ClosedType))}
    {parts : List (ModelPart (Option Codec))}
    (hShape : type.shape? definitions = some (.tag variants))
    (hParts : List.Forall₂ (ModelPart.Related (Option.Rel fun inner codec =>
      HasType definitions .required inner codec.default)) variants parts) :
    HasType definitions .required type (tagCodec name parts).default := by
  have hRelated := find?_related hParts 0
  have hDefault : (tagCodec name parts).default = Codec.tagDefault parts := rfl
  rw [hDefault, Codec.tagDefault]
  cases hFind : ModelPart.find? variants 0 with
  | none =>
    rw [hFind] at hRelated
    generalize ModelPart.find? parts 0 = found at hRelated
    cases hRelated
    exact .undeclared hShape (ModelPart.find?_eq_none.1 hFind)
  | some variant =>
    obtain ⟨number, label, content⟩ := variant
    obtain ⟨hVariant, rfl⟩ := ModelPart.find?_eq_some hFind
    rw [hFind] at hRelated
    generalize ModelPart.find? parts 0 = found at hRelated
    cases hRelated with
    | @some _ part hRelated =>
      obtain ⟨_, _, payload⟩ := part
      have hContent : Option.Rel _ content payload := hRelated.content
      cases hContent with
      | none => exact .bare hShape hVariant
      | some hTyped => exact .payload hShape hVariant hTyped

end

theorem sizeOf_lt_messageCodec {name : String} {parts : List (ModelPart Codec)}
    {part : ModelPart Codec} (hPart : part ∈ parts) :
    sizeOf part.content < sizeOf (messageCodec name parts) := by
  have hLess := List.sizeOf_lt_of_mem hPart
  obtain ⟨number, label, content⟩ := part
  simp only [ModelPart.mk.sizeOf_spec] at hLess
  simp only [messageCodec, Codec.record.sizeOf_spec]
  omega

theorem sizeOf_lt_tagCodec {name : String} {parts : List (ModelPart (Option Codec))}
    {part : ModelPart (Option Codec)} {codec : Codec} (hPart : part ∈ parts)
    (hContent : part.content = some codec) : sizeOf codec < sizeOf (tagCodec name parts) := by
  have hLess := List.sizeOf_lt_of_mem hPart
  obtain ⟨number, label, content⟩ := part
  cases hContent
  simp only [ModelPart.mk.sizeOf_spec, Option.some.sizeOf_spec] at hLess
  simp only [tagCodec, Codec.union.sizeOf_spec]
  omega

/-- Induction over the codec of a type: what passes from the codecs of the parts to the codec of the
shape holds for the codec of every proper type. Defaults are values of their types all along. -/
theorem codec_induction {definitions : List Definition} (hArena : Arena definitions)
    {P : ClosedType → Codec → Prop}
    (hScalar : ∀ type kind, type.shape? definitions = some (.scalar kind) →
      P type (.scalar kind (.scalar (Scalar.zero kind))))
    (hString : ∀ type, type.shape? definitions = some .string → P type (.string (.string "")))
    (hBytes : ∀ type, type.shape? definitions = some .bytes → P type (.bytes (.bytes [])))
    (hArray : ∀ type element codec, type.shape? definitions = some (.array element) →
      P element codec → P type (.array codec (.array [])))
    (hMap : ∀ type key value keys values, type.shape? definitions = some (.map key value) →
      P key keys → P value values → P type (.map keys values (.map [])))
    (hMessage : ∀ type fields parts name, type.shape? definitions = some (.message fields) →
      HasType definitions .required type (messageCodec name parts).default →
      List.Forall₂ (ModelPart.Related fun inner codec =>
        HasType definitions .required inner codec.default ∧ P inner codec) fields parts →
      P type (messageCodec name parts))
    (hTag : ∀ type variants parts name, type.shape? definitions = some (.tag variants) →
      HasType definitions .required type (tagCodec name parts).default →
      List.Forall₂ (ModelPart.Related (Option.Rel fun inner codec =>
        HasType definitions .required inner codec.default ∧ P inner codec)) variants parts →
      P type (tagCodec name parts))
    {codec : Codec} {type : ClosedType} (hType : type.Proper definitions)
    (hCodec : codecOf definitions type = some codec) :
    HasType definitions .required type codec.default ∧ P type codec := by
  -- The codecs of the parts of a type are smaller than its own.
  induction hSize : sizeOf codec using Nat.strongRecOn generalizing codec type with
  | ind size ih =>
    subst hSize
    obtain ⟨shape, other, hShape, hOther, hSame⟩ := hType.codec hArena
    cases hSame.symm.trans hCodec
    have hProper : ∀ inner ∈ shape.parts, inner.Proper definitions := fun _ =>
      hType.of_mem_parts hArena hShape
    cases shape with
    | scalar kind =>
      cases hOther
      refine ⟨.scalar (Scalar.zero kind) ?_, hScalar type kind hShape⟩
      rw [(ClosedType.scalar_of_shape? hShape).2, hShape]
    | string =>
      cases hOther
      exact ⟨.string "" hShape, hString type hShape⟩
    | bytes =>
      cases hOther
      exact ⟨.bytes [] hShape, hBytes type hShape⟩
    | array element =>
      obtain ⟨inner, hInner, rfl⟩ := Option.map_eq_some_iff.1 hOther
      have hElement := ih (sizeOf inner) (by simp; omega) (hProper _ List.mem_cons_self) hInner rfl
      exact ⟨.array hShape (by simp), hArray type element inner hShape hElement.2⟩
    | map key value =>
      obtain ⟨keys, hKeys, hOther⟩ := Option.bind_eq_some_iff.1 hOther
      obtain ⟨values, hValues, rfl⟩ := Option.map_eq_some_iff.1 hOther
      have hKey := ih (sizeOf keys) (by simp; omega) (hProper _ List.mem_cons_self) hKeys rfl
      have hValue := ih (sizeOf values) (by simp; omega)
        (hProper _ (List.mem_cons_of_mem _ List.mem_cons_self)) hValues rfl
      exact ⟨.map hShape (by simp) (by simp),
        hMap type key value keys values hShape hKey.2 hValue.2⟩
    | message fields =>
      obtain ⟨parts, hParts, rfl⟩ := Option.map_eq_some_iff.1 hOther
      have hInner : List.Forall₂ (ModelPart.Related fun inner codec =>
          HasType definitions .required inner codec.default ∧ P inner codec) fields parts := by
        refine forall₂_imp_of_mem (partsWith_eq_some.1 hParts) ?_
        intro field hField part hPart hRelated
        refine ⟨hRelated.number, hRelated.name, ?_⟩
        exact ih _ (sizeOf_lt_messageCodec hPart) (hProper _ (List.mem_map_of_mem hField))
          hRelated.content rfl
      have hDefault := message_default_hasType hArena (type.describe definitions) hShape
        (hInner.imp fun _ _ hRelated => ⟨hRelated.number, hRelated.name, hRelated.content.1⟩)
      exact ⟨hDefault, hMessage type fields parts _ hShape hDefault hInner⟩
    | tag variants =>
      obtain ⟨parts, hParts, rfl⟩ := Option.map_eq_some_iff.1 hOther
      have hInner : List.Forall₂ (ModelPart.Related (Option.Rel fun inner codec =>
          HasType definitions .required inner codec.default ∧ P inner codec)) variants parts := by
        refine forall₂_imp_of_mem (partsWith_eq_some.1 hParts) ?_
        intro variant hVariant part hPart hRelated
        refine ⟨hRelated.number, hRelated.name, ?_⟩
        have hContent := Shape.payloadCodec?_eq_some.1 hRelated.content
        generalize hInner : variant.content = inner at hContent
        generalize hPayload : part.content = payload at hContent
        cases hContent with
        | none => exact .none
        | some hCodec =>
          have hMem := List.mem_filterMap.2 ⟨variant, hVariant, hInner⟩
          exact .some (ih _ (sizeOf_lt_tagCodec hPart hPayload) (hProper _ hMem) hCodec rfl)
      have hDefault := tag_default_hasType (type.describe definitions) hShape
        (hInner.imp fun _ _ hRelated =>
          ⟨hRelated.number, hRelated.name, optionRel_imp (fun _ _ => And.left) hRelated.content⟩)
      exact ⟨hDefault, hTag type variants parts _ hShape hDefault hInner⟩

/-- The default of a type is a value of the type in which nothing is missing. -/
theorem default_hasType {definitions : List Definition} (hArena : Arena definitions) {codec : Codec}
    {type : ClosedType} (hType : type.Proper definitions)
    (hCodec : codecOf definitions type = some codec) :
    HasType definitions .required type codec.default := by
  have hBoth :=
      codec_induction (P := fun _ _ => True) hArena (by simp) (by simp) (by simp) (by simp)
    (by simp) (by simp) (by simp) hType hCodec
  exact hBoth.1

/-- In a value that was filled nothing is missing. -/
theorem HasType.required_fill {models : Models} (hArena : Arena models.definitions)
    {type : ClosedType} {presence : Presence} {value : Value}
    (hTyped : HasType models.definitions presence type value)
    (hType : type.Proper models.definitions) :
    HasType models.definitions .required type (fill models type value) := by
  have hDefault : ∀ inner : ClosedType, inner.Proper models.definitions →
      HasType models.definitions .required inner (defaultValue models inner) := by
    intro inner hInner
    obtain ⟨_, codec, _, _, hCodec⟩ := hInner.codec hArena
    rw [defaultValue_eq hCodec]
    exact default_hasType hArena hInner hCodec
  induction hTyped with
  | scalar scalar hShape =>
    rw [fill]
    exact .scalar scalar hShape
  | string text hShape =>
    rw [fill]
    exact .string text hShape
  | bytes bytes hShape =>
    rw [fill]
    exact .bytes bytes hShape
  | array hShape _ ih =>
    rw [fill_array hShape]
    refine .array hShape (List.forall_mem_map.2 fun item hItem => ih item hItem ?_)
    exact hType.of_mem_parts hArena hShape List.mem_cons_self
  | map hShape _ _ ihKeys ihValues =>
    rw [fill_map hShape]
    refine .map hShape (List.forall_mem_map.2 fun entry hEntry => ihKeys entry hEntry ?_)
      (List.forall_mem_map.2 fun entry hEntry => ihValues entry hEntry ?_)
    · exact hType.of_mem_parts hArena hShape List.mem_cons_self
    · exact hType.of_mem_parts hArena hShape (List.mem_cons_of_mem _ List.mem_cons_self)
  | @message type parts fields hShape _ _ _ _ ih =>
    have hNumbers : (parts.map ModelPart.number).Pairwise (· < ·) :=
      ClosedType.shape?_ascending hArena hShape
    have hNodup : (parts.map ModelPart.number).Nodup := ClosedType.shape?_nodup hArena hShape
    rw [fill_message hArena hShape]
    refine .message hShape ?_ ?_ ?_ ?_
    · rw [Fields.Ascending, List.map_map]
      exact hNumbers
    · exact List.forall_mem_map.2 fun part hPart => ⟨part, hPart, rfl⟩
    · refine List.forall_mem_map.2 fun part hMem other hOther hNumber => ?_
      obtain rfl := List.inj_on_of_nodup_map hNodup hOther hMem hNumber
      have hInner := hType.of_mem_parts hArena hShape (List.mem_map_of_mem hMem)
      cases hGet : Fields.get? fields other.number with
      | none => exact hDefault _ hInner
      | some value => exact ih _ (Fields.mem_of_get? hGet) other hMem rfl hInner
    · exact fun _ part hPart => ⟨_, List.mem_map_of_mem hPart, rfl⟩
  | bare hShape hVariant =>
    rw [fill_bare hArena hShape hVariant]
    exact .bare hShape hVariant
  | payload hShape hVariant _ ih =>
    rw [fill_payload hArena hShape hVariant]
    refine .payload hShape hVariant (ih ?_)
    exact hType.of_mem_parts hArena hShape (List.mem_filterMap.2 ⟨_, hVariant, rfl⟩)
  | missing hShape hVariant _ =>
    rw [fill_payload hArena hShape hVariant]
    refine .payload hShape hVariant (hDefault _ ?_)
    exact hType.of_mem_parts hArena hShape (List.mem_filterMap.2 ⟨_, hVariant, rfl⟩)
  | undeclared hShape hVariants =>
    rw [fill_undeclared hShape hVariants]
    exact .undeclared hShape hVariants

end Interchange.Wire

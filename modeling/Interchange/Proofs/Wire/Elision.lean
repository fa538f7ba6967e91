import Interchange.Proofs.Wire.Accepted

/-!
# Missing parts and defaults

A field that is equal to its default is left out, and so is the payload of a variant zero. Equality
is taken of the values as they are. A value in which parts are missing may stand for the default and
yet differ from it; then it is written where the default is left out. So a value and the same value
filled are written as the same bytes exactly if no such default is hidden in a field or behind a
variant zero, at any depth. Where one is, filling makes the bytes fewer.

A field that is missing itself does not matter, and neither does the payload of a variant that is
missing.

* `HidesDefault`: a default is hidden somewhere inside a value.
* `Writing.Trims`: a writing gives the bytes of another one, or fewer if something is hidden.
* `fillTrims_message`, `fillTrims_payload`: where defaults are left out.
* `HasType.fillTrims`: filling trims what is written.
* `toBytes_fill_iff`: typed values of compiled projects.
-/

namespace Interchange.Wire

open Schema (Arena Builtin Definition ModelPart Models Project)

/-! ## Hidden defaults -/

/-- The value stands for the default of its type, but parts of it are missing. -/
def StandsForDefault (models : Models) (type : ClosedType) (value : Value) : Prop :=
  value ≠ defaultValue models type ∧ fill models type value = defaultValue models type

/-- Somewhere inside a value, a field or the payload of a variant zero stands for the default and
differs from it. -/
inductive HidesDefault (models : Models) : ClosedType → Value → Prop
  | field {type : ClosedType} {parts : List (ModelPart ClosedType)} {fields : List (UInt32 × Value)}
      {part : ModelPart ClosedType} {value : Value}
      (hShape : type.shape? models.definitions = some (.message parts)) (hPart : part ∈ parts)
      (hField : Fields.get? fields part.number = some value)
      (hHidden : StandsForDefault models part.content value) :
      HidesDefault models type (.message fields)
  | zero {type inner : ClosedType} {variants : List (ModelPart (Option ClosedType))} {name : String}
      {value : Value} (hShape : type.shape? models.definitions = some (.tag variants))
      (hVariant : ⟨0, name, some inner⟩ ∈ variants)
      (hHidden : StandsForDefault models inner value) :
      HidesDefault models type (.tag 0 (some value))
  | item {type element : ClosedType} {items : List Value} {item : Value}
      (hShape : type.shape? models.definitions = some (.array element)) (hItem : item ∈ items)
      (hInside : HidesDefault models element item) : HidesDefault models type (.array items)
  | key {type key value : ClosedType} {entries : List (Value × Value)} {entry : Value × Value}
      (hShape : type.shape? models.definitions = some (.map key value)) (hEntry : entry ∈ entries)
      (hInside : HidesDefault models key entry.1) : HidesDefault models type (.map entries)
  | value {type key value : ClosedType} {entries : List (Value × Value)} {entry : Value × Value}
      (hShape : type.shape? models.definitions = some (.map key value)) (hEntry : entry ∈ entries)
      (hInside : HidesDefault models value entry.2) : HidesDefault models type (.map entries)
  | inField {type : ClosedType} {parts : List (ModelPart ClosedType)}
      {fields : List (UInt32 × Value)} {part : ModelPart ClosedType} {value : Value}
      (hShape : type.shape? models.definitions = some (.message parts)) (hPart : part ∈ parts)
      (hField : Fields.get? fields part.number = some value)
      (hInside : HidesDefault models part.content value) :
      HidesDefault models type (.message fields)
  | inPayload {type inner : ClosedType} {variants : List (ModelPart (Option ClosedType))}
      {number : UInt32} {name : String} {value : Value}
      (hShape : type.shape? models.definitions = some (.tag variants))
      (hVariant : ⟨number, name, some inner⟩ ∈ variants)
      (hInside : HidesDefault models inner value) :
      HidesDefault models type (.tag number (some value))

section

variable {models : Models} {type : ClosedType}

theorem hidesDefault_array {element : ClosedType}
    (hShape : type.shape? models.definitions = some (.array element)) {items : List Value} :
    HidesDefault models type (.array items) ↔ ∃ item ∈ items, HidesDefault models element item := by
  constructor
  · rintro (_ | _ | ⟨hOther, hItem, hInside⟩)
    cases hOther.symm.trans hShape
    exact ⟨_, hItem, hInside⟩
  · rintro ⟨item, hItem, hInside⟩
    exact .item hShape hItem hInside

theorem hidesDefault_map {key value : ClosedType}
    (hShape : type.shape? models.definitions = some (.map key value))
    {entries : List (Value × Value)} :
    HidesDefault models type (.map entries) ↔
      ∃ entry ∈ entries, HidesDefault models key entry.1 ∨ HidesDefault models value entry.2 := by
  constructor
  · rintro (_ | _ | _ | ⟨hOther, hEntry, hInside⟩ | ⟨hOther, hEntry, hInside⟩)
    · cases hOther.symm.trans hShape
      exact ⟨_, hEntry, Or.inl hInside⟩
    · cases hOther.symm.trans hShape
      exact ⟨_, hEntry, Or.inr hInside⟩
  · rintro ⟨entry, hEntry, hInside | hInside⟩
    · exact .key hShape hEntry hInside
    · exact .value hShape hEntry hInside

theorem hidesDefault_message {parts : List (ModelPart ClosedType)}
    (hShape : type.shape? models.definitions = some (.message parts))
    {fields : List (UInt32 × Value)} :
    HidesDefault models type (.message fields) ↔
      ∃ part ∈ parts, ∃ value, Fields.get? fields part.number = some value ∧
        (StandsForDefault models part.content value ∨ HidesDefault models part.content value) := by
  constructor
  · rintro (⟨hOther, hPart, hField, hHidden⟩ | _ | _ | _ | _ | ⟨hOther, hPart, hField, hInside⟩)
    · cases hOther.symm.trans hShape
      exact ⟨_, hPart, _, hField, Or.inl hHidden⟩
    · cases hOther.symm.trans hShape
      exact ⟨_, hPart, _, hField, Or.inr hInside⟩
  · rintro ⟨part, hPart, value, hField, hHidden | hInside⟩
    · exact .field hShape hPart hField hHidden
    · exact .inField hShape hPart hField hInside

theorem hidesDefault_payload (hArena : Arena models.definitions)
    {variants : List (ModelPart (Option ClosedType))} {number : UInt32} {name : String}
    {inner : ClosedType} {value : Value}
    (hShape : type.shape? models.definitions = some (.tag variants))
    (hVariant : ⟨number, name, some inner⟩ ∈ variants) :
    HidesDefault models type (.tag number (some value)) ↔
      (number = 0 ∧ StandsForDefault models inner value) ∨ HidesDefault models inner value := by
  have hNodup := ClosedType.shape?_nodup hArena hShape
  constructor
  · rintro (_ | ⟨hOther, hZero, hHidden⟩ | _ | _ | _ | _ | ⟨hOther, hSame, hInside⟩)
    · cases hOther.symm.trans hShape
      cases List.inj_on_of_nodup_map hNodup hVariant hZero rfl
      exact Or.inl ⟨rfl, hHidden⟩
    · cases hOther.symm.trans hShape
      cases List.inj_on_of_nodup_map hNodup hVariant hSame rfl
      exact Or.inr hInside
  · rintro (⟨rfl, hHidden⟩ | hInside)
    · exact .zero hShape hVariant hHidden
    · exact .inPayload hShape hVariant hInside

end

/-! ## Writings of fewer bytes -/

theorem Varint.length_encode_mono {smaller value : Nat} (hLe : smaller ≤ value) :
    (encode smaller).length ≤ (encode value).length := by
  induction value using Nat.strongRecOn generalizing smaller with
  | ind value ih =>
    rw [encode.eq_def smaller, encode.eq_def value]
    split
    next =>
      split <;> simp
    next hSmaller =>
      rw [if_neg (by omega), List.length_cons, List.length_cons]
      have hRest := ih (value / 128) (by omega) (Nat.div_le_div_right hLe)
      omega

theorem length_lengthPrefixed_lt {fewer bytes : Bytes} (hLess : fewer.length < bytes.length) :
    (lengthPrefixed fewer).length < (lengthPrefixed bytes).length := by
  have hPrefix := Varint.length_encode_mono (Nat.le_of_lt hLess)
  rw [lengthPrefixed, lengthPrefixed, List.length_append, List.length_append]
  omega

namespace Writing

/-- Both writings succeed. The second one gives the bytes of the first, or fewer if something is
hidden. -/
def Trims (first second : Writing) (hides : Prop) : Prop :=
  ∃ bytes fewer, first.toBytes = .ok bytes ∧ second.toBytes = .ok fewer ∧
    (¬ hides → fewer = bytes) ∧ (hides → fewer.length < bytes.length)

section

variable {first second third fourth : Writing} {hides other : Prop}

theorem Trims.congr (hTrims : first.Trims second hides) (hIff : other ↔ hides) :
    first.Trims second other := by
  rwa [propext hIff]

theorem Trims.of_toBytes (hTrims : third.Trims fourth hides)
    (hFirst : first.toBytes = third.toBytes) (hSecond : second.toBytes = fourth.toBytes) :
    first.Trims second hides := by
  rw [Trims, hFirst, hSecond]
  exact hTrims

theorem Succeeds.trims (hSucceeds : first.Succeeds) (hHides : ¬ hides) :
    first.Trims first hides := by
  obtain ⟨bytes, hBytes⟩ := hSucceeds
  exact ⟨bytes, bytes, hBytes, hBytes, fun _ => rfl, fun hHidden => absurd hHidden hHides⟩

/-- A writing does not give fewer bytes than it gives. -/
theorem Trims.not_hides (hTrims : first.Trims first hides) : ¬ hides := by
  obtain ⟨bytes, fewer, hBytes, hFewer, _, hLess⟩ := hTrims
  cases hBytes.symm.trans hFewer
  exact fun hHidden => Nat.lt_irrefl _ (hLess hHidden)

theorem Trims.andThen (hFirst : first.Trims second hides) (hNext : third.Trims fourth other) :
    (first.andThen third).Trims (second.andThen fourth) (hides ∨ other) := by
  obtain ⟨bytes, fewer, hBytes, hFewer, hSame, hLess⟩ := hFirst
  obtain ⟨later, fewerLater, hLater, hFewerLater, hSameLater, hLessLater⟩ := hNext
  refine ⟨bytes ++ later, fewer ++ fewerLater, toBytes_andThen hBytes hLater,
    toBytes_andThen hFewer hFewerLater, ?_, ?_⟩
  · intro hNeither
    rw [hSame fun hHidden => hNeither (Or.inl hHidden),
      hSameLater fun hHidden => hNeither (Or.inr hHidden)]
  · intro hEither
    have hLe : fewer.length ≤ bytes.length := by
      by_cases hHidden : hides
      · exact Nat.le_of_lt (hLess hHidden)
      · rw [hSame hHidden]
    have hLeLater : fewerLater.length ≤ later.length := by
      by_cases hHidden : other
      · exact Nat.le_of_lt (hLessLater hHidden)
      · rw [hSameLater hHidden]
    rw [List.length_append, List.length_append]
    rcases hEither with hHidden | hHidden
    · have hFirstLess := hLess hHidden
      omega
    · have hNextLess := hLessLater hHidden
      omega

theorem Trims.framed (hTrims : first.Trims second hides) :
    (Codec.framed first).Trims (Codec.framed second) hides := by
  obtain ⟨bytes, fewer, hBytes, hFewer, hSame, hLess⟩ := hTrims
  refine ⟨_, _, Codec.toBytes_framed hBytes, Codec.toBytes_framed hFewer, ?_, ?_⟩
  · intro hHides
    rw [hSame hHides]
  · intro hHides
    exact length_lengthPrefixed_lt (hLess hHides)

/-- Bytes that are written, where the other writing gives none. -/
theorem Succeeds.trims_done (hSucceeds : first.Succeeds) (bytes : Bytes) (hBytes : bytes ≠ [])
    (hHides : hides) : ((piece bytes).andThen first).Trims done hides := by
  obtain ⟨later, hLater⟩ := hSucceeds
  refine ⟨bytes ++ later, [], toBytes_andThen (toBytes_piece bytes) hLater, rfl,
    fun hNot => absurd hHides hNot, fun _ => ?_⟩
  have hPositive := List.length_pos_iff.2 hBytes
  rw [List.length_append, List.length_nil]
  omega

theorem andThen_assoc (first second third : Writing) :
    (first.andThen second).andThen third = first.andThen (second.andThen third) := by
  induction first with
  | done => rfl
  | fail error => rfl
  | put bytes next ih => rw [andThen, andThen, andThen, ih]

end

end Writing

/-! ## Composite values -/

namespace Codec

open Writing (Trims)

theorem trims_encodeItems {encode : Value → Writing} {items : List Value} {change : Value → Value}
    {hides : Value → Prop}
    (hItems : ∀ item ∈ items, (encode item).Trims (encode (change item)) (hides item)) :
    (encodeItems encode items).Trims (encodeItems encode (items.map change))
      (∃ item ∈ items, hides item) := by
  induction items with
  | nil => exact Writing.succeeds_done.trims (by simp)
  | cons item rest ih =>
    obtain ⟨hItem, hRest⟩ := List.forall_mem_cons.1 hItems
    refine (hItem.andThen (ih hRest)).congr ?_
    simp

theorem trims_encodeEntries {encodeKey encodeValue : Value → Writing}
    {entries : List (Value × Value)} {change : Value × Value → Value × Value}
    {hides : Value × Value → Prop}
    (hEntries : ∀ entry ∈ entries, ((encodeKey entry.1).andThen (encodeValue entry.2)).Trims
      ((encodeKey (change entry).1).andThen (encodeValue (change entry).2)) (hides entry)) :
    (encodeEntries encodeKey encodeValue entries).Trims
      (encodeEntries encodeKey encodeValue (entries.map change)) (∃ entry ∈ entries,
        hides entry) := by
  induction entries with
  | nil => exact Writing.succeeds_done.trims (by simp)
  | cons entry rest ih =>
    obtain ⟨hEntry, hRest⟩ := List.forall_mem_cons.1 hEntries
    refine (hEntry.andThen (ih hRest)).congr ?_
    simp

/-- The part of a writing of fields that stands for one part: nothing, or a tag and the value. -/
def fieldWriting (fields : List (UInt32 × Value)) (part : ModelPart Codec) : Writing :=
  match written? fields part with
  | none => .done
  | some value =>
    (Writing.piece (Varint.encode (part.content.layout.tag part.number))).andThen
      (part.content.encode value)

theorem encodeFields_eq_andThen (part : ModelPart Codec) (rest : List (ModelPart Codec))
    (fields : List (UInt32 × Value)) :
    encodeFields (part :: rest) fields =
      (fieldWriting fields part).andThen (encodeFields rest fields) := by
  rw [encodeFields_cons, fieldWriting]
  cases written? fields part with
  | none => rfl
  | some value => rw [Writing.andThen_assoc]

/-- The fields of a message, part for part. What is hidden in a field is said by its type. -/
theorem trims_encodeFields {types : List (ModelPart ClosedType)} {parts : List (ModelPart Codec)}
    {fields others : List (UInt32 × Value)} {hides : ModelPart ClosedType → Prop}
    (hParts : List.Forall₂ (fun type part =>
      (fieldWriting fields part).Trims (fieldWriting others part) (hides type)) types parts) :
    (encodeFields parts fields).Trims (encodeFields parts others) (∃ type ∈ types, hides type) := by
  induction hParts with
  | nil => exact Writing.succeeds_done.trims (by simp)
  | cons hPart _ ih =>
    rw [encodeFields_eq_andThen, encodeFields_eq_andThen]
    refine (hPart.andThen ih).congr ?_
    simp

theorem fieldWriting_none {fields : List (UInt32 × Value)} {part : ModelPart Codec}
    (hGet : Fields.get? fields part.number = none) : fieldWriting fields part = .done := by
  rw [fieldWriting, written?, hGet]
  rfl

theorem fieldWriting_default {fields : List (UInt32 × Value)} {part : ModelPart Codec}
    (hGet : Fields.get? fields part.number = some part.content.default) :
    fieldWriting fields part = .done := by
  have hWritten : written? fields part = none := by
    simp [written?, hGet, Option.filter]
  rw [fieldWriting, hWritten]

theorem fieldWriting_some {fields : List (UInt32 × Value)} {part : ModelPart Codec} {value : Value}
    (hGet : Fields.get? fields part.number = some value) (hOther : value ≠ part.content.default) :
    fieldWriting fields part =
      (Writing.piece (Varint.encode (part.content.layout.tag part.number))).andThen
        (part.content.encode value) := by
  rw [fieldWriting, written?_eq_some.2 ⟨hGet, hOther⟩]

/-- A message that is equal to its default has no fields that are written. -/
theorem encodeFields_defaults {parts writers : List (ModelPart Codec)}
    (hNumbers : (writers.map ModelPart.number).Nodup) (hParts : ∀ part ∈ parts, part ∈ writers) :
    encodeFields parts (writers.map fun part => (part.number, part.content.default)) = .done := by
  induction parts with
  | nil => rfl
  | cons part rest ih =>
    obtain ⟨hPart, hRest⟩ := List.forall_mem_cons.1 hParts
    have hGet :
        Fields.get? (writers.map fun part => (part.number, part.content.default)) part.number =
        some part.content.default := by
      rw [Fields.get?_map_parts, ModelPart.find?_of_mem hNumbers hPart, Option.map_some]
    rw [encodeFields_eq_andThen, fieldWriting_default hGet]
    exact ih hRest

theorem toBytes_empty_eq_framed : empty.toBytes = (framed .done).toBytes := by
  have hNone : Writing.done.toBytes = .ok [] := rfl
  rw [toBytes_empty, toBytes_framed hNone]

/-- A message is its fields behind their length, also if it is equal to its default. -/
theorem toBytes_encode_message {parts : List (ModelPart Codec)} {fields : List (UInt32 × Value)}
    (name : String) (hNumbers : (parts.map ModelPart.number).Pairwise (· < ·))
    (hDeclared : ∀ field ∈ fields, ∃ part ∈ parts, part.number = field.1) :
    ((messageCodec name parts).encode (.message fields)).toBytes =
      (framed (encodeFields parts fields)).toBytes := by
  have hNodup : (parts.map ModelPart.number).Nodup :=
    hNumbers.imp fun hLess => UInt32.ne_of_lt hLess
  rw [messageCodec_default hNumbers]
  simp only [encode, undeclared?_eq_none hDeclared]
  split
  next hDefault =>
    rw [Value.message.inj hDefault, encodeFields_defaults hNodup fun _ hPart => hPart,
      toBytes_empty_eq_framed]
  next => rfl

/-- A variant with a payload. A payload that is missing is the default. -/
theorem toBytes_encode_payload {variants : List (ModelPart (Option Codec))} {number : UInt32}
    {variant : String} {codec : Codec} (name : String) (payload : Option Value)
    (hFind : ModelPart.find? variants number = some ⟨number, variant, some codec⟩) :
    ((tagCodec name variants).encode (.tag number payload)).toBytes =
      if number = 0 ∧ payload.getD codec.default = codec.default then empty.toBytes
      else (framed ((Writing.piece (Varint.encode number.toNat)).andThen
        (codec.encode (payload.getD codec.default)))).toBytes := by
  rw [tagCodec, encode, ← tagDefault]
  split
  next hDefault =>
    obtain ⟨rfl, hPayload⟩ := Value.tag.inj hDefault
    have hSame : payload.getD codec.default = codec.default := by
      simp [hPayload, hFind]
    rw [if_pos ⟨rfl, hSame⟩]
  next =>
    rw [encodeVariant_eq, hFind]
    simp only
    split <;> rfl

end Codec

/-! ## Typed values -/

/-- The codec of a type writes a value, and writes it filled as the same bytes, or as fewer if a
default is hidden in it. -/
def FillTrims (models : Models) (type : ClosedType) (value : Value) : Prop :=
  ∀ codec, codecOf models.definitions type = some codec →
    (codec.encode value).Trims (codec.encode (fill models type value))
      (HidesDefault models type value)

section

variable {models : Models} {type : ClosedType}

/-- Where filling changes nothing, nothing is trimmed. -/
theorem HasType.fillTrims_of_eq {value : Value}
    (hArena : Arena models.definitions) (hTyped : HasType models.definitions .optional type value)
    (hType : type.Proper models.definitions) (hFill : fill models type value = value)
    (hHides : ¬ HidesDefault models type value) : FillTrims models type value := by
  intro codec hCodec
  rw [hFill]
  exact ((codecOf_accepts hArena hType hCodec).succeeds hTyped).trims hHides

/-- A field before and after filling. -/
theorem trims_fieldWriting {part : ModelPart ClosedType} {codec : ModelPart Codec}
    {fields others : List (UInt32 × Value)}
    (hArena : Arena models.definitions) (hProper : part.content.Proper models.definitions)
    (hNumber : codec.number = part.number)
    (hCodec : codecOf models.definitions part.content = some codec.content)
    (hTyped : ∀ value, Fields.get? fields part.number = some value →
      HasType models.definitions .optional part.content value)
    (hTrims : ∀ value, Fields.get? fields part.number = some value →
      FillTrims models part.content value)
    (hOthers : Fields.get? others part.number =
      some (((Fields.get? fields part.number).map (fill models part.content)).getD
        (defaultValue models part.content))) :
    (Codec.fieldWriting fields codec).Trims (Codec.fieldWriting others codec)
      (∃ value, Fields.get? fields part.number = some value ∧
        (StandsForDefault models part.content value ∨ HidesDefault models part.content value)) := by
  have hDefault := defaultValue_eq hCodec
  rw [← hNumber] at hOthers hTyped hTrims ⊢
  cases hGet : Fields.get? fields codec.number with
  | none =>
    rw [hGet, Option.map_none, Option.getD_none, hDefault] at hOthers
    rw [Codec.fieldWriting_none hGet, Codec.fieldWriting_default hOthers]
    exact Writing.succeeds_done.trims (by simp)
  | some value =>
    rw [hGet, Option.map_some, Option.getD_some] at hOthers
    have hInner := hTrims value hGet _ hCodec
    have hIff : (∃ other, some value = some other ∧ (StandsForDefault models part.content other ∨
        HidesDefault models part.content other)) ↔
        StandsForDefault models part.content value ∨ HidesDefault models part.content value := by
      simp
    refine Writing.Trims.congr ?_ hIff
    by_cases hValue : value = codec.content.default
    · -- The default is complete, so it is left out on both sides and hides nothing.
      have hFill : fill models part.content value = value := by
        rw [hValue, fill_default hArena hProper hCodec]
      rw [hFill] at hInner
      rw [hFill, hValue] at hOthers
      rw [hValue] at hGet
      rw [Codec.fieldWriting_default hGet, Codec.fieldWriting_default hOthers]
      refine Writing.succeeds_done.trims ?_
      rintro (⟨hOther, _⟩ | hInside)
      · exact hOther (hValue.trans hDefault.symm)
      · exact hInner.not_hides hInside
    · rw [Codec.fieldWriting_some hGet hValue]
      by_cases hFilled : fill models part.content value = codec.content.default
      · rw [hFilled] at hOthers
        rw [Codec.fieldWriting_default hOthers]
        refine Writing.Succeeds.trims_done ?_ _ (Varint.encode_ne_nil _) (Or.inl ⟨?_, ?_⟩)
        · exact (codecOf_accepts hArena hProper hCodec).succeeds (hTyped value hGet)
        · rwa [hDefault]
        · rw [hFilled, hDefault]
      · rw [Codec.fieldWriting_some hOthers hFilled]
        refine ((Writing.succeeds_piece _).trims not_false).andThen hInner |>.congr ?_
        constructor
        · rintro (⟨_, hSame⟩ | hInside)
          · exact absurd (hSame.trans hDefault) hFilled
          · exact Or.inr hInside
        · rintro (hFalse | hInside)
          · exact absurd hFalse not_false
          · exact Or.inr hInside

/-- A message before and after filling. -/
theorem fillTrims_message {parts : List (ModelPart ClosedType)} {fields : List (UInt32 × Value)}
    (hArena : Arena models.definitions) (hType : type.Proper models.definitions)
    (hShape : type.shape? models.definitions = some (.message parts))
    (hDeclared : ∀ field ∈ fields, ∃ part ∈ parts, part.number = field.1)
    (hTyped : ∀ field ∈ fields, ∀ part ∈ parts, part.number = field.1 →
      HasType models.definitions .optional part.content field.2)
    (hTrims : ∀ field ∈ fields, ∀ part ∈ parts, part.number = field.1 →
      FillTrims models part.content field.2) : FillTrims models type (.message fields) := by
  intro codec hCodec
  rw [hType.codecOf_eq hArena hShape] at hCodec
  obtain ⟨codecs, hCodecs, rfl⟩ := Option.map_eq_some_iff.1 hCodec
  have hRelated := partsWith_eq_some.1 hCodecs
  have hNumbers : codecs.map ModelPart.number = parts.map ModelPart.number :=
    map_eq_map_of_forall₂ hRelated fun _ _ _ hPart => hPart.number
  have hAscending : (codecs.map ModelPart.number).Pairwise (· < ·) := by
    rw [hNumbers]
    exact ClosedType.shape?_ascending hArena hShape
  have hCodecOf : ∀ part ∈ parts, ∃ codec ∈ codecs, codec.number = part.number := by
    intro part hPart
    obtain ⟨codec, hMem, hOne⟩ := exists_of_mem_left hRelated hPart
    exact ⟨codec, hMem, hOne.number⟩
  rw [fill_message hArena hShape]
  refine (Writing.Trims.framed
    (Codec.trims_encodeFields (forall₂_imp_of_mem hRelated ?_))).of_toBytes
    (Codec.toBytes_encode_message _ hAscending ?_) (Codec.toBytes_encode_message _ hAscending ?_)
    |>.congr (hidesDefault_message hShape)
  · intro part hPart codec _ hOne
    refine trims_fieldWriting hArena (hType.of_mem_parts hArena hShape (List.mem_map_of_mem hPart))
      hOne.number hOne.content ?_ ?_ ?_
    · exact fun value hGet => hTyped _ (Fields.mem_of_get? hGet) part hPart rfl
    · exact fun value hGet => hTrims _ (Fields.mem_of_get? hGet) part hPart rfl
    · rw [Fields.get?_map_parts,
        ModelPart.find?_of_mem (ClosedType.shape?_nodup hArena hShape) hPart, Option.map_some]
  · intro field hField
    obtain ⟨part, hPart, hNumber⟩ := hDeclared field hField
    obtain ⟨codec, hMem, hSame⟩ := hCodecOf part hPart
    exact ⟨codec, hMem, hSame.trans hNumber⟩
  · exact List.forall_mem_map.2 hCodecOf

/-- The codec of a tag, at a variant with a payload. -/
theorem ClosedType.Proper.codec_payload {variants : List (ModelPart (Option ClosedType))}
    {number : UInt32} {name : String} {inner : ClosedType} {codec : Codec}
    (hArena : Arena models.definitions) (hType : type.Proper models.definitions)
    (hShape : type.shape? models.definitions = some (.tag variants))
    (hVariant : ⟨number, name, some inner⟩ ∈ variants)
    (hCodec : codecOf models.definitions type = some codec) :
    ∃ label codecs payload, codec = tagCodec label codecs ∧
      codecOf models.definitions inner = some payload ∧
      ModelPart.find? codecs number = some ⟨number, name, some payload⟩ := by
  rw [hType.codecOf_eq hArena hShape] at hCodec
  obtain ⟨codecs, hCodecs, rfl⟩ := Option.map_eq_some_iff.1 hCodec
  have hFind := ModelPart.find?_of_mem (ClosedType.shape?_nodup hArena hShape) hVariant
  obtain ⟨_, hFound, hSome⟩ := find?_codec (partsWith_eq_some.1 hCodecs) hFind
  obtain ⟨payload, hPayload, rfl⟩ := Option.map_eq_some_iff.1 hSome
  exact ⟨_, codecs, payload, rfl, hPayload, hFound⟩

section

variable {variants : List (ModelPart (Option ClosedType))} {number : UInt32} {name : String}
  {inner : ClosedType}

/-- A tag with a payload before and after filling. -/
theorem fillTrims_payload {value : Value} (hArena : Arena models.definitions)
    (hType : type.Proper models.definitions)
    (hShape : type.shape? models.definitions = some (.tag variants))
    (hVariant : ⟨number, name, some inner⟩ ∈ variants)
    (hTyped : HasType models.definitions .optional inner value)
    (hTrims : FillTrims models inner value) : FillTrims models type (.tag number (some value)) := by
  intro codec hCodec
  obtain ⟨label, codecs, payload, rfl, hPayload, hFind⟩ :=
    hType.codec_payload hArena hShape hVariant hCodec
  have hInner := hType.of_mem_parts hArena hShape (List.mem_filterMap.2 ⟨_, hVariant, rfl⟩)
  have hDefault := defaultValue_eq hPayload
  have hTrims := hTrims payload hPayload
  have hWritten := fun given => Codec.toBytes_encode_payload label (some given) hFind
  rw [fill_payload hArena hShape hVariant, fillPayload]
  refine Writing.Trims.congr ?_ (hidesDefault_payload hArena hShape hVariant)
  by_cases hLeftOut : number = 0 ∧ value = payload.default
  · -- The default is complete, so nothing is written on both sides and nothing is hidden.
    obtain ⟨rfl, rfl⟩ := hLeftOut
    rw [fill_default hArena hInner hPayload] at hTrims ⊢
    refine Writing.Succeeds.trims ⟨_, (hWritten _).trans (if_pos ⟨rfl, rfl⟩)⟩ ?_
    rintro (⟨_, hOther, _⟩ | hInside)
    · exact hOther hDefault.symm
    · exact hTrims.not_hides hInside
  · have hFirst := (hWritten value).trans (if_neg hLeftOut)
    by_cases hFilled : number = 0 ∧ fill models inner value = payload.default
    · have hSecond := (hWritten (fill models inner value)).trans (if_pos hFilled)
      have hSucceeds := (codecOf_accepts hArena hInner hPayload).succeeds hTyped
      refine Writing.Trims.of_toBytes
        (hSucceeds.trims_done _ (Varint.encode_ne_nil _) ?_).framed hFirst
        (hSecond.trans Codec.toBytes_empty_eq_framed)
      refine Or.inl ⟨hFilled.1, fun hSame => ?_, hFilled.2.trans hDefault.symm⟩
      exact hLeftOut ⟨hFilled.1, hSame.trans hDefault⟩
    · have hSecond := (hWritten (fill models inner value)).trans (if_neg hFilled)
      refine Writing.Trims.of_toBytes (Writing.Trims.framed (Writing.Trims.congr
        (((Writing.succeeds_piece _).trims not_false).andThen hTrims) ?_)) hFirst hSecond
      constructor
      · rintro (⟨rfl, _, hSame⟩ | hInside)
        · exact absurd ⟨rfl, hSame.trans hDefault⟩ hFilled
        · exact Or.inr hInside
      · rintro (hFalse | hInside)
        · exact absurd hFalse not_false
        · exact Or.inr hInside

/-- A payload that is missing is written as the default, so filling changes nothing. -/
theorem fillTrims_missing (hArena : Arena models.definitions)
    (hType : type.Proper models.definitions)
    (hShape : type.shape? models.definitions = some (.tag variants))
    (hVariant : ⟨number, name, some inner⟩ ∈ variants) :
    FillTrims models type (.tag number none) := by
  intro codec hCodec
  have hTyped : HasType models.definitions .optional type (.tag number none) :=
    .missing hShape hVariant rfl
  have hSucceeds := (codecOf_accepts hArena hType hCodec).succeeds hTyped
  obtain ⟨label, codecs, payload, rfl, hPayload, hFind⟩ :=
    hType.codec_payload hArena hShape hVariant hCodec
  have hSame : ((tagCodec label codecs).encode (.tag number (some payload.default))).toBytes =
      ((tagCodec label codecs).encode (.tag number none)).toBytes := by
    rw [Codec.toBytes_encode_payload label _ hFind, Codec.toBytes_encode_payload label _ hFind,
      Option.getD_none, Option.getD_some]
  rw [fill_payload hArena hShape hVariant, fillPayload, defaultValue_eq hPayload]
  refine Writing.Trims.of_toBytes (hSucceeds.trims ?_) rfl hSame
  rintro ⟨⟩

end

/-- Filling gives a value of the same bytes, or of fewer if a default is hidden in the value. -/
theorem HasType.fillTrims {value : Value} (hArena : Arena models.definitions)
    (hTyped : HasType models.definitions .optional type value)
    (hType : type.Proper models.definitions) : FillTrims models type value := by
  induction hTyped with
  | scalar scalar hShape =>
    refine (HasType.scalar scalar hShape).fillTrims_of_eq hArena hType (by rw [fill]) ?_
    rintro ⟨⟩
  | string text hShape =>
    refine (HasType.string text hShape).fillTrims_of_eq hArena hType (by rw [fill]) ?_
    rintro ⟨⟩
  | bytes bytes hShape =>
    refine (HasType.bytes bytes hShape).fillTrims_of_eq hArena hType (by rw [fill]) ?_
    rintro ⟨⟩
  | array hShape _ ih =>
    have hElement := hType.of_mem_parts hArena hShape List.mem_cons_self
    intro codec hCodec
    rw [hType.codecOf_eq hArena hShape] at hCodec
    obtain ⟨element, hInner, rfl⟩ := Option.map_eq_some_iff.1 hCodec
    rw [fill_array hShape]
    refine Writing.Trims.congr (Writing.Trims.framed ?_) (hidesDefault_array hShape)
    exact Codec.trims_encodeItems fun item hItem => ih item hItem hElement element hInner
  | map hShape _ _ ihKeys ihValues =>
    have hKey := hType.of_mem_parts hArena hShape List.mem_cons_self
    have hValue := hType.of_mem_parts hArena hShape (List.mem_cons_of_mem _ List.mem_cons_self)
    intro codec hCodec
    rw [hType.codecOf_eq hArena hShape] at hCodec
    obtain ⟨keys, hKeys, hCodec⟩ := Option.bind_eq_some_iff.1 hCodec
    obtain ⟨values, hValues, rfl⟩ := Option.map_eq_some_iff.1 hCodec
    rw [fill_map hShape]
    refine Writing.Trims.congr (Writing.Trims.framed ?_) (hidesDefault_map hShape)
    exact Codec.trims_encodeEntries fun entry hEntry =>
      (ihKeys entry hEntry hKey keys hKeys).andThen (ihValues entry hEntry hValue values hValues)
  | message hShape _ hDeclared hFields _ ih =>
    refine fillTrims_message hArena hType hShape hDeclared hFields ?_
    intro field hField part hPart hNumber
    exact ih field hField part hPart hNumber
      (hType.of_mem_parts hArena hShape (List.mem_map_of_mem hPart))
  | bare hShape hVariant =>
    refine (HasType.bare hShape hVariant).fillTrims_of_eq hArena hType
      (fill_bare hArena hShape hVariant none) ?_
    rintro ⟨⟩
  | payload hShape hVariant hPayload ih =>
    refine fillTrims_payload hArena hType hShape hVariant hPayload (ih ?_)
    exact hType.of_mem_parts hArena hShape (List.mem_filterMap.2 ⟨_, hVariant, rfl⟩)
  | missing hShape hVariant _ => exact fillTrims_missing hArena hType hShape hVariant
  | undeclared hShape hVariants =>
    refine (HasType.undeclared hShape hVariants).fillTrims_of_eq hArena hType
      (fill_undeclared hShape hVariants none) ?_
    rintro ⟨⟩

end

/-- A value and the same value filled. They are written as the same bytes exactly if no default is
hidden in the value; where one is, the value with nothing missing takes fewer bytes. -/
theorem toBytes_fill_iff {options : Schema.Options} {sources : List Schema.Source}
    {project : Project} (hCompile : Schema.compile options sources = .ok project)
    {type : ClosedType} {value : Value} (hType : type.Proper project.definitions)
    (hTyped : HasType project.definitions .optional type value) :
    ∃ bytes filled, toBytes project.toModels type value = .ok bytes ∧
      toBytes project.toModels type (fill project.toModels type value) = .ok filled ∧
      (filled = bytes ↔ ¬ HidesDefault project.toModels type value) ∧
      (HidesDefault project.toModels type value → filled.length < bytes.length) := by
  have hArena := Schema.compile_arena hCompile
  obtain ⟨_, codec, _, _, hCodec⟩ := hType.codec hArena
  have hEncode : ∀ given, toBytes project.toModels type given = (codec.encode given).toBytes := by
    intro given
    rw [toBytes, encode, shelvedCodecOf_eq, hCodec]
  obtain ⟨bytes, filled, hBytes, hFilled, hSame, hLess⟩ :=
    hTyped.fillTrims hArena hType codec hCodec
  refine ⟨bytes, filled, (hEncode _).trans hBytes, (hEncode _).trans hFilled, ⟨?_, hSame⟩, hLess⟩
  rintro rfl hHides
  exact Nat.lt_irrefl _ (hLess hHides)

end Interchange.Wire

/-! ## Parcels

A parcel has a label and a stamp, and a stamp is on a label of its own. -/

namespace Interchange.Schema.Parcel

def sources : List Source :=
  [⟨"parcel.ks", "namespace app; message Label { string text = 1; } tag Stamp { On(Label) = 0; }" ++
    " message Parcel { Label label = 1; Stamp stamp = 2; }"⟩]

def label : Resolved :=
  ⟨⟨"app", "Label"⟩, .message [] [⟨1, "text", .model Builtin.string.identifier []⟩] []⟩

def stamp : Resolved :=
  ⟨⟨"app", "Stamp"⟩, .tag [] [⟨0, "On", some (.model label.identifier [])⟩] []⟩

def parcel : Resolved :=
  ⟨⟨"app", "Parcel"⟩, .message [] [⟨1, "label", .model label.identifier []⟩,
    ⟨2, "stamp", .model stamp.identifier []⟩] []⟩

def table : List Resolved :=
  Resolved.tableOf [label, stamp, parcel]

def sorted : List Resolved :=
  [⟨Builtin.string.identifier, .builtin .string⟩, label, stamp, parcel] ++
    Resolved.builtins (Builtin.byName.erase .string)

def models : Models where
  definitions := Builtin.all.map Definition.ofBuiltin ++
    [⟨label.identifier, [], .message [⟨1, "text", .model ⟨0, .builtin⟩ 11 []⟩] []⟩,
      ⟨stamp.identifier, [], .tag [⟨0, "On", some (.model ⟨1, .message⟩ 16 [])⟩] []⟩,
      ⟨parcel.identifier, [], .message [⟨1, "label", .model ⟨2, .message⟩ 16 []⟩,
        ⟨2, "stamp", .model ⟨3, .tag⟩ 17 []⟩] []⟩]
  services := []
  references := 4

theorem compiles : Compiles sources table sorted models where
  resolve := resolve_of_toOption (by cbv)
  sort := sortDeclarations_of_names [label.identifier, parcel.identifier, stamp.identifier]
    (by decide) (by decide +kernel) (by cbv)
  build := by cbv

end Interchange.Schema.Parcel

namespace Interchange.Wire

open Schema.Parcel (models)

/-- A parcel with an empty label, and with a stamp whose label is missing. -/
def blankParcel : Value :=
  .message [(1, .message []), (2, .tag 0 none)]

theorem blankParcel_hasType : HasType models.definitions .optional (.mk 18 []) blankParcel := by
  have hLabel : HasType models.definitions .optional (.mk 16 []) (.message []) :=
    .message rfl .nil (by simp) (by simp) (by simp)
  have hStamp : HasType models.definitions .optional (.mk 17 []) (.tag 0 none) :=
    .missing rfl List.mem_cons_self rfl
  refine .message rfl (by decide) (by decide) ?_ (by simp)
  simp [hLabel, hStamp]

theorem blankParcel_hidesDefault : HidesDefault models (.mk 18 []) blankParcel := by
  have hDefault : defaultValue models (.mk 16 []) = .message [(1, .string "")] := by cbv
  have hFill : fill models (.mk 16 []) (.message []) = .message [(1, .string "")] := by cbv
  refine .field rfl List.mem_cons_self rfl ⟨?_, hFill.trans hDefault.symm⟩
  show Value.message [] ≠ defaultValue models (.mk 16 [])
  simp [hDefault]

/-- The parcel takes five bytes, and one byte with nothing missing. -/
theorem toBytes_blankParcel : HidesDefault models (.mk 18 []) blankParcel ∧
    ∃ bytes filled, toBytes models (.mk 18 []) blankParcel = .ok bytes ∧
      toBytes models (.mk 18 []) (fill models (.mk 18 []) blankParcel) = .ok filled ∧
      bytes = [0x84, 0x89, 0x80, 0x91, 0x80] ∧ filled = [0x80] ∧ filled.length < bytes.length := by
  have hProper : ClosedType.Proper models.definitions (.mk 18 []) := .mk rfl rfl (by simp)
  have hShort : (toBytes models (.mk 18 []) blankParcel).toOption =
      some [0x84, 0x89, 0x80, 0x91, 0x80] := by cbv
  have hOne : (toBytes models (.mk 18 []) (fill models (.mk 18 []) blankParcel)).toOption =
      some [0x80] := by cbv
  obtain ⟨bytes, filled, hBytes, hFilled, _, hLess⟩ := toBytes_fill_iff
    (Schema.Parcel.compiles.compile {}) hProper blankParcel_hasType
  have hBytes : toBytes models (.mk 18 []) blankParcel = .ok bytes := hBytes
  have hFilled : toBytes models (.mk 18 []) (fill models (.mk 18 []) blankParcel) = .ok filled :=
    hFilled
  rw [hBytes] at hShort
  rw [hFilled] at hOne
  exact ⟨blankParcel_hidesDefault, bytes, filled, hBytes, hFilled, Option.some.inj hShort,
    Option.some.inj hOne, hLess blankParcel_hidesDefault⟩

end Interchange.Wire

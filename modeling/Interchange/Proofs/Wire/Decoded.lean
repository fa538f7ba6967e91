import Interchange.Proofs.Wire.RoundTrip

/-!
# What reading gives

The bytes that are read may come from anywhere: numbers may be longer than they need to be, fields
may come twice, in any order or not at all, and a region may go on behind the payload of a tag.
Whatever the bytes are, a value that is read is a value of its type in which nothing is missing. So
it can be written, and what is written is read as the same value again.

The proof goes along the codec. A message starts as its default, in which nothing is missing, and
every entry gives a field that the message declares a value of its type. A tag is its default or a
declared variant, and a payload that the bytes leave out is the default of its type.

* `Reading.Yields`: what is read has a property, whatever the bytes are.
* `elements_yields`, `fieldEntry_yields`: repetition, and the entries of messages.
* `message_decode_yields`, `tag_decode_yields`: messages and tags that are put together from what
  was read.
* `decode_yields`: what the codec of a type reads is a value of the type.
* `ofBytes_canonical`: what is read from a byte string is written and read again.
-/

namespace Interchange.Wire

open Schema (Arena Builtin Definition ModelPart Models Project)

/-! ## Properties of what is read -/

namespace Reading

variable {α β : Type} {P : α → Prop}

/-- What is read has a property, whatever the bytes are. -/
def Yields (reading : Reading α) (P : α → Prop) : Prop :=
  ∀ bytes value rest, reading.run bytes = (.ok value, rest) → P value

theorem yields_true (reading : Reading α) : reading.Yields fun _ => True :=
  fun _ _ _ _ => trivial

theorem yields_pure {value : α} (hValue : P value) : (pure value : Reading α).Yields P := by
  intro bytes other rest hRun
  cases hRun
  exact hValue

theorem yields_fail (error : WireError) : (fail error : Reading α).Yields P := by
  intro bytes value rest hRun
  cases hRun

theorem yields_ofExcept {result : Except WireError α}
    (hResult : ∀ value, result = .ok value → P value) :
    (ofExcept result).Yields P := by
  cases result with
  | error error => exact yields_fail error
  | ok value => exact yields_pure (hResult value rfl)

theorem Yields.bind {reading : Reading α} {f : α → Reading β} {Q : β → Prop}
    (hFirst : reading.Yields P) (hNext : ∀ value, P value → (f value).Yields Q) :
    (reading >>= f).Yields Q := by
  intro bytes result rest hRun
  rw [run_bind] at hRun
  split at hRun
  next value after hValue =>
    exact hNext value (hFirst bytes value after hValue) after result rest hRun
  next => cases hRun

/-- What comes out of a further step, whatever came before. -/
theorem yields_bind {reading : Reading α} {f : α → Reading β} {Q : β → Prop}
    (hNext : ∀ value, (f value).Yields Q) : (reading >>= f).Yields Q :=
  (yields_true reading).bind fun value _ => hNext value

end Reading

open Reading

theorem elements_yields {α : Type} {P : α → Prop} {item : Reading α} (hItem : item.Yields P)
    {region : Bytes} {values : List α} (hElements : elements item region = .ok values) :
    ∀ value ∈ values, P value := by
  fun_induction elements item region generalizing values with
  | case1 region hEmpty =>
    cases hElements
    exact List.forall_mem_nil _
  | case2 region hSome error rest hRun => cases hElements
  | case3 region hSome value rest hRun hLess others hRest ih =>
    cases hElements
    exact List.forall_mem_cons.2 ⟨hItem region value rest hRun, ih hRest⟩
  | case4 region hSome value rest hRun hLess error hRest => cases hElements
  | case5 region hSome value rest hRun hLess => cases hElements

theorem yields_elements {α : Type} {P : α → Prop} {item : Reading α} (hItem : item.Yields P)
    (region : Bytes) :
    (ofExcept (elements item region)).Yields fun values => ∀ value ∈ values, P value :=
  yields_ofExcept fun _ => elements_yields hItem

theorem Scalar.read_yields (kind : Builtin) :
    (Scalar.read kind).Yields fun scalar => scalar.kind = kind := by
  cases kind with
  | void => exact yields_pure rfl
  | string => exact yields_fail _
  | array => exact yields_fail _
  | map => exact yields_fail _
  | _ => exact yields_bind fun _ => yields_pure rfl

namespace Codec

theorem readText_yields : readText.Yields fun value => ∃ text, value = .string text := by
  refine yields_bind fun region => ?_
  split
  next text _ => exact yields_pure ⟨text, rfl⟩
  next => exact yields_fail _

theorem entry_yields {key value : Reading Value} {P Q : Value → Prop} (hKey : key.Yields P)
    (hValue : value.Yields Q) : (entry key value).Yields fun pair => P pair.1 ∧ Q pair.2 :=
  hKey.bind fun _ hFirst => hValue.bind fun _ hSecond => yields_pure ⟨hFirst, hSecond⟩

/-- An entry of a message that is not skipped belongs to a field that the message declares. -/
theorem fieldEntry_yields (name : String) {parts : List (ModelPart Codec)}
    {P : ModelPart Codec → Value → Prop}
    (hParts : ∀ part ∈ parts, part.content.decode.Yields (P part)) :
    (fieldEntry name (fieldReaders parts)).Yields fun found =>
      ∀ field ∈ found, ∃ part ∈ parts, part.number = field.1 ∧ P part field.2 := by
  refine yields_bind fun tag => yields_bind ?_
  rintro ⟨id, layout⟩
  rw [fieldReaders_eq_map]
  dsimp only
  split
  next => exact yields_bind fun _ => yields_pure (by simp)
  next number label expected reading hFind =>
    obtain ⟨part, hPart, hReader⟩ := List.mem_map.1 (List.mem_of_find?_eq_some hFind)
    cases hReader
    split
    · refine (hParts part hPart).bind fun value hValue => yields_pure ?_
      rintro _ ⟨⟩
      exact ⟨part, hPart, rfl, hValue⟩
    · exact yields_fail _

/-- The message that a region holds is the default with fields set that the message declares. -/
theorem messageOf_yields {name : String} {fields : List (UInt32 × Value)} {value : Value}
    {parts : List (ModelPart Codec)} {region : Bytes} {P : ModelPart Codec → Value → Prop}
    (hParts : ∀ part ∈ parts, part.content.decode.Yields (P part))
    (hMessage : messageOf name (.message fields) (fieldReaders parts) region = .ok value) :
    ∃ entries, value = .message (Fields.setAll fields entries) ∧
      ∀ entry ∈ entries, ∃ part ∈ parts, part.number = entry.1 ∧ P part entry.2 := by
  obtain ⟨found, hFound, hValue⟩ := bind_eq_ok.1 hMessage
  cases hValue
  refine ⟨_, rfl, fun entry hEntry => ?_⟩
  obtain ⟨_, hMem, rfl⟩ := List.mem_filterMap.1 hEntry
  exact elements_yields (fieldEntry_yields name hParts) hFound _ hMem entry rfl

/-- The tag that a region holds is the default or a declared variant, with a payload exactly if the
variant declares one. The payload is the default or was read. -/
theorem tagOf_cases {name : String} {default value : Value}
    {variants : List (ModelPart (Option Codec))} {region : Bytes}
    (hTag : tagOf name default (variantReaders variants) region = .ok value) :
    value = default ∨ ∃ part ∈ variants,
      (part.content = none ∧ value = .tag part.number none) ∨
        ∃ codec payload, part.content = some codec ∧ value = .tag part.number (some payload) ∧
          (payload = codec.default ∨
            ∃ bytes rest, codec.decode.run bytes = (.ok payload, rest)) := by
  rw [tagOf] at hTag
  split at hTag
  next =>
    cases hTag
    exact Or.inl rfl
  next =>
    split at hTag
    next => cases hTag
    next number rest hRead =>
      rw [variantReaders_eq_map] at hTag
      split at hTag
      next =>
        split at hTag
        · cases hTag
          exact Or.inl rfl
        · cases hTag
      next declared label hFind =>
        obtain ⟨⟨_, _, content⟩, hPart, hReader⟩ := List.mem_map.1 (List.mem_of_find?_eq_some hFind)
        cases content with
        | some codec => cases hReader
        | none =>
          cases hReader
          cases hTag
          exact Or.inr ⟨_, hPart, Or.inl ⟨rfl, rfl⟩⟩
      next declared label missing reading hFind =>
        obtain ⟨⟨_, _, content⟩, hPart, hReader⟩ := List.mem_map.1 (List.mem_of_find?_eq_some hFind)
        cases content with
        | none => cases hReader
        | some codec =>
          cases hReader
          obtain ⟨payload, hPayload, hValue⟩ := bind_eq_ok.1 hTag
          cases hValue
          refine Or.inr ⟨_, hPart, Or.inr ⟨codec, payload, rfl, rfl, ?_⟩⟩
          rw [payloadOf] at hPayload
          split at hPayload
          · cases hPayload
            exact Or.inl rfl
          · exact Or.inr ⟨rest, _, Prod.ext hPayload rfl⟩

end Codec

/-! ## Messages and tags -/

theorem Fields.mem_setAll {fields entries : List (UInt32 × Value)} {field : UInt32 × Value}
    (hMem : field ∈ setAll fields entries) : field ∈ fields ∨ field ∈ entries := by
  induction entries generalizing fields with
  | nil => exact Or.inl hMem
  | cons entry rest ih =>
    rcases ih hMem with hMem | hMem
    · rcases mem_set hMem with rfl | hMem
      · exact Or.inr List.mem_cons_self
      · exact Or.inl hMem
    · exact Or.inr (List.mem_cons_of_mem _ hMem)

/-- A field that is there stays there, maybe with another value. -/
theorem Fields.exists_mem_setAll {fields : List (UInt32 × Value)} {field : UInt32 × Value}
    (hField : field ∈ fields) (entries : List (UInt32 × Value)) :
    ∃ other ∈ setAll fields entries, other.1 = field.1 := by
  have hGet : get? (setAll fields entries) field.1 ≠ none := by
    intro hNone
    rw [get?_setAll, Option.or_eq_none_iff] at hNone
    exact get?_eq_none.1 hNone.2 field hField rfl
  obtain ⟨value, hValue⟩ := Option.ne_none_iff_exists'.1 hGet
  exact ⟨_, mem_of_get? hValue, rfl⟩

section

variable {definitions : List Definition} {type : ClosedType}

/-- A message in which nothing is missing, after fields that it declares were given values of their
types. -/
theorem message_hasType {parts : List (ModelPart ClosedType)}
    {fields entries : List (UInt32 × Value)}
    (hShape : type.shape? definitions = some (.message parts))
    (hTyped : HasType definitions .required type (.message fields))
    (hEntries : ∀ entry ∈ entries, (∃ part ∈ parts, part.number = entry.1) ∧
      ∀ part ∈ parts, part.number = entry.1 → HasType definitions .required part.content entry.2) :
    HasType definitions .required type (.message (Fields.setAll fields entries)) := by
  cases hTyped with
  | message hFound hAscending hDeclared hFields hPresent =>
    cases hFound.symm.trans hShape
    refine .message hShape (hAscending.setAll entries) ?_ ?_ ?_
    · intro field hField
      rcases Fields.mem_setAll hField with hField | hField
      · exact hDeclared field hField
      · exact (hEntries field hField).1
    · intro field hField
      rcases Fields.mem_setAll hField with hField | hField
      · exact hFields field hField
      · exact (hEntries field hField).2
    · intro hRequired part hPart
      obtain ⟨field, hField, hNumber⟩ := hPresent hRequired part hPart
      obtain ⟨other, hOther, hSame⟩ := Fields.exists_mem_setAll hField entries
      exact ⟨other, hOther, hSame.trans hNumber⟩

theorem message_decode_yields (hArena : Arena definitions) (name : String)
    {fields : List (ModelPart ClosedType)} {parts : List (ModelPart Codec)}
    (hShape : type.shape? definitions = some (.message fields))
    (hDefault : HasType definitions .required type (messageCodec name parts).default)
    (hParts : List.Forall₂ (ModelPart.Related fun inner codec =>
      HasType definitions .required inner codec.default ∧
        codec.decode.Yields (HasType definitions .required inner)) fields parts) :
    (messageCodec name parts).decode.Yields (HasType definitions .required type) := by
  have hNumbers : (fields.map ModelPart.number).Nodup := ClosedType.shape?_nodup hArena hShape
  have hAscending : (parts.map ModelPart.number).Pairwise (· < ·) := by
    rw [map_eq_map_of_forall₂ hParts fun _ _ _ hRelated => hRelated.number]
    exact ClosedType.shape?_ascending hArena hShape
  have hYields : ∀ part ∈ parts, part.content.decode.Yields fun value => ∀ field ∈ fields,
      field.number = part.number → HasType definitions .required field.content value := by
    intro part hPart bytes value rest hRun field hField hNumber
    obtain ⟨other, hOther, hRelated⟩ := exists_of_mem_right hParts hPart
    obtain rfl : other = field :=
      List.inj_on_of_nodup_map hNumbers hOther hField (hRelated.number.symm.trans hNumber.symm)
    exact hRelated.content.2 bytes value rest hRun
  rw [Codec.messageCodec_default hAscending] at hDefault ⊢
  refine yields_bind fun region => yields_ofExcept fun value hMessage => ?_
  obtain ⟨entries, rfl, hEntries⟩ := Codec.messageOf_yields hYields hMessage
  refine message_hasType hShape hDefault fun entry hEntry => ?_
  obtain ⟨part, hPart, hNumber, hTyped⟩ := hEntries entry hEntry
  obtain ⟨field, hField, hRelated⟩ := exists_of_mem_right hParts hPart
  refine ⟨⟨field, hField, hRelated.number.symm.trans hNumber⟩, fun other hOther hSame => ?_⟩
  exact hTyped other hOther (hSame.trans hNumber.symm)

theorem tag_decode_yields (name : String) {variants : List (ModelPart (Option ClosedType))}
    {parts : List (ModelPart (Option Codec))}
    (hShape : type.shape? definitions = some (.tag variants))
    (hDefault : HasType definitions .required type (tagCodec name parts).default)
    (hParts : List.Forall₂ (ModelPart.Related (Option.Rel fun inner codec =>
      HasType definitions .required inner codec.default ∧
        codec.decode.Yields (HasType definitions .required inner))) variants parts) :
    (tagCodec name parts).decode.Yields (HasType definitions .required type) := by
  refine yields_bind fun region => yields_ofExcept fun value hTag => ?_
  rcases Codec.tagOf_cases hTag with rfl | ⟨part, hPart, hCase⟩
  · exact hDefault
  · obtain ⟨⟨number, label, content⟩, hVariant, hNumber, _, hContent⟩ :=
      exists_of_mem_right hParts hPart
    have hContent : Option.Rel _ content part.content := hContent
    have hNumber : part.number = number := hNumber
    rw [hNumber] at hCase
    rcases hCase with ⟨hNone, rfl⟩ | ⟨codec, payload, hSome, rfl, hPayload⟩
    · rw [hNone] at hContent
      cases hContent
      exact .bare hShape hVariant
    · rw [hSome] at hContent
      cases hContent with
      | some hTyped =>
        refine .payload hShape hVariant ?_
        rcases hPayload with rfl | ⟨bytes, rest, hRun⟩
        · exact hTyped.1
        · exact hTyped.2 bytes payload rest hRun

end

/-! ## All values -/

/-- What the codec of a type reads is a value of the type in which nothing is missing. -/
theorem decode_yields {definitions : List Definition} (hArena : Arena definitions) {codec : Codec}
    {type : ClosedType} (hType : type.Proper definitions)
    (hCodec : codecOf definitions type = some codec) :
    codec.decode.Yields (HasType definitions .required type) := by
  refine (codec_induction
    (P := fun type codec => codec.decode.Yields (HasType definitions .required type))
    hArena ?scalar ?string ?bytes ?array ?map ?message ?tag hType hCodec).2
  case scalar =>
    intro type kind hShape
    refine (Scalar.read_yields kind).bind fun scalar hKind => yields_pure (.scalar scalar ?_)
    rw [hKind, hShape]
  case string =>
    intro type hShape bytes value rest hRun
    obtain ⟨text, rfl⟩ := Codec.readText_yields bytes value rest hRun
    exact .string text hShape
  case bytes =>
    intro type hShape
    exact yields_bind fun region => yields_pure (.bytes region hShape)
  case array =>
    intro type element codec hShape hItem
    refine yields_bind fun region => (yields_elements hItem region).bind fun items hItems => ?_
    exact yields_pure (.array hShape hItems)
  case map =>
    intro type key value keys values hShape hKey hValue
    have hEntry := Codec.entry_yields hKey hValue
    refine yields_bind fun region => (yields_elements hEntry region).bind fun entries hEntries => ?_
    exact yields_pure (.map hShape (fun entry hMem => (hEntries entry hMem).1)
      fun entry hMem => (hEntries entry hMem).2)
  case message =>
    intro type fields parts name hShape hDefault hParts
    exact message_decode_yields hArena name hShape hDefault hParts
  case tag =>
    intro type variants parts name hShape hDefault hParts
    exact tag_decode_yields name hShape hDefault hParts

/-- What is read from a byte string, whatever it holds, is a value of the type in which nothing is
missing. It can be written, and reading what is written gives the same value. -/
theorem ofBytes_canonical {options : Schema.Options} {sources : List Schema.Source}
    {project : Project} (hCompile : Schema.compile options sources = .ok project)
    {type : ClosedType} {bytes : Bytes} {value : Value} (hType : type.Proper project.definitions)
    (hVoid : ¬ type.HoldsVoid project.definitions)
    (hRead : ofBytes project.toModels type bytes = .ok value) :
    HasType project.definitions .required type value ∧
      ∃ written, toBytes project.toModels type value = .ok written ∧
        (written.length < 2 ^ 64 → ofBytes project.toModels type written = .ok value) := by
  have hArena := Schema.compile_arena hCompile
  obtain ⟨_, codec, _, _, hCodec⟩ := hType.codec hArena
  have hDecode : decode project.toModels type = codec.decode := by
    rw [decode, shelvedCodecOf_eq, hCodec]
  have hTyped : HasType project.definitions .required type value := by
    rw [ofBytes, hDecode] at hRead
    exact decode_yields hArena hType hCodec bytes value _ (Prod.ext hRead rfl)
  obtain ⟨written, hCarries⟩ := hTyped.returns hArena (fun hPresence => by cases hPresence)
    ⟨hType, hVoid⟩ codec hCodec
  refine ⟨hTyped, written, ?_, fun hLength => ?_⟩
  · rw [toBytes, encode, shelvedCodecOf_eq, hCodec]
    exact hCarries.written
  · have hAgain := hCarries.reads hLength []
    rw [fill_of_required hArena hTyped, List.append_nil] at hAgain
    rw [ofBytes, hDecode, hAgain]

section

open Schema.Luggage (models)

/-- Bags in which the lock comes first and lacks its payload, the items come twice, a field is
unknown and two numbers are longer than they need to be. A byte follows. -/
def scrambled : Bytes :=
  [0x10, 0x80, 0x89, 0x8e, 0x8d, 0x91, 0x81, 0x81, 0x89, 0x80, 0x89, 0x83, 0x82, 0x68,
    0x69, 0xa8, 0x07, 0x80, 0xff]

def unscrambled : Value :=
  .message [(1, .array [.message [(1, .array [.string "hi"]), (2, .tag 1 (some (.string "")))]])]

theorem stringBags_proper : stringBags.Proper models.definitions := by
  refine .mk rfl rfl (List.forall_mem_singleton.2 (.mk rfl rfl ?_))
  simp

theorem stringBags_holdsNoVoid : ¬ stringBags.HoldsVoid models.definitions := by
  have hMem : stringBags ∈ [stringBags, .mk 14 [.mk 17 [.mk 11 []]], .mk 17 [.mk 11 []],
    .mk 14 [.mk 11 []], .mk 16 [.mk 11 []], .mk 11 []] := List.mem_cons_self
  exact ClosedType.not_holdsVoid_of_closed (by decide) (by decide) hMem

/-- What is read from the bytes is written in fewer bytes, and comes back from them. -/
theorem ofBytes_scrambled : ofBytes models stringBags scrambled = .ok unscrambled ∧
    HasType models.definitions .required stringBags unscrambled ∧
    ∃ written, toBytes models stringBags unscrambled = .ok written ∧ written.length = 13 ∧
      ofBytes models stringBags written = .ok unscrambled := by
  have hRead : (ofBytes models stringBags scrambled).toOption = some unscrambled := by cbv
  have hLength : ((toBytes models stringBags unscrambled).map List.length).toOption = some 13 := by
    cbv
  have hRead : ofBytes models stringBags scrambled = .ok unscrambled := toOption_eq_some.1 hRead
  obtain ⟨hTyped, written, hWritten, hAgain⟩ :=
    ofBytes_canonical (Schema.Luggage.compiles.compile {})
    stringBags_proper stringBags_holdsNoVoid hRead
  have hWritten : toBytes models stringBags unscrambled = .ok written := hWritten
  rw [hWritten] at hLength
  have hLength : written.length = 13 := Option.some.inj hLength
  exact ⟨hRead, hTyped, written, hWritten, hLength, hAgain (by rw [hLength]; decide)⟩

end

end Interchange.Wire

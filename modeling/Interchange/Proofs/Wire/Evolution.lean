import Interchange.Proofs.Wire.Typing

/-!
# Values that are read as another type

A value may be written as one type and read as another, of the same project or of another one. That
works if the shapes of the two types match: where both declare a field, its types match again. A
field that only the writer declares is skipped, and one that only the reader declares holds its
default. So the reader gets what it would get by filling the written value as a value of its own
type.

The proof goes along the typing of the value. A field whose value is missing or equal to its default
is not written, so the case of messages needs that defaults arrive, and so does the case of missing
payloads. In defaults nothing is missing, so they are dealt with first.

* `Shape.Matches`, `Matching`: matching shapes, and types whose shapes match at every depth.
* `fill_default_matching`: the default of the writer, filled as a value of the reader's type, is the
  reader's default.
* `HasType.arrives`: the induction on the typing.
* `default_arrives`: defaults arrive.
-/

namespace Interchange.Wire

open Schema (Arena Builtin Definition ModelPart Models Project)

/-! ## Matching types -/

/-- The same numbers are declared, with and without payloads, and the types of payloads are
related. -/
def MatchingVariants (R : ClosedType → ClosedType → Prop)
    (variants variants' : List (ModelPart (Option ClosedType))) : Prop :=
  ∀ number, Option.Rel (fun variant variant' => Option.Rel R variant.content variant'.content)
    (ModelPart.find? variants number) (ModelPart.find? variants' number)

/-- Shapes whose values can be read as one another, if the types in them are related. Fields may be
declared by one of the two only. -/
inductive Shape.Matches (R : ClosedType → ClosedType → Prop) : Shape → Shape → Prop
  | scalar (kind : Builtin) : Matches R (.scalar kind) (.scalar kind)
  | string : Matches R .string .string
  | bytes : Matches R .bytes .bytes
  | array {element element' : ClosedType} (hElement : R element element') :
      Matches R (.array element) (.array element')
  | map {key key' value value' : ClosedType} (hKey : R key key') (hValue : R value value') :
      Matches R (.map key value) (.map key' value')
  | message {parts parts' : List (ModelPart ClosedType)}
      (hParts : ∀ part ∈ parts, ∀ part' ∈ parts', part.number = part'.number →
        R part.content part'.content) :
      Matches R (.message parts) (.message parts')
  | tag {variants variants' : List (ModelPart (Option ClosedType))}
      (hVariants : MatchingVariants R variants variants') :
      Matches R (.tag variants) (.tag variants')

/-- Related types have matching shapes, in which related types stand again. -/
def Matching (writers readers : List Definition) (R : ClosedType → ClosedType → Prop) : Prop :=
  ∀ type other shape, R type other → type.shape? writers = some shape →
    ∃ shape', other.shape? readers = some shape' ∧ shape.Matches R shape'

namespace MatchingVariants

variable {R : ClosedType → ClosedType → Prop}
  {variants variants' : List (ModelPart (Option ClosedType))} {number : UInt32} {name : String}

theorem find?_none (hVariants : MatchingVariants R variants variants')
    (hFind : ModelPart.find? variants number = none) : ModelPart.find? variants' number = none := by
  have hRelated := hVariants number
  rw [hFind] at hRelated
  generalize ModelPart.find? variants' number = found at hRelated
  cases hRelated
  rfl

theorem find?_some (hVariants : MatchingVariants R variants variants')
    {variant : ModelPart (Option ClosedType)}
    (hFind : ModelPart.find? variants number = some variant) :
    ∃ name' content', ModelPart.find? variants' number = some ⟨number, name', content'⟩ ∧
      Option.Rel R variant.content content' := by
  have hRelated := hVariants number
  rw [hFind] at hRelated
  cases hFind' : ModelPart.find? variants' number with
  | none =>
    rw [hFind'] at hRelated
    cases hRelated
  | some variant' =>
    rw [hFind'] at hRelated
    obtain ⟨_, name', content'⟩ := variant'
    obtain rfl := (ModelPart.find?_eq_some hFind').2
    cases hRelated with
    | some hContents => exact ⟨name', content', rfl, hContents⟩

theorem find?_bare (hVariants : MatchingVariants R variants variants')
    (hFind : ModelPart.find? variants number = some ⟨number, name, none⟩) :
    ∃ name', ModelPart.find? variants' number = some ⟨number, name', none⟩ := by
  obtain ⟨name', content', hFind', hContents⟩ := hVariants.find?_some hFind
  cases hContents
  exact ⟨name', hFind'⟩

theorem find?_payload (hVariants : MatchingVariants R variants variants') {inner : ClosedType}
    (hFind : ModelPart.find? variants number = some ⟨number, name, some inner⟩) :
    ∃ name' inner', ModelPart.find? variants' number = some ⟨number, name', some inner'⟩ ∧
      R inner inner' := by
  obtain ⟨name', content', hFind', hContents⟩ := hVariants.find?_some hFind
  cases hContents with
  | some hInner => exact ⟨name', _, hFind', hInner⟩

end MatchingVariants

/-- The codec of a variant. -/
theorem find?_codec {build : ClosedType → Option Codec}
    {variants : List (ModelPart (Option ClosedType))} {codecs : List (ModelPart (Option Codec))}
    (hCodecs : List.Forall₂ (ModelPart.Related fun payload codec =>
      Shape.payloadCodec? build payload = some codec) variants codecs)
    {number : UInt32} {name : String} {content : Option ClosedType}
    (hFind : ModelPart.find? variants number = some ⟨number, name, content⟩) :
    ∃ codec, ModelPart.find? codecs number = some ⟨number, name, codec⟩ ∧
      Shape.payloadCodec? build content = some codec := by
  have hRelated := find?_related hCodecs number
  rw [hFind] at hRelated
  generalize ModelPart.find? codecs number = found at hRelated
  cases hRelated with
  | @some _ part hRelated =>
    obtain ⟨_, _, codec⟩ := part
    obtain ⟨rfl, rfl, hContent⟩ := hRelated
    exact ⟨codec, rfl, hContent⟩

/-- Where no variant has a number, no codec has it. -/
theorem find?_codec_none {build : ClosedType → Option Codec}
    {variants : List (ModelPart (Option ClosedType))} {codecs : List (ModelPart (Option Codec))}
    (hCodecs : List.Forall₂ (ModelPart.Related fun payload codec =>
      Shape.payloadCodec? build payload = some codec) variants codecs) {number : UInt32}
    (hFind : ModelPart.find? variants number = none) : ModelPart.find? codecs number = none := by
  have hRelated := find?_related hCodecs number
  rw [hFind] at hRelated
  generalize ModelPart.find? codecs number = found at hRelated
  cases hRelated
  rfl

/-- A proper type without arrays or maps of `void`. -/
structure ClosedType.Transferable (definitions : List Definition) (type : ClosedType) : Prop where
  proper : type.Proper definitions
  holdsNoVoid : ¬ type.HoldsVoid definitions

theorem ClosedType.Transferable.part {definitions : List Definition} (hArena : Arena definitions)
    {type inner : ClosedType} {shape : Shape} (hType : type.Transferable definitions)
    (hShape : type.shape? definitions = some shape) (hInner : inner ∈ shape.parts) :
    inner.Transferable definitions := by
  have hPart := part_of_mem_parts hShape hInner
  exact ⟨hType.proper.part hArena hPart, fun hVoid => hType.holdsNoVoid (.of_part hPart hVoid)⟩

/-- A value whose type is not `void` is not `void`. -/
theorem HasType.ne_void {definitions : List Definition} {presence : Presence} {type : ClosedType}
    {value : Value} (hTyped : HasType definitions presence type value)
    (hType : type.builtin? definitions ≠ some .void) : value ≠ .scalar .void := by
  rintro rfl
  cases hTyped with
  | scalar _ hShape => exact hType (ClosedType.scalar_of_shape? hShape).1

/-- A type to write and a type to read. -/
structure Paired (writers readers : Models) (type other : ClosedType) : Prop where
  writerArena : Arena writers.definitions
  readerArena : Arena readers.definitions
  type : type.Transferable writers.definitions
  other : other.Proper readers.definitions

theorem Paired.part {writers readers : Models} {type other inner inner' : ClosedType}
    {shape shape' : Shape} (hPaired : Paired writers readers type other)
    (hShape : type.shape? writers.definitions = some shape)
    (hShape' : other.shape? readers.definitions = some shape') (hInner : inner ∈ shape.parts)
    (hInner' : inner' ∈ shape'.parts) : Paired writers readers inner inner' where
  writerArena := hPaired.writerArena
  readerArena := hPaired.readerArena
  type := hPaired.type.part hPaired.writerArena hShape hInner
  other := hPaired.other.of_mem_parts hPaired.readerArena hShape' hInner'

section

variable {writers readers : Models} {type other : ClosedType}

/-! ## Defaults -/

/-- Filling does not change the default. -/
theorem fill_default (hArena : Arena writers.definitions) {codec : Codec}
    (hType : type.Proper writers.definitions)
    (hCodec : codecOf writers.definitions type = some codec) :
    fill writers type codec.default = codec.default :=
  fill_of_required hArena (default_hasType hArena hType hCodec)

theorem fill_message_default {parts : List (ModelPart Codec)} {parts' : List (ModelPart ClosedType)}
    {codecs' : List (ModelPart Codec)} (hReaders : Arena readers.definitions) (name name' : String)
    (hNumbers : (parts.map ModelPart.number).Pairwise (· < ·))
    (hShape' : other.shape? readers.definitions = some (.message parts'))
    (hCodecs' : List.Forall₂ (ModelPart.Related fun inner codec =>
      codecOf readers.definitions inner = some codec) parts' codecs')
    (hDefaults : ∀ part ∈ parts, ∀ part' ∈ parts', part.number = part'.number → ∀ codec',
      codecOf readers.definitions part'.content = some codec' →
        fill readers part'.content part.content.default = codec'.default) :
    fill readers other (messageCodec name parts).default =
      (messageCodec name' codecs').default := by
  have hNumbers' : (codecs'.map ModelPart.number).Pairwise (· < ·) := by
    rw [map_eq_map_of_forall₂ hCodecs' fun _ _ _ hRelated => hRelated.number]
    exact ClosedType.shape?_ascending hReaders hShape'
  rw [Codec.messageCodec_default hNumbers, Codec.messageCodec_default hNumbers']
  show fill readers other (.message _) = Value.message _
  rw [fill_message hReaders hShape']
  refine congrArg Value.message (map_eq_map_of_forall₂ hCodecs' ?_).symm
  intro part' hPart' codec' hRelated
  rw [hRelated.number, Fields.get?_map_parts]
  cases hFind : ModelPart.find? parts part'.number with
  | none => simp [defaultValue_eq hRelated.content]
  | some part =>
    obtain ⟨hPart, hNumber⟩ := ModelPart.find?_eq_some hFind
    simp [hDefaults part hPart part' hPart' hNumber _ hRelated.content]

theorem fill_tag_default {R : ClosedType → ClosedType → Prop}
    {variants variants' : List (ModelPart (Option ClosedType))}
    {codecs codecs' : List (ModelPart (Option Codec))} (hReaders : Arena readers.definitions)
    (hShape' : other.shape? readers.definitions = some (.tag variants'))
    (hVariants : MatchingVariants R variants variants')
    (hCodecs : List.Forall₂ (ModelPart.Related fun payload codec =>
      Shape.payloadCodec? (codecOf writers.definitions) payload = some codec) variants codecs)
    (hCodecs' : List.Forall₂ (ModelPart.Related fun payload codec =>
      Shape.payloadCodec? (codecOf readers.definitions) payload = some codec) variants' codecs')
    (hDefaults : ∀ variant ∈ variants, ∀ variant' ∈ variants', ∀ inner inner',
      variant.content = some inner → variant'.content = some inner' → R inner inner' →
        ∀ codec codec', ⟨variant.number, variant.name, some codec⟩ ∈ codecs →
          codecOf writers.definitions inner = some codec →
          codecOf readers.definitions inner' = some codec' →
            fill readers inner' codec.default = codec'.default) :
    fill readers other (Codec.tagDefault codecs) = Codec.tagDefault codecs' := by
  rw [Codec.tagDefault, Codec.tagDefault]
  cases hFind : ModelPart.find? variants 0 with
  | none =>
    have hFind' := hVariants.find?_none hFind
    rw [find?_codec_none hCodecs hFind, find?_codec_none hCodecs' hFind']
    exact fill_undeclared hShape' (ModelPart.find?_eq_none.1 hFind') none
  | some variant =>
    obtain ⟨number, name, content⟩ := variant
    obtain ⟨hVariant, rfl⟩ := ModelPart.find?_eq_some hFind
    cases content with
    | none =>
      obtain ⟨name', hFind'⟩ := hVariants.find?_bare hFind
      obtain ⟨_, hFound, hNone⟩ := find?_codec hCodecs hFind
      obtain ⟨_, hFound', hNone'⟩ := find?_codec hCodecs' hFind'
      cases hNone
      cases hNone'
      rw [hFound, hFound']
      exact fill_bare hReaders hShape' (ModelPart.find?_eq_some hFind').1 none
    | some inner =>
      obtain ⟨name', inner', hFind', hInner⟩ := hVariants.find?_payload hFind
      obtain ⟨_, hFound, hSome⟩ := find?_codec hCodecs hFind
      obtain ⟨_, hFound', hSome'⟩ := find?_codec hCodecs' hFind'
      obtain ⟨codec, hCodec, rfl⟩ := Option.map_eq_some_iff.1 hSome
      obtain ⟨codec', hCodec', rfl⟩ := Option.map_eq_some_iff.1 hSome'
      have hVariant' := (ModelPart.find?_eq_some hFind').1
      have hDefault := hDefaults _ hVariant _ hVariant' inner inner' rfl rfl hInner codec codec'
        (ModelPart.find?_eq_some hFound).1 hCodec hCodec'
      rw [hFound, hFound']
      show fill readers other (.tag 0 (some codec.default)) = .tag 0 (some codec'.default)
      rw [fill_payload hReaders hShape' hVariant', fillPayload, hDefault]

/-- The default of the writer, filled as a value of the reader's type, is the reader's default. -/
theorem fill_default_matching {R : ClosedType → ClosedType → Prop} {writer reader : Codec}
    (hMatching : Matching writers.definitions readers.definitions R)
    (hPaired : Paired writers readers type other) (hRelated : R type other)
    (hWriter : codecOf writers.definitions type = some writer)
    (hReader : codecOf readers.definitions other = some reader) :
    fill readers other writer.default = reader.default := by
  -- The codecs of the parts of a type are smaller than its own.
  induction hSize : sizeOf writer using Nat.strongRecOn generalizing writer reader type other with
  | ind size ih =>
    subst hSize
    obtain ⟨shape, found, hShape, hCodec, hSame⟩ := hPaired.type.proper.codec hPaired.writerArena
    cases hSame.symm.trans hWriter
    obtain ⟨shape', hShape', hMatches⟩ := hMatching type other shape hRelated hShape
    rw [hPaired.other.codecOf_eq hPaired.readerArena hShape'] at hReader
    cases hMatches with
    | scalar kind =>
      cases hCodec
      cases hReader
      show fill readers other (.scalar _) = .scalar _
      rw [fill]
    | string =>
      cases hCodec
      cases hReader
      show fill readers other (.string _) = .string _
      rw [fill]
    | bytes =>
      cases hCodec
      cases hReader
      show fill readers other (.bytes _) = .bytes _
      rw [fill]
    | array =>
      obtain ⟨_, _, rfl⟩ := Option.map_eq_some_iff.1 hCodec
      obtain ⟨_, _, rfl⟩ := Option.map_eq_some_iff.1 hReader
      exact fill_array hShape' []
    | map =>
      obtain ⟨_, _, hCodec⟩ := Option.bind_eq_some_iff.1 hCodec
      obtain ⟨_, _, rfl⟩ := Option.map_eq_some_iff.1 hCodec
      obtain ⟨_, _, hReader⟩ := Option.bind_eq_some_iff.1 hReader
      obtain ⟨_, _, rfl⟩ := Option.map_eq_some_iff.1 hReader
      exact fill_map hShape' []
    | @message parts parts' hParts =>
      obtain ⟨codecs, hCodecs, rfl⟩ := Option.map_eq_some_iff.1 hCodec
      obtain ⟨codecs', hCodecs', rfl⟩ := Option.map_eq_some_iff.1 hReader
      have hCodecs := partsWith_eq_some.1 hCodecs
      have hNumbers : (codecs.map ModelPart.number).Pairwise (· < ·) := by
        rw [map_eq_map_of_forall₂ hCodecs fun _ _ _ hRelated => hRelated.number]
        exact ClosedType.shape?_ascending hPaired.writerArena hShape
      refine fill_message_default hPaired.readerArena _ _ hNumbers hShape'
        (partsWith_eq_some.1 hCodecs') ?_
      intro codec hCodec part' hPart' hNumber codec' hCodec'
      obtain ⟨part, hPart, hPair⟩ := exists_of_mem_right hCodecs hCodec
      have hInner := hPaired.part hShape hShape' (List.mem_map_of_mem hPart)
        (List.mem_map_of_mem hPart')
      exact ih _ (sizeOf_lt_messageCodec hCodec) hInner
        (hParts part hPart part' hPart' (hPair.number.symm.trans hNumber)) hPair.content hCodec' rfl
    | @tag variants variants' hVariants =>
      obtain ⟨codecs, hCodecs, rfl⟩ := Option.map_eq_some_iff.1 hCodec
      obtain ⟨codecs', hCodecs', rfl⟩ := Option.map_eq_some_iff.1 hReader
      refine fill_tag_default hPaired.readerArena hShape' hVariants (partsWith_eq_some.1 hCodecs)
        (partsWith_eq_some.1 hCodecs') ?_
      intro variant hVariant variant' hVariant' inner inner' hContent hContent' hInner codec codec'
        hMem hCodec hCodec'
      have hPayloads := hPaired.part hShape hShape'
        (List.mem_filterMap.2 ⟨variant, hVariant, hContent⟩)
        (List.mem_filterMap.2 ⟨variant', hVariant', hContent'⟩)
      exact ih _ (sizeOf_lt_tagCodec hMem rfl) hPayloads hInner hCodec hCodec' rfl

/-! ## Messages -/

/-- What is written is filled when it is read, first as a value of the one type, then of the
other. -/
def Arrives (writers readers : Models) (type other : ClosedType) (value : Value) : Prop :=
  ∀ writer reader, codecOf writers.definitions type = some writer →
    codecOf readers.definitions other = some reader →
      ∃ bytes, writer.Carries reader value (fill readers other (fill writers type value)) bytes

theorem Paired.arrives {shape shape' : Shape} {value : Value}
    (hPaired : Paired writers readers type other)
    (hShape : type.shape? writers.definitions = some shape)
    (hShape' : other.shape? readers.definitions = some shape')
    (hCarries : ∀ name name' writer reader,
      shape.codec? (codecOf writers.definitions) name = some writer →
      shape'.codec? (codecOf readers.definitions) name' = some reader →
        ∃ bytes, writer.Carries reader value (fill readers other (fill writers type value)) bytes) :
    Arrives writers readers type other value := by
  intro writer reader hWriter hReader
  rw [hPaired.type.proper.codecOf_eq hPaired.writerArena hShape] at hWriter
  rw [hPaired.other.codecOf_eq hPaired.readerArena hShape'] at hReader
  exact hCarries _ _ writer reader hWriter hReader

/-- The value of a field, filled by the type of its part. -/
def fillField (models : Models) (parts : List (ModelPart ClosedType)) (number : UInt32)
    (value : Value) : Value :=
  match ModelPart.find? parts number with
  | some part => fill models part.content value
  | none => value

theorem fillField_of_mem {models : Models} {parts : List (ModelPart ClosedType)}
    {part : ModelPart ClosedType}
    (hNumbers : (parts.map ModelPart.number).Nodup) (hPart : part ∈ parts) (value : Value) :
    fillField models parts part.number value = fill models part.content value := by
  rw [fillField, ModelPart.find?_of_mem hNumbers hPart]

/-- The value of a field as the reader gets it. -/
def arrivedField (writers readers : Models) (parts parts' : List (ModelPart ClosedType))
    (number : UInt32) (value : Value) : Value :=
  fillField readers parts' number (fillField writers parts number value)

theorem messageRead_arrivedField {parts parts' : List (ModelPart ClosedType)}
    {codecs' : List (ModelPart Codec)} {fields : List (UInt32 × Value)}
    (hPaired : Paired writers readers type other)
    (hShape : type.shape? writers.definitions = some (.message parts))
    (hShape' : other.shape? readers.definitions = some (.message parts'))
    (hCodecs' : List.Forall₂ (ModelPart.Related fun inner codec =>
      codecOf readers.definitions inner = some codec) parts' codecs')
    (hDeclared : ∀ field ∈ fields, ∃ part ∈ parts, part.number = field.1)
    (hDefaults : ∀ part ∈ parts, ∀ part' ∈ parts', part.number = part'.number →
      fill readers part'.content (defaultValue writers part.content) =
        defaultValue readers part'.content) :
    Codec.messageRead codecs' (arrivedField writers readers parts parts') fields =
      fill readers other (fill writers type (.message fields)) := by
  have hNumbers : (parts.map ModelPart.number).Nodup :=
    ClosedType.shape?_nodup hPaired.writerArena hShape
  have hNumbers' : (parts'.map ModelPart.number).Nodup :=
    ClosedType.shape?_nodup hPaired.readerArena hShape'
  rw [fill_message hPaired.writerArena hShape, fill_message hPaired.readerArena hShape',
    Codec.messageRead]
  refine congrArg Value.message (map_eq_map_of_forall₂ hCodecs' ?_)
  intro part' hPart' codec' hPair
  rw [hPair.number, Fields.get?_map_parts, ← defaultValue_eq hPair.content]
  cases hFind : ModelPart.find? parts part'.number with
  | none =>
    have hMissing : Fields.get? fields part'.number = none := by
      rw [Fields.get?_eq_none]
      intro field hField hNumber
      obtain ⟨part, hPart, hSame⟩ := hDeclared field hField
      exact ModelPart.find?_eq_none.1 hFind part hPart (hSame.trans hNumber)
    simp [hMissing]
  | some part =>
    obtain ⟨hPart, hNumber⟩ := ModelPart.find?_eq_some hFind
    rw [Option.map_some, Option.map_some, Option.getD_some, ← hNumber]
    cases Fields.get? fields part.number with
    | none =>
      have hDefault := hDefaults part hPart part' hPart' hNumber
      simp [hDefault]
    | some value =>
      rw [Option.map_some, Option.getD_some, Option.map_some, Option.getD_some, arrivedField,
        fillField_of_mem hNumbers hPart, hNumber, fillField_of_mem hNumbers' hPart']

theorem arrives_message {parts parts' : List (ModelPart ClosedType)}
    {fields : List (UInt32 × Value)} (hPaired : Paired writers readers type other)
    (hShape : type.shape? writers.definitions = some (.message parts))
    (hShape' : other.shape? readers.definitions = some (.message parts'))
    (hDeclared : ∀ field ∈ fields, ∃ part ∈ parts, part.number = field.1)
    (hKnown : ∀ field ∈ fields, ∀ part ∈ parts, part.number = field.1 → ∀ part' ∈ parts',
      part'.number = field.1 → Arrives writers readers part.content part'.content field.2)
    (hUnknown : ∀ field ∈ fields, ∀ part ∈ parts, part.number = field.1 →
      (∀ part' ∈ parts', part'.number ≠ part.number) → ∀ codec,
        codecOf writers.definitions part.content = some codec → field.2 ≠ codec.default →
          ∃ result bytes, bytes ≠ [] ∧ codec.Carries codec field.2 result bytes)
    (hDefaults : ∀ part ∈ parts, ∀ part' ∈ parts', part.number = part'.number →
      fill readers part'.content (defaultValue writers part.content) =
        defaultValue readers part'.content) :
    Arrives writers readers type other (.message fields) := by
  refine hPaired.arrives hShape hShape' fun _ _ writer reader hWriter hReader => ?_
  obtain ⟨codecs, hCodecs, rfl⟩ := Option.map_eq_some_iff.1 hWriter
  obtain ⟨codecs', hCodecs', rfl⟩ := Option.map_eq_some_iff.1 hReader
  have hCodecs := partsWith_eq_some.1 hCodecs
  have hCodecs' := partsWith_eq_some.1 hCodecs'
  have hNumbers : (parts.map ModelPart.number).Nodup :=
    ClosedType.shape?_nodup hPaired.writerArena hShape
  have hNumbers' : (parts'.map ModelPart.number).Nodup :=
    ClosedType.shape?_nodup hPaired.readerArena hShape'
  have hAscending : (codecs.map ModelPart.number).Pairwise (· < ·) := by
    rw [map_eq_map_of_forall₂ hCodecs fun _ _ _ hPair => hPair.number]
    exact ClosedType.shape?_ascending hPaired.writerArena hShape
  have hAscending' : (codecs'.map ModelPart.number).Pairwise (· < ·) := by
    rw [map_eq_map_of_forall₂ hCodecs' fun _ _ _ hPair => hPair.number]
    exact ClosedType.shape?_ascending hPaired.readerArena hShape'
  rw [← messageRead_arrivedField hPaired hShape hShape' hCodecs' hDeclared hDefaults]
  refine Codec.carries_message _ _ hAscending hAscending' ?_ ⟨?_, ?_⟩ ?_
  · intro field hField
    obtain ⟨part, hPart, hNumber⟩ := hDeclared field hField
    obtain ⟨codec, hCodec, hPair⟩ := exists_of_mem_left hCodecs hPart
    exact ⟨codec, hCodec, hPair.number.trans hNumber⟩
  · intro codec hCodec codec' hCodec' hSame value hWritten
    obtain ⟨part, hPart, hPair⟩ := exists_of_mem_right hCodecs hCodec
    obtain ⟨part', hPart', hPair'⟩ := exists_of_mem_right hCodecs' hCodec'
    have hField := Fields.mem_of_get? (Codec.written?_eq_some.1 hWritten).1
    have hNumber' : part'.number = codec.number := hPair'.number.symm.trans hSame
    have hArrives := hKnown _ hField part hPart hPair.number.symm part' hPart' hNumber'
    rw [arrivedField, hPair.number, fillField_of_mem hNumbers hPart, ← hPair.number, ← hNumber',
      fillField_of_mem hNumbers' hPart']
    exact hArrives _ _ hPair.content hPair'.content
  · intro codec hCodec hNone value hWritten
    obtain ⟨part, hPart, hPair⟩ := exists_of_mem_right hCodecs hCodec
    have hUnshared : ∀ part' ∈ parts', part'.number ≠ part.number := by
      intro part' hPart' hNumber
      obtain ⟨codec', hCodec', hPair'⟩ := exists_of_mem_left hCodecs' hPart'
      exact ModelPart.find?_eq_none.1 hNone codec' hCodec'
        (hPair'.number.trans (hNumber.trans hPair.number.symm))
    obtain ⟨hGet, hOther⟩ := Codec.written?_eq_some.1 hWritten
    exact hUnknown _ (Fields.mem_of_get? hGet) part hPart hPair.number.symm
      hUnshared _ hPair.content
      hOther
  · intro codec hCodec codec' hCodec' hSame _
    obtain ⟨part, hPart, hPair⟩ := exists_of_mem_right hCodecs hCodec
    obtain ⟨part', hPart', hPair'⟩ := exists_of_mem_right hCodecs' hCodec'
    have hNumber' : part'.number = codec.number := hPair'.number.symm.trans hSame
    have hInner : part.content.Proper writers.definitions :=
      hPaired.type.proper.of_mem_parts hPaired.writerArena hShape (List.mem_map_of_mem hPart)
    have hDefault := hDefaults part hPart part' hPart' (hPair.number.symm.trans hNumber'.symm)
    rw [defaultValue_eq hPair.content, defaultValue_eq hPair'.content] at hDefault
    rw [arrivedField, hPair.number, fillField_of_mem hNumbers hPart, ← hPair.number, ← hNumber',
      fillField_of_mem hNumbers' hPart', fill_default hPaired.writerArena hInner hPair.content]
    exact hDefault

/-! ## Tags -/

/-- It is enough to look at the codecs of tags. -/
theorem arrives_of_codecs {variants variants' : List (ModelPart (Option ClosedType))}
    {value result : Value} (hPaired : Paired writers readers type other)
    (hShape : type.shape? writers.definitions = some (.tag variants))
    (hShape' : other.shape? readers.definitions = some (.tag variants'))
    (hResult : fill readers other (fill writers type value) = result)
    (hCarries : ∀ name name' codecs codecs',
      List.Forall₂ (ModelPart.Related fun payload codec =>
        Shape.payloadCodec? (codecOf writers.definitions) payload = some codec) variants codecs →
      List.Forall₂ (ModelPart.Related fun payload codec =>
        Shape.payloadCodec? (codecOf readers.definitions) payload = some codec) variants' codecs' →
        ∃ bytes, (tagCodec name codecs).Carries (tagCodec name' codecs') value result bytes) :
    Arrives writers readers type other value := by
  refine hPaired.arrives hShape hShape' fun _ _ writer reader hWriter hReader => ?_
  obtain ⟨codecs, hCodecs, rfl⟩ := Option.map_eq_some_iff.1 hWriter
  obtain ⟨codecs', hCodecs', rfl⟩ := Option.map_eq_some_iff.1 hReader
  rw [hResult]
  exact hCarries _ _ _ _ (partsWith_eq_some.1 hCodecs) (partsWith_eq_some.1 hCodecs')

section

variable {variants variants' : List (ModelPart (Option ClosedType))} {number : UInt32}
  {name name' : String}

theorem arrives_bare (hPaired : Paired writers readers type other)
    (hShape : type.shape? writers.definitions = some (.tag variants))
    (hShape' : other.shape? readers.definitions = some (.tag variants'))
    (hFind : ModelPart.find? variants number = some ⟨number, name, none⟩)
    (hFind' : ModelPart.find? variants' number = some ⟨number, name', none⟩) :
    Arrives writers readers type other (.tag number none) := by
  have hResult : fill readers other (fill writers type (.tag number none)) = .tag number none := by
    rw [fill_bare hPaired.writerArena hShape (ModelPart.find?_eq_some hFind).1,
      fill_bare hPaired.readerArena hShape' (ModelPart.find?_eq_some hFind').1]
  refine arrives_of_codecs hPaired hShape hShape' hResult ?_
  intro _ _ codecs codecs' hCodecs hCodecs'
  obtain ⟨_, hFound, hNone⟩ := find?_codec hCodecs hFind
  obtain ⟨_, hFound', hNone'⟩ := find?_codec hCodecs' hFind'
  cases hNone
  cases hNone'
  exact Codec.carries_bare _ _ hFound hFound'

theorem arrives_payload {inner inner' : ClosedType} {payload : Option Value}
    (hPaired : Paired writers readers type other)
    (hShape : type.shape? writers.definitions = some (.tag variants))
    (hShape' : other.shape? readers.definitions = some (.tag variants'))
    (hFind : ModelPart.find? variants number = some ⟨number, name, some inner⟩)
    (hFind' : ModelPart.find? variants' number = some ⟨number, name', some inner'⟩)
    (hPayload : Arrives writers readers inner inner' (payload.getD (defaultValue writers inner)))
    (hDefault : fill readers inner' (defaultValue writers inner) = defaultValue readers inner') :
    Arrives writers readers type other (.tag number payload) := by
  have hVariant := (ModelPart.find?_eq_some hFind).1
  have hInner : inner.Proper writers.definitions :=
    hPaired.type.proper.of_mem_parts hPaired.writerArena hShape
      (List.mem_filterMap.2 ⟨_, hVariant, rfl⟩)
  obtain ⟨_, codec, _, _, hCodec⟩ := hInner.codec hPaired.writerArena
  have hFixed : fill writers inner (defaultValue writers inner) = defaultValue writers inner := by
    rw [defaultValue_eq hCodec, fill_default hPaired.writerArena hInner hCodec]
  have hFilled : fillPayload writers inner payload =
      fill writers inner (payload.getD (defaultValue writers inner)) := by
    cases payload with
    | none => rw [fillPayload, Option.getD_none, hFixed]
    | some value => rw [fillPayload, Option.getD_some]
  have hResult : fill readers other (fill writers type (.tag number payload)) = .tag number
      (some (fill readers inner'
        (fill writers inner (payload.getD (defaultValue writers inner))))) := by
    rw [fill_payload hPaired.writerArena hShape hVariant, hFilled,
      fill_payload hPaired.readerArena hShape' (ModelPart.find?_eq_some hFind').1, fillPayload]
  refine arrives_of_codecs hPaired hShape hShape' hResult ?_
  intro _ _ codecs codecs' hCodecs hCodecs'
  obtain ⟨_, hFound, hSome⟩ := find?_codec hCodecs hFind
  obtain ⟨_, hFound', hSome'⟩ := find?_codec hCodecs' hFind'
  obtain ⟨writer, hWriter, rfl⟩ := Option.map_eq_some_iff.1 hSome
  obtain ⟨reader, hReader, rfl⟩ := Option.map_eq_some_iff.1 hSome'
  obtain ⟨bytes, hCarries⟩ := hPayload writer reader hWriter hReader
  rw [defaultValue_eq hWriter] at hCarries hDefault hFixed ⊢
  rw [defaultValue_eq hReader] at hDefault
  refine Codec.carries_payload _ _ hFound hFound' hCarries fun hEqual => ?_
  rw [hEqual, hFixed, hDefault]

theorem arrives_undeclared (hPaired : Paired writers readers type other)
    (hShape : type.shape? writers.definitions = some (.tag variants))
    (hShape' : other.shape? readers.definitions = some (.tag variants'))
    (hFind : ModelPart.find? variants 0 = none) (hFind' : ModelPart.find? variants' 0 = none) :
    Arrives writers readers type other (.tag 0 none) := by
  have hDefault : ∀ codecs, ModelPart.find? codecs 0 = none →
      Codec.tagDefault codecs = .tag 0 none := by
    intro codecs hNone
    rw [Codec.tagDefault, hNone, Option.bind_none, Option.map_none]
  have hResult : fill readers other (fill writers type (.tag 0 none)) = .tag 0 none := by
    rw [fill_undeclared hShape (ModelPart.find?_eq_none.1 hFind),
      fill_undeclared hShape' (ModelPart.find?_eq_none.1 hFind')]
  refine arrives_of_codecs hPaired hShape hShape' hResult ?_
  intro name name' codecs codecs' hCodecs hCodecs'
  have hCarries : (tagCodec name codecs).Carries (tagCodec name' codecs') (Codec.tagDefault codecs)
      (Codec.tagDefault codecs') _ := Codec.carries_tag_default name name'
  rw [hDefault codecs (find?_codec_none hCodecs hFind),
    hDefault codecs' (find?_codec_none hCodecs' hFind')] at hCarries
  exact ⟨_, hCarries⟩

end

/-! ## All values -/

/-- A value whose codec takes no bytes for it equals the default. -/
theorem HasType.eq_default_of_void {definitions : List Definition} {presence : Presence}
    {codec : Codec} (hArena : Arena definitions) (hType : type.Proper definitions)
    (hTyped : HasType definitions presence type (.scalar .void))
    (hCodec : codecOf definitions type = some codec) : codec.default = .scalar .void := by
  cases hTyped with
  | scalar _ hShape =>
    rw [hType.codecOf_eq hArena hShape] at hCodec
    cases hCodec
    rfl

/-- What stands in fields that the reader does not declare comes back where it was written, so that
its bytes can be skipped. -/
def Skips (writers readers : Models) (R : ClosedType → ClosedType → Prop) : Prop :=
  ∀ type other parts parts', R type other →
    type.shape? writers.definitions = some (.message parts) →
    other.shape? readers.definitions = some (.message parts') →
      ∀ part ∈ parts, (∀ part' ∈ parts', part'.number ≠ part.number) →
        part.content.Transferable writers.definitions → ∀ presence value,
          HasType writers.definitions presence part.content value →
            Arrives writers writers part.content part.content value

/-- Typed values arrive, if defaults do where something may be missing. -/
theorem HasType.arrives {R : ClosedType → ClosedType → Prop} {presence : Presence} {value : Value}
    (hMatching : Matching writers.definitions readers.definitions R)
    (hSkips : Skips writers readers R)
    (hDefaults : presence = .optional → ∀ inner inner', Paired writers readers inner inner' →
      R inner inner' → Arrives writers readers inner inner' (defaultValue writers inner))
    (hTyped : HasType writers.definitions presence type value)
    (hPaired : Paired writers readers type other) (hRelated : R type other) :
    Arrives writers readers type other value := by
  have hFixed : ∀ {inner inner' : ClosedType}, Paired writers readers inner inner' →
      R inner inner' → fill readers inner' (defaultValue writers inner) =
        defaultValue readers inner' := by
    intro inner inner' hInner hBoth
    obtain ⟨_, writer, _, _, hWriter⟩ := hInner.type.proper.codec hInner.writerArena
    obtain ⟨_, reader, _, _, hReader⟩ := hInner.other.codec hInner.readerArena
    rw [defaultValue_eq hWriter, defaultValue_eq hReader]
    exact fill_default_matching hMatching hInner hBoth hWriter hReader
  induction hTyped generalizing other with
  | scalar scalar hShape =>
    obtain ⟨_, hShape', hMatches⟩ := hMatching _ _ _ hRelated hShape
    cases hMatches
    refine hPaired.arrives hShape hShape' fun _ _ writer reader hWriter hReader => ?_
    cases hWriter
    cases hReader
    rw [fill, fill]
    exact ⟨_, Codec.carries_scalar scalar _⟩
  | string text hShape =>
    obtain ⟨_, hShape', hMatches⟩ := hMatching _ _ _ hRelated hShape
    cases hMatches
    refine hPaired.arrives hShape hShape' fun _ _ writer reader hWriter hReader => ?_
    cases hWriter
    cases hReader
    rw [fill, fill]
    exact ⟨_, Codec.carries_string text _ _⟩
  | bytes bytes hShape =>
    obtain ⟨_, hShape', hMatches⟩ := hMatching _ _ _ hRelated hShape
    cases hMatches
    refine hPaired.arrives hShape hShape' fun _ _ writer reader hWriter hReader => ?_
    cases hWriter
    cases hReader
    rw [fill, fill]
    exact ⟨_, Codec.carries_bytes bytes _ _⟩
  | array hShape hItems ih =>
    obtain ⟨_, hShape', hMatches⟩ := hMatching _ _ _ hRelated hShape
    cases hMatches with
    | array hElement =>
      have hElements := hPaired.part hShape hShape' List.mem_cons_self List.mem_cons_self
      refine hPaired.arrives hShape hShape' fun _ _ writer reader hWriter hReader => ?_
      obtain ⟨inner, hInner, rfl⟩ := Option.map_eq_some_iff.1 hWriter
      obtain ⟨inner', hInner', rfl⟩ := Option.map_eq_some_iff.1 hReader
      rw [fill_array hShape, fill_array hShape', List.map_map]
      refine Codec.carries_array _ _ fun item hItem => ⟨?_, ?_⟩
      · refine (hItems item hItem).ne_void fun hVoid => hPaired.type.holdsNoVoid ?_
        exact ClosedType.holdsVoid_of_shape? hShape (by simp) (by simp) List.mem_cons_self hVoid
      · exact ih item hItem hElements hElement inner inner' hInner hInner'
  | @map type key value entries hShape hKeys _ ihKeys ihValues =>
    obtain ⟨_, hShape', hMatches⟩ := hMatching _ _ _ hRelated hShape
    cases hMatches with
    | @map _ key' _ value' hKey hValue =>
      have hKeyTypes := hPaired.part hShape hShape' List.mem_cons_self List.mem_cons_self
      have hValueTypes := hPaired.part hShape hShape' (List.mem_cons_of_mem _ List.mem_cons_self)
        (List.mem_cons_of_mem _ List.mem_cons_self)
      refine hPaired.arrives hShape hShape' fun _ _ writer reader hWriter hReader => ?_
      obtain ⟨keys, hKeyCodec, hWriter⟩ := Option.bind_eq_some_iff.1 hWriter
      obtain ⟨values, hValueCodec, rfl⟩ := Option.map_eq_some_iff.1 hWriter
      obtain ⟨keys', hKeyCodec', hReader⟩ := Option.bind_eq_some_iff.1 hReader
      obtain ⟨values', hValueCodec', rfl⟩ := Option.map_eq_some_iff.1 hReader
      have hResult : fill readers other (fill writers type (.map entries)) =
          .map (entries.map fun entry => ((fill readers key' ∘ fill writers key) entry.1,
            (fill readers value' ∘ fill writers value) entry.2)) := by
        rw [fill_map hShape, fill_map hShape', List.map_map]
        rfl
      rw [hResult]
      refine Codec.carries_map _ _ fun entry hEntry => ⟨?_, ?_, ?_⟩
      · refine (hKeys entry hEntry).ne_void fun hVoid => hPaired.type.holdsNoVoid ?_
        exact ClosedType.holdsVoid_of_shape? hShape (by simp) (by simp) List.mem_cons_self hVoid
      · exact ihKeys entry hEntry hKeyTypes hKey keys keys' hKeyCodec hKeyCodec'
      · exact ihValues entry hEntry hValueTypes hValue values values' hValueCodec hValueCodec'
  | message hShape _ hDeclared hFields _ ih =>
    obtain ⟨_, hShape', hMatches⟩ := hMatching _ _ _ hRelated hShape
    cases hMatches with
    | message hParts =>
      refine arrives_message hPaired hShape hShape' hDeclared ?_ ?_ ?_
      · intro field hField part hPart hNumber part' hPart' hNumber'
        have hInner := hPaired.part hShape hShape' (List.mem_map_of_mem hPart)
          (List.mem_map_of_mem hPart')
        exact ih field hField part hPart hNumber hInner
          (hParts part hPart part' hPart' (hNumber.trans hNumber'.symm))
      · intro field hField part hPart hNumber hUnshared codec hCodec hOther
        have hInner := hPaired.type.part hPaired.writerArena hShape (List.mem_map_of_mem hPart)
        have hField := hFields field hField part hPart hNumber
        obtain ⟨bytes, hCarries⟩ :=
          hSkips _ _ _ _ hRelated hShape hShape' part hPart hUnshared hInner
          _ _ hField codec codec hCodec hCodec
        refine ⟨_, bytes, fun hEmpty => ?_, hCarries⟩
        rw [(hCarries.void hEmpty).1] at hField hOther
        exact hOther (hField.eq_default_of_void hPaired.writerArena hInner.proper hCodec).symm
      · intro part hPart part' hPart' hNumber
        have hInner := hPaired.part hShape hShape' (List.mem_map_of_mem hPart)
          (List.mem_map_of_mem hPart')
        exact hFixed hInner (hParts part hPart part' hPart' hNumber)
  | bare hShape hVariant =>
    obtain ⟨_, hShape', hMatches⟩ := hMatching _ _ _ hRelated hShape
    cases hMatches with
    | tag hVariants =>
      have hFind :=
        ModelPart.find?_of_mem (ClosedType.shape?_nodup hPaired.writerArena hShape) hVariant
      obtain ⟨_, hFind'⟩ := hVariants.find?_bare hFind
      exact arrives_bare hPaired hShape hShape' hFind hFind'
  | payload hShape hVariant _ ih =>
    obtain ⟨_, hShape', hMatches⟩ := hMatching _ _ _ hRelated hShape
    cases hMatches with
    | tag hVariants =>
      have hFind :=
        ModelPart.find?_of_mem (ClosedType.shape?_nodup hPaired.writerArena hShape) hVariant
      obtain ⟨_, _, hFind', hBoth⟩ := hVariants.find?_payload hFind
      have hInner := hPaired.part hShape hShape' (List.mem_filterMap.2 ⟨_, hVariant, rfl⟩)
        (List.mem_filterMap.2 ⟨_, (ModelPart.find?_eq_some hFind').1, rfl⟩)
      exact arrives_payload hPaired hShape hShape' hFind hFind' (ih hInner hBoth)
        (hFixed hInner hBoth)
  | missing hShape hVariant hPresence =>
    obtain ⟨_, hShape', hMatches⟩ := hMatching _ _ _ hRelated hShape
    cases hMatches with
    | tag hVariants =>
      have hFind :=
        ModelPart.find?_of_mem (ClosedType.shape?_nodup hPaired.writerArena hShape) hVariant
      obtain ⟨_, _, hFind', hBoth⟩ := hVariants.find?_payload hFind
      have hInner := hPaired.part hShape hShape' (List.mem_filterMap.2 ⟨_, hVariant, rfl⟩)
        (List.mem_filterMap.2 ⟨_, (ModelPart.find?_eq_some hFind').1, rfl⟩)
      exact arrives_payload hPaired hShape hShape' hFind hFind'
        (hDefaults hPresence _ _ hInner hBoth) (hFixed hInner hBoth)
  | undeclared hShape hVariants =>
    obtain ⟨_, hShape', hMatches⟩ := hMatching _ _ _ hRelated hShape
    cases hMatches with
    | tag hMatch =>
      have hFind := ModelPart.find?_eq_none.2 hVariants
      exact arrives_undeclared hPaired hShape hShape' hFind (hMatch.find?_none hFind)

/-- Defaults arrive. -/
theorem default_arrives {R : ClosedType → ClosedType → Prop}
    (hMatching : Matching writers.definitions readers.definitions R)
    (hSkips : Skips writers readers R) (hPaired : Paired writers readers type other)
    (hRelated : R type other) :
    Arrives writers readers type other (defaultValue writers type) := by
  obtain ⟨_, codec, _, _, hCodec⟩ := hPaired.type.proper.codec hPaired.writerArena
  have hTyped := default_hasType hPaired.writerArena hPaired.type.proper hCodec
  rw [defaultValue_eq hCodec]
  exact hTyped.arrives hMatching hSkips (fun hPresence => by cases hPresence) hPaired hRelated

end

end Interchange.Wire

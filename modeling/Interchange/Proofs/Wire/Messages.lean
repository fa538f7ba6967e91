import Interchange.Proofs.Wire.Carries

/-!
# Codecs that carry messages

A message is written field by field, each behind a tag, and fields that are equal to their default
are left out. A reader starts from its own defaults, takes the fields that it knows and skips the
others.

* `reads_fieldEntry_known`, `reads_fieldEntry_unknown`: one field.
* `CarriesFields.reads`: all fields that are written.
* `carries_message`: a message, between codecs that agree on the fields that both know.
-/

namespace Interchange.Wire.Codec

open Schema (Builtin ModelPart)
open Reading

/-! ## Readers of parts -/

/-- Looking up a part by its number on the wire. -/
theorem find?_toNat {α β : Type} (parts : List (ModelPart α)) (f : ModelPart α → ModelPart β)
    (hNumber : ∀ part, (f part).number = part.number) (number : UInt32) :
    ((parts.map f).find? fun part => part.number.toNat == number.toNat) =
      (ModelPart.find? parts number).map f := by
  have hSame : ((fun part : ModelPart β => part.number.toNat == number.toNat) ∘ f) =
      fun part => part.number == number := by
    funext part
    rw [Function.comp_apply, hNumber]
    by_cases hEq : part.number = number
    · simp [hEq]
    · have hNat : part.number.toNat ≠ number.toNat := fun hNat => hEq (UInt32.toNat_inj.1 hNat)
      simp [hEq, hNat]
  rw [List.find?_map, hSame]
  rfl

theorem fieldReaders_eq_map (parts : List (ModelPart Codec)) :
    fieldReaders parts = parts.map (ModelPart.map fun codec => (codec.layout, codec.decode)) := by
  induction parts with
  | nil => rfl
  | cons part rest ih =>
    rw [fieldReaders, ih]
    rfl

theorem variantReaders_eq_map (variants : List (ModelPart (Option Codec))) :
    variantReaders variants =
      variants.map (ModelPart.map (Option.map fun codec => (codec.default, codec.decode))) := by
  induction variants with
  | nil => rfl
  | cons variant rest ih =>
    obtain ⟨number, name, payload⟩ := variant
    cases payload with
    | none =>
      rw [variantReaders, ih]
      rfl
    | some codec =>
      rw [variantReaders, ih]
      rfl

/-! ## One field -/

theorem tag_lt (layout : Layout) (id : UInt32) : layout.tag id < 2 ^ 64 := by
  have hId := id.toNat_lt
  have hCode := layout.code_lt
  rw [Layout.tag]
  omega

/-- The id in a tag need not be the number of a field. -/
theorem splitTag_eq (layout : Layout) (id : Nat) :
    splitTag (8 * id + layout.code) = .ok (id, layout) := by
  have hCode := layout.code_lt
  have hMod : (8 * id + layout.code) % 8 = layout.code := by omega
  have hDiv : (8 * id + layout.code) / 8 = id := by omega
  rw [splitTag, hMod, hDiv, Layout.ofCode?_code]

/-- A field that the reader knows. -/
theorem reads_fieldEntry_known (name : String) {parts : List (ModelPart Codec)}
    {part : ModelPart Codec} {layout : Layout} {bytes : Bytes} {result : Value}
    (hNumbers : (parts.map ModelPart.number).Nodup) (hPart : part ∈ parts)
    (hLayout : part.content.layout = layout) (hReads : part.content.decode.Reads bytes result) :
    (fieldEntry name (fieldReaders parts)).Reads (Varint.encode (layout.tag part.number) ++ bytes)
      (some (part.number, result)) := by
  have hFind := find?_toNat parts (ModelPart.map fun codec => (codec.layout, codec.decode))
    (fun _ => rfl) part.number
  rw [ModelPart.find?_of_mem hNumbers hPart] at hFind
  refine (Varint.reads_encode (tag_lt layout part.number)).bind ?_
  refine Reads.ofExcept_bind (splitTag_eq layout part.number.toNat) ?_
  simp only [fieldReaders_eq_map, hFind, Option.map_some, ModelPart.map]
  rw [if_pos hLayout.symm]
  exact hReads.map fun value => some (part.number, value)

/-- An entry that the reader skips. Its id may be larger than any number of a field. -/
theorem reads_fieldEntry_skipped {name : String} {parts : List (ModelPart Codec)} {layout : Layout}
    {id : Nat} {bytes : Bytes} (hId : id < 2 ^ 61)
    (hUndeclared : ∀ part ∈ parts, part.number.toNat ≠ id) (hSkips : layout.skip.Reads bytes ()) :
    (fieldEntry name (fieldReaders parts)).Reads
      (Varint.encode (8 * id + layout.code) ++ bytes) none := by
  have hCode := layout.code_lt
  have hFind : ((fieldReaders parts).find? fun part => part.number.toNat == id) = none := by
    rw [fieldReaders_eq_map, List.find?_eq_none]
    intro reader hReader
    obtain ⟨part, hPart, rfl⟩ := List.mem_map.1 hReader
    simpa [ModelPart.map] using hUndeclared part hPart
  refine (Varint.reads_encode (by omega)).bind ?_
  refine Reads.ofExcept_bind (splitTag_eq layout id) ?_
  simp only [hFind]
  exact hSkips.map fun _ => none

/-- A field that the reader does not know. -/
theorem reads_fieldEntry_unknown {name : String} {parts : List (ModelPart Codec)} {layout : Layout}
    {id : UInt32} {bytes : Bytes} (hUnknown : ModelPart.find? parts id = none)
    (hSkips : layout.skip.Reads bytes ()) :
    (fieldEntry name (fieldReaders parts)).Reads (Varint.encode (layout.tag id) ++ bytes) none := by
  have hLess := id.toNat_lt
  refine reads_fieldEntry_skipped (by omega) (fun part hPart hSame => ?_) hSkips
  exact ModelPart.find?_eq_none.1 hUnknown part hPart (UInt32.toNat_inj.1 hSame)

/-! ## All fields -/

/-- The value of a field that is written: it is there and not equal to the default. -/
def written? (fields : List (UInt32 × Value)) (part : ModelPart Codec) : Option Value :=
  (Fields.get? fields part.number).filter fun value => decide (value ≠ part.content.default)

theorem written?_eq_some {fields : List (UInt32 × Value)} {part : ModelPart Codec} {value : Value} :
    written? fields part = some value ↔
      Fields.get? fields part.number = some value ∧ value ≠ part.content.default := by
  simp [written?, Option.filter_eq_some_iff]

theorem encodeFields_cons (part : ModelPart Codec) (rest : List (ModelPart Codec))
    (fields : List (UInt32 × Value)) :
    encodeFields (part :: rest) fields =
      match written? fields part with
      | none => encodeFields rest fields
      | some value =>
        (Writing.piece (Varint.encode (part.content.layout.tag part.number))).andThen
          ((part.content.encode value).andThen (encodeFields rest fields)) := by
  rw [encodeFields, written?]
  cases Fields.get? fields part.number with
  | none => rfl
  | some value =>
    by_cases hDefault : value = part.content.default
    · simp [hDefault, Option.filter]
    · simp [hDefault, Option.filter]

/-- What the parts of a message come back as: a reader that does not know a field gets nothing. -/
def entriesRead (readers : List (ModelPart Codec)) (result : UInt32 → Value → Value)
    (fields : List (UInt32 × Value)) (writers : List (ModelPart Codec)) :
    List (Option (UInt32 × Value)) :=
  writers.filterMap fun part => (written? fields part).map fun value =>
    (ModelPart.find? readers part.number).map fun _ => (part.number, result part.number value)

/-- The fields that come back. -/
def fieldsRead (readers : List (ModelPart Codec)) (result : UInt32 → Value → Value)
    (fields : List (UInt32 × Value)) (writers : List (ModelPart Codec)) : List (UInt32 × Value) :=
  (entriesRead readers result fields writers).filterMap id

section

variable {writers readers : List (ModelPart Codec)} {fields : List (UInt32 × Value)}
  {result : UInt32 → Value → Value}

/-- Fields that both codecs know are carried, and fields that the reader does not know can be
skipped. -/
structure CarriesFields (writers readers : List (ModelPart Codec)) (fields : List (UInt32 × Value))
    (result : UInt32 → Value → Value) : Prop where
  known : ∀ writer ∈ writers, ∀ reader ∈ readers, reader.number = writer.number → ∀ value,
    written? fields writer = some value →
      ∃ bytes, writer.content.Carries reader.content value (result writer.number value) bytes
  unknown : ∀ writer ∈ writers, ModelPart.find? readers writer.number = none → ∀ value,
    written? fields writer = some value →
      ∃ other bytes, bytes ≠ [] ∧ writer.content.Carries writer.content value other bytes

theorem CarriesFields.reads_one (hNumbers : (readers.map ModelPart.number).Nodup)
    (hFields : CarriesFields writers readers fields result) (name : String)
    {writer : ModelPart Codec} (hWriter : writer ∈ writers) {value : Value}
    (hWritten : written? fields writer = some value) :
    ∃ bytes, (writer.content.encode value).toBytes = .ok bytes ∧
      (bytes.length < 2 ^ 64 → (fieldEntry name (fieldReaders readers)).Reads
        (Varint.encode (writer.content.layout.tag writer.number) ++ bytes)
        ((ModelPart.find? readers writer.number).map fun _ =>
          (writer.number, result writer.number value))) := by
  cases hFind : ModelPart.find? readers writer.number with
  | none =>
    obtain ⟨other, bytes, hSome, hCarries⟩ := hFields.unknown writer hWriter hFind value hWritten
    refine ⟨bytes, hCarries.written, fun hLength => ?_⟩
    exact reads_fieldEntry_unknown hFind (hCarries.skips hSome hLength)
  | some reader =>
    obtain ⟨hReader, hNumber⟩ := ModelPart.find?_eq_some hFind
    obtain ⟨bytes, hCarries⟩ := hFields.known writer hWriter reader hReader hNumber value hWritten
    refine ⟨bytes, hCarries.written, fun hLength => ?_⟩
    have hKnown := reads_fieldEntry_known name hNumbers hReader hCarries.layout
      (hCarries.reads hLength)
    rwa [hNumber] at hKnown

/-- The written fields are read one after the other. -/
theorem CarriesFields.reads (hNumbers : (readers.map ModelPart.number).Nodup)
    (hFields : CarriesFields writers readers fields result) (name : String) :
    ∃ chunks, (encodeFields writers fields).toBytes = .ok chunks.flatten ∧
      List.Forall₂ (fun entry chunk => chunk ≠ [] ∧ (chunk.length < 2 ^ 64 →
        (fieldEntry name (fieldReaders readers)).Reads chunk entry))
        (entriesRead readers result fields writers) chunks := by
  induction writers with
  | nil => exact ⟨[], rfl, .nil⟩
  | cons writer rest ih =>
    have hRest : CarriesFields rest readers fields result :=
      ⟨fun other hOther => hFields.known other (List.mem_cons_of_mem _ hOther),
        fun other hOther => hFields.unknown other (List.mem_cons_of_mem _ hOther)⟩
    obtain ⟨chunks, hBytes, hChunks⟩ := ih hRest
    rw [encodeFields_cons, entriesRead, List.filterMap_cons]
    cases hWritten : written? fields writer with
    | none => exact ⟨chunks, hBytes, hChunks⟩
    | some value =>
      obtain ⟨bytes, hValue, hReads⟩ :=
        hFields.reads_one hNumbers name List.mem_cons_self hWritten
      refine ⟨(Varint.encode (writer.content.layout.tag writer.number) ++ bytes) :: chunks, ?_,
        .cons ⟨?_, fun hLength => ?_⟩ hChunks⟩
      · rw [List.flatten_cons, List.append_assoc]
        exact Writing.toBytes_andThen (Writing.toBytes_piece _)
          (Writing.toBytes_andThen hValue hBytes)
      · simp [Varint.encode_ne_nil]
      · rw [List.length_append] at hLength
        exact hReads (by omega)

/-! ## Messages -/

theorem mem_fieldsRead {number : UInt32} {value : Value} :
    (number, value) ∈ fieldsRead readers result fields writers ↔
      ∃ writer ∈ writers, writer.number = number ∧
        (ModelPart.find? readers number).isSome = true ∧
        ∃ old, written? fields writer = some old ∧ result number old = value := by
  simp only [fieldsRead, entriesRead, List.mem_filterMap, id_eq, exists_eq_right,
    Option.map_eq_some_iff, Prod.mk.injEq, Option.isSome_iff_exists]
  constructor
  · rintro ⟨writer, hWriter, old, hOld, reader, hReader, rfl, rfl⟩
    exact ⟨writer, hWriter, rfl, ⟨reader, hReader⟩, old, hOld, rfl⟩
  · rintro ⟨writer, hWriter, rfl, ⟨reader, hReader⟩, old, hOld, rfl⟩
    exact ⟨writer, hWriter, old, hOld, reader, hReader, rfl, rfl⟩

/-- The ids that come back are among those of the writer, in their order. -/
theorem fieldsRead_sublist :
    List.Sublist ((fieldsRead readers result fields writers).map Prod.fst)
      (writers.map ModelPart.number) := by
  induction writers with
  | nil => exact .slnil
  | cons writer rest ih =>
    rw [fieldsRead, entriesRead, List.filterMap_cons, List.map_cons]
    cases written? fields writer with
    | none => exact .cons _ ih
    | some value =>
      simp only [Option.map_some, List.filterMap_cons, id_eq]
      cases ModelPart.find? readers writer.number with
      | none => exact .cons _ ih
      | some reader => exact .cons_cons _ ih

theorem get?_fieldsRead_eq_some (hNumbers : (writers.map ModelPart.number).Nodup) {number : UInt32}
    {value : Value} :
    Fields.get? (fieldsRead readers result fields writers).reverse number = some value ↔
      ∃ writer ∈ writers, writer.number = number ∧
        (ModelPart.find? readers number).isSome = true ∧
        ∃ old, written? fields writer = some old ∧ result number old = value := by
  have hIds : ((fieldsRead readers result fields writers).reverse.map Prod.fst).Nodup := by
    rw [List.map_reverse]
    exact List.nodup_reverse.2 (hNumbers.sublist fieldsRead_sublist)
  rw [Fields.get?_eq_some_iff hIds, List.mem_reverse, mem_fieldsRead]

end

/-- The default of a message has all fields. -/
theorem messageCodec_default {parts : List (ModelPart Codec)}
    (hNumbers : (parts.map ModelPart.number).Pairwise (· < ·)) (name : String) :
    messageCodec name parts =
      .record name parts
        (.message (parts.map fun part => (part.number, part.content.default))) := by
  rw [messageCodec, Fields.setAll_nil]
  rw [Fields.Ascending, List.map_map]
  exact hNumbers

theorem undeclared?_eq_none {parts : List (ModelPart Codec)} {fields : List (UInt32 × Value)}
    (hDeclared : ∀ field ∈ fields, ∃ part ∈ parts, part.number = field.1) :
    undeclared? parts fields = none := by
  rw [undeclared?, Option.map_eq_none_iff, List.find?_eq_none]
  intro field hField
  obtain ⟨part, hPart, hNumber⟩ := hDeclared field hField
  have hFind : ModelPart.find? parts field.1 ≠ none := by
    intro hNone
    exact ModelPart.find?_eq_none.1 hNone part hPart hNumber
  simpa using hFind

/-- A message as a reader with the given parts gets it. -/
def messageRead (readers : List (ModelPart Codec)) (result : UInt32 → Value → Value)
    (fields : List (UInt32 × Value)) : Value :=
  .message (readers.map fun reader => (reader.number,
    ((Fields.get? fields reader.number).map (result reader.number)).getD reader.content.default))

/-- A field that is there and known to the reader, but does not come back, is equal to its
default. -/
theorem eq_default_of_get?_fieldsRead {writers readers : List (ModelPart Codec)}
    {fields : List (UInt32 × Value)} {result : UInt32 → Value → Value}
    (hWriters : (writers.map ModelPart.number).Nodup) {writer : ModelPart Codec}
    (hWriter : writer ∈ writers) {value : Value}
    (hGet : Fields.get? fields writer.number = some value)
    (hKnown : (ModelPart.find? readers writer.number).isSome = true)
    (hRead : Fields.get? (fieldsRead readers result fields writers).reverse writer.number = none) :
    value = writer.content.default := by
  by_contra hOther
  have hWritten : written? fields writer = some value := written?_eq_some.2 ⟨hGet, hOther⟩
  have hSome : Fields.get? (fieldsRead readers result fields writers).reverse writer.number =
      some (result writer.number value) :=
    (get?_fieldsRead_eq_some hWriters).2 ⟨writer, hWriter, rfl, hKnown, value, hWritten, rfl⟩
  rw [hRead] at hSome
  cases hSome

/-- Setting what comes back in the defaults of the reader. -/
theorem setAll_fieldsRead {writers readers : List (ModelPart Codec)}
    {fields : List (UInt32 × Value)} {result : UInt32 → Value → Value}
    (hWriters : (writers.map ModelPart.number).Nodup)
    (hReaders : (readers.map ModelPart.number).Pairwise (· < ·))
    (hDeclared : ∀ field ∈ fields, ∃ writer ∈ writers, writer.number = field.1)
    (hDefaults : ∀ writer ∈ writers, ∀ reader ∈ readers, reader.number = writer.number →
      Fields.get? fields writer.number = some writer.content.default →
      result writer.number writer.content.default = reader.content.default) :
    Value.message (Fields.setAll
        (readers.map fun reader => (reader.number, reader.content.default))
        (fieldsRead readers result fields writers)) = messageRead readers result fields := by
  have hAscending : ∀ f : ModelPart Codec → Value,
      Fields.Ascending (readers.map fun reader => (reader.number, f reader)) := by
    intro f
    rw [Fields.Ascending, List.map_map]
    exact hReaders
  refine congrArg Value.message (Fields.ext ((hAscending _).setAll _) (hAscending _) ?_)
  intro number
  rw [Fields.get?_setAll, Fields.get?_map_parts, Fields.get?_map_parts]
  cases hRead : Fields.get? (fieldsRead readers result fields writers).reverse number with
  | some value =>
    obtain ⟨writer, _, rfl, hKnown, old, hOld, rfl⟩ := (get?_fieldsRead_eq_some hWriters).1 hRead
    obtain ⟨reader, hReader⟩ := Option.isSome_iff_exists.1 hKnown
    have hNumber := (ModelPart.find?_eq_some hReader).2
    rw [hReader, Option.some_or, Option.map_some, hNumber, (written?_eq_some.1 hOld).1]
    rfl
  | none =>
    rw [Option.none_or]
    cases hFind : ModelPart.find? readers number with
    | none => rfl
    | some reader =>
      obtain ⟨hReader, rfl⟩ := ModelPart.find?_eq_some hFind
      cases hGet : Fields.get? fields reader.number with
      | none => simp [hGet]
      | some value =>
        obtain ⟨writer, hWriter, hSame⟩ := hDeclared _ (Fields.mem_of_get? hGet)
        have hNumber : writer.number = reader.number := hSame
        rw [← hNumber] at hGet hRead hFind
        have hDefault := eq_default_of_get?_fieldsRead hWriters hWriter hGet (by simp [hFind]) hRead
        rw [hDefault] at hGet
        have hResult := hDefaults writer hWriter reader hReader hNumber.symm hGet
        simp [← hNumber, hGet, hResult]

/-- Of the default nothing comes back. -/
theorem fieldsRead_default {writers readers : List (ModelPart Codec)}
    {fields : List (UInt32 × Value)} {result : UInt32 → Value → Value}
    (hNumbers : (writers.map ModelPart.number).Nodup)
    (hDefault : fields = writers.map fun writer => (writer.number, writer.content.default)) :
    fieldsRead readers result fields writers = [] := by
  apply List.eq_nil_iff_forall_not_mem.2
  rintro ⟨number, value⟩ hMem
  obtain ⟨writer, hWriter, rfl, _, old, hOld, _⟩ := mem_fieldsRead.1 hMem
  obtain ⟨hGet, hOther⟩ := written?_eq_some.1 hOld
  rw [hDefault, Fields.get?_map_parts, ModelPart.find?_of_mem hNumbers hWriter] at hGet
  exact hOther (Option.some.inj hGet).symm

/-- A region whose entries are read one after the other. -/
theorem messageOf_eq_ok {name : String} {fields : List (UInt32 × Value)}
    {readers : List (ModelPart Codec)} {region : Bytes} {entries : List (Option (UInt32 × Value))}
    (hEntries : elements (fieldEntry name (fieldReaders readers)) region = .ok entries) :
    messageOf name (.message fields) (fieldReaders readers) region =
      .ok (.message (Fields.setAll fields (entries.filterMap id))) := by
  rw [messageOf, hEntries]
  rfl

/-- A message is carried between codecs that agree on the fields that both know. -/
theorem carries_message {writers readers : List (ModelPart Codec)} {fields : List (UInt32 × Value)}
    {result : UInt32 → Value → Value} (name name' : String)
    (hWriters : (writers.map ModelPart.number).Pairwise (· < ·))
    (hReaders : (readers.map ModelPart.number).Pairwise (· < ·))
    (hDeclared : ∀ field ∈ fields, ∃ writer ∈ writers, writer.number = field.1)
    (hFields : CarriesFields writers readers fields result)
    (hDefaults : ∀ writer ∈ writers, ∀ reader ∈ readers, reader.number = writer.number →
      Fields.get? fields writer.number = some writer.content.default →
      result writer.number writer.content.default = reader.content.default) :
    ∃ bytes, (messageCodec name writers).Carries (messageCodec name' readers) (.message fields)
      (messageRead readers result fields) bytes := by
  have hWriterNumbers : (writers.map ModelPart.number).Nodup :=
    hWriters.imp fun hLess => UInt32.ne_of_lt hLess
  have hReaderNumbers : (readers.map ModelPart.number).Nodup :=
    hReaders.imp fun hLess => UInt32.ne_of_lt hLess
  have hResult := setAll_fieldsRead hWriterNumbers hReaders hDeclared hDefaults
  rw [messageCodec_default hWriters, messageCodec_default hReaders, ← hResult]
  by_cases hDefault : Value.message fields =
      .message (writers.map fun writer => (writer.number, writer.content.default))
  · -- A message that is equal to its default is written as nothing, and nothing comes back.
    refine ⟨_, carries_region [] rfl rfl ?_ fun hLength => ?_⟩
    · simp only [encode, undeclared?_eq_none hDeclared, if_pos hDefault]
      exact toBytes_empty
    · have hNothing : fieldsRead readers result fields writers = [] :=
        fieldsRead_default hWriterNumbers (Value.message.inj hDefault)
      have hEntries : elements (fieldEntry name' (fieldReaders readers)) [] = .ok [] :=
        elements_eq_ok .nil
      rw [hNothing]
      exact (reads_region hLength).bind_nil (reads_ofExcept (messageOf_eq_ok hEntries))
  · obtain ⟨chunks, hBytes, hChunks⟩ := hFields.reads hReaderNumbers name'
    refine ⟨_, carries_region chunks.flatten rfl rfl ?_ fun hLength => ?_⟩
    · simp only [encode, undeclared?_eq_none hDeclared, if_neg hDefault]
      exact toBytes_framed hBytes
    · have hEntries : elements (fieldEntry name' (fieldReaders readers)) chunks.flatten =
          .ok (entriesRead readers result fields writers) := by
        have hMapped := elements_flatten (f := fun entry => entry) hLength hChunks
        rwa [List.map_id'] at hMapped
      exact (reads_region hLength).bind_nil (reads_ofExcept (messageOf_eq_ok hEntries))

end Interchange.Wire.Codec

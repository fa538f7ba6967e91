import Interchange.Proofs.Wire.Arrival
import Interchange.Proofs.Wire.Decoded

/-!
# Entries of messages

The bytes of a message are a list of entries. An entry is a tag and what it announces: the value of
a field, or anything at all under an id that the message does not declare. Readers take entries one
by one, in any order. An id may come more than once, and then its last entry counts; what is not
declared is skipped, also if its id is larger than any number of a field.

* `Reading.Reads.of_run`: bytes that a reading takes exactly are taken whatever follows them.
* `Entry.reads`: one entry.
* `regionOf_reads`: a list of entries.
* `Rearranged.lastValue?_eq`: the order of entries matters only among those of one id.
* `decode_entries`: the messages of compiled projects.
-/

namespace Interchange.Wire

open Schema (Arena Definition ModelPart Models Project)
open Reading

/-! ## Bytes that are taken exactly -/

/-- A reading that succeeds leaves what follows as it is. -/
theorem Reading.run_append {α : Type} {reading : Reading α} {bytes rest : Bytes} {value : α}
    (hRun : reading.run bytes = (.ok value, rest)) (more : Bytes) :
    reading.run (bytes ++ more) = (.ok value, rest ++ more) := by
  induction reading generalizing bytes with
  | done result =>
    cases hRun
    rfl
  | fail error => cases hRun
  | take n next ih =>
    simp only [run, runWith, serveBytes] at hRun ⊢
    cases hSplit : split? n bytes with
    | none =>
      rw [hSplit] at hRun
      cases hRun
    | some pair =>
      obtain ⟨block, after⟩ := pair
      rw [hSplit] at hRun
      rw [split?_append_of_some hSplit]
      exact ih block hRun

theorem Reading.Reads.of_run {α : Type} {reading : Reading α} {bytes : Bytes} {value : α}
    (hRun : reading.run bytes = (.ok value, [])) : reading.Reads bytes value :=
  fun rest => run_append hRun rest

/-! ## Entries -/

/-- An entry in the bytes of a message. -/
inductive Entry where
  /-- A field that the message declares, with its value. -/
  | field (part : ModelPart ClosedType) (value : Value)
  /-- Bytes under an id that the message does not declare. -/
  | other (id : Nat) (layout : Layout) (content : Bytes)

namespace Entry

/-- The id in the tag of an entry. -/
def id : Entry → Nat
  | field part _ => part.number.toNat
  | other id _ _ => id

/-- The value that an entry gives the field with a number. -/
def value? (number : UInt32) : Entry → Option Value
  | field part value => if part.number = number then some value else none
  | other _ _ _ => none

/-- The bytes of an entry: its tag, and behind the tag the value or the content. -/
def toBytes (models : Models) : Entry → Except WireError Bytes
  | field part value =>
    match layoutOf models part.content with
    | some layout => do
      let content ← Wire.toBytes models part.content value
      return Varint.encode (layout.tag part.number) ++ content
    | none => .error .unboundParameter
  | other id layout content => .ok (Varint.encode (8 * id + layout.code) ++ content)

/-- The entries that may stand in the bytes of a message with the given parts: well-typed values of
its fields, and under other ids what their layout skips, neither more nor less. The id and the code
of the layout share 64 bits. -/
inductive Fits (definitions : List Definition) (parts : List (ModelPart ClosedType)) : Entry → Prop
  | field {part : ModelPart ClosedType} {value : Value} (hPart : part ∈ parts)
      (hTyped : HasType definitions .optional part.content value) :
      Fits definitions parts (.field part value)
  | other {id : Nat} {layout : Layout} {content : Bytes} (hId : id < 2 ^ 61)
      (hUndeclared : ∀ part ∈ parts, part.number.toNat ≠ id)
      (hSkip : layout.skip.run content = (.ok (), [])) :
      Fits definitions parts (.other id layout content)

/-- What a reader gets from an entry. -/
def read (models : Models) : Entry → Option (UInt32 × Value)
  | field part value => some (part.number, fill models part.content value)
  | other _ _ _ => none

theorem toBytes_field {models : Models} {part : ModelPart ClosedType}
    {codec : Codec} {value : Value} {content : Bytes}
    (hCodec : codecOf models.definitions part.content = some codec)
    (hContent : (codec.encode value).toBytes = .ok content) :
    (field part value).toBytes models =
      .ok (Varint.encode (codec.layout.tag part.number) ++ content) := by
  have hLayout : layoutOf models part.content = some codec.layout := by
    rw [layoutOf, shelvedCodecOf_eq, hCodec, Option.map_some]
  have hBytes : Wire.toBytes models part.content value = .ok content := by
    rw [Wire.toBytes, encode, shelvedCodecOf_eq, hCodec]
    exact hContent
  rw [toBytes, hLayout, hBytes]
  rfl

/-- An entry that fits is written, and its reader takes exactly its bytes. -/
theorem reads {models : Models} {parts : List (ModelPart ClosedType)}
    {codecs : List (ModelPart Codec)} (hArena : Arena models.definitions)
    (hNumbers : (codecs.map ModelPart.number).Nodup)
    (hParts : ∀ part ∈ parts, part.content.Transferable models.definitions)
    (hCodecs : List.Forall₂ (ModelPart.Related fun inner codec =>
      codecOf models.definitions inner = some codec) parts codecs)
    (name : String) {entry : Entry} (hEntry : entry.Fits models.definitions parts) :
    ∃ chunk, entry.toBytes models = .ok chunk ∧ chunk ≠ [] ∧ (chunk.length < 2 ^ 64 →
      (Codec.fieldEntry name (Codec.fieldReaders codecs)).Reads chunk (entry.read models)) := by
  cases hEntry with
  | @field part value hPart hTyped =>
    obtain ⟨codec, hCodec, hRelated⟩ := exists_of_mem_left hCodecs hPart
    have hReturns := hTyped.returns hArena (fun _ _ hInner => default_returns hArena hInner)
      (hParts part hPart)
    obtain ⟨content, hCarries⟩ := hReturns codec.content hRelated.content
    refine ⟨_, toBytes_field hRelated.content hCarries.written, by simp [Varint.encode_ne_nil], ?_⟩
    intro hLength
    rw [List.length_append] at hLength
    have hReads := Codec.reads_fieldEntry_known name hNumbers hCodec rfl
      (hCarries.reads (by omega))
    rw [hRelated.number] at hReads
    exact hReads
  | @other id layout content hId hUndeclared hSkip =>
    refine ⟨_, rfl, by simp [Varint.encode_ne_nil], fun _ => ?_⟩
    refine Codec.reads_fieldEntry_skipped hId ?_ (.of_run hSkip)
    intro codec hCodec
    obtain ⟨part, hPart, hRelated⟩ := exists_of_mem_right hCodecs hCodec
    rw [hRelated.number]
    exact hUndeclared part hPart

end Entry

/-! ## Lists of entries -/

/-- The bytes of entries, one after the other. -/
def regionOf (models : Models) (entries : List Entry) : Except WireError Bytes := do
  let chunks ← entries.mapM (Entry.toBytes models)
  return chunks.flatten

/-- The value in the last entry of a field. -/
def lastValue? (entries : List Entry) (number : UInt32) : Option Value :=
  (entries.filterMap (Entry.value? number)).getLast?

/-- The message that entries make up: each field has the value of its last entry, filled, or its
default. -/
def messageOfEntries (models : Models) (parts : List (ModelPart ClosedType))
    (entries : List Entry) :
    Value :=
  .message (parts.map fun part => (part.number,
    ((lastValue? entries part.number).map (fill models part.content)).getD
      (defaultValue models part.content)))

theorem lastValue?_cons (entry : Entry) (rest : List Entry) (number : UInt32) :
    lastValue? (entry :: rest) number = (lastValue? rest number).or (entry.value? number) := by
  rw [lastValue?, List.filterMap_cons]
  cases entry.value? number with
  | none => rw [Option.or_none, lastValue?]
  | some value =>
    rw [List.getLast?_cons, ← lastValue?]
    cases lastValue? rest number <;> rfl

/-- Setting the fields that are read from entries. -/
theorem get?_setAll_read {models : Models} {parts : List (ModelPart ClosedType)}
    (hNumbers : (parts.map ModelPart.number).Nodup) {entries : List Entry}
    (hEntries : ∀ entry ∈ entries, entry.Fits models.definitions parts)
    (fields : List (UInt32 × Value)) (number : UInt32) :
    Fields.get? (Fields.setAll fields (entries.filterMap (Entry.read models))) number =
      ((ModelPart.find? parts number).bind fun part =>
        (lastValue? entries number).map (fill models part.content)).or
          (Fields.get? fields number) := by
  induction entries generalizing fields with
  | nil =>
    rw [show lastValue? [] number = none from rfl]
    simp [Fields.setAll]
  | cons entry rest ih =>
    obtain ⟨hEntry, hRest⟩ := List.forall_mem_cons.1 hEntries
    rw [lastValue?_cons]
    cases hEntry with
    | other =>
      rw [Entry.value?, Option.or_none]
      exact ih hRest fields
    | @field part value hPart _ =>
      have hSet :
          Fields.setAll fields ((Entry.field part value :: rest).filterMap (Entry.read models)) =
          Fields.setAll (Fields.set fields part.number (fill models part.content value))
            (rest.filterMap (Entry.read models)) := rfl
      rw [hSet, ih hRest, Fields.get?_set, Entry.value?]
      by_cases hNumber : part.number = number
      · subst hNumber
        rw [ModelPart.find?_of_mem hNumbers hPart]
        cases lastValue? rest part.number <;> simp
      · simp [hNumber]

theorem setAll_read {models : Models} {parts : List (ModelPart ClosedType)}
    (hNumbers : (parts.map ModelPart.number).Pairwise (· < ·)) {entries : List Entry}
    (hEntries : ∀ entry ∈ entries, entry.Fits models.definitions parts) :
    Value.message (Fields.setAll
        (parts.map fun part => (part.number, defaultValue models part.content))
        (entries.filterMap (Entry.read models))) = messageOfEntries models parts entries := by
  have hAscending : ∀ f : ModelPart ClosedType → Value,
      Fields.Ascending (parts.map fun part => (part.number, f part)) := by
    intro f
    rw [Fields.Ascending, List.map_map]
    exact hNumbers
  refine congrArg Value.message (Fields.ext ((hAscending _).setAll _) (hAscending _)
    fun number => ?_)
  rw [get?_setAll_read (hNumbers.imp fun hLess => UInt32.ne_of_lt hLess) hEntries,
    Fields.get?_map_parts, Fields.get?_map_parts]
  cases hFind : ModelPart.find? parts number with
  | none => rfl
  | some part =>
    rw [← (ModelPart.find?_eq_some hFind).2, Option.map_some, Option.map_some, Option.bind_some]
    cases lastValue? entries part.number <;> rfl

/-- Entries that fit are written, and reading them gives the message that they make up. -/
theorem regionOf_reads {models : Models} {type : ClosedType} {parts : List (ModelPart ClosedType)}
    (hArena : Arena models.definitions) (hType : type.Transferable models.definitions)
    (hShape : type.shape? models.definitions = some (.message parts)) {entries : List Entry}
    (hEntries : ∀ entry ∈ entries, entry.Fits models.definitions parts) :
    ∃ region, regionOf models entries = .ok region ∧ (region.length < 2 ^ 64 →
      (decode models type).Reads (lengthPrefixed region)
        (messageOfEntries models parts entries)) := by
  obtain ⟨_, codec, _, _, hCodec⟩ := hType.proper.codec hArena
  have hDecode : decode models type = codec.decode := by
    rw [decode, shelvedCodecOf_eq, hCodec]
  rw [hType.proper.codecOf_eq hArena hShape] at hCodec
  obtain ⟨codecs, hCodecs, rfl⟩ := Option.map_eq_some_iff.1 hCodec
  have hCodecs := partsWith_eq_some.1 hCodecs
  have hAscending := ClosedType.shape?_ascending hArena hShape
  have hSame : codecs.map ModelPart.number = parts.map ModelPart.number :=
    map_eq_map_of_forall₂ hCodecs fun _ _ _ hPart => hPart.number
  have hSorted : (codecs.map ModelPart.number).Pairwise (· < ·) := hSame ▸ hAscending
  have hParts : ∀ part ∈ parts, part.content.Transferable models.definitions :=
    fun part hPart => hType.part hArena hShape (List.mem_map_of_mem hPart)
  obtain ⟨chunks, hChunks⟩ := exists_forall₂ fun entry hEntry =>
    Entry.reads hArena (hSorted.imp fun hLess => UInt32.ne_of_lt hLess) hParts hCodecs
      (type.describe models.definitions) (hEntries entry hEntry)
  refine ⟨chunks.flatten, ?_, fun hLength => ?_⟩
  · exact bind_eq_ok.2 ⟨chunks, mapM_eq_ok.2 (hChunks.imp fun _ _ hChunk => hChunk.1), rfl⟩
  · have hElements := Codec.elements_flatten hLength (hChunks.imp fun _ _ hChunk => hChunk.2)
    rw [hDecode, Codec.messageCodec_default hSorted, Codec.decode]
    refine (reads_region hLength).bind_nil (reads_ofExcept ?_)
    have hDefaults : codecs.map (fun codec => (codec.number, codec.content.default)) =
        parts.map fun part => (part.number, defaultValue models part.content) := by
      refine map_eq_map_of_forall₂ hCodecs fun part _ codec hRelated => ?_
      rw [hRelated.number, defaultValue_eq hRelated.content]
    rw [Codec.messageOf_eq_ok hElements, hDefaults, List.filterMap_map, Function.id_comp,
      setAll_read hAscending hEntries]

/-! ## Other orders -/

/-- Two lists of entries of which one becomes the other by exchanging neighbours that have different
ids and by adding or dropping entries that are not declared, any number of times. -/
inductive Rearranged (parts : List (ModelPart ClosedType)) : List Entry → List Entry → Prop
  | refl (entries : List Entry) : Rearranged parts entries entries
  | exchange (before after : List Entry) {first second : Entry} (hIds : first.id ≠ second.id) :
      Rearranged parts (before ++ first :: second :: after) (before ++ second :: first :: after)
  | insert (before after : List Entry) {entry : Entry}
      (hUndeclared : ∀ part ∈ parts, part.number.toNat ≠ entry.id) :
      Rearranged parts (before ++ after) (before ++ entry :: after)
  | symm {entries others : List Entry} (hEntries : Rearranged parts entries others) :
      Rearranged parts others entries
  | trans {entries others more : List Entry} (hEntries : Rearranged parts entries others)
      (hOthers : Rearranged parts others more) : Rearranged parts entries more

/-- An entry gives a value only to the field with its id. -/
theorem Entry.value?_eq_none {entry : Entry} {number : UInt32} (hId : entry.id ≠ number.toNat) :
    entry.value? number = none := by
  cases entry with
  | field part value =>
    refine if_neg ?_
    rintro rfl
    exact hId rfl
  | other => rfl

/-- The last entries of declared fields do not change. -/
theorem Rearranged.lastValue?_eq {parts : List (ModelPart ClosedType)} {entries others : List Entry}
    (hEntries : Rearranged parts entries others) {part : ModelPart ClosedType}
    (hPart : part ∈ parts) :
    lastValue? entries part.number = lastValue? others part.number := by
  induction hEntries with
  | refl => rfl
  | @exchange before after first second hIds =>
    -- At most one of the two has the id of the field.
    have hPair : [first, second].filterMap (Entry.value? part.number) =
        [second, first].filterMap (Entry.value? part.number) := by
      by_cases hFirst : first.id = part.number.toNat
      · have hSecond : second.value? part.number = none := Entry.value?_eq_none (hFirst ▸ hIds.symm)
        simp [List.filterMap_cons, hSecond]
      · simp [List.filterMap_cons, Entry.value?_eq_none hFirst]
    have hSplit : ∀ pair, (before ++ (pair ++ after)).filterMap (Entry.value? part.number) =
        before.filterMap (Entry.value? part.number) ++
          (pair.filterMap (Entry.value? part.number) ++ after.filterMap
            (Entry.value? part.number)) := by
      intro pair
      rw [List.filterMap_append, List.filterMap_append]
    have hBoth := (hSplit [first, second]).trans (hPair ▸ (hSplit [second, first]).symm)
    exact congrArg List.getLast? hBoth
  | @insert before after entry hUndeclared =>
    rw [lastValue?, lastValue?, List.filterMap_append, List.filterMap_append,
      List.filterMap_cons_none (Entry.value?_eq_none (hUndeclared part hPart).symm)]
  | symm _ ih => exact ih.symm
  | trans _ _ ihEntries ihOthers => exact ihEntries.trans ihOthers

theorem Rearranged.messageOfEntries_eq {parts : List (ModelPart ClosedType)}
    {entries others : List Entry} (hEntries : Rearranged parts entries others) (models : Models) :
    messageOfEntries models parts entries = messageOfEntries models parts others := by
  refine congrArg Value.message (List.map_congr_left fun part hPart => ?_)
  rw [hEntries.lastValue?_eq hPart]

/-- The bytes of a message are read entry by entry. The entries that fit a message are written, and
where they stand behind their length, reading them succeeds, stops behind them and gives each field
the value of its last entry, filled, or its default. Entries that are rearranged, with others that
are not declared between them, give the same message. -/
theorem decode_entries {options : Schema.Options} {sources : List Schema.Source} {project : Project}
    (hCompile : Schema.compile options sources = .ok project) {type : ClosedType}
    {parts : List (ModelPart ClosedType)} (hType : type.Proper project.definitions)
    (hVoid : ¬ type.HoldsVoid project.definitions)
    (hShape : type.shape? project.definitions = some (.message parts)) {entries : List Entry}
    (hEntries : ∀ entry ∈ entries, entry.Fits project.definitions parts) :
    ∃ region, regionOf project.toModels entries = .ok region ∧ (region.length < 2 ^ 64 →
      (∀ rest, (decode project.toModels type).runWith id Region.serve
          (Region.ofBytes (lengthPrefixed region ++ rest)) =
        (.ok (messageOfEntries project.toModels parts entries),
          ⟨(lengthPrefixed region).length, rest⟩)) ∧
      ∀ others, (∀ entry ∈ others, entry.Fits project.definitions parts) →
        Rearranged parts entries others →
        ∃ region', regionOf project.toModels others = .ok region' ∧ (region'.length < 2 ^ 64 →
          ofBytes project.toModels type (lengthPrefixed region') =
            ofBytes project.toModels type (lengthPrefixed region))) := by
  have hArena := Schema.compile_arena hCompile
  obtain ⟨region, hRegion, hReads⟩ := regionOf_reads hArena ⟨hType, hVoid⟩ hShape hEntries
  have hRead : ∀ {bytes value}, (decode project.toModels type).Reads bytes value →
      ofBytes project.toModels type bytes = .ok value := by
    intro bytes value hReads
    rw [ofBytes, ← List.append_nil bytes, hReads []]
  refine ⟨region, hRegion, fun hLength => ⟨(hReads hLength).region, ?_⟩⟩
  intro others hOthers hRearranged
  obtain ⟨region', hRegion', hReads'⟩ := regionOf_reads hArena ⟨hType, hVoid⟩ hShape hOthers
  refine ⟨region', hRegion', fun hLength' => ?_⟩
  rw [hRead (hReads hLength), hRead (hReads' hLength'), hRearranged.messageOfEntries_eq]

section

open Schema.Luggage (models)

def itemsPart : ModelPart ClosedType := ⟨1, "items", .mk 14 [.mk 11 []]⟩

def lockPart : ModelPart ClosedType := ⟨2, "lock", .mk 16 [.mk 11 []]⟩

/-- Items that are replaced later, four bytes under an id that no field can have, a lock that lacks
its payload, and other items. -/
def repacked : List Entry :=
  [.field itemsPart (.array [.string "hat"]), .other (2 ^ 60) .fixed32 [1, 2, 3, 4],
    .field lockPart (.tag 1 none), .field itemsPart (.array [.string "cap", .string "tie"])]

theorem repacked_fits :
    ∀ entry ∈ repacked, entry.Fits models.definitions [itemsPart, lockPart] := by
  have hItems : ∀ texts : List String,
      HasType models.definitions .optional itemsPart.content (.array (texts.map .string)) := by
    intro texts
    refine .array rfl ?_
    rw [List.forall_mem_map]
    exact fun text _ => .string text rfl
  have hLock : HasType models.definitions .optional lockPart.content (.tag 1 none) :=
    .missing rfl (List.mem_cons_of_mem _ List.mem_cons_self) rfl
  simp only [repacked, List.forall_mem_cons]
  refine ⟨.field (by simp) (hItems ["hat"]), .other (by decide) (by decide) (by rfl),
    .field (by simp) hLock, .field (by simp) (hItems ["cap", "tie"]), List.forall_mem_nil _⟩

/-- The same without the four bytes, and with the lock at the end. -/
def reordered : List Entry :=
  [.field itemsPart (.array [.string "hat"]),
    .field itemsPart (.array [.string "cap", .string "tie"]), .field lockPart (.tag 1 none)]

theorem repacked_rearranged : Rearranged [itemsPart, lockPart] repacked reordered := by
  have hDrop : Rearranged [itemsPart, lockPart] repacked _ :=
    .symm (.insert [.field itemsPart (.array [.string "hat"])] _ (by decide))
  exact hDrop.trans (.exchange [.field itemsPart (.array [.string "hat"])] [] (by decide))

/-- The later items count, wherever they stand behind the first ones. -/
theorem decode_repacked : ∃ region region', regionOf models repacked = .ok region ∧
    regionOf models reordered = .ok region' ∧
    (∀ rest, (decode models (.mk 17 [.mk 11 []])).runWith id Region.serve
        (Region.ofBytes (lengthPrefixed region ++ rest)) =
      (.ok (.message [(1, .array [.string "cap", .string "tie"]), (2, .tag 1 (some (.string "")))]),
        ⟨(lengthPrefixed region).length, rest⟩)) ∧
    ofBytes models (.mk 17 [.mk 11 []]) (lengthPrefixed region') =
      ofBytes models (.mk 17 [.mk 11 []]) (lengthPrefixed region) := by
  have hLength : ((regionOf models repacked).map List.length).toOption = some 34 := by cbv
  have hLength' : ((regionOf models reordered).map List.length).toOption = some 20 := by cbv
  have hMessage : messageOfEntries models [itemsPart, lockPart] repacked =
      .message [(1, .array [.string "cap", .string "tie"]),
        (2, .tag 1 (some (.string "")))] := by cbv
  have hProper : ClosedType.Proper models.definitions (.mk 17 [.mk 11 []]) :=
    .mk rfl rfl (List.forall_mem_singleton.2 (.mk rfl rfl (List.forall_mem_nil _)))
  have hReordered : ∀ entry ∈ reordered, entry.Fits models.definitions [itemsPart, lockPart] := by
    refine fun entry hEntry => repacked_fits entry ?_
    revert entry
    simp [reordered, repacked]
  have hVoid : ¬ ClosedType.HoldsVoid models.definitions (.mk 17 [.mk 11 []]) := by
    have hMem : ClosedType.mk 17 [.mk 11 []] ∈ [ClosedType.mk 17 [.mk 11 []], .mk 14 [.mk 11 []],
      .mk 16 [.mk 11 []], .mk 11 []] := List.mem_cons_self
    exact ClosedType.not_holdsVoid_of_closed (by decide) (by decide) hMem
  obtain ⟨region, hRegion, hRead⟩ :=
    decode_entries (Schema.Luggage.compiles.compile {}) hProper hVoid rfl
    repacked_fits
  have hRegion : regionOf models repacked = .ok region := hRegion
  rw [hRegion] at hLength
  have hLength : region.length = 34 := Option.some.inj hLength
  obtain ⟨hDecode, hOthers⟩ := hRead (by rw [hLength]; decide)
  obtain ⟨region', hRegion', hSame⟩ := hOthers reordered hReordered repacked_rearranged
  have hRegion' : regionOf models reordered = .ok region' := hRegion'
  rw [hRegion'] at hLength'
  have hLength' : region'.length = 20 := Option.some.inj hLength'
  refine ⟨region, region', hRegion, hRegion', ?_, hSame (by rw [hLength']; decide)⟩
  rw [← hMessage]
  exact hDecode

end

end Interchange.Wire

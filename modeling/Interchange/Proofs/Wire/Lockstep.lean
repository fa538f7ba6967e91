import Interchange.Proofs.Wire.Decoded

/-!
# Readers in step

Two readers of the same bytes may know different fields. Where one of them reads a value, the other
skips it by the layout that the tag of the field announces, and does not look at it. Both take the
same bytes, whatever the bytes are: a number may be longer than it needs to be, a field may come
twice, and a region may hold more than its reader asks for. So a reader that knows fewer fields
succeeds wherever the other one does, stops at the same place, and gets the fields that it knows.

A field of type `void` takes no bytes, but its layout takes a number, so such a field cannot be
skipped.

* `Reading.Follows`: a reading takes the bytes that another one takes.
* `skip_follows`: skipping follows reading.
* `fieldEntry_follows`, `elements_follows`: one entry of a message, and all of them.
* `message_follows`: a message that knows fewer fields.
* `decode_inStep`: the types of compiled projects.
-/

namespace Interchange.Wire

open Schema (Arena Builtin Definition ModelPart Models Project)

/-! ## Readings that follow each other -/

namespace Reading

variable {α β γ δ : Type} {R : α → β → Prop} {S : γ → δ → Prop}

/-- Where the leading reading succeeds, the other one does too and takes the same bytes. The values
are related. -/
def Follows (follower : Reading β) (leader : Reading α) (R : α → β → Prop) : Prop :=
  ∀ bytes value rest, leader.run bytes = (.ok value, rest) →
    ∃ other, follower.run bytes = (.ok other, rest) ∧ R value other

theorem follows_refl (reading : Reading α) : reading.Follows reading Eq := by
  intro bytes value rest hRun
  exact ⟨value, hRun, rfl⟩

theorem follows_pure {a : α} {b : β} (hValues : R a b) :
    (pure b : Reading β).Follows (pure a : Reading α) R := by
  intro bytes value rest hRun
  cases hRun
  exact ⟨b, rfl, hValues⟩

theorem follows_fail (follower : Reading β) (error : WireError) :
    follower.Follows (fail error : Reading α) R := by
  intro bytes value rest hRun
  cases hRun

theorem Follows.bind {follower : Reading β} {leader : Reading α} {next : α → Reading γ}
    {following : β → Reading δ} (hFirst : follower.Follows leader R)
    (hNext : ∀ a b, R a b → (following b).Follows (next a) S) :
    (follower >>= following).Follows (leader >>= next) S := by
  intro bytes value rest hRun
  rw [run_bind] at hRun
  split at hRun
  next a after hLeader =>
    obtain ⟨b, hFollower, hValues⟩ := hFirst bytes a after hLeader
    obtain ⟨other, hFollowing, hOther⟩ := hNext a b hValues after value rest hRun
    exact ⟨other, by rw [run_bind, hFollower]; exact hFollowing, hOther⟩
  next => cases hRun

/-- The same step first, and then readings that follow each other. -/
theorem follows_bind {first : Reading α} {next : α → Reading γ} {following : α → Reading δ}
    (hNext : ∀ a, (following a).Follows (next a) S) :
    (first >>= following).Follows (first >>= next) S := by
  refine (follows_refl first).bind ?_
  rintro a _ rfl
  exact hNext a

/-- A result that is computed takes no bytes. -/
theorem follows_ofExcept {result : Except WireError α} {follower : Except WireError β}
    (hResult : ∀ value, result = .ok value → ∃ other, follower = .ok other ∧ R value other) :
    (ofExcept follower).Follows (ofExcept result) R := by
  cases result with
  | error error => exact follows_fail _ error
  | ok value =>
    obtain ⟨other, rfl, hValues⟩ := hResult value rfl
    exact follows_pure hValues

/-! Readings that are followed without regard to the values. -/

/-- The follower takes the bytes that the leader takes. -/
abbrev Traces (follower : Reading Unit) (leader : Reading α) : Prop :=
  follower.Follows leader fun _ _ => True

/-- The bytes of a reading, without the value. -/
theorem traces_bind {first : Reading α} {next : α → Reading β}
    (hNext : ∀ a, (pure () : Reading Unit).Traces (next a)) :
    (first >>= fun _ => pure ()).Traces (first >>= next) :=
  follows_bind hNext

/-- What takes no bytes can be added to the leader. -/
theorem Traces.bind {follower : Reading Unit} {leader : Reading α} {next : α → Reading β}
    (hTraces : follower.Traces leader) (hNext : ∀ a, (pure () : Reading Unit).Traces (next a)) :
    follower.Traces (leader >>= next) := by
  intro bytes value rest hRun
  rw [run_bind] at hRun
  split at hRun
  next a after hLeader =>
    obtain ⟨_, hSame, _⟩ := hNext a after value rest hRun
    cases hSame
    exact hTraces bytes a rest hLeader
  next => cases hRun

theorem traces_pure (a : α) : (pure () : Reading Unit).Traces (pure a : Reading α) :=
  follows_pure trivial

theorem traces_ofExcept (result : Except WireError α) :
    (pure () : Reading Unit).Traces (ofExcept result) := by
  cases result with
  | error error => exact follows_fail _ error
  | ok value => exact traces_pure value

end Reading

open Reading

/-! ## Skipping -/

theorem skip_traces_readSigned (kind : Builtin) (half : Nat) :
    Layout.varint.skip.Traces (Scalar.readSigned kind half) := by
  refine traces_bind fun number => ?_
  dsimp only
  split
  · exact traces_pure _
  · exact follows_fail _ _

theorem skip_traces_readUnsigned (kind : Builtin) (size : Nat) :
    Layout.varint.skip.Traces (Scalar.readUnsigned kind size) := by
  refine traces_bind fun number => ?_
  split
  · exact traces_pure _
  · exact follows_fail _ _

theorem skip_traces_readBool : Layout.varint.skip.Traces Scalar.readBool := by
  refine traces_bind fun number => ?_
  split
  · exact traces_pure _
  · exact traces_pure _
  · exact follows_fail _ _

/-- A scalar is skipped by the layout of its kind, unless it is `void`. -/
theorem skip_traces_scalar {kind : Builtin} (hKind : kind ≠ .void) :
    (Layout.ofBuiltin kind).skip.Traces (Scalar.read kind) := by
  cases kind with
  | void => exact absurd rfl hKind
  | bool => exact skip_traces_readBool.bind fun _ => traces_pure _
  | string => exact follows_fail _ _
  | array => exact follows_fail _ _
  | map => exact follows_fail _ _
  | float32 => exact traces_bind fun _ => traces_pure _
  | float64 => exact traces_bind fun _ => traces_pure _
  | uuid => exact traces_bind fun _ => traces_pure _
  | int8 => exact (skip_traces_readSigned _ _).bind fun _ => traces_pure _
  | int16 => exact (skip_traces_readSigned _ _).bind fun _ => traces_pure _
  | int32 => exact (skip_traces_readSigned _ _).bind fun _ => traces_pure _
  | int64 => exact (skip_traces_readSigned _ _).bind fun _ => traces_pure _
  | uint8 => exact (skip_traces_readUnsigned _ _).bind fun _ => traces_pure _
  | uint16 => exact (skip_traces_readUnsigned _ _).bind fun _ => traces_pure _
  | uint32 => exact (skip_traces_readUnsigned _ _).bind fun _ => traces_pure _
  | uint64 => exact (skip_traces_readUnsigned _ _).bind fun _ => traces_pure _

/-- Whatever a codec reads, its layout skips. All but scalars are a region whose bytes are there
before they are looked at. -/
theorem Codec.skip_traces {codec : Codec} (hVoid : ∀ default, codec ≠ .scalar .void default) :
    codec.layout.skip.Traces codec.decode := by
  cases codec with
  | scalar kind default =>
    rw [decode]
    refine (skip_traces_scalar ?_).bind fun _ => traces_pure _
    rintro rfl
    exact hVoid default rfl
  | string default =>
    rw [decode]
    refine traces_bind fun region => ?_
    split
    · exact traces_pure _
    · exact follows_fail _ _
  | bytes default =>
    rw [decode]
    exact traces_bind fun region => traces_pure _
  | array element default =>
    rw [decode]
    exact traces_bind fun region => (traces_ofExcept _).bind fun _ => traces_pure _
  | map keys values default =>
    rw [decode]
    exact traces_bind fun region => (traces_ofExcept _).bind fun _ => traces_pure _
  | record name parts default =>
    rw [decode]
    exact traces_bind fun region => traces_ofExcept _
  | union name variants default =>
    rw [decode]
    exact traces_bind fun region => traces_ofExcept _

/-! ## Entries of messages -/

/-- The fields with one of the numbers. -/
def Fields.only (numbers : List UInt32) (fields : List (UInt32 × Value)) : List (UInt32 × Value) :=
  fields.filter fun field => decide (field.1 ∈ numbers)

namespace Fields

theorem get?_only (numbers : List UInt32) (fields : List (UInt32 × Value)) (id : UInt32) :
    get? (only numbers fields) id = if id ∈ numbers then get? fields id else none := by
  induction fields with
  | nil => simp [only, get?]
  | cons field rest ih =>
    obtain ⟨number, value⟩ := field
    rw [only, List.filter_cons, get?_cons]
    by_cases hNumber : number = id
    · subst hNumber
      by_cases hMem : number ∈ numbers
      · simp [hMem, get?_cons]
      · rw [if_neg (by simpa using hMem), if_neg hMem, ← only, ih, if_neg hMem]
    · rw [if_neg hNumber, ← ih]
      split
      · rw [get?_cons, if_neg hNumber, only]
      · rw [only]

theorem Ascending.only {fields : List (UInt32 × Value)} (hFields : Ascending fields)
    (numbers : List UInt32) : Ascending (only numbers fields) :=
  List.Pairwise.sublist (List.filter_sublist.map Prod.fst) hFields

end Fields

/-- One after the other, readings that follow each other take the same bytes. -/
theorem elements_follows {α β : Type} {R : α → β → Prop} {leader : Reading α} {follower : Reading β}
    (hItem : follower.Follows leader R) {region : Bytes} {values : List α}
    (hElements : elements leader region = .ok values) :
    ∃ others, elements follower region = .ok others ∧ List.Forall₂ R values others := by
  fun_induction elements leader region generalizing values with
  | case1 region hEmpty =>
    cases hElements
    exact ⟨[], by rw [elements, if_pos hEmpty], .nil⟩
  | case2 region hSome error rest hRun => cases hElements
  | case3 region hSome value rest hRun hLess later hRest ih =>
    cases hElements
    obtain ⟨other, hOther, hValues⟩ := hItem region value rest hRun
    obtain ⟨others, hOthers, hAll⟩ := ih hRest
    refine ⟨other :: others, ?_, .cons hValues hAll⟩
    rw [elements, if_neg hSome, hOther]
    simp only [hLess, dite_true, hOthers]
  | case4 region hSome value rest hRun hLess error hRest => cases hElements
  | case5 region hSome value rest hRun hLess => cases hElements

namespace Codec

/-- The second message codec knows some of the fields of the first one. It reads them in the same
way and skips the others. -/
structure KnowsFewer (parts others : List (ModelPart Codec)) : Prop where
  numbers : (parts.map ModelPart.number).Pairwise (· < ·)
  fewer : (others.map ModelPart.number).Pairwise (· < ·)
  shared : ∀ other ∈ others, ∃ part ∈ parts, part.number = other.number ∧
    part.content = other.content
  skipped : ∀ part ∈ parts, part.number ∉ others.map ModelPart.number →
    part.content.layout.skip.Traces part.content.decode

section

variable {parts others : List (ModelPart Codec)}

theorem KnowsFewer.find? (hFewer : KnowsFewer parts others) {number : UInt32}
    {other : ModelPart Codec} (hFind : ModelPart.find? others number = some other) :
    ∃ part, ModelPart.find? parts number = some part ∧ part.content = other.content := by
  obtain ⟨hOther, rfl⟩ := ModelPart.find?_eq_some hFind
  obtain ⟨part, hPart, hNumber, hContent⟩ := hFewer.shared other hOther
  have hNodup : (parts.map ModelPart.number).Nodup :=
    hFewer.numbers.imp fun hLess => UInt32.ne_of_lt hLess
  refine ⟨part, ?_, hContent⟩
  rw [← hNumber]
  exact ModelPart.find?_of_mem hNodup hPart

theorem KnowsFewer.find?_none (hFewer : KnowsFewer parts others) {number : UInt32}
    (hFind : ModelPart.find? parts number = none) : ModelPart.find? others number = none := by
  cases hOther : ModelPart.find? others number with
  | none => rfl
  | some other =>
    obtain ⟨part, hPart, _⟩ := hFewer.find? hOther
    cases hFind.symm.trans hPart

/-- The reader of a part by an id on the wire, which may be too large for a number. -/
theorem find?_fieldReaders (parts : List (ModelPart Codec)) (id : Nat) :
    ((fieldReaders parts).find? fun part => part.number.toNat == id) =
      if id < UInt32.size then (ModelPart.find? parts (UInt32.ofNat id)).map
        (ModelPart.map fun codec => (codec.layout, codec.decode))
      else none := by
  rw [fieldReaders_eq_map]
  split
  next hId =>
    have hNumber : (UInt32.ofNat id).toNat = id := UInt32.toNat_ofNat_of_lt hId
    have hFind := find?_toNat parts (ModelPart.map fun codec => (codec.layout, codec.decode))
      (fun _ => rfl) (UInt32.ofNat id)
    rwa [hNumber] at hFind
  next hId =>
    rw [List.find?_eq_none]
    intro part _ hSame
    have hLess := part.number.toNat_lt
    rw [beq_iff_eq] at hSame
    exact hId (by rw [← hSame]; exact hLess)

/-- One entry. A reader that knows fewer fields gets it if it knows the field, and skips it
otherwise. -/
theorem fieldEntry_follows (name name' : String) (hFewer : KnowsFewer parts others) :
    (fieldEntry name' (fieldReaders others)).Follows (fieldEntry name (fieldReaders parts))
      fun found other =>
        other = found.filter fun field => decide (field.1 ∈ others.map ModelPart.number) := by
  refine follows_bind fun tag => follows_bind ?_
  rintro ⟨id, layout⟩
  dsimp only
  rw [find?_fieldReaders, find?_fieldReaders]
  by_cases hId : id < UInt32.size
  · rw [if_pos hId, if_pos hId]
    cases hPart : ModelPart.find? parts (UInt32.ofNat id) with
    | none =>
      rw [hFewer.find?_none hPart]
      exact follows_bind fun _ => follows_pure rfl
    | some part =>
      obtain ⟨hMem, hNumber⟩ := ModelPart.find?_eq_some hPart
      cases hOther : ModelPart.find? others (UInt32.ofNat id) with
      | none =>
        have hUnknown : part.number ∉ others.map ModelPart.number := by
          intro hKnown
          obtain ⟨other, hFound, hSame⟩ := List.mem_map.1 hKnown
          exact ModelPart.find?_eq_none.1 hOther other hFound (hSame.trans hNumber)
        dsimp only [Option.map_some, Option.map_none, ModelPart.map]
        split
        next hLayout =>
          subst hLayout
          refine Follows.bind (hFewer.skipped part hMem hUnknown) fun value _ _ => follows_pure ?_
          simp [Option.filter, hUnknown]
        next => exact follows_fail _ _
      | some other =>
        obtain ⟨hFound, hSame⟩ := ModelPart.find?_eq_some hOther
        obtain ⟨_, hAgain, hContent⟩ := hFewer.find? hOther
        cases hPart.symm.trans hAgain
        have hNumbers : part.number = other.number := hNumber.trans hSame.symm
        have hKnown : other.number ∈ others.map ModelPart.number := List.mem_map_of_mem hFound
        dsimp only [Option.map_some, ModelPart.map]
        rw [hContent, hNumbers]
        split
        · refine follows_bind fun value => follows_pure ?_
          simp [Option.filter, hKnown]
        · exact follows_fail _ _
  · rw [if_neg hId, if_neg hId]
    exact follows_bind fun _ => follows_pure rfl

/-- The entries that the follower gets are those of the fields that it knows. -/
theorem filterMap_filter {numbers : List UInt32} {entries found : List (Option (UInt32 × Value))}
    (hEntries : List.Forall₂ (fun entry other =>
      other = Option.filter (fun field => decide (field.1 ∈ numbers)) entry) entries found) :
    found.filterMap id = Fields.only numbers (entries.filterMap id) := by
  induction hEntries with
  | nil => rfl
  | @cons entry _ rest _ hFirst _ ih =>
    subst hFirst
    cases entry with
    | none => exact ih
    | some field =>
      rw [List.filterMap_cons_some (id_eq _), Fields.only, List.filter_cons, ← Fields.only, ← ih]
      by_cases hKnown : field.1 ∈ numbers
      · simp [Option.filter, hKnown]
      · simp [Option.filter, hKnown]

theorem setAll_only (hFewer : KnowsFewer parts others) (entries : List (UInt32 × Value)) :
    Fields.setAll (others.map fun part => (part.number, part.content.default))
        (Fields.only (others.map ModelPart.number) entries) =
      Fields.only (others.map ModelPart.number)
        (Fields.setAll (parts.map fun part => (part.number, part.content.default)) entries) := by
  have hAscending : ∀ {list : List (ModelPart Codec)},
      (list.map ModelPart.number).Pairwise (· < ·) →
        Fields.Ascending (list.map fun part => (part.number, part.content.default)) := by
    intro list hNumbers
    rw [Fields.Ascending, List.map_map]
    exact hNumbers
  refine Fields.ext ((hAscending hFewer.fewer).setAll _)
    (((hAscending hFewer.numbers).setAll _).only _) fun id => ?_
  rw [Fields.get?_only, Fields.get?_setAll, Fields.get?_setAll, Fields.only, ← List.filter_reverse,
    ← Fields.only, Fields.get?_only, Fields.get?_map_parts, Fields.get?_map_parts]
  cases hOther : ModelPart.find? others id with
  | none =>
    have hUnknown : id ∉ others.map ModelPart.number := by
      intro hKnown
      obtain ⟨other, hFound, hSame⟩ := List.mem_map.1 hKnown
      exact ModelPart.find?_eq_none.1 hOther other hFound hSame
    rw [if_neg hUnknown, if_neg hUnknown]
    rfl
  | some other =>
    obtain ⟨hFound, rfl⟩ := ModelPart.find?_eq_some hOther
    obtain ⟨part, hPart, hContent⟩ := hFewer.find? hOther
    rw [if_pos (List.mem_map_of_mem hFound), if_pos (List.mem_map_of_mem hFound), hPart,
      Option.map_some, Option.map_some, hContent]

/-- A reader that knows fewer fields gets the message with the fields that it knows. -/
theorem message_follows (name name' : String) (hFewer : KnowsFewer parts others) :
    (messageCodec name' others).decode.Follows (messageCodec name parts).decode
      fun value other => ∃ fields, value = .message fields ∧
        other = .message (Fields.only (others.map ModelPart.number) fields) := by
  rw [messageCodec_default hFewer.numbers, messageCodec_default hFewer.fewer]
  refine follows_bind fun region => follows_ofExcept fun value hValue => ?_
  obtain ⟨entries, hEntries, hMessage⟩ := bind_eq_ok.1 hValue
  cases hMessage
  obtain ⟨found, hFound, hAll⟩ := elements_follows (fieldEntry_follows name name' hFewer) hEntries
  refine ⟨_, bind_eq_ok.2 ⟨found, hFound, rfl⟩, _, rfl, ?_⟩
  rw [filterMap_filter hAll, setAll_only hFewer]

end

end Codec

/-! ## Types -/

/-- The fields of the second message are fields of the first one, with the same numbers and types.
The other fields of the first one are not `void`. -/
structure SharesFields (definitions : List Definition)
    (parts others : List (ModelPart ClosedType)) :
    Prop where
  shared : ∀ other ∈ others, ∃ part ∈ parts, part.number = other.number ∧
    part.content = other.content
  other : ∀ part ∈ parts, part.number ∉ others.map ModelPart.number →
    part.content.builtin? definitions ≠ some .void

/-- What the codec of a type reads, its layout skips, unless the type is `void`. -/
theorem ClosedType.Proper.skip_traces {definitions : List Definition} (hArena : Arena definitions)
    {type : ClosedType} {codec : Codec} (hType : type.Proper definitions)
    (hCodec : codecOf definitions type = some codec)
    (hVoid : type.builtin? definitions ≠ some .void) : codec.layout.skip.Traces codec.decode := by
  refine Codec.skip_traces ?_
  rintro default rfl
  obtain ⟨shape, _, hShape, hSame, hOwn⟩ := hType.codec hArena
  cases hOwn.symm.trans hCodec
  cases shape with
  | scalar kind =>
    cases hSame
    exact hVoid (ClosedType.scalar_of_shape? hShape).1
  | string => cases hSame
  | bytes => cases hSame
  | array element =>
    obtain ⟨_, _, hEq⟩ := Option.map_eq_some_iff.1 hSame
    cases hEq
  | map key value =>
    obtain ⟨_, _, hSame⟩ := Option.bind_eq_some_iff.1 hSame
    obtain ⟨_, _, hEq⟩ := Option.map_eq_some_iff.1 hSame
    cases hEq
  | message parts =>
    obtain ⟨_, _, hEq⟩ := Option.map_eq_some_iff.1 hSame
    cases hEq
  | tag variants =>
    obtain ⟨_, _, hEq⟩ := Option.map_eq_some_iff.1 hSame
    cases hEq

theorem SharesFields.knowsFewer {definitions : List Definition} (hArena : Arena definitions)
    {wide narrow : ClosedType} {parts others : List (ModelPart ClosedType)}
    {codecs fewer : List (ModelPart Codec)} (hShares : SharesFields definitions parts others)
    (hWide : wide.Proper definitions) (hWideShape : wide.shape? definitions = some (.message parts))
    (hNarrowShape : narrow.shape? definitions = some (.message others))
    (hCodecs : partsWith (codecOf definitions) parts = some codecs)
    (hOthers : partsWith (codecOf definitions) others = some fewer) :
    Codec.KnowsFewer codecs fewer := by
  have hCodecs := partsWith_eq_some.1 hCodecs
  have hOthers := partsWith_eq_some.1 hOthers
  have hNumbers : codecs.map ModelPart.number = parts.map ModelPart.number :=
    map_eq_map_of_forall₂ hCodecs fun _ _ _ hPart => hPart.number
  have hFewer : fewer.map ModelPart.number = others.map ModelPart.number :=
    map_eq_map_of_forall₂ hOthers fun _ _ _ hPart => hPart.number
  constructor
  · rw [hNumbers]
    exact ClosedType.shape?_ascending hArena hWideShape
  · rw [hFewer]
    exact ClosedType.shape?_ascending hArena hNarrowShape
  · intro codec hCodec
    obtain ⟨other, hOther, hOne⟩ := exists_of_mem_right hOthers hCodec
    obtain ⟨part, hPart, hNumber, hContent⟩ := hShares.shared other hOther
    obtain ⟨found, hFound, hSame⟩ := exists_of_mem_left hCodecs hPart
    refine ⟨found, hFound, (hSame.number.trans hNumber).trans hOne.number.symm, ?_⟩
    have hBoth := hSame.content
    rw [hContent, hOne.content] at hBoth
    exact (Option.some.inj hBoth).symm
  · intro codec hCodec hUnknown
    obtain ⟨part, hPart, hOne⟩ := exists_of_mem_right hCodecs hCodec
    have hProper := hWide.of_mem_parts hArena hWideShape (List.mem_map_of_mem hPart)
    rw [hFewer, hOne.number] at hUnknown
    exact hProper.skip_traces hArena hOne.content (hShares.other part hPart hUnknown)

/-- A reading that follows another one on a region stops at the same place. -/
theorem Reading.Follows.region {α β : Type} {R : α → β → Prop} {leader : Reading α}
    {follower : Reading β} (hFollows : follower.Follows leader R)
    {region after : Region} {value : α}
    (hRun : leader.runWith id Region.serve region = (.ok value, after)) :
    ∃ other, follower.runWith id Region.serve region = (.ok other, after) ∧ R value other := by
  obtain ⟨position, bytes⟩ := region
  rw [runWith_region] at hRun
  obtain ⟨hValue, rfl⟩ := Prod.mk.inj hRun
  obtain ⟨other, hOther, hValues⟩ := hFollows bytes value _ (Prod.ext hValue rfl)
  refine ⟨other, ?_, hValues⟩
  rw [runWith_region, hOther]

/-- Readers of one project stay in step on all bytes. Where a message is read, a message that shares
some of its fields is read too; it ends at the same place, and it has those fields with the same
values. Where a value of a type that is not `void` is read, its layout is skipped, and skipping ends
at the same place. -/
theorem decode_inStep {options : Schema.Options} {sources : List Schema.Source} {project : Project}
    (hCompile : Schema.compile options sources = .ok project) :
    (∀ (wide narrow : ClosedType) (parts others : List (ModelPart ClosedType)),
      wide.Proper project.definitions → narrow.Proper project.definitions →
      wide.shape? project.definitions = some (.message parts) →
      narrow.shape? project.definitions = some (.message others) →
      SharesFields project.definitions parts others →
      ∀ (region after : Region) (value : Value),
        (decode project.toModels wide).runWith id Region.serve region = (.ok value, after) →
        ∃ fields, value = .message fields ∧
          (decode project.toModels narrow).runWith id Region.serve region =
            (.ok (.message (Fields.only (others.map ModelPart.number) fields)), after)) ∧
    (∀ type : ClosedType, type.Proper project.definitions →
      type.builtin? project.definitions ≠ some .void →
      ∃ layout, layoutOf project.toModels type = some layout ∧
        ∀ (region after : Region) (value : Value),
          (decode project.toModels type).runWith id Region.serve region = (.ok value, after) →
          layout.skip.runWith id Region.serve region = (.ok (), after)) := by
  have hArena := Schema.compile_arena hCompile
  have hDecode : ∀ {type codec}, codecOf project.definitions type = some codec →
      decode project.toModels type = codec.decode := by
    intro type codec hCodec
    rw [decode, shelvedCodecOf_eq, hCodec]
  constructor
  · intro wide narrow parts others hWide hNarrow hWideShape hNarrowShape hShares region
      after value hRun
    obtain ⟨_, leader, _, _, hLeader⟩ := hWide.codec hArena
    obtain ⟨_, follower, _, _, hFollower⟩ := hNarrow.codec hArena
    rw [hDecode hLeader] at hRun
    rw [hDecode hFollower]
    rw [hWide.codecOf_eq hArena hWideShape] at hLeader
    rw [hNarrow.codecOf_eq hArena hNarrowShape] at hFollower
    obtain ⟨codecs, hCodecs, rfl⟩ := Option.map_eq_some_iff.1 hLeader
    obtain ⟨fewer, hOthers, rfl⟩ := Option.map_eq_some_iff.1 hFollower
    have hFewer := hShares.knowsFewer hArena hWide hWideShape hNarrowShape hCodecs hOthers
    have hNumbers : fewer.map ModelPart.number = others.map ModelPart.number :=
      map_eq_map_of_forall₂ (partsWith_eq_some.1 hOthers) fun _ _ _ hPart => hPart.number
    obtain ⟨_, hOther, fields, rfl, rfl⟩ := (Codec.message_follows _ _ hFewer).region hRun
    exact ⟨fields, rfl, by rw [hOther, hNumbers]⟩
  · intro type hType hVoid
    obtain ⟨_, codec, _, _, hCodec⟩ := hType.codec hArena
    refine ⟨codec.layout, by rw [layoutOf, shelvedCodecOf_eq, hCodec, Option.map_some], ?_⟩
    intro region after value hRun
    rw [hDecode hCodec] at hRun
    obtain ⟨_, hSkip, _⟩ := (hType.skip_traces hArena hCodec hVoid).region hRun
    exact hSkip

/-! ## Bags with and without a lock -/

section

open Schema.Luggage (models)

/-- Bags in a bag with a lock. -/
def lockedBag : ClosedType := .mk 17 [.mk 17 [.mk 11 []]]

/-- The lock comes first, with a byte behind its payload. The bags come twice, once with a length
that is longer than it needs to be. A field that nobody knows and a byte follow. -/
def jumbled : Bytes :=
  [0x93, 0x91, 0x83, 0x81, 0x80, 0x00, 0x89, 0x01, 0x80, 0x80, 0x89, 0x86, 0x85, 0x89, 0x83,
    0x82, 0x68, 0x69, 0xa8, 0x80, 0xff]

/-- The bags in the bytes. -/
def jumbledBags : Value :=
  .array [.message [(1, .array [.string "hi"]), (2, .tag 0 none)]]

/-- The lock in the bytes. -/
def jumbledLock : Value :=
  .tag 1 (some (.message [(1, .array []), (2, .tag 0 none)]))

theorem lockedBag_sharesFields : SharesFields models.definitions
    [⟨1, "items", .mk 14 [.mk 17 [.mk 11 []]]⟩, ⟨2, "lock", .mk 16 [.mk 17 [.mk 11 []]]⟩]
    [⟨1, "bags", .mk 14 [.mk 17 [.mk 11 []]]⟩] := by
  constructor
  · simp
  · decide

/-- A reader that does not know the lock gets the same bags and ends at the same place, and so does
one that skips all of them. -/
theorem decode_jumbled :
    (decode models lockedBag).runWith id Region.serve (Region.ofBytes jumbled) =
        (.ok (.message [(1, jumbledBags), (2, jumbledLock)]), ⟨20, [0xff]⟩) ∧
      (decode models stringBags).runWith id Region.serve (Region.ofBytes jumbled) =
        (.ok (.message [(1, jumbledBags)]), ⟨20, [0xff]⟩) ∧
      Layout.lengthPrefixed.skip.runWith id Region.serve (Region.ofBytes jumbled) =
        (.ok (), ⟨20, [0xff]⟩) := by
  have hValue :
      ((decode models lockedBag).runWith id Region.serve (Region.ofBytes jumbled)).1.toOption =
      some (.message [(1, jumbledBags), (2, jumbledLock)]) := by cbv
  have hAfter : ((decode models lockedBag).runWith id Region.serve (Region.ofBytes jumbled)).2 =
      ⟨20, [0xff]⟩ := by cbv
  have hRun : (decode models lockedBag).runWith id Region.serve (Region.ofBytes jumbled) =
      (.ok (.message [(1, jumbledBags), (2, jumbledLock)]), ⟨20, [0xff]⟩) :=
    Prod.ext (toOption_eq_some.1 hValue) hAfter
  have hLocked : lockedBag.Proper models.definitions := by
    refine .mk rfl rfl (List.forall_mem_singleton.2 (.mk rfl rfl (List.forall_mem_singleton.2 ?_)))
    exact .mk rfl rfl (by simp)
  obtain ⟨hNarrow, hSkip⟩ := decode_inStep (Schema.Luggage.compiles.compile {})
  refine ⟨hRun, ?_, ?_⟩
  · obtain ⟨fields, hFields, hOther⟩ := hNarrow lockedBag stringBags _ _ hLocked stringBags_proper
      rfl rfl lockedBag_sharesFields _ _ _ hRun
    cases hFields
    exact hOther
  · obtain ⟨layout, hLayout, hSkipped⟩ := hSkip lockedBag hLocked (by decide)
    have hSame : layoutOf models lockedBag = some .lengthPrefixed := by cbv
    cases hLayout.symm.trans hSame
    exact hSkipped _ _ _ hRun

end

end Interchange.Wire

import Interchange.Proofs.Wire.RoundTrip

/-!
# Newer and older versions of a type

A newer version of a type may declare fields that the older one does not declare, at every depth;
all else stays. Readers of the older version skip these fields, so they get the value without them.

* `decode_matching`: typed values of one project, read as a matching type of another.
* `ClosedType.Extends`: one type is a newer version of another.
* `Extends.matching`: versions of a type match.
* `narrow`: a value without the fields that a type does not declare.
* `narrow_eq_fill`: where all fields are there, dropping is all that an older reader does.
* `decode_newer`: values of the newer version, read as the older one.
-/

namespace Interchange.Wire

open Schema (Arena Builtin Definition ModelPart Models Project)

/-! ## Reading as a matching type -/

/-- All that is written can be skipped, because it comes back. -/
theorem skips_of_arena {writers readers : Models} {R : ClosedType → ClosedType → Prop}
    (hArena : Arena writers.definitions) : Skips writers readers R := by
  intro _ _ _ _ _ _ _ part _ _ hInner presence value hTyped
  rw [arrives_iff_returns hArena hInner.proper hTyped]
  exact hTyped.returns hArena (fun _ _ => default_returns hArena) hInner

/-- A typed value is written, and reading it as a matching type, whatever follows the bytes, gives
the value filled as a value of both types and stops where the bytes end. -/
theorem decode_matching {writers readers : Models} {type other : ClosedType} {value : Value}
    {R : ClosedType → ClosedType → Prop}
    (hMatching : Matching writers.definitions readers.definitions R)
    (hPaired : Paired writers readers type other) (hRelated : R type other)
    (hTyped : HasType writers.definitions .optional type value) :
    ∃ bytes, toBytes writers type value = .ok bytes ∧
      (bytes.length < 2 ^ 64 → ∀ rest,
        (decode readers other).runWith id Region.serve (Region.ofBytes (bytes ++ rest)) =
          (.ok (fill readers other (fill writers type value)), ⟨bytes.length, rest⟩)) := by
  obtain ⟨_, writer, _, _, hWriter⟩ := hPaired.type.proper.codec hPaired.writerArena
  obtain ⟨_, reader, _, _, hReader⟩ := hPaired.other.codec hPaired.readerArena
  have hSkips : Skips writers readers R := skips_of_arena hPaired.writerArena
  have hArrives := hTyped.arrives hMatching hSkips (fun _ _ _ => default_arrives hMatching hSkips)
    hPaired hRelated
  obtain ⟨bytes, hCarries⟩ := hArrives writer reader hWriter hReader
  refine ⟨bytes, ?_, ?_⟩
  · rw [toBytes, encode, shelvedCodecOf_eq, hWriter]
    exact hCarries.written
  · intro hLength rest
    rw [decode, shelvedCodecOf_eq, hReader]
    exact (hCarries.reads hLength).region rest

/-! ## Versions -/

/-- The first type is a newer version of the second. Built-in types are the same with arguments that
are newer versions. A message has every field of the older version under its number, and maybe more.
A tag has the same variants, with and without payloads. -/
inductive ClosedType.Extends (newer older : List Definition) : ClosedType → ClosedType → Prop
  | builtin {type other : ClosedType} {kind : Builtin} (hNew : type.builtin? newer = some kind)
      (hOld : other.builtin? older = some kind) (hLength : type.args.length = other.args.length)
      (hArgs : ∀ pair ∈ type.args.zip other.args, Extends newer older pair.1 pair.2) :
      Extends newer older type other
  | message {type other : ClosedType} {parts parts' : List (ModelPart ClosedType)}
      (hNew : type.shape? newer = some (.message parts))
      (hOld : other.shape? older = some (.message parts'))
      (hKnown : ∀ part' ∈ parts', ∃ part ∈ parts, part.number = part'.number)
      (hParts : ∀ part ∈ parts, ∀ part' ∈ parts', part.number = part'.number →
        Extends newer older part.content part'.content) :
      Extends newer older type other
  | tag {type other : ClosedType} {variants variants' : List (ModelPart (Option ClosedType))}
      (hNew : type.shape? newer = some (.tag variants))
      (hOld : other.shape? older = some (.tag variants'))
      (hNumbers : ∀ number, number ∈ variants.map ModelPart.number ↔
        number ∈ variants'.map ModelPart.number)
      (hPresence : ∀ variant ∈ variants, ∀ variant' ∈ variants', variant.number = variant'.number →
        variant.content.isSome = variant'.content.isSome)
      (hPayloads : ∀ variant ∈ variants, ∀ variant' ∈ variants', variant.number = variant'.number →
        ∀ inner ∈ variant.content, ∀ inner' ∈ variant'.content, Extends newer older inner inner') :
      Extends newer older type other

/-! ## Versions match -/

namespace ClosedType

theorem shape?_of_builtin? {definitions : List Definition} {type : ClosedType} {kind : Builtin}
    (hKind : type.builtin? definitions = some kind) :
    type.shape? definitions = Shape.ofBuiltin? definitions kind type.args := by
  obtain ⟨definition, hSlot, hBuiltin⟩ := Option.bind_eq_some_iff.1 hKind
  rw [Definition.builtin?] at hBuiltin
  split at hBuiltin
  next body hBody =>
    cases hBuiltin
    rw [shape?, hSlot, Option.bind_some, Shape.ofDefinition?, hBody]
  next => cases hBuiltin

/-- Messages and tags are not built in. -/
theorem builtin?_eq_none {definitions : List Definition} {type : ClosedType} {shape : Shape}
    (hShape : type.shape? definitions = some shape)
    (hModel : (∃ parts, shape = .message parts) ∨ ∃ variants, shape = .tag variants) :
    type.builtin? definitions = none := by
  cases hKind : type.builtin? definitions with
  | none => rfl
  | some kind =>
    rw [shape?_of_builtin? hKind] at hShape
    unfold Shape.ofBuiltin? at hShape
    rcases hModel with ⟨parts, rfl⟩ | ⟨variants, rfl⟩
    all_goals
      split at hShape <;> try cases hShape
      split at hShape <;> cases hShape

/-- A built-in type with related arguments has a matching shape, if related types are built in
alike. -/
theorem ofBuiltin?_matches {newer older : List Definition} {R : ClosedType → ClosedType → Prop}
    {kind : Builtin} {args args' : List ClosedType} {shape : Shape}
    (hBuiltin : ∀ type other, R type other → type.builtin? newer = other.builtin? older)
    (hLength : args.length = args'.length) (hArgs : ∀ pair ∈ args.zip args', R pair.1 pair.2)
    (hShape : Shape.ofBuiltin? newer kind args = some shape) :
    ∃ shape', Shape.ofBuiltin? older kind args' = some shape' ∧ shape.Matches R shape' := by
  cases kind with
  | string =>
    cases hShape
    exact ⟨_, rfl, .string⟩
  | array =>
    rcases args with _ | ⟨element, _ | ⟨_, _⟩⟩
    · cases hShape
    · obtain ⟨element', rfl⟩ := List.length_eq_one_iff.1 hLength.symm
      have hElement : R element element' := hArgs (element, element') (by simp)
      simp only [Shape.ofBuiltin?, hBuiltin _ _ hElement] at hShape ⊢
      split at hShape
      next hByte =>
        cases hShape
        exact ⟨_, if_pos hByte, .bytes⟩
      next hByte =>
        cases hShape
        exact ⟨_, if_neg hByte, .array hElement⟩
    · cases hShape
  | map =>
    rcases args with _ | ⟨key, _ | ⟨value, _ | ⟨_, _⟩⟩⟩
    · cases hShape
    · cases hShape
    · obtain ⟨key', value', rfl⟩ := List.length_eq_two.1 hLength.symm
      have hKey : R key key' := hArgs (key, key') (by simp)
      have hValue : R value value' := hArgs (value, value') (by simp)
      cases hShape
      exact ⟨_, rfl, .map hKey hValue⟩
    · cases hShape
  | _ =>
    cases hShape
    exact ⟨_, rfl, .scalar _⟩

namespace Extends

variable {newer older : List Definition} {type other : ClosedType}

theorem builtin?_eq (hExtends : type.Extends newer older other) :
    type.builtin? newer = other.builtin? older := by
  cases hExtends with
  | builtin hNew hOld => rw [hNew, hOld]
  | message hNew hOld =>
    rw [builtin?_eq_none hNew (Or.inl ⟨_, rfl⟩), builtin?_eq_none hOld (Or.inl ⟨_, rfl⟩)]
  | tag hNew hOld =>
    rw [builtin?_eq_none hNew (Or.inr ⟨_, rfl⟩), builtin?_eq_none hOld (Or.inr ⟨_, rfl⟩)]

theorem matchingVariants {R : ClosedType → ClosedType → Prop}
    {variants variants' : List (ModelPart (Option ClosedType))}
    (hNumbers : ∀ number, number ∈ variants.map ModelPart.number ↔
      number ∈ variants'.map ModelPart.number)
    (hPresence : ∀ variant ∈ variants, ∀ variant' ∈ variants', variant.number = variant'.number →
      variant.content.isSome = variant'.content.isSome)
    (hPayloads : ∀ variant ∈ variants, ∀ variant' ∈ variants', variant.number = variant'.number →
      ∀ inner ∈ variant.content, ∀ inner' ∈ variant'.content, R inner inner') :
    MatchingVariants R variants variants' := by
  have hMem : ∀ {variants : List (ModelPart (Option ClosedType))} {number : UInt32},
      ModelPart.find? variants number = none ↔ number ∉ variants.map ModelPart.number := by
    intro variants number
    rw [ModelPart.find?_eq_none, List.mem_map]
    exact ⟨fun hNone ⟨variant, hVariant, hNumber⟩ => hNone variant hVariant hNumber,
      fun hNone variant hVariant hNumber => hNone ⟨variant, hVariant, hNumber⟩⟩
  intro number
  cases hFind : ModelPart.find? variants number with
  | none =>
    rw [hMem.2 fun hNumber => hMem.1 hFind ((hNumbers number).2 hNumber)]
    exact .none
  | some variant =>
    obtain ⟨hVariant, rfl⟩ := ModelPart.find?_eq_some hFind
    cases hFind' : ModelPart.find? variants' variant.number with
    | none => exact absurd ((hNumbers _).1 (List.mem_map_of_mem hVariant)) (hMem.1 hFind')
    | some variant' =>
      obtain ⟨hVariant', hNumber⟩ := ModelPart.find?_eq_some hFind'
      have hSame := hPresence variant hVariant variant' hVariant' hNumber.symm
      have hBoth := hPayloads variant hVariant variant' hVariant' hNumber.symm
      refine .some ?_
      generalize variant.content = content at hSame hBoth
      generalize variant'.content = content' at hSame hBoth
      cases content with
      | none =>
        cases content' with
        | none => exact .none
        | some => cases hSame
      | some inner =>
        cases content' with
        | none => cases hSame
        | some inner' => exact .some (hBoth inner rfl inner' rfl)

/-- Versions of a type match. -/
theorem matching : Matching newer older (Extends newer older) := by
  intro type other shape hExtends hShape
  cases hExtends with
  | builtin hNew hOld hLength hArgs =>
    rw [shape?_of_builtin? hNew] at hShape
    rw [shape?_of_builtin? hOld]
    exact ofBuiltin?_matches (fun _ _ => builtin?_eq) hLength hArgs hShape
  | message hNew hOld _ hParts =>
    cases hNew.symm.trans hShape
    exact ⟨_, hOld, .message hParts⟩
  | tag hNew hOld hNumbers hPresence hPayloads =>
    cases hNew.symm.trans hShape
    exact ⟨_, hOld, .tag (matchingVariants hNumbers hPresence hPayloads)⟩

/-- The fields of the older version of a message are fields of the newer one. -/
theorem message_inv (hExtends : type.Extends newer older other)
    {parts : List (ModelPart ClosedType)} (hShape : type.shape? newer = some (.message parts)) :
    ∃ parts', other.shape? older = some (.message parts') ∧
      (∀ part' ∈ parts', ∃ part ∈ parts, part.number = part'.number) ∧
      ∀ part ∈ parts, ∀ part' ∈ parts', part.number = part'.number →
        Extends newer older part.content part'.content := by
  cases hExtends with
  | builtin hNew =>
    rw [builtin?_eq_none hShape (Or.inl ⟨_, rfl⟩)] at hNew
    cases hNew
  | message hNew hOld hKnown hParts =>
    cases hNew.symm.trans hShape
    exact ⟨_, hOld, hKnown, hParts⟩
  | tag hNew =>
    cases hNew.symm.trans hShape

end Extends

end ClosedType

/-! ## Dropping fields -/

mutual

/-- A value without the fields that a type does not declare, at every depth. -/
@[simp] def narrow (definitions : List Definition) (type : ClosedType) : Value → Value
  | .scalar scalar => .scalar scalar
  | .string text => .string text
  | .bytes bytes => .bytes bytes
  | .array items =>
    match type.shape? definitions with
    | some (.array element) => .array (narrowItems definitions element items)
    | _ => .array items
  | .map entries =>
    match type.shape? definitions with
    | some (.map key value) => .map (narrowEntries definitions key value entries)
    | _ => .map entries
  | .message fields =>
    match type.shape? definitions with
    | some (.message parts) => .message (narrowFields definitions parts fields)
    | _ => .message fields
  | .tag number payload =>
    match type.shape? definitions with
    | some (.tag variants) =>
      match (ModelPart.find? variants number).bind ModelPart.content with
      | some inner => .tag number (narrowPayload definitions inner payload)
      | none => .tag number payload
    | _ => .tag number payload

@[simp] def narrowItems (definitions : List Definition) (element : ClosedType) :
    List Value → List Value
  | [] => []
  | item :: rest => narrow definitions element item :: narrowItems definitions element rest

@[simp] def narrowEntries (definitions : List Definition) (key value : ClosedType) :
    List (Value × Value) → List (Value × Value)
  | [] => []
  | (k, v) :: rest =>
    (narrow definitions key k, narrow definitions value v) ::
      narrowEntries definitions key value rest

/-- The fields that are declared, each by the type of its part. -/
@[simp] def narrowFields (definitions : List Definition) (parts : List (ModelPart ClosedType)) :
    List (UInt32 × Value) → List (UInt32 × Value)
  | [] => []
  | (number, value) :: rest =>
    match ModelPart.find? parts number with
    | some part =>
      (number, narrow definitions part.content value) :: narrowFields definitions parts rest
    | none => narrowFields definitions parts rest

@[simp] def narrowPayload (definitions : List Definition) (inner : ClosedType) :
    Option Value → Option Value
  | some value => some (narrow definitions inner value)
  | none => none

end

section

variable {definitions : List Definition}

theorem narrowItems_eq_map (element : ClosedType) (items : List Value) :
    narrowItems definitions element items = items.map (narrow definitions element) := by
  induction items with
  | nil => rfl
  | cons item rest ih => rw [narrowItems, ih, List.map_cons]

theorem narrowEntries_eq_map (key value : ClosedType) (entries : List (Value × Value)) :
    narrowEntries definitions key value entries = entries.map fun entry =>
      (narrow definitions key entry.1, narrow definitions value entry.2) := by
  induction entries with
  | nil => rfl
  | cons entry rest ih => rw [narrowEntries, ih, List.map_cons]

theorem get?_narrowFields (parts : List (ModelPart ClosedType)) (fields : List (UInt32 × Value))
    (number : UInt32) :
    Fields.get? (narrowFields definitions parts fields) number =
      (ModelPart.find? parts number).bind fun part =>
        (Fields.get? fields number).map (narrow definitions part.content) := by
  induction fields with
  | nil =>
    cases ModelPart.find? parts number <;> rfl
  | cons field rest ih =>
    obtain ⟨id, value⟩ := field
    rw [narrowFields, Fields.get?_cons]
    by_cases hNumber : id = number
    · subst hNumber
      cases hFind : ModelPart.find? parts id with
      | none =>
        rw [hFind] at ih
        simpa using ih
      | some part => simp [Fields.get?_cons]
    · rw [if_neg hNumber, ← ih]
      split
      · rw [Fields.get?_cons, if_neg hNumber]
      · rfl

theorem narrowFields_ascending (parts : List (ModelPart ClosedType))
    {fields : List (UInt32 × Value)} (hFields : Fields.Ascending fields) :
    Fields.Ascending (narrowFields definitions parts fields) := by
  refine List.Pairwise.sublist ?_ hFields
  clear hFields
  induction fields with
  | nil => exact .slnil
  | cons field rest ih =>
    rw [narrowFields]
    split
    · exact .cons_cons _ ih
    · exact .cons _ ih

end

/-- Where all fields of the newer version are there, filling a value as one of the older version
only drops fields. -/
theorem narrow_eq_fill {newer : List Definition} {older : Models} (hNewer : Arena newer)
    (hOlder : Arena older.definitions) {type other : ClosedType} {value : Value}
    (hTyped : HasType newer .required type value)
    (hExtends : type.Extends newer older.definitions other) :
    narrow older.definitions other value = fill older other value := by
  induction hTyped generalizing other with
  | scalar => rw [narrow, fill]
  | string => rw [narrow, fill]
  | bytes => rw [narrow, fill]
  | array hShape _ ih =>
    obtain ⟨_, hShape', hMatches⟩ := ClosedType.Extends.matching _ _ _ hExtends hShape
    cases hMatches with
    | array hElement =>
      rw [narrow, hShape', fill_array hShape', ← List.map_congr_left fun item hItem =>
        ih item hItem hElement, ← narrowItems_eq_map]
  | map hShape _ _ ihKeys ihValues =>
    obtain ⟨_, hShape', hMatches⟩ := ClosedType.Extends.matching _ _ _ hExtends hShape
    cases hMatches with
    | map hKey hValue =>
      rw [narrow, hShape', fill_map hShape']
      refine congrArg Value.map ((narrowEntries_eq_map _ _ _).trans ?_)
      refine List.map_congr_left fun entry hEntry => ?_
      rw [ihKeys entry hEntry hKey, ihValues entry hEntry hValue]
  | message hShape hAscending _ _ hPresent ih =>
    obtain ⟨parts', hShape', hKnown, hParts⟩ := hExtends.message_inv hShape
    have hNumbers' : (parts'.map ModelPart.number).Pairwise (· < ·) :=
      ClosedType.shape?_ascending hOlder hShape'
    rw [narrow, hShape', fill_message hOlder hShape']
    refine congrArg Value.message (Fields.ext (narrowFields_ascending parts' hAscending) ?_ ?_)
    · rw [Fields.Ascending, List.map_map]
      exact hNumbers'
    · intro number
      rw [get?_narrowFields, Fields.get?_map_parts]
      cases hFind : ModelPart.find? parts' number with
      | none => rfl
      | some part' =>
        -- The newer version has the field, so the value does.
        obtain ⟨hPart', rfl⟩ := ModelPart.find?_eq_some hFind
        obtain ⟨part, hPart, hNumber⟩ := hKnown part' hPart'
        obtain ⟨⟨id, field⟩, hField, hId⟩ := hPresent rfl part hPart
        obtain rfl : id = part'.number := hId.trans hNumber
        have hGet := (Fields.get?_eq_some_iff hAscending.nodup).2 hField
        have hSame := ih _ hField part hPart hNumber (hParts part hPart part' hPart' hNumber)
        rw [Option.bind_some, hGet, Option.map_some, Option.map_some, hGet, Option.map_some,
          Option.getD_some, hSame]
  | bare hShape hVariant =>
    obtain ⟨_, hShape', hMatches⟩ := ClosedType.Extends.matching _ _ _ hExtends hShape
    cases hMatches with
    | tag hVariants =>
      have hFind := ModelPart.find?_of_mem (ClosedType.shape?_nodup hNewer hShape) hVariant
      obtain ⟨_, hFind'⟩ := hVariants.find?_bare hFind
      simp only [narrow, fill, hShape', hFind', Option.bind_some]
  | payload hShape hVariant _ ih =>
    obtain ⟨_, hShape', hMatches⟩ := ClosedType.Extends.matching _ _ _ hExtends hShape
    cases hMatches with
    | tag hVariants =>
      have hFind := ModelPart.find?_of_mem (ClosedType.shape?_nodup hNewer hShape) hVariant
      obtain ⟨_, _, hFind', hInner⟩ := hVariants.find?_payload hFind
      simp only [narrow, fill, hShape', hFind', Option.bind_some, narrowPayload, fillPayload,
        ih hInner]
  | missing _ _ hPresence => cases hPresence
  | undeclared hShape hZero =>
    obtain ⟨_, hShape', hMatches⟩ := ClosedType.Extends.matching _ _ _ hExtends hShape
    cases hMatches with
    | tag hVariants =>
      have hFind' := hVariants.find?_none (ModelPart.find?_eq_none.2 hZero)
      simp only [narrow, fill, hShape', hFind', Option.bind_none]

/-- A typed value of the newer version of a type is written, and reading it as a value of the older
version, whatever follows the bytes, gives the value filled and without the fields that the older
version does not declare. Reading stops where the bytes end. -/
theorem decode_newer {options options' : Schema.Options} {sources sources' : List Schema.Source}
    {newer older : Project} (hNewer : Schema.compile options sources = .ok newer)
    (hOlder : Schema.compile options' sources' = .ok older)
    {type other : ClosedType} {value : Value} (hType : type.Proper newer.definitions)
    (hOther : other.Proper older.definitions) (hVoid : ¬ type.HoldsVoid newer.definitions)
    (hExtends : type.Extends newer.definitions older.definitions other)
    (hTyped : HasType newer.definitions .optional type value) :
    ∃ bytes, toBytes newer.toModels type value = .ok bytes ∧
      (bytes.length < 2 ^ 64 → ∀ rest,
        (decode older.toModels other).runWith id Region.serve (Region.ofBytes (bytes ++ rest)) =
          (.ok (narrow older.definitions other (fill newer.toModels type value)),
            ⟨bytes.length, rest⟩)) := by
  have hNewerArena := Schema.compile_arena hNewer
  have hOlderArena := Schema.compile_arena hOlder
  have hPaired : Paired newer.toModels older.toModels type other :=
    ⟨hNewerArena, hOlderArena, ⟨hType, hVoid⟩, hOther⟩
  have hNarrow : narrow older.definitions other (fill newer.toModels type value) =
      fill older.toModels other (fill newer.toModels type value) :=
    narrow_eq_fill hNewerArena hOlderArena (hTyped.required_fill hNewerArena hType) hExtends
  rw [hNarrow]
  exact decode_matching ClosedType.Extends.matching hPaired hExtends hTyped

/-! ## Bags without their locks -/

section

open Schema.Luggage (models)

/-- `array<Bag<Bag<string>>>`, a newer version of `array<Bags<string>>`: the outer bags have
locks. -/
def lockedBags : ClosedType := .mk 14 [.mk 17 [.mk 17 [.mk 11 []]]]

theorem lockedBags_extends : lockedBags.Extends models.definitions models.definitions
    (.mk 14 [stringBags]) := by
  have hString : ClosedType.Extends models.definitions models.definitions (.mk 11 [])
      (.mk 11 []) := .builtin rfl rfl rfl (List.forall_mem_nil _)
  have hItems : ClosedType.Extends models.definitions models.definitions (.mk 14 [.mk 11 []])
      (.mk 14 [.mk 11 []]) :=
    .builtin rfl rfl rfl (List.forall_mem_singleton.2 hString)
  have hLock : ClosedType.Extends models.definitions models.definitions (.mk 16 [.mk 11 []])
      (.mk 16 [.mk 11 []]) := by
    refine .tag rfl rfl (fun _ => Iff.rfl) (by decide) ?_
    simp [hString]
  have hBag : ClosedType.Extends models.definitions models.definitions (.mk 17 [.mk 11 []])
      (.mk 17 [.mk 11 []]) := by
    refine .message rfl rfl (fun part hPart => ⟨part, hPart, rfl⟩) ?_
    simp [hItems, hLock]
  have hBags : ClosedType.Extends models.definitions models.definitions
      (.mk 14 [.mk 17 [.mk 11 []]])
      (.mk 14 [.mk 17 [.mk 11 []]]) :=
    .builtin rfl rfl rfl (List.forall_mem_singleton.2 hBag)
  refine .builtin rfl rfl rfl (List.forall_mem_singleton.2 (.message rfl rfl (by decide) ?_))
  simp [hBags]

/-- One bag with one hat in the bag inside, and a lock without its payload. -/
def locked : Value :=
  .array [.message [(1, .array [.message [(1, .array [.string "hat"])]]), (2, .tag 1 none)]]

def unlocked : Value :=
  .array [.message [(1, .array [.message [(1, .array [.string "hat"]), (2, .tag 0 none)]])]]

theorem locked_hasType :
    HasType models.definitions .optional lockedBags locked := by
  have hItems : HasType models.definitions .optional (.mk 14 [.mk 11 []])
      (.array [.string "hat"]) := .array rfl (List.forall_mem_singleton.2 (.string _ rfl))
  have hInner : HasType models.definitions .optional (.mk 17 [.mk 11 []])
      (.message [(1, .array [.string "hat"])]) := by
    refine .message rfl (by decide) (by decide) ?_ (by simp)
    simp [hItems]
  have hBags : HasType models.definitions .optional (.mk 14 [.mk 17 [.mk 11 []]])
      (.array [.message [(1, .array [.string "hat"])]]) :=
    .array rfl (List.forall_mem_singleton.2 hInner)
  have hLock : HasType models.definitions .optional (.mk 16 [.mk 17 [.mk 11 []]])
      (.tag 1 none) := .missing rfl (List.mem_cons_of_mem _ List.mem_cons_self) rfl
  refine .array rfl
    (List.forall_mem_singleton.2 (.message rfl (by decide) (by decide) ?_ (by simp)))
  simp [hBags, hLock]

/-- The older reader gets the inner bag filled, and nothing of the outer lock. -/
theorem decode_locked : ∃ bytes, toBytes models lockedBags locked = .ok bytes ∧
    bytes.length = 15 ∧ ∀ rest,
      (decode models (.mk 14 [stringBags])).runWith id Region.serve
        (Region.ofBytes (bytes ++ rest)) = (.ok unlocked, ⟨15, rest⟩) := by
  have hString : ClosedType.Proper models.definitions (.mk 11 []) := by
    refine .mk rfl rfl ?_
    simp
  have hBag : ClosedType.Proper models.definitions (.mk 17 [.mk 11 []]) :=
    .mk rfl rfl (List.forall_mem_singleton.2 hString)
  have hNewer : lockedBags.Proper models.definitions :=
    .mk rfl rfl (List.forall_mem_singleton.2 (.mk rfl rfl (List.forall_mem_singleton.2 hBag)))
  have hOlder : ClosedType.Proper models.definitions (.mk 14 [stringBags]) :=
    .mk rfl rfl (List.forall_mem_singleton.2 (.mk rfl rfl (List.forall_mem_singleton.2 hString)))
  have hVoid : ¬ lockedBags.HoldsVoid models.definitions := by
    have hMem : lockedBags ∈ [lockedBags, .mk 17 [.mk 17 [.mk 11 []]], .mk 14 [.mk 17 [.mk 11 []]],
      .mk 16 [.mk 17 [.mk 11 []]], .mk 17 [.mk 11 []], .mk 14 [.mk 11 []], .mk 16 [.mk 11 []],
      .mk 11 []] := List.mem_cons_self
    exact ClosedType.not_holdsVoid_of_closed (by decide) (by decide) hMem
  have hLength : ((toBytes models lockedBags locked).map List.length).toOption =
      some 15 := by cbv
  have hNarrow : narrow models.definitions (.mk 14 [stringBags])
      (fill models lockedBags locked) = unlocked := by cbv
  obtain ⟨bytes, hBytes, hDecode⟩ :=
    decode_newer (Schema.Luggage.compiles.compile { name := "new" })
    (Schema.Luggage.compiles.compile { name := "old" }) hNewer hOlder hVoid lockedBags_extends
    locked_hasType
  have hBytes : toBytes models lockedBags locked = .ok bytes := hBytes
  rw [hBytes] at hLength
  have hLength : bytes.length = 15 := Option.some.inj hLength
  refine ⟨bytes, hBytes, hLength, fun rest => ?_⟩
  rw [← hNarrow, ← hLength]
  exact hDecode (by rw [hLength]; decide) rest

end

end Interchange.Wire

import Interchange.Proofs.Wire.Versions

/-!
# Values of an older version

Readers of the newer version of a type take what was written as the older one. A field that only the
newer version declares holds its default, at every depth, and all else is as it was written.

What is left out of the bytes stands for a default of the older version and is read as a default of
the newer one. The two agree, because the default of the older version, filled as a value of the
newer one, is the default of the newer one.

* `Shape.Matches.flip`: matching does not depend on who writes and who reads.
* `Extends.matching_older`: versions of a type match also if the older one is written.
* `narrow_fill`: filling a value of the older version changes nothing but the fields that it does
  not declare.
* `decode_older`: values of the older version, read as the newer one.
-/

namespace Interchange.Wire

open Schema (Arena Builtin Definition ModelPart Models Project)

/-! ## The other way round -/

theorem optionRel_flip {α β : Type} {R : α → β → Prop} {a : Option α} {b : Option β}
    (hRel : Option.Rel R a b) : Option.Rel (fun b a => R a b) b a := by
  cases hRel with
  | none => exact .none
  | some hRel => exact .some hRel

theorem MatchingVariants.flip {R : ClosedType → ClosedType → Prop}
    {variants variants' : List (ModelPart (Option ClosedType))}
    (hVariants : MatchingVariants R variants variants') :
    MatchingVariants (fun other type => R type other) variants' variants := by
  intro number
  have hRelated := optionRel_flip (hVariants number)
  generalize ModelPart.find? variants' number = found' at hRelated ⊢
  generalize ModelPart.find? variants number = found at hRelated ⊢
  cases hRelated with
  | none => exact .none
  | some hContents => exact .some (optionRel_flip hContents)

/-- If one shape can be read as another, then the other can be read as the one. -/
theorem Shape.Matches.flip {R : ClosedType → ClosedType → Prop} {shape shape' : Shape}
    (hMatches : shape.Matches R shape') :
    shape'.Matches (fun other type => R type other) shape := by
  cases hMatches with
  | scalar kind => exact .scalar kind
  | string => exact .string
  | bytes => exact .bytes
  | array hElement => exact .array hElement
  | map hKey hValue => exact .map hKey hValue
  | message hParts =>
    refine .message fun part' hPart' part hPart hNumber => ?_
    exact hParts part hPart part' hPart' hNumber.symm
  | tag hVariants => exact .tag hVariants.flip

namespace ClosedType.Extends

variable {newer older : List Definition} {type other : ClosedType}

/-- Whether a built-in type has a shape depends on the number of its arguments only. -/
theorem exists_ofBuiltin? {kind : Builtin} {args args' : List ClosedType} {shape' : Shape}
    (hLength : args.length = args'.length)
    (hShape : Shape.ofBuiltin? older kind args' = some shape') :
    ∃ shape, Shape.ofBuiltin? newer kind args = some shape := by
  cases kind with
  | array =>
    rcases args' with _ | ⟨element', _ | ⟨_, _⟩⟩
    · cases hShape
    · obtain ⟨element, rfl⟩ := List.length_eq_one_iff.1 hLength
      simp only [Shape.ofBuiltin?]
      split <;> exact ⟨_, rfl⟩
    · cases hShape
  | map =>
    rcases args' with _ | ⟨key', _ | ⟨value', _ | ⟨_, _⟩⟩⟩
    · cases hShape
    · cases hShape
    · obtain ⟨key, value, rfl⟩ := List.length_eq_two.1 hLength
      exact ⟨_, rfl⟩
    · cases hShape
  | _ => exact ⟨_, rfl⟩

/-- If the older version has a shape, so does the newer one. -/
theorem exists_shape (hExtends : type.Extends newer older other) {shape' : Shape}
    (hShape : other.shape? older = some shape') : ∃ shape, type.shape? newer = some shape := by
  cases hExtends with
  | builtin hNew hOld hLength _ =>
    rw [shape?_of_builtin? hOld] at hShape
    rw [shape?_of_builtin? hNew]
    exact exists_ofBuiltin? hLength hShape
  | message hNew => exact ⟨_, hNew⟩
  | tag hNew => exact ⟨_, hNew⟩

/-- Versions of a type match also if the older one is written. -/
theorem matching_older : Matching older newer fun other type => type.Extends newer older other := by
  intro other type shape' hExtends hShape'
  obtain ⟨shape, hShape⟩ := hExtends.exists_shape hShape'
  obtain ⟨_, hOther, hMatches⟩ := matching type other shape hExtends hShape
  cases hOther.symm.trans hShape'
  exact ⟨shape, hShape, hMatches.flip⟩

end ClosedType.Extends

/-! ## Filling fields that are new -/

theorem narrow_array {definitions : List Definition} {type element : ClosedType}
    (hShape : type.shape? definitions = some (.array element)) (items : List Value) :
    narrow definitions type (.array items) = .array (items.map (narrow definitions element)) := by
  rw [narrow, hShape, ← narrowItems_eq_map]

theorem narrow_map {definitions : List Definition} {type key value : ClosedType}
    (hShape : type.shape? definitions = some (.map key value)) (entries : List (Value × Value)) :
    narrow definitions type (.map entries) = .map (entries.map fun entry =>
      (narrow definitions key entry.1, narrow definitions value entry.2)) := by
  rw [narrow, hShape, ← narrowEntries_eq_map]

/-- Filling a value of the older version as one of the newer version changes nothing but the fields
that the older version does not declare. -/
theorem narrow_fill {newer : Models} {older : List Definition} (hNewer : Arena newer.definitions)
    (hOlder : Arena older) {type other : ClosedType} {value : Value}
    (hTyped : HasType older .required other value)
    (hExtends : type.Extends newer.definitions older other) :
    narrow older other (fill newer type value) = value := by
  induction hTyped generalizing type with
  | scalar => rw [fill, narrow]
  | string => rw [fill, narrow]
  | bytes => rw [fill, narrow]
  | array hShape' _ ih =>
    obtain ⟨_, hShape, hMatches⟩ := ClosedType.Extends.matching_older _ _ _ hExtends hShape'
    cases hMatches with
    | array hElement =>
      rw [fill_array hShape, narrow_array hShape', List.map_map]
      exact congrArg Value.array
        ((List.map_congr_left fun item hItem => ih item hItem hElement).trans (List.map_id' _))
  | map hShape' _ _ ihKeys ihValues =>
    obtain ⟨_, hShape, hMatches⟩ := ClosedType.Extends.matching_older _ _ _ hExtends hShape'
    cases hMatches with
    | map hKey hValue =>
      rw [fill_map hShape, narrow_map hShape', List.map_map]
      refine congrArg Value.map
        ((List.map_congr_left fun entry hEntry => ?_).trans (List.map_id' _))
      exact Prod.ext (ihKeys entry hEntry hKey) (ihValues entry hEntry hValue)
  | @message other parts' fields hShape' hAscending hDeclared _ hPresent ih =>
    obtain ⟨_, hShape, hMatches⟩ := ClosedType.Extends.matching_older _ _ _ hExtends hShape'
    cases hMatches with
    | @message _ parts hParts =>
      obtain ⟨_, hOther, hKnown, _⟩ := hExtends.message_inv hShape
      cases hOther.symm.trans hShape'
      have hNumbers : (parts.map ModelPart.number).Pairwise (· < ·) :=
        ClosedType.shape?_ascending hNewer hShape
      have hNodup : (parts.map ModelPart.number).Nodup := ClosedType.shape?_nodup hNewer hShape
      rw [fill_message hNewer hShape, narrow, hShape']
      refine congrArg Value.message
        (Fields.ext (narrowFields_ascending parts' ?_) hAscending fun number => ?_)
      · rw [Fields.Ascending, List.map_map]
        exact hNumbers
      · rw [get?_narrowFields, Fields.get?_map_parts]
        cases hFind' : ModelPart.find? parts' number with
        | none =>
          refine (Fields.get?_eq_none.2 fun field hField hNumber => ?_).symm
          obtain ⟨part', hPart', hSame⟩ := hDeclared field hField
          exact ModelPart.find?_eq_none.1 hFind' part' hPart' (hSame.trans hNumber)
        | some part' =>
          -- The newer version declares the field too, and the value has it.
          obtain ⟨hPart', rfl⟩ := ModelPart.find?_eq_some hFind'
          obtain ⟨part, hPart, hNumber⟩ := hKnown part' hPart'
          obtain ⟨⟨id, field⟩, hField, hId⟩ := hPresent rfl part' hPart'
          obtain rfl : id = part'.number := hId
          have hGet := (Fields.get?_eq_some_iff hAscending.nodup).2 hField
          have hSame := ih _ hField part' hPart' rfl (hParts part' hPart' part hPart hNumber.symm)
          have hFind := ModelPart.find?_of_mem hNodup hPart
          rw [hNumber] at hFind
          rw [Option.bind_some, hFind, Option.map_some, Option.map_some, hNumber, hGet,
            Option.map_some, Option.getD_some, hSame]
  | bare hShape' hVariant =>
    obtain ⟨_, hShape, hMatches⟩ := ClosedType.Extends.matching_older _ _ _ hExtends hShape'
    cases hMatches with
    | tag hVariants =>
      have hFind' := ModelPart.find?_of_mem (ClosedType.shape?_nodup hOlder hShape') hVariant
      obtain ⟨_, hFind⟩ := hVariants.find?_bare hFind'
      simp only [fill, narrow, hShape, hShape', hFind, hFind', Option.bind_some]
  | payload hShape' hVariant _ ih =>
    obtain ⟨_, hShape, hMatches⟩ := ClosedType.Extends.matching_older _ _ _ hExtends hShape'
    cases hMatches with
    | tag hVariants =>
      have hFind' := ModelPart.find?_of_mem (ClosedType.shape?_nodup hOlder hShape') hVariant
      obtain ⟨_, _, hFind, hInner⟩ := hVariants.find?_payload hFind'
      simp only [fill, narrow, hShape, hShape', hFind, hFind', Option.bind_some, fillPayload,
        narrowPayload, ih hInner]
  | missing _ _ hPresence => cases hPresence
  | undeclared hShape' hZero =>
    obtain ⟨_, hShape, hMatches⟩ := ClosedType.Extends.matching_older _ _ _ hExtends hShape'
    cases hMatches with
    | tag hVariants =>
      have hFind' := ModelPart.find?_eq_none.2 hZero
      have hFind := hVariants.find?_none hFind'
      simp only [fill, narrow, hShape, hShape', hFind, hFind', Option.bind_none]

/-- A value of the older version is a value of the newer one that lacks the fields that are new. -/
theorem HasType.upgrade {newer older : List Definition} {presence : Presence} (hOlder : Arena older)
    {type other : ClosedType} {value : Value} (hTyped : HasType older presence other value)
    (hExtends : type.Extends newer older other) : HasType newer .optional type value := by
  induction hTyped generalizing type with
  | scalar scalar hShape' =>
    obtain ⟨_, hShape, hMatches⟩ := ClosedType.Extends.matching_older _ _ _ hExtends hShape'
    cases hMatches
    exact .scalar scalar hShape
  | string text hShape' =>
    obtain ⟨_, hShape, hMatches⟩ := ClosedType.Extends.matching_older _ _ _ hExtends hShape'
    cases hMatches
    exact .string text hShape
  | bytes bytes hShape' =>
    obtain ⟨_, hShape, hMatches⟩ := ClosedType.Extends.matching_older _ _ _ hExtends hShape'
    cases hMatches
    exact .bytes bytes hShape
  | array hShape' _ ih =>
    obtain ⟨_, hShape, hMatches⟩ := ClosedType.Extends.matching_older _ _ _ hExtends hShape'
    cases hMatches with
    | array hElement => exact .array hShape fun item hItem => ih item hItem hElement
  | map hShape' _ _ ihKeys ihValues =>
    obtain ⟨_, hShape, hMatches⟩ := ClosedType.Extends.matching_older _ _ _ hExtends hShape'
    cases hMatches with
    | map hKey hValue =>
      exact .map hShape (fun entry hEntry => ihKeys entry hEntry hKey)
        fun entry hEntry => ihValues entry hEntry hValue
  | message hShape' hAscending hDeclared _ _ ih =>
    obtain ⟨_, hShape, hMatches⟩ := ClosedType.Extends.matching_older _ _ _ hExtends hShape'
    cases hMatches with
    | message hParts =>
      obtain ⟨_, hOther, hKnown, _⟩ := hExtends.message_inv hShape
      cases hOther.symm.trans hShape'
      refine .message hShape hAscending ?_ ?_ (by simp)
      · intro field hField
        obtain ⟨part', hPart', hSame⟩ := hDeclared field hField
        obtain ⟨part, hPart, hNumber⟩ := hKnown part' hPart'
        exact ⟨part, hPart, hNumber.trans hSame⟩
      · intro field hField part hPart hNumber
        obtain ⟨part', hPart', hSame⟩ := hDeclared field hField
        exact ih field hField part' hPart' hSame
          (hParts part' hPart' part hPart (hSame.trans hNumber.symm))
  | bare hShape' hVariant =>
    obtain ⟨_, hShape, hMatches⟩ := ClosedType.Extends.matching_older _ _ _ hExtends hShape'
    cases hMatches with
    | tag hVariants =>
      have hFind' := ModelPart.find?_of_mem (ClosedType.shape?_nodup hOlder hShape') hVariant
      obtain ⟨_, hFind⟩ := hVariants.find?_bare hFind'
      exact .bare hShape (ModelPart.find?_eq_some hFind).1
  | payload hShape' hVariant _ ih =>
    obtain ⟨_, hShape, hMatches⟩ := ClosedType.Extends.matching_older _ _ _ hExtends hShape'
    cases hMatches with
    | tag hVariants =>
      have hFind' := ModelPart.find?_of_mem (ClosedType.shape?_nodup hOlder hShape') hVariant
      obtain ⟨_, _, hFind, hInner⟩ := hVariants.find?_payload hFind'
      exact .payload hShape (ModelPart.find?_eq_some hFind).1 (ih hInner)
  | missing hShape' hVariant _ =>
    obtain ⟨_, hShape, hMatches⟩ := ClosedType.Extends.matching_older _ _ _ hExtends hShape'
    cases hMatches with
    | tag hVariants =>
      have hFind' := ModelPart.find?_of_mem (ClosedType.shape?_nodup hOlder hShape') hVariant
      obtain ⟨_, _, hFind, _⟩ := hVariants.find?_payload hFind'
      exact .missing hShape (ModelPart.find?_eq_some hFind).1 rfl
  | undeclared hShape' hZero =>
    obtain ⟨_, hShape, hMatches⟩ := ClosedType.Extends.matching_older _ _ _ hExtends hShape'
    cases hMatches with
    | tag hVariants =>
      have hFind := hVariants.find?_none (ModelPart.find?_eq_none.2 hZero)
      exact .undeclared hShape (ModelPart.find?_eq_none.1 hFind)

/-- A typed value of the older version of a type is written, and reading it as a value of the newer
version, whatever follows the bytes, gives the value filled, first as one of the older version and
then as one of the newer version. Reading stops where the bytes end. In what is read nothing is
missing, and without the fields that only the newer version declares it is the filled value of the
older version. -/
theorem decode_older {options options' : Schema.Options} {sources sources' : List Schema.Source}
    {newer older : Project} (hNewer : Schema.compile options sources = .ok newer)
    (hOlder : Schema.compile options' sources' = .ok older)
    {type other : ClosedType} {value : Value} (hType : type.Proper newer.definitions)
    (hOther : other.Proper older.definitions) (hVoid : ¬ other.HoldsVoid older.definitions)
    (hExtends : type.Extends newer.definitions older.definitions other)
    (hTyped : HasType older.definitions .optional other value) :
    (∃ bytes, toBytes older.toModels other value = .ok bytes ∧
      (bytes.length < 2 ^ 64 → ∀ rest,
        (decode newer.toModels type).runWith id Region.serve (Region.ofBytes (bytes ++ rest)) =
          (.ok (fill newer.toModels type (fill older.toModels other value)),
            ⟨bytes.length, rest⟩))) ∧
      HasType newer.definitions .required type
        (fill newer.toModels type (fill older.toModels other value)) ∧
      narrow older.definitions other (fill newer.toModels type (fill older.toModels other value)) =
        fill older.toModels other value := by
  have hNewerArena := Schema.compile_arena hNewer
  have hOlderArena := Schema.compile_arena hOlder
  have hFilled := hTyped.required_fill hOlderArena hOther
  have hPaired : Paired older.toModels newer.toModels other type :=
    ⟨hOlderArena, hNewerArena, ⟨hOther, hVoid⟩, hType⟩
  refine ⟨?_, ?_, narrow_fill hNewerArena hOlderArena hFilled hExtends⟩
  · exact decode_matching ClosedType.Extends.matching_older hPaired hExtends hTyped
  · exact (hFilled.upgrade hOlderArena hExtends).required_fill hNewerArena hType

/-! ## Bags that get locks -/

section

open Schema.Luggage (models)

/-- Two sets of bags. The first holds one bag with a hat, which lacks its lock, and the second lacks
all. -/
def olderBags : Value :=
  .array [.message [(1, .array [.message [(1, .array [.string "hat"])]])], .message []]

/-- The same with locks at both depths. -/
def newerBags : Value :=
  .array [.message [(1, .array [.message [(1, .array [.string "hat"]), (2, .tag 0 none)]]),
    (2, .tag 0 none)], .message [(1, .array []), (2, .tag 0 none)]]

theorem olderBags_hasType :
    HasType models.definitions .optional (.mk 14 [stringBags]) olderBags := by
  have hItems : HasType models.definitions .optional (.mk 14 [.mk 11 []])
      (.array [.string "hat"]) := .array rfl (List.forall_mem_singleton.2 (.string _ rfl))
  have hBag : HasType models.definitions .optional (.mk 17 [.mk 11 []])
      (.message [(1, .array [.string "hat"])]) := by
    refine .message rfl (by decide) (by decide) ?_ (by simp)
    simp [hItems]
  have hBags : HasType models.definitions .optional (.mk 14 [.mk 17 [.mk 11 []]])
      (.array [.message [(1, .array [.string "hat"])]]) :=
    .array rfl (List.forall_mem_singleton.2 hBag)
  refine .array rfl (List.forall_mem_cons.2 ⟨?_, List.forall_mem_singleton.2 ?_⟩)
  · refine .message rfl (by decide) (by decide) ?_ (by simp)
    simp [hBags]
  · exact .message rfl .nil (by simp) (by simp) (by simp)

/-- The newer reader gets open locks, also on the bags that were left out. -/
theorem decode_olderBags : ∃ bytes, toBytes models (.mk 14 [stringBags]) olderBags = .ok bytes ∧
    bytes.length = 12 ∧ ∀ rest,
      (decode models lockedBags).runWith id Region.serve (Region.ofBytes (bytes ++ rest)) =
        (.ok newerBags, ⟨12, rest⟩) := by
  have hString : ClosedType.Proper models.definitions (.mk 11 []) := by
    refine .mk rfl rfl ?_
    simp
  have hBag : ClosedType.Proper models.definitions (.mk 17 [.mk 11 []]) :=
    .mk rfl rfl (List.forall_mem_singleton.2 hString)
  have hNewer : lockedBags.Proper models.definitions :=
    .mk rfl rfl (List.forall_mem_singleton.2 (.mk rfl rfl (List.forall_mem_singleton.2 hBag)))
  have hOlder : ClosedType.Proper models.definitions (.mk 14 [stringBags]) :=
    .mk rfl rfl (List.forall_mem_singleton.2 (.mk rfl rfl (List.forall_mem_singleton.2 hString)))
  have hVoid : ¬ ClosedType.HoldsVoid models.definitions (.mk 14 [stringBags]) := by
    have hMem : ClosedType.mk 14 [stringBags] ∈ [.mk 14 [stringBags], stringBags,
      .mk 14 [.mk 17 [.mk 11 []]], .mk 17 [.mk 11 []], .mk 14 [.mk 11 []], .mk 16 [.mk 11 []],
      .mk 11 []] := List.mem_cons_self
    exact ClosedType.not_holdsVoid_of_closed (by decide) (by decide) hMem
  have hLength : ((toBytes models (.mk 14 [stringBags]) olderBags).map List.length).toOption =
      some 12 := by cbv
  have hFill : fill models lockedBags (fill models (.mk 14 [stringBags]) olderBags) =
      newerBags := by
    cbv
  obtain ⟨⟨bytes, hBytes, hDecode⟩, _⟩ :=
    decode_older (Schema.Luggage.compiles.compile { name := "new" })
    (Schema.Luggage.compiles.compile { name := "old" }) hNewer hOlder hVoid lockedBags_extends
    olderBags_hasType
  have hBytes : toBytes models (.mk 14 [stringBags]) olderBags = .ok bytes := hBytes
  rw [hBytes] at hLength
  have hLength : bytes.length = 12 := Option.some.inj hLength
  refine ⟨bytes, hBytes, hLength, fun rest => ?_⟩
  rw [← hFill, ← hLength]
  exact hDecode (by rw [hLength]; decide) rest

end

end Interchange.Wire

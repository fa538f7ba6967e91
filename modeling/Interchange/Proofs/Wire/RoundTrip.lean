import Interchange.Proofs.Schema.Compilation
import Interchange.Proofs.Wire.Evolution

/-!
# Values come back

A value that is written and read again comes back filled: parts that were missing hold their
defaults, and all else is as it was. Reading stops where writing stopped. The one thing that the
format cannot bring back is the number of elements in an array of `void`, so types that hold one are
excluded.

Here a type is read as itself, so the shapes of writer and reader are equal and no field is unknown.

* `matching_eq`, `skips_eq`: a type matches itself, and nothing is skipped.
* `HasType.returns`, `default_returns`: typed values come back, and so do defaults.
* `decode_toBytes`: typed values of compiled projects come back filled.
-/

namespace Interchange.Wire

open Schema (Arena Builtin Definition ModelPart Models Project)

/-- The codec of a type writes a value and reads it filled. -/
def Returns (models : Models) (type : ClosedType) (value : Value) : Prop :=
  ∀ codec, codecOf models.definitions type = some codec →
    ∃ bytes, codec.Carries codec value (fill models type value) bytes

section

variable {models : Models} {type : ClosedType}

/-- Types have the shape that they have. -/
theorem matching_eq {definitions : List Definition} (hArena : Arena definitions) :
    Matching definitions definitions Eq := by
  rintro type _ shape rfl hShape
  refine ⟨shape, hShape, ?_⟩
  cases shape with
  | scalar kind => exact .scalar kind
  | string => exact .string
  | bytes => exact .bytes
  | array => exact .array rfl
  | map => exact .map rfl rfl
  | message parts =>
    refine .message fun part hPart part' hPart' hNumber => ?_
    rw [List.inj_on_of_nodup_map (ClosedType.shape?_nodup hArena hShape) hPart hPart' hNumber]
  | tag variants =>
    refine .tag fun number => ?_
    cases ModelPart.find? variants number with
    | none => exact .none
    | some variant =>
      refine .some ?_
      cases variant.content with
      | none => exact .none
      | some => exact .some rfl

/-- There is nothing to skip. -/
theorem skips_eq : Skips models models Eq := by
  rintro type _ parts parts' rfl hShape hShape' part hPart hUnshared
  cases hShape.symm.trans hShape'
  exact absurd rfl (hUnshared part hPart)

/-- What arrives at the type it was written as comes back. -/
theorem arrives_iff_returns {presence : Presence} {value : Value}
    (hArena : Arena models.definitions) (hType : type.Proper models.definitions)
    (hTyped : HasType models.definitions presence type value) :
    Arrives models models type type value ↔ Returns models type value := by
  have hFill := fill_of_required hArena (hTyped.required_fill hArena hType)
  constructor
  · intro hArrives codec hCodec
    obtain ⟨bytes, hCarries⟩ := hArrives codec codec hCodec hCodec
    rw [hFill] at hCarries
    exact ⟨bytes, hCarries⟩
  · intro hReturns writer reader hWriter hReader
    cases hWriter.symm.trans hReader
    rw [hFill]
    exact hReturns writer hWriter

/-- Typed values come back, if defaults do where something may be missing. -/
theorem HasType.returns {presence : Presence} {value : Value} (hArena : Arena models.definitions)
    (hDefaults : presence = .optional → ∀ inner : ClosedType,
      inner.Transferable models.definitions →
      Returns models inner (defaultValue models inner))
    (hTyped : HasType models.definitions presence type value)
    (hType : type.Transferable models.definitions) : Returns models type value := by
  rw [← arrives_iff_returns hArena hType.proper hTyped]
  refine hTyped.arrives (matching_eq hArena) skips_eq ?_ ⟨hArena, hArena, hType, hType.proper⟩ rfl
  rintro hPresence inner _ hPaired rfl
  obtain ⟨_, codec, _, _, hCodec⟩ := hPaired.other.codec hArena
  have hDefault := default_hasType hArena hPaired.other hCodec
  rw [← defaultValue_eq hCodec] at hDefault
  rw [arrives_iff_returns hArena hPaired.other hDefault]
  exact hDefaults hPresence inner hPaired.type

/-- Defaults come back. -/
theorem default_returns (hArena : Arena models.definitions)
    (hType : type.Transferable models.definitions) :
    Returns models type (defaultValue models type) := by
  obtain ⟨_, codec, _, _, hCodec⟩ := hType.proper.codec hArena
  have hTyped := default_hasType hArena hType.proper hCodec
  rw [defaultValue_eq hCodec]
  exact hTyped.returns hArena (fun hPresence => by cases hPresence) hType

end

/-- A typed value of a compiled project is written, and reading it from the bytes, whatever follows
them, gives the value filled and stops where the bytes end. In what comes back nothing is missing,
and where nothing was missing before, it is the value itself. -/
theorem decode_toBytes {options : Schema.Options} {sources : List Schema.Source} {project : Project}
    (hCompile : Schema.compile options sources = .ok project) {type : ClosedType} {value : Value}
    (hType : type.Proper project.definitions) (hVoid : ¬ type.HoldsVoid project.definitions)
    (hTyped : HasType project.definitions .optional type value) :
    (∃ bytes, toBytes project.toModels type value = .ok bytes ∧
      (bytes.length < 2 ^ 64 → ∀ rest,
        (decode project.toModels type).runWith id Region.serve (Region.ofBytes (bytes ++ rest)) =
          (.ok (fill project.toModels type value), ⟨bytes.length, rest⟩))) ∧
      HasType project.definitions .required type (fill project.toModels type value) ∧
      (HasType project.definitions .required type value →
        fill project.toModels type value = value) := by
  have hArena := Schema.compile_arena hCompile
  obtain ⟨_, codec, _, _, hCodec⟩ := hType.codec hArena
  have hReturns := hTyped.returns hArena (fun _ _ hInner => default_returns hArena hInner)
    ⟨hType, hVoid⟩
  obtain ⟨bytes, hCarries⟩ := hReturns codec hCodec
  refine ⟨⟨bytes, ?_, ?_⟩, hTyped.required_fill hArena hType, fill_of_required hArena⟩
  · rw [toBytes, encode, shelvedCodecOf_eq, hCodec]
    exact hCarries.written
  · intro hLength rest
    rw [decode, shelvedCodecOf_eq, hCodec]
    exact (hCarries.reads hLength).region rest

/-- The template `Bags` of the luggage for `string`. -/
def stringBags : ClosedType := .mk 18 [.mk 11 []]

/-- Two bags. The first lacks both of its fields, and the lock of the second lacks its payload. -/
def packed : Value :=
  .message [(1, .array [.message [],
    .message [(1, .array [.string "hat"]), (2, .tag 1 none)]])]

def unpacked : Value :=
  .message [(1, .array [.message [(1, .array []), (2, .tag 0 none)],
    .message [(1, .array [.string "hat"]), (2, .tag 1 (some (.string "")))]])]

theorem packed_hasType :
    HasType Schema.Luggage.models.definitions .optional stringBags packed := by
  have hItems : HasType Schema.Luggage.models.definitions .optional (.mk 14 [.mk 11 []])
      (.array [.string "hat"]) := .array rfl (List.forall_mem_singleton.2 (.string _ rfl))
  have hLock : HasType Schema.Luggage.models.definitions .optional (.mk 16 [.mk 11 []])
      (.tag 1 none) := .missing rfl (List.mem_cons_of_mem _ List.mem_cons_self) rfl
  have hBags : HasType Schema.Luggage.models.definitions .optional (.mk 14 [.mk 17 [.mk 11 []]])
      (.array [.message [], .message [(1, .array [.string "hat"]), (2, .tag 1 none)]]) := by
    refine .array rfl (List.forall_mem_cons.2 ⟨?_, List.forall_mem_singleton.2 ?_⟩)
    · exact .message rfl .nil (by simp) (by simp) (by simp)
    · refine .message rfl (by decide) (by decide) ?_ (by simp)
      simp [hItems, hLock]
  refine .message rfl (by decide) (by decide) ?_ (by simp)
  simp [hBags]

/-- The bags come back with what was missing. -/
theorem decode_packed : ∃ bytes, toBytes Schema.Luggage.models stringBags packed = .ok bytes ∧
    bytes.length = 15 ∧ ∀ rest,
      (decode Schema.Luggage.models stringBags).runWith id Region.serve
        (Region.ofBytes (bytes ++ rest)) = (.ok unpacked, ⟨15, rest⟩) := by
  have hProper : stringBags.Proper Schema.Luggage.models.definitions := by
    refine .mk rfl rfl (List.forall_mem_singleton.2 (.mk rfl rfl ?_))
    simp
  have hVoid : ¬ stringBags.HoldsVoid Schema.Luggage.models.definitions := by
    have hMem : stringBags ∈ [stringBags, .mk 14 [.mk 17 [.mk 11 []]], .mk 17 [.mk 11 []],
      .mk 14 [.mk 11 []], .mk 16 [.mk 11 []], .mk 11 []] := List.mem_cons_self
    exact ClosedType.not_holdsVoid_of_closed (by decide) (by decide) hMem
  have hLength : ((toBytes Schema.Luggage.models stringBags packed).map List.length).toOption =
      some 15 := by cbv
  have hFill : fill Schema.Luggage.models stringBags packed = unpacked := by cbv
  obtain ⟨⟨bytes, hBytes, hDecode⟩, _⟩ :=
    decode_toBytes (Schema.Luggage.compiles.compile {}) hProper
    hVoid packed_hasType
  have hBytes : toBytes Schema.Luggage.models stringBags packed = .ok bytes := hBytes
  rw [hBytes] at hLength
  have hLength : bytes.length = 15 := Option.some.inj hLength
  refine ⟨bytes, hBytes, hLength, fun rest => ?_⟩
  rw [← hFill, ← hLength]
  exact hDecode (by rw [hLength]; decide) rest

end Interchange.Wire

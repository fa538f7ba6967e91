import Interchange.Proofs.Schema.Records
import Interchange.Proofs.Wire.Shape

/-!
# Closed types as they are written

A closed type can be written down as a type of a declaration: the names of its definitions in the
place of their slots. Writing either of them out meets the same types, so what is held inside a
closed type can be asked of the written one.

* `ClosedType.usage`: a closed type, written down.
* `Part.usage`, `exists_part`: one step of writing out.
* `holdsVoid_iff`: `void` inside a closed type.
-/

namespace Interchange.Wire

open Schema

mutual

/-- A closed type, written down. -/
def ClosedType.usage (definitions : List Definition) : ClosedType → Usage
  | .mk slot args => .model (identifierAt definitions slot) (ClosedType.usages definitions args)

def ClosedType.usages (definitions : List Definition) : List ClosedType → List Usage
  | [] => []
  | type :: rest => type.usage definitions :: ClosedType.usages definitions rest

end

namespace ClosedType

theorem usages_eq_map (definitions : List Definition) (types : List ClosedType) :
    usages definitions types = types.map (usage definitions) := by
  induction types with
  | nil => rfl
  | cons type rest ih => rw [usages, ih, List.map_cons]

theorem usage_mk (definitions : List Definition) (slot : Nat) (args : List ClosedType) :
    (mk slot args).usage definitions =
      .model (identifierAt definitions slot) (args.map (usage definitions)) := by
  rw [usage, usages_eq_map]

end ClosedType

mutual

/-- Binding the parameters of a reference is replacing them in the written type. -/
theorem usage_of_close {definitions : List Definition} {bindings : List ClosedType} :
    (reference : TypeRef) → (type : ClosedType) → reference.close bindings = some type →
      type.usage definitions =
        (reference.usage definitions).subst (bindings.map (ClosedType.usage definitions))
  | .parameter _ _ index _, type => by
    intro hClose
    obtain ⟨hIndex, rfl⟩ := List.getElem?_eq_some_iff.1 hClose
    rw [TypeRef.usage, Usage.subst_parameter (by simpa using hIndex)]
    simp
  | .model _ target args, type => by
    intro hClose
    rw [TypeRef.close] at hClose
    split at hClose
    next closed hClosed =>
      cases hClose
      rw [TypeRef.usage, Usage.subst_model, ClosedType.usage_mk,
        usages_of_closeAll args closed hClosed]
    next => cases hClose

theorem usages_of_closeAll {definitions : List Definition} {bindings : List ClosedType} :
    (references : List TypeRef) → (types : List ClosedType) →
      TypeRef.closeAll bindings references = some types →
      types.map (ClosedType.usage definitions) = (TypeRef.usages definitions references).map
        (Usage.subst (bindings.map (ClosedType.usage definitions)))
  | [], types => by
    intro hClose
    cases hClose
    rfl
  | reference :: rest, types => by
    intro hClose
    rw [TypeRef.closeAll] at hClose
    split at hClose
    next type others hFirst hRest =>
      cases hClose
      rw [TypeRef.usages, List.map_cons, List.map_cons, usage_of_close reference type hFirst,
        usages_of_closeAll rest others hRest]
    next => cases hClose

end

/-! ## Writing out -/

namespace ClosedType

section

variable {table : List Resolved} {definitions : List Definition}

theorem exists_recorded (hRecords : Records table definitions) {slot : Nat}
    {definition : Definition} (hSlot : definitions[slot]? = some definition) :
    ∃ resolved ∈ table, Recorded definitions resolved definition ∧
      identifierAt definitions slot = resolved.identifier := by
  obtain ⟨resolved, hMem, hRecorded⟩ := hRecords definition (List.mem_of_getElem? hSlot)
  refine ⟨resolved, hMem, hRecorded, ?_⟩
  rw [identifierAt_of_getElem? hSlot, hRecorded.identifier]

theorem Proper.usage (hRecords : Records table definitions) {type : ClosedType}
    (hType : type.Proper definitions) : (type.usage definitions).Proper table 0 := by
  induction hType with
  | mk hSlot hArity _ ih =>
    obtain ⟨resolved, hMem, hRecorded, hName⟩ := exists_recorded hRecords hSlot
    rw [usage_mk, hName]
    refine .model hMem hRecorded.model ?_ (List.forall_mem_map.2 ih)
    rw [List.length_map, hArity, hRecorded.arity]

/-- What stands inside a closed type stands inside the written one. -/
theorem Part.usage (hRecords : Records table definitions) {type inner : ClosedType}
    (hPart : Part definitions type inner) :
    Usage.Part table (type.usage definitions) (inner.usage definitions) := by
  cases hPart with
  | argument hArg =>
    rw [usage_mk]
    exact .argument (List.mem_map_of_mem hArg)
  | content hSlot hReference hClose =>
    obtain ⟨resolved, hMem, hRecorded, hName⟩ := exists_recorded hRecords hSlot
    rw [usage_mk, hName, usage_of_close _ _ hClose]
    exact .content hMem (hRecorded.usages.mem_iff.1 (List.mem_map_of_mem hReference))

/-- What stands inside the written type stands inside the closed one. -/
theorem exists_part (hTable : Resolved.Sound table) (hArena : Arena definitions)
    (hRecords : Records table definitions) {type : ClosedType} {written : Usage}
    (hType : type.Proper definitions) (hPart : Usage.Part table (type.usage definitions) written) :
    ∃ inner, Part definitions type inner ∧ inner.usage definitions = written := by
  have hProper := hType
  cases hType with
  | mk hSlot _ _ =>
    obtain ⟨resolved, hMem, hRecorded, hName⟩ := exists_recorded hRecords hSlot
    rw [usage_mk, hName] at hPart
    generalize hTarget : resolved.identifier = target at hPart
    cases hPart with
    | argument hArg =>
      obtain ⟨arg, hMem, rfl⟩ := List.mem_map.1 hArg
      exact ⟨arg, .argument hMem, rfl⟩
    | content hOther hInner =>
      obtain rfl := List.inj_on_of_nodup_map hTable.names hMem hOther hTarget
      obtain ⟨reference, hReference, rfl⟩ := List.mem_map.1 (hRecorded.usages.mem_iff.2 hInner)
      obtain ⟨inner, hClose, _⟩ := hProper.exists_close hArena hSlot hReference
      exact ⟨inner, .content hSlot hReference hClose, usage_of_close reference inner hClose⟩

theorem Unfolds.usage (hRecords : Records table definitions) {type inner : ClosedType}
    (hUnfolds : type.Unfolds definitions inner) :
    (type.usage definitions).Unfolds table (inner.usage definitions) := by
  induction hUnfolds with
  | refl => exact .refl
  | tail _ hPart ih => exact .tail ih (hPart.usage hRecords)

theorem exists_unfolds (hTable : Resolved.Sound table) (hArena : Arena definitions)
    (hRecords : Records table definitions) {type : ClosedType} {written : Usage}
    (hType : type.Proper definitions) (hUnfolds : (type.usage definitions).Unfolds table written) :
    ∃ inner, type.Unfolds definitions inner ∧ inner.Proper definitions ∧
      inner.usage definitions = written := by
  induction hUnfolds with
  | refl => exact ⟨type, .refl, hType, rfl⟩
  | tail _ hPart ih =>
    obtain ⟨middle, hMiddle, hProper, rfl⟩ := ih
    obtain ⟨inner, hInner, rfl⟩ := exists_part hTable hArena hRecords hProper hPart
    exact ⟨inner, .tail hMiddle hInner, hProper.part hArena hInner, rfl⟩

/-! ## Void -/

/-- A type is built in if its name is. -/
theorem builtin?_eq_some_iff (hTable : Resolved.Sound table) (hRecords : Records table definitions)
    {slot : Nat} {args : List ClosedType} {definition : Definition} {kind : Builtin}
    (hSlot : definitions[slot]? = some definition) :
    (mk slot args).builtin? definitions = some kind ↔
      identifierAt definitions slot = kind.identifier := by
  obtain ⟨resolved, hMem, hRecorded, hName⟩ := exists_recorded hRecords hSlot
  have hBuiltin : (mk slot args).builtin? definitions = definition.builtin? := by
    rw [builtin?, ClosedType.slot, hSlot, Option.bind_some]
  rw [hBuiltin, hName, ← hRecorded.builtin]
  constructor
  · exact hTable.kinds resolved hMem kind
  · intro hEq
    rw [List.inj_on_of_nodup_map hTable.names hMem (hTable.builtins kind) hEq]

theorem usage_eq_void_iff (hTable : Resolved.Sound table) (hRecords : Records table definitions)
    {type : ClosedType} (hType : type.Proper definitions) :
    type.usage definitions = .void ↔ type.builtin? definitions = some .void := by
  cases hType with
  | @mk slot args definition hSlot hArity _ =>
    rw [builtin?_eq_some_iff hTable hRecords hSlot, usage_mk, Usage.void]
    constructor
    · intro hEq
      exact (Usage.model.inj hEq).1
    · intro hEq
      obtain ⟨resolved, hMem, hRecorded, hName⟩ := exists_recorded hRecords hSlot
      have hVoid := List.inj_on_of_nodup_map hTable.names hMem (hTable.builtins .void)
        (hName.symm.trans hEq)
      have hNone : args.length = 0 := by
        rw [hArity, ← hRecorded.arity, hVoid]
        rfl
      rw [hEq, List.length_eq_zero_iff.1 hNone, List.map_nil]

/-- `void` is held inside a closed type if it is held inside the written one. -/
theorem holdsVoid_iff (hTable : Resolved.Sound table) (hArena : Arena definitions)
    (hRecords : Records table definitions) {type : ClosedType} (hType : type.Proper definitions) :
    type.HoldsVoid definitions ↔ (type.usage definitions).Holds table .void := by
  constructor
  · rintro ⟨inner, hUnfolds, ⟨kind, hKind, hContainer⟩, arg, hArg, hVoid⟩
    have hInner := hType.unfolds hArena hUnfolds
    have hWritten := hUnfolds.usage hRecords
    cases hInner with
    | mk hSlot hArity hArgs =>
      rw [usage_mk, (builtin?_eq_some_iff hTable hRecords hSlot).1 hKind] at hWritten
      refine ⟨kind, _, hContainer, hWritten, ?_⟩
      rw [← (usage_eq_void_iff hTable hRecords (hArgs arg hArg)).2 hVoid]
      exact List.mem_map_of_mem hArg
  · rintro ⟨kind, written, hContainer, hUnfolds, hHeld⟩
    obtain ⟨inner, hInner, hProper, hWritten⟩ :=
      exists_unfolds hTable hArena hRecords hType hUnfolds
    cases hProper with
    | mk hSlot hArity hArgs =>
      rw [usage_mk] at hWritten
      obtain ⟨hName, rfl⟩ := Usage.model.inj hWritten
      obtain ⟨arg, hArg, hVoid⟩ := List.mem_map.1 hHeld
      exact ⟨_, hInner, ⟨kind, (builtin?_eq_some_iff hTable hRecords hSlot).2 hName, hContainer⟩,
        arg, hArg, (usage_eq_void_iff hTable hRecords (hArgs arg hArg)).1 hVoid⟩

end

end ClosedType

end Interchange.Wire

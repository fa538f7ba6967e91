import Interchange.Proofs.Schema.Compilation
import Interchange.Proofs.Wire.Written
import Interchange.Wire.Resolve

/-!
# The check of types that are put together

When a type is put together from a definition and arguments, the fields and payloads of the
definition are checked for arrays and maps of `void`. The check goes into the fields of fields, but
neither into the arguments of a type nor into a field that is a parameter and nothing else. So it
refuses fewer types than the rule for declarations, which knows no such exception.

* `ClosedType.Spells`: a field or payload that is more than a parameter.
* `ClosedType.ShowsVoid`: what the check looks for.
* `checkVoid_outcome`: it finds it.
* `holdsVoid_iff_showsVoid`: what it misses.
* `request_voidElement_iff`: types of compiled projects.
-/

namespace Interchange.Wire

open Schema

namespace ClosedType

/-! ## What the check looks for -/

/-- A field or payload of one type has another type, and not because it is a parameter. -/
inductive Spells (definitions : List Definition) : ClosedType → ClosedType → Prop
  | mk {slot : Nat} {args : List ClosedType} {definition : Definition} {reference : TypeRef}
      {inner : ClosedType} (hSlot : definitions[slot]? = some definition)
      (hReference : reference ∈ definition.references) (hModel : reference.isParameter = false)
      (hClose : reference.close args = some inner) : Spells definitions (.mk slot args) inner

/-- One type is met when fields and payloads of another are written out, and arguments are not. -/
def SpellsOut (definitions : List Definition) : ClosedType → ClosedType → Prop :=
  Relation.ReflTransGen (Spells definitions)

/-- An array or a map that is met in this way has `void` among its arguments. -/
def ShowsVoid (definitions : List Definition) (type : ClosedType) : Prop :=
  ∃ inner, type.SpellsOut definitions inner ∧ inner.IsVoidContainer definitions

section

variable {definitions : List Definition} {type inner : ClosedType}

theorem Spells.part (hSpells : Spells definitions type inner) : Part definitions type inner := by
  cases hSpells with
  | mk hSlot hReference _ hClose => exact .content hSlot hReference hClose

theorem SpellsOut.unfolds (hSpells : type.SpellsOut definitions inner) :
    type.Unfolds definitions inner :=
  Relation.ReflTransGen.mono (fun _ _ => Spells.part) _ _ hSpells

theorem ShowsVoid.holdsVoid (hShows : type.ShowsVoid definitions) : type.HoldsVoid definitions := by
  obtain ⟨inner, hSpells, hVoid⟩ := hShows
  exact ⟨inner, hSpells.unfolds, hVoid⟩

/-- A type that shows `void` is a container of it, or one of its fields or payloads shows it. -/
theorem ShowsVoid.cases_head (hShows : type.ShowsVoid definitions) :
    type.IsVoidContainer definitions ∨
      ∃ middle, Spells definitions type middle ∧ middle.ShowsVoid definitions := by
  obtain ⟨inner, hSpells, hVoid⟩ := hShows
  rcases Relation.ReflTransGen.cases_head hSpells with rfl | ⟨middle, hStep, hRest⟩
  · exact Or.inl hVoid
  · exact Or.inr ⟨middle, hStep, inner, hRest, hVoid⟩

/-- A type holds `void` if it shows it, or if it is held by an argument of a type that is met. -/
theorem holdsVoid_iff_showsVoid :
    type.HoldsVoid definitions ↔ type.ShowsVoid definitions ∨
      ∃ inner, type.SpellsOut definitions inner ∧ ∃ arg ∈ inner.args,
        arg.HoldsVoid definitions := by
  constructor
  · rintro ⟨held, hUnfolds, hVoid⟩
    induction hUnfolds using Relation.ReflTransGen.head_induction_on with
    | refl => exact Or.inl ⟨held, .refl, hVoid⟩
    | @head type middle hPart hRest ih =>
      cases hPart with
      | argument hArg => exact Or.inr ⟨_, .refl, middle, hArg, held, hRest, hVoid⟩
      | @content slot args definition reference _ hSlot hReference hClose =>
        cases hParameter : reference.isParameter with
        | true =>
          -- The field is an argument.
          cases reference with
          | model => cases hParameter
          | parameter _ _ index _ =>
            exact Or.inr ⟨_, .refl, middle, List.mem_of_getElem? hClose, held, hRest, hVoid⟩
        | false =>
          have hStep := Spells.mk hSlot hReference hParameter hClose
          rcases ih with ⟨inner, hSpells, hInner⟩ | ⟨inner, hSpells, arg, hArg, hHolds⟩
          · exact Or.inl ⟨inner, .head hStep hSpells, hInner⟩
          · exact Or.inr ⟨inner, .head hStep hSpells, arg, hArg, hHolds⟩
  · rintro (hShows | ⟨inner, hSpells, arg, hArg, held, hUnfolds, hVoid⟩)
    · exact hShows.holdsVoid
    · obtain ⟨slot, args⟩ := inner
      exact ⟨held, hSpells.unfolds.trans (.head (.argument hArg) hUnfolds), hVoid⟩

end

end ClosedType

/-! ## What it finds -/

/-- How a check ends: it passes if the type shows no `void`, and else names an array or a map that
has it. -/
def Outcome (definitions : List Definition) (type : ClosedType) : Except WireError Unit → Prop
  | .ok _ => ¬ type.ShowsVoid definitions
  | .error error => ∃ inner, type.SpellsOut definitions inner ∧ inner.IsVoidContainer definitions ∧
      error = .voidElement (inner.describe definitions)

section

variable {definitions : List Definition}

/-- A field that is more than a parameter leads to an earlier place. -/
theorem slot_lt_of_close {bound owner arity : Nat} {reference : TypeRef} {args : List ClosedType}
    {inner : ClosedType} (hFits : reference.Fits (definitions.take bound) owner arity)
    (hModel : reference.isParameter = false) (hClose : reference.close args = some inner) :
    inner.slot < bound := by
  cases hFits with
  | parameter => cases hModel
  | model hTarget _ _ _ =>
    rw [TypeRef.close] at hClose
    split at hClose
    · cases hClose
      exact (getElem?_of_take hTarget).1
    · cases hClose

/-- The types that the check looks at are those of the fields and payloads, except for definitions
that take no arguments. -/
theorem templateTypes_cases (definition : Definition) :
    templateTypes definition = definition.references ∨ definition.arity = 0 := by
  rw [templateTypes]
  split
  next hNone =>
    cases hBody : definition.body with
    | builtin kind =>
      left
      rw [Definition.references, hBody]
    | message fields retired =>
      right
      rw [Definition.arity, hBody]
      exact List.length_eq_zero_iff.2 (List.isEmpty_iff.1 hNone)
    | tag variants retired =>
      right
      rw [Definition.arity, hBody]
      exact List.length_eq_zero_iff.2 (List.isEmpty_iff.1 hNone)
  next => exact Or.inl rfl

theorem mem_references_of_templateTypes {definition : Definition} {reference : TypeRef}
    (hReference : reference ∈ templateTypes definition) : reference ∈ definition.references := by
  rw [templateTypes] at hReference
  split at hReference
  · cases hReference
  · exact hReference

theorem isContainer_iff {type : ClosedType} {definition : Definition}
    (hSlot : definitions[type.slot]? = some definition) :
    (isContainer definition &&
      type.args.any fun arg => arg.builtin? definitions == some .void) = true ↔
      type.IsVoidContainer definitions := by
  rw [Bool.and_eq_true, ClosedType.IsVoidContainer, ClosedType.builtin?, hSlot, Option.bind_some,
    isContainer]
  cases definition.builtin? with
  | none => simp
  | some kind => simp

/-- The check of the fields and payloads of a type that is no array or map of `void`. -/
theorem forM_outcome (hArena : Arena definitions)
    (hPlain : ∀ type : ClosedType, type.Proper definitions → type.args = [] →
      ¬ type.HoldsVoid definitions) {slot : Nat} {args : List ClosedType} {definition : Definition}
    (hType : (ClosedType.mk slot args).Proper definitions)
    (hSlot : definitions[slot]? = some definition)
    (hOwn : ¬ (ClosedType.mk slot args).IsVoidContainer definitions)
    {check : ClosedType → Except WireError Unit}
    (hCheck : ∀ inner, (ClosedType.mk slot args).Spells definitions inner →
      Outcome definitions inner (check inner)) :
    Outcome definitions (.mk slot args)
      (((templateTypes definition).filter fun reference => !reference.isParameter).forM
        fun reference =>
          match reference.close args with
          | some inner => check inner
          | none => .error .unboundParameter) := by
  rcases forM_cases (fun reference => match reference.close args with
      | some inner => check inner
      | none => .error .unboundParameter)
    ((templateTypes definition).filter fun reference => !reference.isParameter) with
    ⟨hRun, hAll⟩ | ⟨reference, hReference, error, hError, hRun⟩
  · rw [hRun]
    intro hShows
    rcases hShows.cases_head with hVoid | ⟨middle, hStep, hMiddle⟩
    · exact hOwn hVoid
    · rcases templateTypes_cases definition with hTypes | hNone
      · cases hStep with
        | mk hFound hReference hModel hClose =>
          cases hFound.symm.trans hSlot
          have hPassed := hAll _ (List.mem_filter.2 ⟨hTypes ▸ hReference, by simp [hModel]⟩)
          have hOutcome := hCheck middle (.mk hSlot hReference hModel hClose)
          simp only [hClose] at hPassed
          rw [hPassed] at hOutcome
          exact hOutcome hMiddle
      · have hEmpty : args = [] := by
          cases hType with
          | mk hFound hArity _ =>
            cases hFound.symm.trans hSlot
            exact List.length_eq_zero_iff.1 (hArity.trans hNone)
        exact hPlain _ hType hEmpty hShows.holdsVoid
  · rw [hRun]
    obtain ⟨hMem, hModel⟩ := List.mem_filter.1 hReference
    have hMem := mem_references_of_templateTypes hMem
    obtain ⟨middle, hClose, _⟩ := hType.exists_close hArena hSlot hMem
    have hStep := ClosedType.Spells.mk hSlot hMem (by simpa using hModel) hClose
    have hOutcome := hCheck middle hStep
    simp only [hClose] at hError
    rw [hError] at hOutcome
    obtain ⟨inner, hSpells, hVoid, rfl⟩ := hOutcome
    exact ⟨inner, .head hStep hSpells, hVoid, rfl⟩

/-- The check of a type, where types without arguments hold no `void`. -/
theorem checkVoid_outcome (hArena : Arena definitions)
    (hPlain : ∀ type : ClosedType, type.Proper definitions → type.args = [] →
      ¬ type.HoldsVoid definitions) {bound : Nat} {type : ClosedType}
    (hType : type.Proper definitions) (hBound : type.slot < bound) :
    Outcome definitions type (checkVoid definitions bound type) := by
  induction bound generalizing type with
  | zero => cases hBound
  | succ bound ih =>
    obtain ⟨slot, args⟩ := type
    rw [checkVoid]
    split
    next hEq =>
      obtain rfl : slot = bound := hEq
      have hProper := hType
      cases hType with
      | @mk _ _ definition hSlot _ _ =>
        simp only [hSlot]
        by_cases hOwn : (ClosedType.mk slot args).IsVoidContainer definitions
        · rw [if_pos ((isContainer_iff hSlot).2 hOwn)]
          exact ⟨_, .refl, hOwn, rfl⟩
        · rw [if_neg fun hContainer => hOwn ((isContainer_iff hSlot).1 hContainer)]
          refine forM_outcome hArena hPlain hProper hSlot hOwn fun inner hStep => ?_
          refine ih (hProper.part hArena hStep.part) ?_
          cases hStep with
          | mk hFound hReference hModel hClose =>
            exact slot_lt_of_close (hArena.references _ _ hFound _ hReference) hModel hClose
    next hEq =>
      have hSmaller : slot < bound + 1 := hBound
      have hOther : slot ≠ bound := hEq
      exact ih hType (show slot < bound by omega)

end

/-! ## Types that are asked for -/

/-- A definition of the models with as many arguments as it takes is asked for: the type, and the
answer. -/
inductive Request (models : Models) : ClosedType → Except WireError ClosedType → Prop
  | named {name : String} {slot : Nat} {args : List ClosedType} {definition : Definition}
      (hName : slotNamed? models name = some slot)
      (hSlot : models.definitions[slot]? = some definition)
      (hArity : definition.arity = args.length) :
      Request models (.mk slot args) (resolve models name args)
  | array (element : ClosedType) :
      Request models (.mk Builtin.array.index [element]) (arrayOf models element)
  | map (key value : ClosedType) :
      Request models (.mk Builtin.map.index [key, value]) (mapOf models key value)

/-- The types that a caller can get: the built-in ones, and what is answered for arguments that the
caller got before. -/
inductive Obtained (models : Models) : ClosedType → Prop
  | builtin {kind : Builtin} {type : ClosedType} (hKind : ofBuiltin? kind = some type) :
      Obtained models type
  | answer {type : ClosedType} (hRequest : Request models type (.ok type))
      (hArgs : ∀ arg ∈ type.args, Obtained models arg) : Obtained models type

section

variable {models : Models} {type : ClosedType} {result : Except WireError ClosedType}

theorem Request.eq_checked (hRequest : Request models type result) :
    result = checked models type := by
  cases hRequest with
  | named hName hSlot hArity =>
    rw [resolve, hName]
    simp only [hSlot]
    rw [if_pos hArity]
  | array element => rfl
  | map key value => rfl

theorem Request.proper (hArena : Arena models.definitions) (hRequest : Request models type result)
    (hArgs : ∀ arg ∈ type.args, arg.Proper models.definitions) :
    type.Proper models.definitions := by
  cases hRequest with
  | named _ hSlot hArity => exact .mk hSlot hArity.symm hArgs
  | array element => exact .mk (hArena.builtins .array) rfl hArgs
  | map key value => exact .mk (hArena.builtins .map) rfl hArgs

theorem Obtained.proper (hArena : Arena models.definitions) (hObtained : Obtained models type) :
    type.Proper models.definitions := by
  induction hObtained with
  | @builtin kind type hKind =>
    rw [ofBuiltin?] at hKind
    split at hKind
    next hArity =>
      cases hKind
      exact .mk (hArena.builtins kind) hArity.symm (by simp)
    next => cases hKind
  | answer hRequest _ ih => exact hRequest.proper hArena ih

/-- The answer to a request, by the outcome of the check. -/
theorem checked_cases (hOutcome : Outcome models.definitions type
      (checkVoid models.definitions models.definitions.length type)) :
    (checked models type = .ok type ∧ ¬ type.ShowsVoid models.definitions) ∨
      ∃ text, checked models type = .error (.voidElement text) ∧
        type.ShowsVoid models.definitions := by
  rw [checked]
  cases hRun : checkVoid models.definitions models.definitions.length type with
  | ok =>
    rw [hRun] at hOutcome
    exact Or.inl ⟨rfl, hOutcome⟩
  | error error =>
    rw [hRun] at hOutcome
    obtain ⟨inner, hSpells, hVoid, rfl⟩ := hOutcome
    exact Or.inr ⟨_, rfl, inner, hSpells, hVoid⟩

end

/-- A type without arguments holds no `void`, because its declaration was refused otherwise. -/
theorem not_holdsVoid_of_args_eq_nil {models : Models} {table sorted : List Resolved}
    {builder : Builder} (hBehind : models.Behind table sorted builder) {type : ClosedType}
    (hType : type.Proper models.definitions) (hArgs : type.args = []) :
    ¬ type.HoldsVoid models.definitions := by
  have hArena : Arena models.definitions := hBehind.definitions ▸ hBehind.keeps.arena
  have hRecords : Records table models.definitions := hBehind.definitions ▸ hBehind.keeps.records
  have hWritten := hType.usage hRecords
  rw [ClosedType.holdsVoid_iff hBehind.lawful.toSound hArena hRecords hType]
  cases hType with
  | @mk slot args definition hSlot _ _ =>
    obtain rfl : args = [] := hArgs
    obtain ⟨resolved, hMem, hRecorded, hName⟩ := ClosedType.exists_recorded hRecords hSlot
    have hCovers := hBehind.follows.covers resolved (hBehind.perm.mem_iff.2 hMem) hRecorded.model
    rw [ClosedType.usage_mk, hName] at hWritten ⊢
    rw [Usage.holds_void_model_iff hBehind.lawful.toProper hMem hWritten hCovers.clean]
    simp

/-- A type of a compiled project that is asked for, with arguments from earlier answers, is refused
exactly if it shows `void`, and is given otherwise. It can hold `void` without showing it: in the
arguments of the types that are met in its fields and payloads. Written in a field of a declaration,
it is refused exactly if it holds `void`. -/
theorem request_voidElement_iff {options : Schema.Options} {sources : List Schema.Source}
    {project : Project} (hCompile : compile options sources = .ok project) {type : ClosedType}
    {result : Except WireError ClosedType} (hRequest : Request project.toModels type result)
    (hArgs : ∀ arg ∈ type.args, Obtained project.toModels arg) :
    ((∃ text, result = .error (.voidElement text)) ↔ type.ShowsVoid project.definitions) ∧
    (result = .ok type ↔ ¬ type.ShowsVoid project.definitions) ∧
    (type.HoldsVoid project.definitions ↔ type.ShowsVoid project.definitions ∨
      ∃ inner, type.SpellsOut project.definitions inner ∧
        ∃ arg ∈ inner.args, arg.HoldsVoid project.definitions) ∧
    ∃ sorted, Models.build sorted = .ok project.toModels ∧ ∀ context number name,
      (∃ owner template, Models.build
        (sorted ++ [Resolved.ofField context number name (type.usage project.definitions)]) =
          .error (.voidTypeArgument owner template)) ↔ type.HoldsVoid project.definitions := by
  obtain ⟨table, sorted, builder, hBehind⟩ := compile_behind hCompile
  have hArena := compile_arena hCompile
  have hRecords : Records table project.definitions :=
    hBehind.definitions ▸ hBehind.keeps.records
  have hType := hRequest.proper hArena fun arg hArg => (hArgs arg hArg).proper hArena
  have hSlot : type.slot < project.definitions.length := by
    cases hType with
    | mk hSlot _ _ => exact (List.getElem?_eq_some_iff.1 hSlot).1
  have hOutcome := checkVoid_outcome hArena
    (fun _ hProper hNone => not_holdsVoid_of_args_eq_nil hBehind hProper hNone) hType hSlot
  have hAnswer : ((∃ text, result = .error (.voidElement text)) ↔
      type.ShowsVoid project.definitions) ∧
      (result = .ok type ↔ ¬ type.ShowsVoid project.definitions) := by
    rw [hRequest.eq_checked]
    rcases checked_cases hOutcome with ⟨hOk, hClear⟩ | ⟨text, hError, hShows⟩
    · simp [hOk, hClear]
    · simp [hError, hShows]
  refine ⟨hAnswer.1, hAnswer.2, ClosedType.holdsVoid_iff_showsVoid, sorted, hBehind.build, ?_⟩
  intro context number name
  rw [ClosedType.holdsVoid_iff hBehind.lawful.toSound hArena hRecords hType]
  exact (hBehind.build_field (hType.usage hRecords) context number name).error_iff

/-- The templates of the luggage for `void`. -/
def voidBag : ClosedType := .mk 17 [.mk 13 []]

def voidBags : ClosedType := .mk 18 [.mk 13 []]

/-- A bag of `void` is refused. An array of such bags is not, although a declaration that has one in
a field is. -/
theorem request_voidBags :
    (∃ text, resolve Luggage.models "app.Bag" [.mk 13 []] = .error (.voidElement text)) ∧
    resolve Luggage.models "app.Bags" [.mk 13 []] = .ok voidBags ∧
    ¬ voidBags.ShowsVoid Luggage.models.definitions ∧
    voidBags.HoldsVoid Luggage.models.definitions ∧
    ∃ sorted, Models.build sorted = .ok Luggage.models ∧ ∃ owner template,
      Models.build (sorted ++ [Resolved.ofField ⟨"app", "Shop"⟩ 1 "bags"
        (voidBags.usage Luggage.models.definitions)]) =
          .error (.voidTypeArgument owner template) := by
  have hVoid : ofBuiltin? .void = some (.mk 13 []) := rfl
  have hArgs : ∀ arg ∈ [ClosedType.mk 13 []], Obtained Luggage.models arg :=
    List.forall_mem_singleton.2 (.builtin hVoid)
  have hBag : slotNamed? Luggage.models "app.Bag" = some 17 := by cbv
  have hBags : slotNamed? Luggage.models "app.Bags" = some 18 := by cbv
  have hItems : voidBag.Spells Luggage.models.definitions (.mk 14 [.mk 13 []]) :=
    .mk rfl List.mem_cons_self rfl rfl
  have hShows : voidBag.ShowsVoid Luggage.models.definitions :=
    ⟨_, .single hItems, by decide⟩
  have hStep : voidBags.Spells Luggage.models.definitions (.mk 14 [voidBag]) :=
    .mk rfl List.mem_cons_self rfl rfl
  have hGiven : resolve Luggage.models "app.Bags" [.mk 13 []] = .ok voidBags := by cbv
  obtain ⟨hRefused, _⟩ := request_voidElement_iff (Luggage.compiles.compile {})
    (.named hBag rfl rfl) hArgs
  obtain ⟨_, hAnswer, hHolds, sorted, hSorted, hField⟩ :=
    request_voidElement_iff (Luggage.compiles.compile {}) (.named hBags rfl rfl) hArgs
  have hHolds : voidBags.HoldsVoid Luggage.models.definitions :=
    hHolds.2 (Or.inr ⟨_, .single hStep, voidBag, List.mem_cons_self, hShows.holdsVoid⟩)
  exact ⟨hRefused.2 hShows, hGiven, hAnswer.1 hGiven, hHolds, sorted, hSorted,
    (hField ⟨"app", "Shop"⟩ 1 "bags").2 hHolds⟩

end Interchange.Wire

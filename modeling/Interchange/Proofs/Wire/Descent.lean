import Interchange.Proofs.Schema.Places
import Interchange.Proofs.Wire.Typing
import Interchange.Proofs.Wire.VoidElement

/-!
# Going into types

What is done with a type is done with the types inside it first: with its arguments, and with its
fields and payloads after its parameters are bound. A parameter may become a type of any definition,
so places do not fall along the way. They fall from a definition to those that its references name,
and what a parameter becomes was reached before.

* `ClosedType.wellFounded_part`: going into types comes to an end.
* `ClosedType.InRange`: all that is read of a type by position is there.
* `Proper.defaultValue_eq`: the default of a type, from the defaults of its parts.
* `checkVoid_eq`: the check of a type, from the checks of its fields and payloads.
* `Proper.watchedCodecOf_eq`: no type is asked for while its own codec is put together.
* `compile_founded`: types of compiled projects.
-/

namespace Interchange.Wire

open Schema

namespace ClosedType

/-! ## Coming to an end -/

section

variable {definitions : List Definition}

/-- Binding the parameters of a reference gives an argument, or a type of an earlier definition. -/
theorem acc_of_close {slot arity : Nat} {args : List ClosedType} {reference : TypeRef}
    {inner : ClosedType} (hArgs : ∀ arg ∈ args, Acc (Function.swap (Part definitions)) arg)
    (hEarlier : ∀ (target : Nat) (types : List ClosedType), target < slot →
      (∀ type ∈ types, Acc (Function.swap (Part definitions)) type) →
        Acc (Function.swap (Part definitions)) (.mk target types))
    (hFits : reference.Fits (definitions.take slot) slot arity)
    (hClose : reference.close args = some inner) :
    Acc (Function.swap (Part definitions)) inner := by
  induction hFits generalizing inner with
  | parameter => exact hArgs inner (List.mem_of_getElem? hClose)
  | model hTarget _ _ _ ih =>
    rw [TypeRef.close] at hClose
    split at hClose
    next types hTypes =>
      cases hClose
      refine hEarlier _ types (getElem?_of_take hTarget).1 fun type hType => ?_
      obtain ⟨arg, hArg, hOne⟩ := exists_of_mem_right (closeAll_eq_some.1 hTypes) hType
      exact ih arg hArg hOne
    next => cases hClose

/-- Going into a type comes to an end if going into its arguments does. -/
theorem acc_mk (hArena : Arena definitions) (slot : Nat) (args : List ClosedType)
    (hArgs : ∀ arg ∈ args, Acc (Function.swap (Part definitions)) arg) :
    Acc (Function.swap (Part definitions)) (.mk slot args) := by
  -- The references of a definition name earlier places, so the induction is on the place, for all
  -- arguments at once.
  induction slot using Nat.strongRecOn generalizing args with
  | _ slot ih =>
    refine .intro _ fun inner hPart => ?_
    cases hPart with
    | argument hArg => exact hArgs inner hArg
    | content hSlot hReference hClose =>
      have hFits := hArena.references slot _ hSlot _ hReference
      exact acc_of_close hArgs (fun target types hLess => ih target hLess types) hFits hClose

mutual

theorem acc_part (hArena : Arena definitions) :
    (type : ClosedType) → Acc (Function.swap (Part definitions)) type
  | .mk slot args => acc_mk hArena slot args (acc_parts hArena args)

theorem acc_parts (hArena : Arena definitions) :
    (types : List ClosedType) → ∀ type ∈ types, Acc (Function.swap (Part definitions)) type
  | [] => by simp
  | type :: rest => List.forall_mem_cons.2 ⟨acc_part hArena type, acc_parts hArena rest⟩

end

/-- Going into types comes to an end. -/
theorem wellFounded_part (hArena : Arena definitions) :
    WellFounded (Function.swap (Part definitions)) :=
  ⟨acc_part hArena⟩

/-- A type is not met inside itself. -/
theorem not_transGen_part_self (hArena : Arena definitions) (type : ClosedType) :
    ¬ Relation.TransGen (Part definitions) type type := by
  intro hCycle
  have hSwapped := Relation.transGen_swap.2 hCycle
  exact (wellFounded_part hArena).transGen.irrefl.irrefl type hSwapped

end

/-! ## Reading by position -/

/-- All that is read of a type by position is there: its definition, as many arguments as an array
or a map needs, and an argument for every parameter in a field or a payload. -/
structure InRange (definitions : List Definition) (type : ClosedType) : Prop where
  slot : type.slot < definitions.length
  builtins : ∀ kind, type.builtin? definitions = some kind → type.args.length = kind.arity
  parameters : ∀ definition, definitions[type.slot]? = some definition →
    ∀ reference ∈ definition.references, ∀ inner, reference.Reaches inner →
      ∀ number owner index name, inner = .parameter number owner index name →
        index < type.args.length

theorem Proper.inRange {definitions : List Definition} (hArena : Arena definitions)
    {type : ClosedType} (hType : type.Proper definitions) : type.InRange definitions := by
  cases hType with
  | @mk slot args definition hSlot hArity _ =>
    refine ⟨(List.getElem?_eq_some_iff.1 hSlot).1, ?_, ?_⟩
    · intro kind hKind
      rw [builtin?, ClosedType.slot, hSlot, Option.bind_some] at hKind
      rw [Definition.builtin?] at hKind
      rw [ClosedType.args, hArity, Definition.arity]
      split at hKind
      next =>
        cases hKind
        rfl
      next => cases hKind
    · rintro other hOther reference hReference _ hReaches number owner index name rfl
      cases hSlot.symm.trans hOther
      have hFits := (hArena.references slot definition hSlot reference hReference).reaches hReaches
      cases hFits with
      | parameter hIndex => exact hArity ▸ hIndex

end ClosedType

/-! ## Defaults -/

/-- The default of a shape, with the defaults of its parts from `value`. -/
def Shape.default (value : ClosedType → Value) : Shape → Value
  | scalar kind => .scalar (Scalar.zero kind)
  | string => .string ""
  | bytes => .bytes []
  | array _ => .array []
  | map _ _ => .map []
  | message fields => .message (Fields.setAll [] (fields.map fun field =>
      (field.number, value field.content)))
  | tag variants => .tag 0 (((ModelPart.find? variants 0).bind ModelPart.content).map value)

/-- The default of a type is that of its shape. -/
theorem ClosedType.Proper.defaultValue_eq {models : Models} (hArena : Arena models.definitions)
    {type : ClosedType} {shape : Shape} (hType : type.Proper models.definitions)
    (hShape : type.shape? models.definitions = some shape) :
    defaultOf models type = .ok (shape.default (defaultValue models)) := by
  obtain ⟨other, codec, hOther, hCodec, hSame⟩ := hType.codec hArena
  cases hOther.symm.trans hShape
  rw [defaultOf, shelvedCodecOf_eq, hSame]
  refine congrArg Except.ok ?_
  cases shape with
  | scalar kind =>
    cases hCodec
    rfl
  | string =>
    cases hCodec
    rfl
  | bytes =>
    cases hCodec
    rfl
  | array element =>
    obtain ⟨inner, _, rfl⟩ := Option.map_eq_some_iff.1 hCodec
    rfl
  | map key value =>
    obtain ⟨keys, _, hCodec⟩ := Option.bind_eq_some_iff.1 hCodec
    obtain ⟨values, _, rfl⟩ := Option.map_eq_some_iff.1 hCodec
    rfl
  | message fields =>
    obtain ⟨parts, hParts, rfl⟩ := Option.map_eq_some_iff.1 hCodec
    refine congrArg (fun defaults => Value.message (Fields.setAll [] defaults)) ?_
    refine map_eq_map_of_forall₂ (partsWith_eq_some.1 hParts) fun field _ part hRelated => ?_
    rw [hRelated.number, Wire.defaultValue_eq hRelated.content]
  | tag variants =>
    obtain ⟨parts, hParts, rfl⟩ := Option.map_eq_some_iff.1 hCodec
    refine congrArg (Value.tag 0) ?_
    have hFound := find?_related (partsWith_eq_some.1 hParts) 0
    generalize ModelPart.find? parts 0 = part? at hFound ⊢
    generalize ModelPart.find? variants 0 = variant? at hFound ⊢
    cases hFound with
    | none => rfl
    | @some variant part hRelated =>
      have hContent := Shape.payloadCodec?_eq_some.1 hRelated.content
      simp only [Option.bind_some]
      generalize part.content = codec? at hContent ⊢
      generalize variant.content = inner? at hContent ⊢
      cases hContent with
      | none => rfl
      | some hInner => rw [Option.map_some, Option.map_some, Wire.defaultValue_eq hInner]

/-! ## Checks -/

section

variable {definitions : List Definition}

/-- The check of a type, with the checks of the types of its fields and payloads from `check`. -/
def checkOnce (definitions : List Definition) (check : ClosedType → Except WireError Unit)
    (type : ClosedType) : Except WireError Unit :=
  match definitions[type.slot]? with
  | none => .ok ()
  | some definition =>
    if isContainer definition
        && type.args.any (fun arg => arg.builtin? definitions == some .void) then
      .error (.voidElement (type.describe definitions))
    else
      ((templateTypes definition).filter fun reference => !reference.isParameter).forM
        fun reference =>
          match reference.close type.args with
          | some inner => check inner
          | none => .error .unboundParameter

/-- A type below the bound has the same check for every bound. -/
theorem checkVoid_bound {type : ClosedType} {bound : Nat} (hBound : type.slot < bound) :
    checkVoid definitions bound type = checkVoid definitions (type.slot + 1) type := by
  induction bound with
  | zero => cases hBound
  | succ bound ih =>
    by_cases hSlot : type.slot = bound
    · rw [hSlot]
    · rw [checkVoid, if_neg hSlot]
      exact ih (by omega)

theorem forM_congr {α : Type} {f g : α → Except WireError Unit} {xs : List α}
    (hEach : ∀ x ∈ xs, f x = g x) : xs.forM f = xs.forM g := by
  induction xs with
  | nil => rfl
  | cons x rest ih =>
    obtain ⟨hFirst, hRest⟩ := List.forall_mem_cons.1 hEach
    show (f x >>= fun _ => rest.forM f) = (g x >>= fun _ => rest.forM g)
    rw [hFirst, ih hRest]

/-- The check of a type goes on with the types of its fields and payloads, whatever the bound is. -/
theorem checkVoid_eq (hArena : Arena definitions) {bound : Nat} {type : ClosedType}
    (hBound : type.slot < bound) :
    checkVoid definitions bound type =
      checkOnce definitions (checkVoid definitions bound) type := by
  rw [checkVoid_bound hBound, checkVoid, if_pos rfl, checkOnce]
  cases hSlot : definitions[type.slot]? with
  | none => rfl
  | some definition =>
    dsimp only
    split
    · rfl
    · refine forM_congr fun reference hReference => ?_
      obtain ⟨hMem, hModel⟩ := List.mem_filter.1 hReference
      have hFits := hArena.references _ definition hSlot reference
        (mem_references_of_templateTypes hMem)
      cases hClose : reference.close type.args with
      | none => rfl
      | some inner =>
        have hLess := slot_lt_of_close hFits (by simpa using hModel) hClose
        dsimp only
        rw [checkVoid_bound hLess, checkVoid_bound (show inner.slot < bound by omega)]

end

/-! ## Codecs under way -/

/-- A step that may fail, may use a shelf and knows the types whose codecs are under way. -/
abbrev Watching := ReaderT (List ClosedType) Shelving

/-- Takes a codec from the shelf, or puts it there. It fails where the type is asked for while its
own codec is put together. -/
def keepOnce (type : ClosedType) (build : Watching Codec) : Watching Codec := fun underWay =>
  if type ∈ underWay then fun _ => none else keepOnShelf type (build (type :: underWay))

/-- The codec of a closed type, where no type may be asked for while its own codec is put
together. -/
def watchedCodecOf (definitions : List Definition) (type : ClosedType) : Option Codec :=
  (((typeCodec keepOnce definitions type).run []).run []).map Prod.fst

/-- With some types under way, a step that watches them does what it does without watching. Its
result has a property. -/
structure Undisturbed (underWay : List ClosedType) {α : Type} (property : α → Prop)
    (watching : Watching α) (shelving : Shelving α) : Prop where
  run : watching underWay = shelving
  result : ∀ shelf a later, shelving shelf = some (a, later) → property a

namespace Undisturbed

variable {underWay : List ClosedType} {α β : Type} {property : α → Prop} {goal : β → Prop}

theorem pure {a : α} (hResult : property a) :
    Undisturbed underWay property (Pure.pure a) (Pure.pure a) where
  run := rfl
  result shelf b later hRun := by
    cases hRun
    exact hResult

theorem bind {watching : Watching α} {shelving : Shelving α} {f : α → Watching β}
    {g : α → Shelving β} (hFirst : Undisturbed underWay property watching shelving)
    (hNext : ∀ a, property a → Undisturbed underWay goal (f a) (g a)) :
    Undisturbed underWay goal (watching >>= f) (shelving >>= g) where
  run := by
    show (watching underWay >>= fun a => f a underWay) = shelving >>= g
    rw [hFirst.run]
    funext shelf
    show (shelving shelf).bind (fun found => f found.1 underWay found.2) =
      (shelving shelf).bind fun found => g found.1 found.2
    cases hRun : shelving shelf with
    | none => rfl
    | some found =>
      exact congrFun (hNext found.1 (hFirst.result shelf found.1 found.2 hRun)).run found.2
  result shelf b later hRun := by
    obtain ⟨found, hFound, hRest⟩ := Option.bind_eq_some_iff.1 hRun
    exact (hNext found.1 (hFirst.result shelf found.1 found.2 hFound)).result found.2 b later hRest

theorem lift {found : Option α} (hResult : ∀ a, found = some a → property a) :
    Undisturbed underWay property (liftM found) (liftM found) where
  run := rfl
  result shelf a later hRun := by
    cases found with
    | none => cases hRun
    | some b =>
      cases hRun
      exact hResult a rfl

theorem partsWith {γ : Type} {content : γ → Watching α} {content' : γ → Shelving α}
    {parts : List (ModelPart γ)} (hContent : ∀ part ∈ parts,
      Undisturbed underWay (fun _ => True) (content part.content) (content' part.content)) :
    Undisturbed underWay (fun _ => True) (Wire.partsWith content parts)
      (Wire.partsWith content' parts) := by
  induction parts with
  | nil => exact pure trivial
  | cons part rest ih =>
    obtain ⟨hFirst, hRest⟩ := List.forall_mem_cons.1 hContent
    exact hFirst.bind fun _ _ => (ih hRest).bind fun _ _ => pure trivial

end Undisturbed

/-- A proper type that is met inside all types under way. -/
structure ClosedType.Below (definitions : List Definition) (underWay : List ClosedType)
    (type : ClosedType) : Prop where
  proper : type.Proper definitions
  inside : ∀ outer ∈ underWay, Relation.TransGen (Part definitions) outer type

section

variable {definitions : List Definition} {underWay : List ClosedType}

namespace ClosedType.Below

variable {type inner : ClosedType}

theorem part (hArena : Arena definitions) (hBelow : type.Below definitions underWay)
    (hPart : Part definitions type inner) : inner.Below definitions underWay where
  proper := hBelow.proper.part hArena hPart
  inside outer hOuter := (hBelow.inside outer hOuter).tail hPart

/-- The codec of the outer type is under way from now on. -/
theorem enter (hArena : Arena definitions) (hBelow : type.Below definitions underWay)
    (hPart : Part definitions type inner) : inner.Below definitions (type :: underWay) where
  proper := hBelow.proper.part hArena hPart
  inside := List.forall_mem_cons.2 ⟨.single hPart, (hBelow.part hArena hPart).inside⟩

theorem not_mem (hArena : Arena definitions) (hBelow : type.Below definitions underWay) :
    type ∉ underWay :=
  fun hMem => not_transGen_part_self hArena type (hBelow.inside type hMem)

end ClosedType.Below

/-- Building is not disturbed for types below those under way. -/
def BuildUndisturbed (definitions : List Definition) (underWay : List ClosedType)
    (watching : Nat → List Instance → Watching Codec)
    (shelving : Nat → List Instance → Shelving Codec) : Prop :=
  ∀ slot args, (ClosedType.mk slot (args.map Instance.type)).Below definitions underWay →
    Undisturbed underWay (fun _ => True) (watching slot args) (shelving slot args)

mutual

theorem undisturbed_instanceOf (hArena : Arena definitions)
    {watching : Nat → List Instance → Watching Codec}
    {shelving : Nat → List Instance → Shelving Codec}
    (hBuild : BuildUndisturbed definitions underWay watching shelving) {args : List Instance} :
    (reference : TypeRef) → {inner : ClosedType} →
    reference.close (args.map Instance.type) = some inner → inner.Below definitions underWay →
    Undisturbed underWay (fun found => found.type = inner) (instanceOf watching args reference)
      (instanceOf shelving args reference)
  | .parameter _ _ _ _, inner, hClose, _ => Undisturbed.lift fun found hFound => by
      rw [TypeRef.close, List.getElem?_map, hFound] at hClose
      exact Option.some.inj hClose
  | .model site target references, inner, hClose, hBelow => by
      rw [TypeRef.close] at hClose
      split at hClose
      next types hTypes =>
        cases hClose
        have hInner : ∀ type ∈ types, type.Below definitions underWay := fun type hType =>
          hBelow.part hArena (.argument hType)
        refine (undisturbed_instancesOf hArena hBuild references hTypes hInner).bind ?_
        rintro instances rfl
        exact (hBuild target instances hBelow).bind fun _ _ => Undisturbed.pure rfl
      next => cases hClose

theorem undisturbed_instancesOf (hArena : Arena definitions)
    {watching : Nat → List Instance → Watching Codec}
    {shelving : Nat → List Instance → Shelving Codec}
    (hBuild : BuildUndisturbed definitions underWay watching shelving) {args : List Instance} :
    (references : List TypeRef) → {types : List ClosedType} →
    TypeRef.closeAll (args.map Instance.type) references = some types →
    (∀ type ∈ types, type.Below definitions underWay) →
    Undisturbed underWay (fun found => found.map Instance.type = types)
      (instancesOf watching args references) (instancesOf shelving args references)
  | [], types, hTypes, _ => by
      cases hTypes
      exact Undisturbed.pure rfl
  | reference :: rest, types, hTypes, hBelow => by
      rw [TypeRef.closeAll] at hTypes
      split at hTypes
      next type others hFirst hRest =>
        cases hTypes
        obtain ⟨hType, hOthers⟩ := List.forall_mem_cons.1 hBelow
        refine (undisturbed_instanceOf hArena hBuild reference hFirst hType).bind ?_
        rintro found rfl
        refine (undisturbed_instancesOf hArena hBuild rest hRest hOthers).bind ?_
        rintro instances rfl
        exact Undisturbed.pure rfl
      next => cases hTypes

end

/-- The codec of a definition is put together from types inside the type, whose own codec is under
way. -/
theorem undisturbed_bodyCodec (hArena : Arena definitions)
    {watching : Nat → List Instance → Watching Codec}
    {shelving : Nat → List Instance → Shelving Codec} {slot : Nat} {args : List Instance}
    {definition : Definition} (hSlot : definitions[slot]? = some definition)
    (hBelow : (ClosedType.mk slot (args.map Instance.type)).Below definitions underWay)
    (hBuild : BuildUndisturbed definitions (.mk slot (args.map Instance.type) :: underWay) watching
      shelving) :
    Undisturbed (.mk slot (args.map Instance.type) :: underWay) (fun _ => True)
      (bodyCodec watching definitions definition (.mk slot (args.map Instance.type)) args)
      (bodyCodec shelving definitions definition (.mk slot (args.map Instance.type)) args) := by
  have hReference : ∀ reference ∈ definition.references,
      Undisturbed (.mk slot (args.map Instance.type) :: underWay) (fun _ => True)
        (referenceCodec watching args reference) (referenceCodec shelving args reference) := by
    intro reference hMem
    obtain ⟨inner, hClose, _⟩ := hBelow.proper.exists_close hArena hSlot hMem
    have hInner := hBelow.enter hArena (.content hSlot hMem hClose)
    exact (undisturbed_instanceOf hArena hBuild reference hClose hInner).bind fun _ _ =>
      Undisturbed.pure trivial
  obtain ⟨identifier, parameters, body⟩ := definition
  cases body with
  | builtin kind => exact Undisturbed.lift fun _ _ => trivial
  | message fields retired =>
    have hFields := Undisturbed.partsWith fun field hField =>
      hReference field.content (List.mem_map_of_mem hField)
    exact hFields.bind fun _ _ => Undisturbed.pure trivial
  | tag variants retired =>
    refine (Undisturbed.partsWith fun variant hVariant => ?_).bind
      fun _ _ => Undisturbed.pure trivial
    obtain ⟨number, name, payload⟩ := variant
    cases payload with
    | none => exact Undisturbed.pure trivial
    | some reference =>
      exact (hReference reference (List.mem_filterMap.2 ⟨_, hVariant, rfl⟩)).bind fun _ _ =>
        Undisturbed.pure trivial

theorem undisturbed_codecAt (hArena : Arena definitions) (bound : Nat)
    (underWay : List ClosedType) :
    BuildUndisturbed definitions underWay (codecAt keepOnce definitions bound)
      (codecAt keepOnShelf definitions bound) := by
  induction bound generalizing underWay with
  | zero => exact fun _ _ _ => Undisturbed.lift fun _ _ => trivial
  | succ bound ih =>
    intro slot args hBelow
    rw [codecAt, codecAt]
    by_cases hEq : slot = bound
    · subst hEq
      rw [if_pos rfl, if_pos rfl]
      cases hSlot : definitions[slot]? with
      | none => exact Undisturbed.lift fun _ _ => trivial
      | some definition =>
        refine ⟨?_, fun _ _ _ _ => trivial⟩
        have hBody := undisturbed_bodyCodec hArena hSlot hBelow (ih _)
        simp only [keepOnce, if_neg (hBelow.not_mem hArena), hBody.run]
    · rw [if_neg hEq, if_neg hEq]
      exact ih underWay slot args hBelow

mutual

theorem undisturbed_typeCodec (hArena : Arena definitions) :
    (type : ClosedType) → type.Proper definitions → Undisturbed [] (fun _ => True)
      (typeCodec keepOnce definitions type) (typeCodec keepOnShelf definitions type)
  | .mk slot args, hType => by
      have hArgs : ∀ arg ∈ args, arg.Proper definitions := fun arg hArg =>
        hType.part hArena (.argument hArg)
      refine (undisturbed_typeInstances hArena args hArgs).bind ?_
      rintro instances rfl
      exact undisturbed_codecAt hArena definitions.length [] slot instances ⟨hType, by simp⟩

theorem undisturbed_typeInstances (hArena : Arena definitions) :
    (types : List ClosedType) → (∀ type ∈ types, type.Proper definitions) →
    Undisturbed [] (fun found => found.map Instance.type = types)
      (typeInstances keepOnce definitions types) (typeInstances keepOnShelf definitions types)
  | [], _ => Undisturbed.pure rfl
  | type :: rest, hTypes => by
      obtain ⟨hType, hRest⟩ := List.forall_mem_cons.1 hTypes
      refine (undisturbed_typeCodec hArena type hType).bind fun codec _ => ?_
      refine (undisturbed_typeInstances hArena rest hRest).bind ?_
      rintro instances rfl
      exact Undisturbed.pure rfl

end

/-- No proper type is asked for while its own codec is put together. -/
theorem ClosedType.Proper.watchedCodecOf_eq (hArena : Arena definitions) {type : ClosedType}
    (hType : type.Proper definitions) :
    watchedCodecOf definitions type = codecOf definitions type := by
  rw [← shelvedCodecOf_eq]
  show ((typeCodec keepOnce definitions type []) []).map Prod.fst = _
  rw [(undisturbed_typeCodec hArena type hType).run]
  rfl

end

/-! ## Types of compiled projects -/

/-- A type is put together from the types inside it. -/
structure ClosedType.Founded (models : Models) (type : ClosedType) : Prop where
  inRange : type.InRange models.definitions
  inside : ∀ inner, Part models.definitions type inner → inner.Proper models.definitions
  acyclic : ¬ Relation.TransGen (Part models.definitions) type type
  /-- The codec and the default of a type need those of the parts of its shape. Putting the codec
  together never comes back to the type. -/
  values : ∃ shape codec, type.shape? models.definitions = some shape ∧
    (∀ inner ∈ shape.parts, Part models.definitions type inner) ∧
    codecOf models.definitions type = some codec ∧
    shape.codec? (codecOf models.definitions) (type.describe models.definitions) = some codec ∧
    watchedCodecOf models.definitions type = some codec ∧
    defaultOf models type = .ok (shape.default (defaultValue models))
  /-- The check of a type needs the checks of the types of its fields and payloads. It always finds
  their parameters bound. -/
  check : checkVoid models.definitions models.definitions.length type =
      checkOnce models.definitions (checkVoid models.definitions models.definitions.length) type ∧
    checkVoid models.definitions models.definitions.length type ≠ .error .unboundParameter

/-- In a compiled project no chain of types goes inward without end. The types that a caller can get
have as many arguments as their definitions take, and so do the types inside such a type. Their
codecs, defaults and checks come from those of the types inside them, and nothing is read outside of
its bounds on the way. -/
theorem compile_founded {options : Schema.Options} {sources : List Schema.Source}
    {project : Project} (hCompile : compile options sources = .ok project) :
    (¬ ∃ chain : Nat → ClosedType, ∀ n, (chain n).Part project.definitions (chain (n + 1))) ∧
    (∀ type, Obtained project.toModels type → type.Proper project.definitions) ∧
    ∀ type : ClosedType, type.Proper project.definitions → type.Founded project.toModels := by
  have hArena := compile_arena hCompile
  obtain ⟨table, sorted, builder, hBehind⟩ := compile_behind hCompile
  refine ⟨?_, fun type hObtained => hObtained.proper hArena, fun type hType => ?_⟩
  · rintro ⟨chain, hChain⟩
    have hNone := wellFounded_iff_isEmpty_descending_chain.1 (ClosedType.wellFounded_part hArena)
    exact hNone.false ⟨chain, hChain⟩
  · have hInRange := hType.inRange hArena
    obtain ⟨shape, codec, hShape, hCodec, hSame⟩ := hType.codec hArena
    refine ⟨hInRange, fun inner => hType.part hArena, ClosedType.not_transGen_part_self hArena type,
      ⟨shape, codec, hShape, fun inner => ClosedType.part_of_mem_parts hShape, hSame, hCodec, ?_,
        hType.defaultValue_eq hArena hShape⟩, checkVoid_eq hArena hInRange.slot, ?_⟩
    · rw [hType.watchedCodecOf_eq hArena, hSame]
    · intro hUnbound
      have hOutcome := checkVoid_outcome hArena
        (fun _ hProper hNone => not_holdsVoid_of_args_eq_nil hBehind hProper hNone) hType
        hInRange.slot
      rw [hUnbound] at hOutcome
      obtain ⟨_, _, _, hError⟩ := hOutcome
      cases hError

/-- A bag of the luggage for its own array of bags. The argument has a later definition than the
type. -/
def bagOfBags : ClosedType := .mk 17 [.mk 18 [.mk 11 []]]

theorem bagOfBags_founded :
    Obtained Luggage.models bagOfBags ∧ bagOfBags.Founded Luggage.models := by
  have hString : Obtained Luggage.models (.mk 11 []) :=
    .builtin (show ofBuiltin? .string = _ from rfl)
  have hBags : slotNamed? Luggage.models "app.Bags" = some 18 := by cbv
  have hBag : slotNamed? Luggage.models "app.Bag" = some 17 := by cbv
  have hInner : resolve Luggage.models "app.Bags" [.mk 11 []] = .ok (.mk 18 [.mk 11 []]) := by cbv
  have hOuter : resolve Luggage.models "app.Bag" [.mk 18 [.mk 11 []]] = .ok bagOfBags := by cbv
  have hArg : Obtained Luggage.models (.mk 18 [.mk 11 []]) :=
    .answer (hInner ▸ .named hBags rfl rfl) (List.forall_mem_singleton.2 hString)
  have hObtained : Obtained Luggage.models bagOfBags :=
    .answer (hOuter ▸ .named hBag rfl rfl) (List.forall_mem_singleton.2 hArg)
  obtain ⟨_, hProper, hFounded⟩ := compile_founded (Luggage.compiles.compile {})
  exact ⟨hObtained, hFounded bagOfBags (hProper bagOfBags hObtained)⟩

end Interchange.Wire

import Interchange.Proofs.Schema.Arena
import Interchange.Wire.TypeCodec
import Mathlib.Logic.Relation

/-!
# What closed types are made of

A closed type is a definition with its parameters bound. Binding them in the references of the
definition gives the types of its fields or payloads, and together with the kind of the definition
this is the shape of the type: all that its values depend on.

* `ClosedType.Proper`: a type with as many arguments as its definition takes, at every depth.
* `ClosedType.shape?`: the shape of a type.
* `ClosedType.Unfolds`, `ClosedType.HoldsVoid`: what is met when a type is written out in full.
* `shape?_ascending`: the parts of a shape stand in the order of their numbers.
* `Proper.part`: what stands inside a proper type is proper.
-/

namespace Interchange.Wire

open Schema

/-! ## Proper types -/

namespace ClosedType

/-- A definition of the list with as many arguments as it takes. -/
inductive Proper (definitions : List Definition) : ClosedType → Prop
  | mk {slot : Nat} {args : List ClosedType} {definition : Definition}
      (hSlot : definitions[slot]? = some definition) (hArity : args.length = definition.arity)
      (hArgs : ∀ arg ∈ args, Proper definitions arg) : Proper definitions (.mk slot args)

end ClosedType

/-- Binding the parameters of references, one by one. -/
theorem closeAll_eq_some {bindings : List ClosedType} {references : List TypeRef}
    {types : List ClosedType} : TypeRef.closeAll bindings references = some types ↔
      List.Forall₂ (fun reference type => reference.close bindings =
        some type) references types := by
  induction references generalizing types with
  | nil => simp [TypeRef.closeAll, eq_comm]
  | cons reference rest ih =>
    rw [TypeRef.closeAll, List.forall₂_cons_left_iff]
    constructor
    · intro hAll
      split at hAll
      next type others hFirst hRest =>
        cases hAll
        exact ⟨type, others, hFirst, ih.1 hRest, rfl⟩
      next => cases hAll
    · rintro ⟨type, others, hFirst, hRest, rfl⟩
      rw [hFirst, ih.2 hRest]

/-- A reference that fits becomes a proper type. -/
theorem close_proper {definitions earlier : List Definition} {owner : Nat}
    {bindings : List ClosedType} {reference : TypeRef}
    (hEarlier : ∀ (slot : Nat) (definition : Definition), earlier[slot]? = some definition →
      definitions[slot]? = some definition)
    (hBindings : ∀ binding ∈ bindings, binding.Proper definitions)
    (hFits : reference.Fits earlier owner bindings.length) :
    ∃ type, reference.close bindings = some type ∧ type.Proper definitions := by
  induction hFits with
  | parameter hIndex =>
    refine ⟨_, List.getElem?_eq_getElem hIndex, hBindings _ (List.getElem_mem hIndex)⟩
  | @model site target args definition hTarget _ hArity _ ih =>
    obtain ⟨types, hTypes⟩ := exists_forall₂ ih
    refine ⟨.mk target types, ?_, .mk (hEarlier target definition hTarget) ?_ ?_⟩
    · rw [TypeRef.close, closeAll_eq_some.2 (hTypes.imp fun _ _ hPair => hPair.1)]
    · rw [← hTypes.length_eq, hArity]
    · intro type hType
      obtain ⟨_, _, _, hProper⟩ := exists_of_mem_right hTypes hType
      exact hProper

/-! ## Shapes -/

/-- What the values of a type are made of. -/
inductive Shape where
  | scalar (kind : Builtin)
  | string
  | bytes
  | array (element : ClosedType)
  | map (key value : ClosedType)
  | message (fields : List (ModelPart ClosedType))
  | tag (variants : List (ModelPart (Option ClosedType)))

namespace Shape

/-- The types that a shape refers to. -/
def parts : Shape → List ClosedType
  | scalar _ => []
  | string => []
  | bytes => []
  | array element => [element]
  | map key value => [key, value]
  | message fields => fields.map ModelPart.content
  | tag variants => variants.filterMap ModelPart.content

/-- The numbers of the fields or variants. -/
def numbers : Shape → List UInt32
  | message fields => fields.map ModelPart.number
  | tag variants => variants.map ModelPart.number
  | _ => []

/-- The shape of a built-in type for given arguments. An array of `uint8` is a byte string. -/
def ofBuiltin? (definitions : List Definition) : Builtin → List ClosedType → Option Shape
  | .string, _ => some .string
  | .array, [element] =>
    if element.builtin? definitions = some .uint8 then some .bytes else some (.array element)
  | .map, [key, value] => some (.map key value)
  | .array, _ => none
  | .map, _ => none
  | kind, _ => some (.scalar kind)

/-- A payload with its parameters bound, if there is one. -/
def closePayload (bindings : List ClosedType) : Option TypeRef → Option (Option ClosedType)
  | none => some none
  | some reference => (reference.close bindings).map some

/-- The shape of a definition for given arguments. -/
def ofDefinition? (definitions : List Definition) (definition : Definition)
    (args : List ClosedType) : Option Shape :=
  match definition.body with
  | .builtin kind => ofBuiltin? definitions kind args
  | .message fields _ => (partsWith (TypeRef.close args) fields).map .message
  | .tag variants _ => (partsWith (closePayload args) variants).map .tag

end Shape

namespace ClosedType

/-- The shape of a type. -/
def shape? (definitions : List Definition) (type : ClosedType) : Option Shape :=
  (definitions[type.slot]?).bind fun definition =>
    Shape.ofDefinition? definitions definition type.args

/-! ## Writing types out -/

/-- One type stands directly inside another: as an argument, or in a field or payload with the
parameters bound. -/
inductive Part (definitions : List Definition) : ClosedType → ClosedType → Prop
  | argument {slot : Nat} {args : List ClosedType} {arg : ClosedType} (hArg : arg ∈ args) :
      Part definitions (.mk slot args) arg
  | content {slot : Nat} {args : List ClosedType} {definition : Definition} {reference : TypeRef}
      {inner : ClosedType} (hSlot : definitions[slot]? = some definition)
      (hReference : reference ∈ definition.references)
      (hClose : reference.close args = some inner) : Part definitions (.mk slot args) inner

/-- One type is met when another is written out in full. -/
def Unfolds (definitions : List Definition) : ClosedType → ClosedType → Prop :=
  Relation.ReflTransGen (Part definitions)

/-- The type is an array or a map with `void` among its arguments. -/
def IsVoidContainer (definitions : List Definition) (type : ClosedType) : Prop :=
  (∃ kind, type.builtin? definitions = some kind ∧ kind.isContainer = true) ∧
    ∃ arg ∈ type.args, arg.builtin? definitions = some .void

/-- An array or a map inside a type has `void` among its arguments. -/
def HoldsVoid (definitions : List Definition) (type : ClosedType) : Prop :=
  ∃ inner, type.Unfolds definitions inner ∧ inner.IsVoidContainer definitions

/-- The types directly inside a type. -/
def inside (definitions : List Definition) (type : ClosedType) : List ClosedType :=
  type.args ++ ((definitions[type.slot]?).elim [] Definition.references).filterMap
    (TypeRef.close type.args)

theorem mem_inside {definitions : List Definition} {type inner : ClosedType} :
    inner ∈ type.inside definitions ↔ Part definitions type inner := by
  obtain ⟨slot, args⟩ := type
  rw [inside, List.mem_append, List.mem_filterMap]
  constructor
  · rintro (hArg | ⟨reference, hReference, hClose⟩)
    · exact .argument hArg
    · cases hSlot : definitions[slot]? with
      | none => simp [ClosedType.slot, hSlot] at hReference
      | some definition =>
        simp only [ClosedType.slot, hSlot, Option.elim_some] at hReference
        exact .content hSlot hReference hClose
  · intro hPart
    cases hPart with
    | argument hArg => exact Or.inl hArg
    | content hSlot hReference hClose =>
      refine Or.inr ⟨_, ?_, hClose⟩
      simpa only [ClosedType.slot, hSlot, Option.elim_some] using hReference

instance (definitions : List Definition) (type : ClosedType) :
    Decidable (type.IsVoidContainer definitions) :=
  decidable_of_iff ((type.builtin? definitions).any Builtin.isContainer = true ∧
    ∃ arg ∈ type.args, arg.builtin? definitions = some .void)
    (by rw [IsVoidContainer, Option.any_eq_true])

/-- Types that are closed under what stands inside them, and among which no array or map has `void`
as an argument, hold no `void`. -/
theorem not_holdsVoid_of_closed {definitions : List Definition} {types : List ClosedType}
    (hInside : ∀ type ∈ types, ∀ inner ∈ type.inside definitions, inner ∈ types)
    (hTypes : ∀ type ∈ types, ¬ type.IsVoidContainer definitions) {type : ClosedType}
    (hType : type ∈ types) : ¬ type.HoldsVoid definitions := by
  rintro ⟨inner, hUnfolds, hVoid⟩
  have hInner : inner ∈ types := by
    clear hVoid
    induction hUnfolds with
    | refl => exact hType
    | tail _ hPart ih => exact hInside _ ih _ (mem_inside.2 hPart)
  exact hTypes inner hInner hVoid

theorem HoldsVoid.of_part {definitions : List Definition} {type inner : ClosedType}
    (hPart : Part definitions type inner) (hInner : inner.HoldsVoid definitions) :
    type.HoldsVoid definitions := by
  obtain ⟨other, hUnfolds, hVoid⟩ := hInner
  exact ⟨other, .head hPart hUnfolds, hVoid⟩

end ClosedType

/-! ## Parts of shapes -/

theorem partsWith_eq_some {α β : Type} {content : α → Option β} {parts : List (ModelPart α)}
    {others : List (ModelPart β)} : partsWith content parts = some others ↔
      List.Forall₂ (ModelPart.Related fun a b => content a = some b) parts others := by
  induction parts generalizing others with
  | nil => simp [partsWith, eq_comm]
  | cons part rest ih =>
    simp only [partsWith, Option.bind_eq_bind, Option.bind_eq_some_iff, Option.pure_def,
      Option.some.injEq, ih, List.forall₂_cons_left_iff]
    constructor
    · rintro ⟨first, hFirst, others, hRest, rfl⟩
      exact ⟨_, others, ⟨rfl, rfl, hFirst⟩, hRest, rfl⟩
    · rintro ⟨⟨number, name, first⟩, others, ⟨rfl, rfl, hFirst⟩, hRest, rfl⟩
      exact ⟨first, hFirst, others, hRest, rfl⟩

theorem closePayload_eq_some {bindings : List ClosedType} {payload : Option TypeRef}
    {closed : ClosedType} (hClose : Shape.closePayload bindings payload = some (some closed)) :
    ∃ reference, payload = some reference ∧ reference.close bindings = some closed := by
  cases payload with
  | none => cases hClose
  | some reference =>
    obtain ⟨_, hReference, hEq⟩ := Option.map_eq_some_iff.1 hClose
    cases hEq
    exact ⟨reference, rfl, hReference⟩

/-- The parts of a built-in type are among its arguments. -/
theorem mem_args_of_ofBuiltin? {definitions : List Definition} {kind : Builtin}
    {args : List ClosedType} {shape : Shape}
    (hShape : Shape.ofBuiltin? definitions kind args = some shape) :
    ∀ inner ∈ shape.parts, inner ∈ args := by
  unfold Shape.ofBuiltin? at hShape
  split at hShape
  · cases hShape
    simp [Shape.parts]
  · split at hShape
    all_goals
      cases hShape
      simp [Shape.parts]
  all_goals
    cases hShape
  all_goals simp [Shape.parts]

theorem numbers_of_ofBuiltin? {definitions : List Definition} {kind : Builtin}
    {args : List ClosedType} {shape : Shape}
    (hShape : Shape.ofBuiltin? definitions kind args = some shape) : shape.numbers = [] := by
  unfold Shape.ofBuiltin? at hShape
  split at hShape
  · cases hShape
    rfl
  · split at hShape
    all_goals
      cases hShape
      rfl
  all_goals
    cases hShape
  all_goals rfl

/-- The built-in types of fixed shape. -/
theorem scalar_of_ofBuiltin? {definitions : List Definition} {builtin kind : Builtin}
    {args : List ClosedType}
    (hShape : Shape.ofBuiltin? definitions builtin args = some (.scalar kind)) :
    builtin = kind ∧ (Scalar.zero kind).kind = kind := by
  unfold Shape.ofBuiltin? at hShape
  split at hShape
  next => cases hShape
  next => split at hShape <;> cases hShape
  next => cases hShape
  next => cases hShape
  next => cases hShape
  next hString hArray hMap _ _ =>
    cases hShape
    refine ⟨rfl, ?_⟩
    cases builtin with
    | string => exact absurd rfl hString
    | array => exact absurd rfl hArray
    | map => exact absurd rfl hMap
    | _ => rfl

/-- The arguments of an array or a map are its parts. -/
theorem container_of_ofBuiltin? {definitions : List Definition} {builtin : Builtin}
    {args : List ClosedType} {shape : Shape}
    (hShape : Shape.ofBuiltin? definitions builtin args = some shape) (hParts : shape.parts ≠ []) :
    builtin.isContainer = true ∧ shape.parts = args := by
  unfold Shape.ofBuiltin? at hShape
  split at hShape
  next =>
    cases hShape
    exact absurd rfl hParts
  next =>
    split at hShape
    · cases hShape
      exact absurd rfl hParts
    · cases hShape
      exact ⟨rfl, rfl⟩
  next =>
    cases hShape
    exact ⟨rfl, rfl⟩
  next => cases hShape
  next => cases hShape
  next =>
    cases hShape
    exact absurd rfl hParts

namespace ClosedType

/-- A shape that is neither a message nor a tag is that of a built-in type. -/
theorem exists_builtin {definitions : List Definition} {type : ClosedType} {shape : Shape}
    (hShape : type.shape? definitions = some shape) (hFields : ∀ fields, shape ≠ .message fields)
    (hVariants : ∀ variants, shape ≠ .tag variants) :
    ∃ kind, type.builtin? definitions = some kind ∧
      Shape.ofBuiltin? definitions kind type.args = some shape := by
  obtain ⟨definition, hSlot, hShape⟩ := Option.bind_eq_some_iff.1 hShape
  rw [Shape.ofDefinition?] at hShape
  split at hShape
  next kind hBody =>
    refine ⟨kind, ?_, hShape⟩
    rw [builtin?, hSlot, Option.bind_some, Definition.builtin?, hBody]
  next =>
    obtain ⟨parts, _, rfl⟩ := Option.map_eq_some_iff.1 hShape
    exact absurd rfl (hFields parts)
  next =>
    obtain ⟨parts, _, rfl⟩ := Option.map_eq_some_iff.1 hShape
    exact absurd rfl (hVariants parts)

theorem scalar_of_shape? {definitions : List Definition} {type : ClosedType} {kind : Builtin}
    (hShape : type.shape? definitions = some (.scalar kind)) :
    type.builtin? definitions = some kind ∧ (Scalar.zero kind).kind = kind := by
  obtain ⟨builtin, hBuiltin, hShape⟩ := exists_builtin hShape (by simp) (by simp)
  obtain ⟨rfl, hZero⟩ := scalar_of_ofBuiltin? hShape
  exact ⟨hBuiltin, hZero⟩

/-- An array or a map of which `void` is a part holds `void`. -/
theorem holdsVoid_of_shape? {definitions : List Definition}
    {type inner : ClosedType} {shape : Shape} (hShape : type.shape? definitions = some shape)
    (hFields : ∀ fields, shape ≠ .message fields) (hVariants : ∀ variants, shape ≠ .tag variants)
    (hInner : inner ∈ shape.parts) (hVoid : inner.builtin? definitions = some .void) :
    type.HoldsVoid definitions := by
  obtain ⟨kind, hKind, hShape⟩ := exists_builtin hShape hFields hVariants
  obtain ⟨hContainer, hParts⟩ :=
    container_of_ofBuiltin? hShape (List.ne_nil_of_mem hInner)
  exact ⟨type, .refl, ⟨kind, hKind, hContainer⟩, inner, hParts ▸ hInner, hVoid⟩

/-- The parts of the shape stand inside the type. -/
theorem part_of_mem_parts {definitions : List Definition} {type inner : ClosedType} {shape : Shape}
    (hShape : type.shape? definitions = some shape) (hInner : inner ∈ shape.parts) :
    Part definitions type inner := by
  obtain ⟨slot, args⟩ := type
  obtain ⟨definition, hSlot, hShape⟩ := Option.bind_eq_some_iff.1 hShape
  have hSlot : definitions[slot]? = some definition := hSlot
  rw [Shape.ofDefinition?] at hShape
  split at hShape
  next kind hBody => exact .argument (mem_args_of_ofBuiltin? hShape inner hInner)
  next fields retired hBody =>
    obtain ⟨parts, hParts, rfl⟩ := Option.map_eq_some_iff.1 hShape
    obtain ⟨part, hPart, rfl⟩ := List.mem_map.1 hInner
    obtain ⟨field, hField, hRelated⟩ := exists_of_mem_right (partsWith_eq_some.1 hParts) hPart
    refine .content hSlot ?_ hRelated.content
    rw [Definition.references, hBody]
    exact List.mem_map_of_mem hField
  next variants retired hBody =>
    obtain ⟨parts, hParts, rfl⟩ := Option.map_eq_some_iff.1 hShape
    obtain ⟨part, hPart, hContent⟩ := List.mem_filterMap.1 hInner
    obtain ⟨variant, hVariant, hRelated⟩ := exists_of_mem_right (partsWith_eq_some.1 hParts) hPart
    have hClose := hRelated.content
    rw [hContent] at hClose
    obtain ⟨reference, hReference, hClose⟩ := closePayload_eq_some hClose
    refine .content hSlot ?_ hClose
    rw [Definition.references, hBody]
    exact List.mem_filterMap.2 ⟨variant, hVariant, hReference⟩

/-- Fields and variants of a shape are sorted by number. -/
theorem shape?_ascending {definitions : List Definition} (hArena : Arena definitions)
    {type : ClosedType} {shape : Shape} (hShape : type.shape? definitions = some shape) :
    shape.numbers.Pairwise (· < ·) := by
  obtain ⟨definition, hSlot, hShape⟩ := Option.bind_eq_some_iff.1 hShape
  have hAscending := hArena.ascending definition (List.mem_of_getElem? hSlot)
  rw [Shape.ofDefinition?] at hShape
  rw [Definition.numbers] at hAscending
  split at hShape
  next kind hBody =>
    rw [numbers_of_ofBuiltin? hShape]
    exact .nil
  next fields retired hBody =>
    obtain ⟨parts, hParts, rfl⟩ := Option.map_eq_some_iff.1 hShape
    rw [hBody] at hAscending
    rw [Shape.numbers, map_eq_map_of_forall₂ (partsWith_eq_some.1 hParts)
      fun _ _ _ hRelated => hRelated.number]
    exact hAscending
  next variants retired hBody =>
    obtain ⟨parts, hParts, rfl⟩ := Option.map_eq_some_iff.1 hShape
    rw [hBody] at hAscending
    rw [Shape.numbers, map_eq_map_of_forall₂ (partsWith_eq_some.1 hParts)
      fun _ _ _ hRelated => hRelated.number]
    exact hAscending

theorem shape?_nodup {definitions : List Definition} (hArena : Arena definitions)
    {type : ClosedType} {shape : Shape} (hShape : type.shape? definitions = some shape) :
    shape.numbers.Nodup :=
  (shape?_ascending hArena hShape).imp fun hLess => UInt32.ne_of_lt hLess

/-- The types of the fields and payloads of a proper type are proper. -/
theorem Proper.exists_close {definitions : List Definition}
    (hArena : Arena definitions) {slot : Nat} {args : List ClosedType} {definition : Definition}
    {reference : TypeRef} (hType : (ClosedType.mk slot args).Proper definitions)
    (hSlot : definitions[slot]? = some definition)
    (hReference : reference ∈ definition.references) :
    ∃ inner, reference.close args = some inner ∧ inner.Proper definitions := by
  cases hType with
  | mk hFound hArity hArgs =>
    cases hFound.symm.trans hSlot
    have hFits := hArena.references slot definition hSlot reference hReference
    rw [← hArity] at hFits
    exact close_proper (fun _ _ hTake => (getElem?_of_take hTake).2) hArgs hFits

/-- What stands inside a proper type is proper. -/
theorem Proper.part {definitions : List Definition} (hArena : Arena definitions)
    {type inner : ClosedType} (hType : type.Proper definitions)
    (hPart : Part definitions type inner) :
    inner.Proper definitions := by
  cases hPart with
  | argument hArg =>
    cases hType with
    | mk _ _ hArgs => exact hArgs inner hArg
  | content hSlot hReference hClose =>
    obtain ⟨closed, hClosed, hProper⟩ := hType.exists_close hArena hSlot hReference
    cases hClosed.symm.trans hClose
    exact hProper

/-- The parts of the shape of a proper type are proper. -/
theorem Proper.of_mem_parts {definitions : List Definition} (hArena : Arena definitions)
    {type inner : ClosedType} {shape : Shape} (hType : type.Proper definitions)
    (hShape : type.shape? definitions = some shape) (hInner : inner ∈ shape.parts) :
    inner.Proper definitions :=
  hType.part hArena (part_of_mem_parts hShape hInner)

theorem Proper.unfolds {definitions : List Definition} (hArena : Arena definitions)
    {type inner : ClosedType} (hType : type.Proper definitions)
    (hUnfolds : type.Unfolds definitions inner) : inner.Proper definitions := by
  induction hUnfolds with
  | refl => exact hType
  | tail _ hPart ih => exact ih.part hArena hPart

end ClosedType

end Interchange.Wire

import Interchange.Proofs.Schema.Building
import Interchange.Proofs.Schema.DependencyOrder

/-!
# Definitions in their places

Definitions refer to one another by place. The built-in types stand first, and every reference of a
definition is one of its own parameters or leads to an earlier place, is of the kind of the
definition there and has as many arguments as that takes. Parts stand in the order of their numbers.

* `TypeRef.Fits`: a reference that leads to earlier places only.
* `Arena`: a list of definitions in which all of this holds.
* `add_arena`: one more declaration.
* `compile_arena`: the definitions of a project.
-/

namespace Interchange.Schema

/-- A reference in the definition at place `owner`, which has `arity` parameters, behind the
definitions `earlier`. -/
inductive TypeRef.Fits (earlier : List Definition) (owner arity : Nat) : TypeRef → Prop
  | parameter {slot index : Nat} {name : String} (hIndex : index < arity) :
      Fits earlier owner arity (.parameter slot owner index name)
  | model {site : UseSite} {target : Nat} {args : List TypeRef} {definition : Definition}
      (hTarget : earlier[target]? = some definition) (hKind : site.kind = definition.kind)
      (hArity : args.length = definition.arity)
      (hArgs : ∀ arg ∈ args, Fits earlier owner arity arg) :
      Fits earlier owner arity (.model site target args)

namespace Definition

/-- The types of the fields or payloads, in the order of their numbers. -/
def references (definition : Definition) : List TypeRef :=
  match definition.body with
  | .builtin _ => []
  | .message fields _ => fields.map ModelPart.content
  | .tag variants _ => variants.filterMap ModelPart.content

/-- The numbers of the fields or variants. -/
def numbers (definition : Definition) : List UInt32 :=
  match definition.body with
  | .builtin _ => []
  | .message fields _ => fields.map ModelPart.number
  | .tag variants _ => variants.map ModelPart.number

end Definition

/-- Definitions in their places. -/
structure Arena (definitions : List Definition) : Prop where
  builtins : ∀ kind : Builtin, definitions[kind.index]? = some (.ofBuiltin kind)
  kinds : ∀ (slot : Nat) (definition : Definition) (kind : Builtin),
    definitions[slot]? = some definition → definition.body = .builtin kind → slot = kind.index
  references : ∀ (slot : Nat) (definition : Definition), definitions[slot]? = some definition →
    ∀ reference ∈ definition.references,
      reference.Fits (definitions.take slot) slot definition.arity
  ascending : ∀ definition ∈ definitions, definition.numbers.Pairwise (· < ·)

/-- What stands in a list with one more entry. -/
theorem getElem?_snoc_cases {α : Type} {xs : List α} {x y : α} {i : Nat}
    (hGet : (xs ++ [x])[i]? = some y) :
    (i < xs.length ∧ xs[i]? = some y) ∨ (i = xs.length ∧ y = x) := by
  rw [List.getElem?_append] at hGet
  split at hGet
  next hLess => exact Or.inl ⟨hLess, hGet⟩
  next hLess =>
    rw [List.getElem?_singleton] at hGet
    split at hGet
    next hZero =>
      cases hGet
      exact Or.inr ⟨by omega, rfl⟩
    next => cases hGet

theorem getElem?_of_take {α : Type} {xs : List α} {x : α} {bound i : Nat}
    (hTake : (xs.take bound)[i]? = some x) : i < bound ∧ xs[i]? = some x := by
  rw [List.getElem?_take] at hTake
  split at hTake
  next hLess => exact ⟨hLess, hTake⟩
  next => cases hTake

namespace Arena

theorem start : Arena (Builtin.all.map Definition.ofBuiltin) where
  builtins kind := by cases kind <;> rfl
  kinds slot definition kind hSlot hBody := by
    rw [List.getElem?_map, Option.map_eq_some_iff] at hSlot
    obtain ⟨other, hSlot, rfl⟩ := hSlot
    cases hBody
    have hIndex := Builtin.all_getElem?_index kind
    have hSlotLess := (List.getElem?_eq_some_iff.1 hSlot).1
    exact (List.getElem?_inj hSlotLess (by decide)).1 (hSlot.trans hIndex.symm)
  references slot definition hSlot := by
    rw [List.getElem?_map, Option.map_eq_some_iff] at hSlot
    obtain ⟨other, _, rfl⟩ := hSlot
    simp [Definition.references, Definition.ofBuiltin]
  ascending definition hMem := by
    obtain ⟨kind, _, rfl⟩ := List.mem_map.1 hMem
    simp [Definition.numbers, Definition.ofBuiltin]

/-- One more definition behind the others. -/
theorem snoc {definitions : List Definition} {definition : Definition} (hArena : Arena definitions)
    (hPlain : definition.builtin? = none)
    (hReferences : ∀ reference ∈ definition.references,
      reference.Fits definitions definitions.length definition.parameters.length)
    (hAscending : definition.numbers.Pairwise (· < ·)) : Arena (definitions ++ [definition]) where
  builtins kind := by
    have hOld := hArena.builtins kind
    rw [List.getElem?_append_left (List.getElem?_eq_some_iff.1 hOld).1]
    exact hOld
  kinds slot other kind hSlot hBody := by
    rcases getElem?_snoc_cases hSlot with ⟨_, hOld⟩ | ⟨_, rfl⟩
    · exact hArena.kinds slot other kind hOld hBody
    · rw [Definition.builtin?, hBody] at hPlain
      cases hPlain
  references slot other hSlot := by
    rcases getElem?_snoc_cases hSlot with ⟨hLess, hOld⟩ | ⟨rfl, rfl⟩
    · rw [List.take_append_of_le_length (by omega)]
      exact hArena.references slot other hOld
    · rw [List.take_left' rfl, Definition.arity_of_builtin?_eq_none hPlain]
      exact hReferences
  ascending other hMem := by
    rcases List.mem_append.1 hMem with hMem | hMem
    · exact hArena.ascending other hMem
    · obtain rfl := List.mem_singleton.1 hMem
      exact hAscending

end Arena

/-! ## Placing types -/

namespace Builder

/-- The definitions that are built. -/
def definitions (builder : Builder) : List Definition :=
  builder.built.map Built.definition

/-- A definition that is found stands at the place of its name. -/
theorem getElem?_slotOf {builder : Builder} {identifier : Identifier} {built : Built}
    (hFind : builder.find? identifier = some built) :
    builder.definitions[builder.slotOf identifier]? = some built.definition := by
  rw [definitions, List.getElem?_map]
  rw [find?, List.find?_eq_getElem?_findIdx] at hFind
  rw [slotOf, hFind]
  rfl

theorem kindOf_eq {builder : Builder} {identifier : Identifier} {built : Built}
    (hFind : builder.find? identifier = some built) :
    builder.kindOf identifier = built.definition.kind := by
  rw [kindOf, hFind]

/-- The parameters of the definition at place `owner`. -/
def OwnParameters (owner arity : Nat) (parameters : List TypeRef) : Prop :=
  ∀ index < arity, ∃ slot name, parameters[index]? = some (.parameter slot owner index name)

theorem ownParameters_placeParameters (owner next : Nat) (params : List String) :
    OwnParameters owner params.length (placeParameters owner next params) := by
  intro index hIndex
  exact ⟨next + index, params.get ⟨index, hIndex⟩, by simp [placeParameters, hIndex]⟩

/-- The reference of a type, with some numbers. -/
def Places (builder : Builder) (parameters : List TypeRef) (usage : Usage) (reference : TypeRef) :
    Prop :=
  ∃ next, reference = (builder.place parameters usage next).1

theorem placeAll_places (builder : Builder) (parameters : List TypeRef) (usages : List Usage)
    (next : Nat) :
    List.Forall₂ (builder.Places parameters) usages
      (builder.placeAll parameters usages next).1 := by
  induction usages generalizing next with
  | nil => exact .nil
  | cons usage rest ih => exact .cons ⟨next, rfl⟩ (ih _)

/-- The reference of a type that passes leads to earlier places. -/
theorem Passes.place_fits {builder : Builder} {owner arity : Nat} {parameters : List TypeRef}
    {usage : Usage} (hParameters : OwnParameters owner arity parameters)
    (hPasses : builder.Passes arity usage) (next : Nat) :
    (builder.place parameters usage next).1.Fits builder.definitions owner arity := by
  induction hPasses generalizing next with
  | parameter hIndex =>
    obtain ⟨slot, name, hOwn⟩ := hParameters _ hIndex
    rw [place, List.getD_eq_getElem?_getD, hOwn]
    exact .parameter hIndex
  | @model target args built hFind hArity _ _ ih =>
    have hPlaces := placeAll_places builder parameters args next
    refine .model (getElem?_slotOf hFind) (kindOf_eq hFind) (hPlaces.length_eq.symm.trans hArity) ?_
    intro placed hPlaced
    obtain ⟨arg, hArg, own, rfl⟩ := exists_of_mem_right hPlaces hPlaced
    exact ih arg hArg own

end Builder

/-! ## Placing parts -/

/-- Sorting by numbers puts them in ascending order. -/
theorem pairwise_mergeSort_le {α : Type} (key : α → UInt32) (xs : List α) :
    (xs.mergeSort fun a b => decide (key a ≤ key b)).Pairwise fun a b => key a ≤ key b := by
  have hSorted : (xs.mergeSort fun a b => decide (key a ≤ key b)).Pairwise
      fun a b => decide (key a ≤ key b) = true := by
    apply List.pairwise_mergeSort
    · intro a b c hab hbc
      simp only [decide_eq_true_eq] at *
      exact UInt32.le_trans hab hbc
    · intro a b
      simpa using UInt32.le_total (key a) (key b)
  exact hSorted.imp of_decide_eq_true

/-- Numbers that differ stand in strictly ascending order once they are sorted. -/
theorem mergeSort_ascending {α : Type} (key : α → UInt32) {xs : List α}
    (hKeys : (xs.map key).Nodup) :
    ((xs.mergeSort fun a b => decide (key a ≤ key b)).map key).Pairwise (· < ·) := by
  have hPerm : ((xs.mergeSort fun a b => decide (key a ≤ key b)).map key).Perm (xs.map key) :=
    (List.mergeSort_perm _ _).map key
  have hDiffer := List.pairwise_map.1 (hPerm.nodup_iff.2 hKeys)
  rw [List.pairwise_map]
  refine (pairwise_mergeSort_le key xs).imp₂ ?_ hDiffer
  intro a b hLe hNe
  exact UInt32.lt_of_le_of_ne hLe hNe

namespace ModelPart

variable {α β : Type}

/-- Parts with one number and one name whose contents are related. -/
structure Related (R : α → β → Prop) (part : ModelPart α) (other : ModelPart β) : Prop where
  number : other.number = part.number
  name : other.name = part.name
  content : R part.content other.content

theorem mem_sort {parts : List (ModelPart α)} {part : ModelPart α} :
    part ∈ sort parts ↔ part ∈ parts :=
  (List.mergeSort_perm _ _).mem_iff

/-- Parts with different numbers stand in strictly ascending order once they are sorted. -/
theorem sort_ascending {parts : List (ModelPart α)} (hNumbers : (parts.map number).Nodup) :
    ((sort parts).map number).Pairwise (· < ·) :=
  mergeSort_ascending number hNumbers

end ModelPart

namespace Builder

theorem placeFields_related (builder : Builder) (parameters : List TypeRef)
    (fields : List (ModelPart Usage)) (next : Nat) :
    List.Forall₂ (ModelPart.Related (builder.Places parameters)) fields
      (builder.placeFields parameters fields next).1 := by
  induction fields generalizing next with
  | nil => exact .nil
  | cons field rest ih => exact .cons ⟨rfl, rfl, next, rfl⟩ (ih _)

theorem placeVariants_related (builder : Builder) (parameters : List TypeRef)
    (variants : List (ModelPart (Option Usage))) (next : Nat) :
    List.Forall₂ (ModelPart.Related (Option.Rel (builder.Places parameters))) variants
      (builder.placeVariants parameters variants next).1 := by
  induction variants generalizing next with
  | nil => exact .nil
  | cons variant rest ih =>
    obtain ⟨number, name, payload⟩ := variant
    cases payload with
    | none => exact .cons ⟨rfl, rfl, .none⟩ (ih _)
    | some usage => exact .cons ⟨rfl, rfl, .some ⟨next, rfl⟩⟩ (ih _)

theorem definitions_push (builder : Builder) (definition : Definition) (usages : List Usage)
    (references : Nat) :
    (builder.push definition usages references).definitions =
      builder.definitions ++ [definition] := by
  simp [definitions, push]

/-- One more message. -/
theorem addMessage_arena {builder later : Builder} {identifier : Identifier} {params : List String}
    {fields : List (ModelPart Usage)} {retired : List UInt32} (hArena : Arena builder.definitions)
    (hRun : builder.addMessage identifier params fields retired = .ok later) :
    Arena later.definitions := by
  obtain ⟨next, hEq⟩ := addMessage_eq builder identifier params fields retired
  simp only [hEq, bind_eq_ok, pure_eq_ok] at hRun
  obtain ⟨_, hParts, _, _, rfl⟩ := hRun
  obtain ⟨hNumbers, _, _, hChecked⟩ := checkParts_eq_ok.1 hParts
  have hOwn := ownParameters_placeParameters builder.built.length builder.references params
  have hRelated := placeFields_related builder
    (placeParameters builder.built.length builder.references params) fields
    (builder.references + params.length)
  rw [definitions_push]
  refine hArena.snoc rfl ?_ ?_
  · intro reference hReference
    obtain ⟨part, hPart, rfl⟩ := List.mem_map.1 hReference
    obtain ⟨field, hField, hPlaced⟩ := exists_of_mem_right hRelated (ModelPart.mem_sort.1 hPart)
    obtain ⟨number, hContent⟩ := hPlaced.content
    have hFits := (passes_of_check _ (hChecked field hField)).place_fits hOwn number
    rw [hContent, messageDefinition, length_placeParameters]
    simpa [definitions] using hFits
  · refine ModelPart.sort_ascending ?_
    rw [map_eq_map_of_forall₂ hRelated fun _ _ _ hPlaced => hPlaced.number]
    exact hNumbers

/-- One more tag. -/
theorem addTag_arena {builder later : Builder} {identifier : Identifier} {params : List String}
    {variants : List (ModelPart (Option Usage))} {retired : List UInt32}
    (hArena : Arena builder.definitions)
    (hRun : builder.addTag identifier params variants retired = .ok later) :
    Arena later.definitions := by
  obtain ⟨next, hEq⟩ := addTag_eq builder identifier params variants retired
  simp only [hEq, bind_eq_ok, pure_eq_ok] at hRun
  obtain ⟨_, hParts, _, _, rfl⟩ := hRun
  obtain ⟨hNumbers, _, _, hChecked⟩ := checkParts_eq_ok.1 hParts
  have hOwn := ownParameters_placeParameters builder.built.length builder.references params
  have hRelated := placeVariants_related builder
    (placeParameters builder.built.length builder.references params) variants
    (builder.references + params.length)
  rw [definitions_push]
  refine hArena.snoc rfl ?_ ?_
  · intro reference hReference
    obtain ⟨part, hPart, hContent⟩ := List.mem_filterMap.1 hReference
    obtain ⟨variant, hVariant, hPlaced⟩ := exists_of_mem_right hRelated (ModelPart.mem_sort.1 hPart)
    have hPayload := hPlaced.content
    have hCheck := hChecked variant hVariant
    rw [hContent] at hPayload
    generalize variant.content = payload at hPayload hCheck
    cases hPayload with
    | some hPlaces =>
      obtain ⟨number, rfl⟩ := hPlaces
      have hFits := (passes_of_check _ hCheck).place_fits hOwn number
      rw [tagDefinition, length_placeParameters]
      simpa [definitions] using hFits
  · refine ModelPart.sort_ascending ?_
    rw [map_eq_map_of_forall₂ hRelated fun _ _ _ hPlaced => hPlaced.number]
    exact hNumbers

/-- One more declaration. -/
theorem add_arena {builder later : Builder} {resolved : Resolved}
    (hArena : Arena builder.definitions) (hRun : builder.add resolved = .ok later) :
    Arena later.definitions := by
  obtain ⟨identifier, body⟩ := resolved
  cases body with
  | builtin kind =>
    cases hRun
    exact hArena
  | message params fields retired => exact addMessage_arena hArena hRun
  | tag params variants retired => exact addTag_arena hArena hRun
  | service input output id =>
    obtain ⟨_, _, _, _, hBuilt, _⟩ := addService_eq_ok hRun
    rw [definitions, hBuilt]
    exact hArena

end Builder

/-! ## Projects -/

theorem build_arena {declarations : List Resolved} {models : Models}
    (hRun : Models.build declarations = .ok models) : Arena models.definitions := by
  obtain ⟨builder, hBuilder, hModels⟩ := bind_eq_ok.1 hRun
  cases hModels
  refine foldlM_invariant (fun builder => Arena builder.definitions) Arena.start ?_ hBuilder
  intro earlier resolved _ later hEarlier hStep
  exact Builder.add_arena hEarlier hStep

/-- The steps of a successful compilation. -/
theorem compile_eq_ok {options : Options} {sources : List Source} {project : Project} :
    compile options sources = .ok project ↔ ∃ files table resolved sorted models,
      parseFiles sources = .ok files ∧ Declaration.collect files = .ok table ∧
      Resolved.all table = .ok resolved ∧ sortDeclarations resolved = .ok sorted ∧
      Models.build sorted = .ok models ∧ models.toProject options = project := by
  rw [compile]
  constructor
  · intro hRun
    split at hRun
    · cases hRun
    next files hFiles =>
      obtain ⟨models, hModels, hProject⟩ := bind_eq_ok.1 hRun
      obtain ⟨table, hTable, hModels⟩ := bind_eq_ok.1 hModels
      obtain ⟨resolved, hResolved, hModels⟩ := bind_eq_ok.1 hModels
      obtain ⟨sorted, hSorted, hModels⟩ := bind_eq_ok.1 hModels
      exact ⟨files, table, resolved, sorted, models, hFiles, hTable, hResolved, hSorted, hModels,
        pure_eq_ok.1 hProject⟩
  · rintro ⟨files, table, resolved, sorted, models, hFiles, hTable, hResolved,
      hSorted, hModels, rfl⟩
    rw [hFiles]
    have hCompiled : compileFiles files = .ok models :=
      bind_eq_ok.2 ⟨table, hTable, bind_eq_ok.2 ⟨resolved, hResolved,
        bind_eq_ok.2 ⟨sorted, hSorted, hModels⟩⟩⟩
    exact bind_eq_ok.2 ⟨models, hCompiled, rfl⟩

/-- The definitions of a project. -/
theorem compile_arena {options : Options} {sources : List Source} {project : Project}
    (hRun : compile options sources = .ok project) : Arena project.definitions := by
  obtain ⟨_, _, _, _, models, _, _, _, _, hBuild, rfl⟩ := compile_eq_ok.1 hRun
  exact build_arena hBuild

end Interchange.Schema

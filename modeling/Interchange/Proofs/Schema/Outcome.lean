import Interchange.Proofs.Schema.Lookup
import Interchange.Proofs.Schema.Places

/-!
# What is built of a declaration

A definition lays out the parts of its declaration: the same parts, in the order of their numbers,
with references in the place of types. Services are kept as they are declared. Definitions that come
later change neither, because references lead to earlier places.

* `ModelPart.LaidOut`: the parts of a declaration in order.
* `Resolved.LaidOut`: the definition of a declaration.
* `Builder.Adds`: what one declaration adds.
* `add_adds`, `foldlM_laidOut`: one declaration, and all of them.
-/

namespace Interchange.Schema

namespace ModelPart

variable {α β : Type}

/-- The parts `placed` are those of a declaration once their contents are read back. They stand in
ascending order, and halving finds a part exactly under the declared numbers, the same as going
through all of them. -/
structure LaidOut (read : β → α) (declared : List (ModelPart α)) (placed : List (ModelPart β)) :
    Prop where
  perm : (placed.map (ModelPart.map read)).Perm declared
  ascending : (placed.map number).Pairwise (· < ·)
  search : ∀ number, search? placed number = find? placed number
  found : ∀ number, (search? placed number).isSome = true ↔
    number ∈ declared.map ModelPart.number

theorem find?_isSome {parts : List (ModelPart α)} {number : UInt32} :
    (find? parts number).isSome = true ↔ number ∈ parts.map ModelPart.number := by
  rw [find?, List.find?_isSome]
  simp

/-- Sorting lays out parts with different numbers. -/
theorem laidOut_sort {read : β → α} {declared : List (ModelPart α)} {placed : List (ModelPart β)}
    (hRead : placed.map (ModelPart.map read) = declared)
    (hNumbers : (declared.map number).Nodup) : LaidOut read declared (sort placed) := by
  have hSame : placed.map number = declared.map number := by
    rw [← hRead, List.map_map]
    rfl
  have hPerm : (sort placed).Perm placed := List.mergeSort_perm _ _
  have hAscending := sort_ascending (hSame ▸ hNumbers)
  refine ⟨hRead ▸ hPerm.map _, hAscending, search?_eq_find? hAscending, ?_⟩
  intro number
  rw [search?_eq_find? hAscending, find?_isSome, (hPerm.map ModelPart.number).mem_iff, hSame]

end ModelPart

/-- Retired ids are kept in ascending order, each of them once. -/
structure Retains (declared kept : List UInt32) : Prop where
  ascending : kept.Pairwise (· < ·)
  mem : ∀ id, id ∈ kept ↔ id ∈ declared

theorem retains_sortRetired (retired : List UInt32) :
    Retains retired (Builder.sortRetired retired) :=
  ⟨Builder.sortRetired_ascending retired, fun _ => Builder.mem_sortRetired⟩

/-- A definition says what a declaration says, once its references are read back. -/
def ResolvedBody.LaidOut (definitions : List Definition) : ResolvedBody → DefinitionBody → Prop
  | .builtin kind, .builtin other => kind = other
  | .message _ fields retired, .message placed kept =>
    ModelPart.LaidOut (TypeRef.usage definitions) fields placed ∧ Retains retired kept
  | .tag _ variants retired, .tag placed kept =>
    ModelPart.LaidOut (Option.map (TypeRef.usage definitions)) variants placed ∧
      Retains retired kept
  | _, _ => False

/-- The definition of a declaration. -/
structure Resolved.LaidOut (definitions : List Definition) (resolved : Resolved)
    (definition : Definition) : Prop where
  identifier : definition.identifier = resolved.identifier
  arity : definition.arity = resolved.body.arity
  body : resolved.body.LaidOut definitions definition.body

/-- The declaration that a service was made of. -/
def Service.resolved (definitions : List Definition) (service : Service) : Resolved :=
  ⟨service.identifier,
    .service (service.input.usage definitions) (service.output.usage definitions) service.id⟩

namespace Builder

/-- A reference stands for the type that it was made of, also once more definitions have come. -/
theorem Passes.place_usage_of_isPrefix {builder : Builder} {owner arity : Nat}
    {parameters : List TypeRef} {usage : Usage} {definitions : List Definition}
    (hParameters : OwnParameters owner arity parameters) (hPasses : builder.Passes arity usage)
    (hPrefix : builder.definitions <+: definitions) (next : Nat) :
    (builder.place parameters usage next).1.usage definitions = usage := by
  obtain ⟨more, rfl⟩ := hPrefix
  rw [(hPasses.place_fits hParameters next).usage_eq fun slot definition hSlot => ?_,
    hPasses.place_usage hParameters next]
  rw [List.getElem?_append_left (List.getElem?_eq_some_iff.1 hSlot).1]
  exact hSlot

/-! ## One declaration -/

/-- What one declaration adds to what is built. -/
inductive Adds (builder : Builder) : Resolved → Builder → Prop
  | builtin (identifier : Identifier) (kind : Builtin) :
      Adds builder ⟨identifier, .builtin kind⟩ builder
  | definition {resolved : Resolved} {later : Builder} {definition : Definition}
      (hModel : resolved.body.isService = false)
      (hDefinitions : later.definitions = builder.definitions ++ [definition])
      (hServices : later.services = builder.services)
      (hLaidOut : ∀ definitions, builder.definitions <+: definitions →
        resolved.LaidOut definitions definition) : Adds builder resolved later
  | service {resolved : Resolved} {later : Builder} {service : Service}
      (hService : resolved.body.isService = true)
      (hDefinitions : later.definitions = builder.definitions)
      (hServices : later.services = builder.services ++ [service])
      (hResolved : ∀ definitions, builder.definitions <+: definitions →
        service.resolved definitions = resolved) : Adds builder resolved later

theorem addMessage_adds {builder later : Builder} {identifier : Identifier} {params : List String}
    {fields : List (ModelPart Usage)} {retired : List UInt32}
    (hRun : builder.addMessage identifier params fields retired = .ok later) :
    builder.Adds ⟨identifier, .message params fields retired⟩ later := by
  obtain ⟨next, hEq⟩ := addMessage_eq builder identifier params fields retired
  simp only [hEq, bind_eq_ok, pure_eq_ok] at hRun
  obtain ⟨_, hParts, _, _, rfl⟩ := hRun
  obtain ⟨hNumbers, _, _, hChecked⟩ := checkParts_eq_ok.1 hParts
  refine .definition rfl (definitions_push ..) rfl fun definitions hPrefix => ?_
  refine ⟨rfl, length_placeParameters _ _ _, ?_, retains_sortRetired retired⟩
  refine ModelPart.laidOut_sort ?_ hNumbers
  have hOwn := ownParameters_placeParameters builder.built.length builder.references params
  have hRead := map_eq_map_of_forall₂ (g := ModelPart.map (TypeRef.usage definitions)) (f := id)
    (placeFields_related builder (placeParameters builder.built.length builder.references params)
      fields (builder.references + params.length)) (by
      intro field hField part hPlaced
      obtain ⟨own, hContent⟩ := hPlaced.content
      have hUsage :=
        (passes_of_check _ (hChecked field hField)).place_usage_of_isPrefix hOwn hPrefix own
      rw [ModelPart.map, hPlaced.number, hPlaced.name, hContent, hUsage]
      rfl)
  rwa [List.map_id] at hRead

theorem addTag_adds {builder later : Builder} {identifier : Identifier} {params : List String}
    {variants : List (ModelPart (Option Usage))} {retired : List UInt32}
    (hRun : builder.addTag identifier params variants retired = .ok later) :
    builder.Adds ⟨identifier, .tag params variants retired⟩ later := by
  obtain ⟨next, hEq⟩ := addTag_eq builder identifier params variants retired
  simp only [hEq, bind_eq_ok, pure_eq_ok] at hRun
  obtain ⟨_, hParts, _, _, rfl⟩ := hRun
  obtain ⟨hNumbers, _, _, hChecked⟩ := checkParts_eq_ok.1 hParts
  refine .definition rfl (definitions_push ..) rfl fun definitions hPrefix => ?_
  refine ⟨rfl, length_placeParameters _ _ _, ?_, retains_sortRetired retired⟩
  refine ModelPart.laidOut_sort ?_ hNumbers
  have hOwn := ownParameters_placeParameters builder.built.length builder.references params
  have hRead := map_eq_map_of_forall₂
    (g := ModelPart.map (Option.map (TypeRef.usage definitions))) (f := id)
    (placeVariants_related builder (placeParameters builder.built.length builder.references params)
      variants (builder.references + params.length)) (by
      intro variant hVariant part hPlaced
      have hCheck := hChecked variant hVariant
      have hPayload := hPlaced.content
      rw [ModelPart.map, hPlaced.number, hPlaced.name]
      obtain ⟨number, name, payload⟩ := variant
      generalize part.content = placed at hPayload
      cases hPayload with
      | none => rfl
      | some hPlaces =>
        obtain ⟨own, rfl⟩ := hPlaces
        have hUsage := (passes_of_check _ hCheck).place_usage_of_isPrefix hOwn hPrefix own
        rw [Option.map_some, hUsage]
        rfl)
  rwa [List.map_id] at hRead

theorem addService_adds {builder later : Builder} {identifier : Identifier} {input output : Usage}
    {id : UInt32} (hRun : builder.addService identifier input output id = .ok later) :
    builder.Adds ⟨identifier, .service input output id⟩ later := by
  obtain ⟨hPositive, hFree, hInput, hOutput, _⟩ := addService_eq_ok hRun
  have hNone : builder.services.find? (·.id == id) = none := by
    simpa using hFree
  rw [addService, if_neg hPositive, hNone] at hRun
  simp only [bind_eq_ok, pure_eq_ok] at hRun
  obtain ⟨_, _, _, _, rfl⟩ := hRun
  refine .service rfl rfl rfl fun definitions hPrefix => ?_
  have hOwn : OwnParameters 0 0 [] := fun index hIndex => absurd hIndex (Nat.not_lt_zero index)
  rw [Service.resolved, (passes_of_check input hInput).place_usage_of_isPrefix hOwn hPrefix,
    (passes_of_check output hOutput).place_usage_of_isPrefix hOwn hPrefix]

theorem add_adds {builder later : Builder} {resolved : Resolved}
    (hRun : builder.add resolved = .ok later) : builder.Adds resolved later := by
  obtain ⟨identifier, body⟩ := resolved
  cases body with
  | builtin kind =>
    cases hRun
    exact .builtin identifier kind
  | message params fields retired => exact addMessage_adds hRun
  | tag params variants retired => exact addTag_adds hRun
  | service input output id => exact addService_adds hRun

theorem Adds.isPrefix {builder later : Builder} {resolved : Resolved}
    (hAdds : builder.Adds resolved later) : builder.definitions <+: later.definitions := by
  cases hAdds with
  | builtin => exact List.prefix_rfl
  | definition _ hDefinitions => exact hDefinitions ▸ List.prefix_append _ _
  | service _ hDefinitions => exact hDefinitions ▸ List.prefix_rfl

/-! ## All declarations -/

/-- Definitions stay in their places. -/
theorem foldlM_isPrefix {more : List Resolved} {builder finish : Builder}
    (hRun : more.foldlM add builder = .ok finish) : builder.definitions <+: finish.definitions :=
  foldlM_invariant (fun later => builder.definitions <+: later.definitions) List.prefix_rfl
    (fun _ _ _ _ hPrefix hStep => hPrefix.trans (add_adds hStep).isPrefix) hRun

/-- What is there at the end was there before or lays out one of the declarations, and the services
are those before and the declared ones. -/
theorem foldlM_laidOut {more : List Resolved} {builder finish : Builder}
    (hRun : more.foldlM add builder = .ok finish) :
    (∀ definition ∈ finish.definitions, definition ∈ builder.definitions ∨
      ∃ resolved ∈ more, resolved.LaidOut finish.definitions definition) ∧
    finish.services.map (Service.resolved finish.definitions) =
      builder.services.map (Service.resolved finish.definitions) ++
        more.filter fun resolved => resolved.body.isService := by
  induction more generalizing builder with
  | nil =>
    cases hRun
    exact ⟨fun _ => Or.inl, by simp⟩
  | cons resolved more ih =>
    rw [List.foldlM_cons, bind_eq_ok] at hRun
    obtain ⟨middle, hStep, hRun⟩ := hRun
    obtain ⟨hDefinitions, hServices⟩ := ih hRun
    have hAdds := add_adds hStep
    have hPrefix := hAdds.isPrefix.trans (foldlM_isPrefix hRun)
    have hLater : ∀ definition ∈ finish.definitions, definition ∈ middle.definitions ∨
        ∃ other ∈ resolved :: more, other.LaidOut finish.definitions definition := by
      intro definition hMem
      refine (hDefinitions definition hMem).imp_right ?_
      rintro ⟨other, hOther, hLaidOut⟩
      exact ⟨other, List.mem_cons_of_mem _ hOther, hLaidOut⟩
    rw [hServices]
    cases hAdds with
    | builtin identifier kind => exact ⟨hLater, rfl⟩
    | definition hModel hMiddle hSame hLaidOut =>
      refine ⟨fun definition hMem => ?_, by rw [hSame, List.filter_cons_of_neg (by simp [hModel])]⟩
      rcases hLater definition hMem with hOld | hNew
      · rw [hMiddle] at hOld
        rcases List.mem_append.1 hOld with hOld | hOwn
        · exact Or.inl hOld
        · obtain rfl := List.mem_singleton.1 hOwn
          exact Or.inr ⟨resolved, List.mem_cons_self, hLaidOut _ hPrefix⟩
      · exact Or.inr hNew
    | service hService hSame hMiddle hResolved =>
      refine ⟨hSame ▸ hLater, ?_⟩
      have hKept : (resolved :: more).filter (fun resolved => resolved.body.isService) =
          resolved :: more.filter fun resolved => resolved.body.isService :=
        List.filter_cons_of_pos (by simp [hService])
      rw [hMiddle, List.map_append, List.map_singleton, hResolved _ hPrefix, hKept,
        List.append_assoc, List.singleton_append]

end Builder

end Interchange.Schema

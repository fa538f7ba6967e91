import Interchange.Proofs.Schema.Records

/-!
# Places and numbers

A project can be read without checks: every reference that a definition leads to is numbered below
the number of references, and is a parameter of the definition or leads to an earlier one. The
numbers are handed out in one sweep, so what is numbered once stays below the next free number.

* `TypeRef.Reaches`: what is met inside a reference.
* `TypeRef.Within`: all numbers of a reference are below a bound.
* `Passes.place_numbered`, `placeFields_numbered`, `placeVariants_numbered`: handing out numbers.
* `Builder.Seated`: places, numbers and names of what is built.
* `add_seated`, `foldlM_seated`: one declaration, and all of them.
* `compile_seated`: a project.
-/

namespace Interchange.Schema

/-! ## Inside references -/

namespace TypeRef

/-- One reference is met inside another, or is that reference. -/
def Reaches : TypeRef → TypeRef → Prop :=
  Relation.ReflTransGen fun outer inner => inner ∈ outer.args

/-- All numbers of a reference are below a bound. -/
inductive Within (bound : Nat) : TypeRef → Prop
  | parameter {slot owner index : Nat} {name : String} (hSlot : slot < bound) :
      Within bound (.parameter slot owner index name)
  | model {site : UseSite} {target : Nat} {args : List TypeRef} (hSlot : site.slot < bound)
      (hArgs : ∀ arg ∈ args, Within bound arg) : Within bound (.model site target args)

theorem Within.mono {bound later : Nat} {reference : TypeRef} (hWithin : reference.Within bound)
    (hLe : bound ≤ later) : reference.Within later := by
  induction hWithin with
  | parameter hSlot => exact .parameter (by omega)
  | model hSlot _ ih => exact .model (by omega) ih

theorem Within.slot_lt {bound : Nat} {reference : TypeRef} (hWithin : reference.Within bound) :
    reference.slot < bound := by
  cases hWithin with
  | parameter hSlot => exact hSlot
  | model hSlot _ => exact hSlot

theorem Within.reaches {bound : Nat} {reference inner : TypeRef} (hWithin : reference.Within bound)
    (hReaches : reference.Reaches inner) : inner.Within bound := by
  induction hReaches with
  | refl => exact hWithin
  | tail _ hArg ih =>
    cases ih with
    | parameter => simp [args] at hArg
    | model _ hArgs => exact hArgs _ hArg

theorem Fits.reaches {earlier : List Definition} {owner arity : Nat} {reference inner : TypeRef}
    (hFits : reference.Fits earlier owner arity) (hReaches : reference.Reaches inner) :
    inner.Fits earlier owner arity := by
  induction hReaches with
  | refl => exact hFits
  | tail _ hArg ih =>
    cases ih with
    | parameter => simp [args] at hArg
    | model _ _ _ hArgs => exact hArgs _ hArg

/-- More definitions behind the others leave a reference in its place. -/
theorem Fits.append {earlier : List Definition} {owner arity : Nat} {reference : TypeRef}
    (hFits : reference.Fits earlier owner arity) (more : List Definition) :
    reference.Fits (earlier ++ more) owner arity := by
  induction hFits with
  | parameter hIndex => exact .parameter hIndex
  | model hTarget hKind hArity _ ih =>
    refine .model ?_ hKind hArity ih
    rw [List.getElem?_append_left (List.getElem?_eq_some_iff.1 hTarget).1]
    exact hTarget

/-- What a reference in the definition at place `owner`, which has `arity` parameters, may be: one
of these parameters, or a use of an earlier definition, of its kind and with as many arguments as it
takes. -/
def StandsIn (definitions : List Definition) (owner arity : Nat) : TypeRef → Prop
  | .parameter _ place index _ => place = owner ∧ index < arity
  | .model site target args => target < owner ∧ ∃ definition,
      definitions[target]? = some definition ∧ site.kind = definition.kind ∧
        args.length = definition.arity

theorem Fits.standsIn {definitions : List Definition} {bound owner arity : Nat}
    {reference : TypeRef} (hFits : reference.Fits (definitions.take bound) owner arity)
    (hBound : bound ≤ owner) :
    reference.StandsIn definitions owner arity := by
  cases hFits with
  | parameter hIndex => exact ⟨rfl, hIndex⟩
  | model hTarget hKind hArity _ =>
    obtain ⟨hLess, hFound⟩ := getElem?_of_take hTarget
    exact ⟨by omega, _, hFound, hKind, hArity⟩

end TypeRef

/-! ## Handing out numbers -/

/-- References that are numbered from `next` on, with `later` as the next free number. Parameters
have their numbers from before. -/
structure Numbered (references : List TypeRef) (next later : Nat) : Prop where
  grown : next ≤ later
  within : ∀ reference ∈ references, reference.Within later

theorem numbered_nil (next : Nat) : Numbered [] next next :=
  ⟨Nat.le_refl next, by simp⟩

theorem Numbered.cons {reference : TypeRef} {references : List TypeRef} {next middle later : Nat}
    (hFirst : Numbered [reference] next middle) (hRest : Numbered references middle later) :
    Numbered (reference :: references) next later where
  grown := hFirst.grown.trans hRest.grown
  within := List.forall_mem_cons.2
    ⟨(hFirst.within reference List.mem_cons_self).mono hRest.grown, hRest.within⟩

namespace Builder

/-- Numbering some types one after the other, each of which can be numbered from `bound` on. -/
theorem placeAll_numbered {builder : Builder} {parameters : List TypeRef} {bound : Nat}
    {usages : List Usage}
    (hEach : ∀ usage ∈ usages, ∀ next, bound ≤ next →
      Numbered [(builder.place parameters usage next).1] next
        (builder.place parameters usage next).2)
    {next : Nat} (hBound : bound ≤ next) :
    Numbered (builder.placeAll parameters usages next).1 next
      (builder.placeAll parameters usages next).2 := by
  induction usages generalizing next with
  | nil => exact numbered_nil next
  | cons usage rest ih =>
    obtain ⟨hOwn, hOthers⟩ := List.forall_mem_cons.1 hEach
    have hFirst := hOwn next hBound
    exact hFirst.cons (ih hOthers (hBound.trans hFirst.grown))

/-- The reference of a type that passes. -/
theorem Passes.place_numbered {builder : Builder} {owner arity bound : Nat}
    {parameters : List TypeRef} {usage : Usage} (hOwn : OwnParameters owner arity parameters)
    (hParameters : ∀ parameter ∈ parameters, parameter.Within bound)
    (hPasses : builder.Passes arity usage) {next : Nat} (hBound : bound ≤ next) :
    Numbered [(builder.place parameters usage next).1] next
      (builder.place parameters usage next).2 := by
  induction hPasses generalizing next with
  | parameter hIndex =>
    obtain ⟨slot, name, hFound⟩ := hOwn _ hIndex
    have hWithin := hParameters _ (List.mem_of_getElem? hFound)
    refine ⟨Nat.le_refl next, List.forall_mem_singleton.2 ?_⟩
    rw [place, List.getD_eq_getElem?_getD, hFound]
    exact hWithin.mono hBound
  | @model target args built _ _ _ _ ih =>
    have hArgs := placeAll_numbered (fun arg hArg next => ih arg hArg) hBound
    refine ⟨hArgs.grown.trans (Nat.le_succ _), List.forall_mem_singleton.2 ?_⟩
    exact .model (Nat.lt_succ_self _) fun arg hArg => (hArgs.within arg hArg).mono (Nat.le_succ _)

theorem placeFields_numbered {builder : Builder} {parameters : List TypeRef} {bound : Nat}
    {fields : List (ModelPart Usage)}
    (hEach : ∀ field ∈ fields, ∀ next, bound ≤ next →
      Numbered [(builder.place parameters field.content next).1] next
        (builder.place parameters field.content next).2)
    {next : Nat} (hBound : bound ≤ next) :
    Numbered ((builder.placeFields parameters fields next).1.map ModelPart.content) next
      (builder.placeFields parameters fields next).2 := by
  induction fields generalizing next with
  | nil => exact numbered_nil next
  | cons field rest ih =>
    obtain ⟨hOwn, hOthers⟩ := List.forall_mem_cons.1 hEach
    have hFirst := hOwn next hBound
    exact hFirst.cons (ih hOthers (hBound.trans hFirst.grown))

theorem placeVariants_numbered {builder : Builder} {parameters : List TypeRef} {bound : Nat}
    {variants : List (ModelPart (Option Usage))}
    (hEach : ∀ variant ∈ variants, ∀ usage, variant.content = some usage → ∀ next, bound ≤ next →
      Numbered [(builder.place parameters usage next).1] next
        (builder.place parameters usage next).2)
    {next : Nat} (hBound : bound ≤ next) :
    Numbered ((builder.placeVariants parameters variants next).1.filterMap ModelPart.content) next
      (builder.placeVariants parameters variants next).2 := by
  induction variants generalizing next with
  | nil => exact numbered_nil next
  | cons variant rest ih =>
    obtain ⟨hOwn, hOthers⟩ := List.forall_mem_cons.1 hEach
    obtain ⟨number, name, payload⟩ := variant
    cases payload with
    | none => exact ih hOthers hBound
    | some usage =>
      have hFirst := hOwn usage rfl next hBound
      exact hFirst.cons (ih hOthers (hBound.trans hFirst.grown))

theorem placeParameters_within (owner next : Nat) (params : List String) :
    ∀ parameter ∈ placeParameters owner next params, parameter.Within (next + params.length) := by
  intro parameter hMem
  obtain ⟨⟨name, index⟩, hIndex, rfl⟩ := List.mem_map.1 hMem
  have hLess := (List.mem_zipIdx' hIndex).1
  exact .parameter (by omega)

theorem placeParameters_getElem? {owner next index : Nat} {params : List String}
    {reference : TypeRef} (hGet : (placeParameters owner next params)[index]? = some reference) :
    ∃ number name, reference = .parameter number owner index name := by
  rw [placeParameters, List.getElem?_map, Option.map_eq_some_iff] at hGet
  obtain ⟨⟨name, place⟩, hPlace, rfl⟩ := hGet
  rw [List.getElem?_zipIdx, Option.map_eq_some_iff] at hPlace
  obtain ⟨_, _, hPair⟩ := hPlace
  cases hPair
  exact ⟨next + (0 + index), name, by simp⟩

/-! ## What is built -/

end Builder

/-- A message or a tag, which gets a definition when it is built. -/
def Resolved.getsDefinition (resolved : Resolved) : Bool :=
  match resolved.body with
  | .message _ _ _ => true
  | .tag _ _ _ => true
  | _ => false

namespace Builder

/-- Places, numbers and names once the declarations `done` are built: definitions stand in the order
of their declarations, behind the built-in types, parameters know their place, and all numbers are
below the next free one. -/
structure Seated (done : List Resolved) (builder : Builder) : Prop where
  names : builder.definitions.map Definition.identifier =
    Builtin.all.map Builtin.identifier ++
      (done.filter Resolved.getsDefinition).map Resolved.identifier
  parameters : ∀ (slot : Nat) (definition : Definition),
    builder.definitions[slot]? = some definition → ∀ (index : Nat) (reference : TypeRef),
      definition.parameters[index]? = some reference →
        ∃ number name, reference = .parameter number slot index name
  numbers : ∀ definition ∈ builder.definitions,
    ∀ reference ∈ definition.parameters ++ definition.references,
      reference.Within builder.references
  services : ∀ service ∈ builder.services, ∀ reference ∈ [service.input, service.output],
    reference.Within builder.references ∧ reference.Fits builder.definitions 0 0

theorem seated_start : start.Seated [] where
  names := rfl
  parameters slot definition hSlot index reference hReference := by
    obtain ⟨built, hBuilt, rfl⟩ := List.mem_map.1 (List.mem_of_getElem? hSlot)
    obtain ⟨kind, _, rfl⟩ := List.mem_map.1 hBuilt
    cases hReference
  numbers definition hMem := by
    obtain ⟨built, hBuilt, rfl⟩ := List.mem_map.1 hMem
    obtain ⟨kind, _, rfl⟩ := List.mem_map.1 hBuilt
    simp [Built.ofBuiltin, Definition.ofBuiltin, Definition.references]
  services := by simp [start]

/-- One more definition. -/
theorem Seated.push {done : List Resolved} {builder : Builder} {resolved : Resolved}
    {definition : Definition} {params : List String} (hSeated : builder.Seated done)
    (hDefinition : resolved.getsDefinition = true)
    (hName : definition.identifier = resolved.identifier)
    (hParameters : definition.parameters =
      placeParameters builder.built.length builder.references params)
    (usages : List Usage) {later : Nat}
    (hNumbered : Numbered definition.references (builder.references + params.length) later) :
    (builder.push definition usages later).Seated (done ++ [resolved]) := by
  have hLe : builder.references ≤ later := by
    have hGrown := hNumbered.grown
    omega
  refine ⟨?_, ?_, ?_, ?_⟩
  · rw [definitions_push, List.map_append, hSeated.names, List.filter_append, List.map_append,
      List.append_assoc]
    simp [hDefinition, hName]
  · intro slot other hSlot index reference hReference
    rw [definitions_push] at hSlot
    rcases getElem?_snoc_cases hSlot with ⟨_, hOld⟩ | ⟨rfl, rfl⟩
    · exact hSeated.parameters slot other hOld index reference hReference
    · rw [hParameters] at hReference
      rw [definitions, List.length_map]
      exact placeParameters_getElem? hReference
  · intro other hOther reference hReference
    rw [definitions_push] at hOther
    rcases List.mem_append.1 hOther with hOld | hNew
    · exact (hSeated.numbers other hOld reference hReference).mono hLe
    · obtain rfl := List.mem_singleton.1 hNew
      rcases List.mem_append.1 hReference with hParameter | hContent
      · rw [hParameters] at hParameter
        exact (placeParameters_within _ _ params reference hParameter).mono hNumbered.grown
      · exact hNumbered.within reference hContent
  · intro service hService reference hReference
    obtain ⟨hWithin, hFits⟩ := hSeated.services service hService reference hReference
    rw [definitions_push]
    exact ⟨hWithin.mono hLe, hFits.append [definition]⟩

theorem addMessage_seated {done : List Resolved} {builder later : Builder} {identifier : Identifier}
    {params : List String} {fields : List (ModelPart Usage)} {retired : List UInt32}
    (hSeated : builder.Seated done)
    (hRun : builder.addMessage identifier params fields retired = .ok later) :
    later.Seated (done ++ [⟨identifier, .message params fields retired⟩]) := by
  simp only [addMessage, bind_eq_ok, pure_eq_ok] at hRun
  obtain ⟨_, hParts, _, _, rfl⟩ := hRun
  obtain ⟨_, _, _, hChecked⟩ := checkParts_eq_ok.1 hParts
  have hOwn := ownParameters_placeParameters builder.built.length builder.references params
  have hParameters := placeParameters_within builder.built.length builder.references params
  have hNumbered := placeFields_numbered (fun field hField next hBound =>
    (passes_of_check _ (hChecked field hField)).place_numbered hOwn hParameters hBound)
    (Nat.le_refl (builder.references + params.length))
  refine hSeated.push rfl rfl rfl _ ⟨hNumbered.grown, fun reference hReference => ?_⟩
  -- Sorting the fields does not change which references there are.
  have hPerm := (List.mergeSort_perm (builder.placeFields
    (placeParameters builder.built.length builder.references params) fields
    (builder.references + params.length)).1
    fun a b => decide (a.number ≤ b.number)).map ModelPart.content
  exact hNumbered.within reference (hPerm.mem_iff.1 hReference)

theorem addTag_seated {done : List Resolved} {builder later : Builder} {identifier : Identifier}
    {params : List String} {variants : List (ModelPart (Option Usage))} {retired : List UInt32}
    (hSeated : builder.Seated done)
    (hRun : builder.addTag identifier params variants retired = .ok later) :
    later.Seated (done ++ [⟨identifier, .tag params variants retired⟩]) := by
  simp only [addTag, bind_eq_ok, pure_eq_ok] at hRun
  obtain ⟨_, hParts, _, _, rfl⟩ := hRun
  obtain ⟨_, _, _, hChecked⟩ := checkParts_eq_ok.1 hParts
  have hOwn := ownParameters_placeParameters builder.built.length builder.references params
  have hParameters := placeParameters_within builder.built.length builder.references params
  have hPasses : ∀ variant ∈ variants, ∀ usage, variant.content = some usage →
      builder.Passes params.length usage := by
    intro variant hVariant usage hContent
    have hCheck := hChecked variant hVariant
    rw [hContent] at hCheck
    exact passes_of_check usage hCheck
  have hNumbered := placeVariants_numbered (fun variant hVariant usage hContent next hBound =>
    (hPasses variant hVariant usage hContent).place_numbered hOwn hParameters hBound)
    (Nat.le_refl (builder.references + params.length))
  refine hSeated.push rfl rfl rfl _ ⟨hNumbered.grown, fun reference hReference => ?_⟩
  have hPerm := (List.mergeSort_perm (builder.placeVariants
    (placeParameters builder.built.length builder.references params) variants
    (builder.references + params.length)).1
    fun a b => decide (a.number ≤ b.number)).filterMap ModelPart.content
  exact hNumbered.within reference (hPerm.mem_iff.1 hReference)

theorem addService_seated {done : List Resolved} {builder later : Builder} {identifier : Identifier}
    {input output : Usage} {id : UInt32} (hSeated : builder.Seated done)
    (hRun : builder.addService identifier input output id = .ok later) :
    later.Seated (done ++ [⟨identifier, .service input output id⟩]) := by
  obtain ⟨hPositive, hFree, hInput, hOutput, _⟩ := addService_eq_ok hRun
  have hNone : builder.services.find? (·.id == id) = none := by
    simpa using hFree
  rw [addService, if_neg hPositive, hNone] at hRun
  simp only [bind_eq_ok, pure_eq_ok] at hRun
  obtain ⟨_, _, _, _, rfl⟩ := hRun
  -- A service has no parameters, so nothing is numbered from before.
  have hOwn : OwnParameters 0 0 [] := fun index hIndex => absurd hIndex (Nat.not_lt_zero index)
  have hFirst := (passes_of_check input hInput).place_numbered hOwn (by simp)
    (Nat.zero_le builder.references)
  have hBoth := hFirst.cons ((passes_of_check output hOutput).place_numbered hOwn (by simp)
    (Nat.zero_le _))
  refine ⟨hSeated.names.trans ?_, hSeated.parameters, ?_, ?_⟩
  · rw [List.filter_append]
    simp [Resolved.getsDefinition]
  · intro definition hMem reference hReference
    exact (hSeated.numbers definition hMem reference hReference).mono hBoth.grown
  · intro service hService reference hReference
    rcases List.mem_append.1 hService with hOld | hNew
    · obtain ⟨hWithin, hFits⟩ := hSeated.services service hOld reference hReference
      exact ⟨hWithin.mono hBoth.grown, hFits⟩
    · obtain rfl := List.mem_singleton.1 hNew
      refine ⟨hBoth.within reference hReference, ?_⟩
      rcases List.mem_cons.1 hReference with rfl | hReference
      · exact (passes_of_check input hInput).place_fits hOwn _
      · obtain rfl := List.mem_singleton.1 hReference
        exact (passes_of_check output hOutput).place_fits hOwn _

/-- One more declaration. -/
theorem add_seated {done : List Resolved} {builder later : Builder} {resolved : Resolved}
    (hSeated : builder.Seated done) (hRun : builder.add resolved = .ok later) :
    later.Seated (done ++ [resolved]) := by
  obtain ⟨identifier, body⟩ := resolved
  cases body with
  | builtin kind =>
    cases hRun
    refine ⟨hSeated.names.trans ?_, hSeated.parameters, hSeated.numbers, hSeated.services⟩
    rw [List.filter_append]
    simp [Resolved.getsDefinition]
  | message params fields retired => exact addMessage_seated hSeated hRun
  | tag params variants retired => exact addTag_seated hSeated hRun
  | service input output id => exact addService_seated hSeated hRun

theorem foldlM_seated (done : List Resolved) {more : List Resolved} {builder finish : Builder}
    (hSeated : builder.Seated done) (hRun : more.foldlM add builder = .ok finish) :
    finish.Seated (done ++ more) := by
  induction more generalizing done builder with
  | nil =>
    cases hRun
    simpa using hSeated
  | cons resolved more ih =>
    rw [List.foldlM_cons, bind_eq_ok] at hRun
    obtain ⟨middle, hStep, hRun⟩ := hRun
    rw [List.append_cons]
    exact ih _ (add_seated hSeated hStep) hRun

end Builder

/-! ## Projects -/

namespace Models

theorem mem_declared {models : Models} {slot : Nat} {definition : Definition} :
    (slot, definition) ∈ models.declared ↔
      models.definitions[slot]? = some definition ∧ definition.builtin? = none := by
  simp only [declared, List.mem_map, List.mem_filter, List.mem_zipIdx_iff_getElem?, Prod.exists,
    Prod.swap_prod_mk, Prod.mk.injEq, Option.isNone_iff_eq_none]
  constructor
  · rintro ⟨_, _, hFound, rfl, rfl⟩
    exact hFound
  · intro hFound
    exact ⟨definition, slot, hFound, rfl, rfl⟩

/-- The places of the definitions that are not built in. -/
def declaredPlaces (definitions : List Definition) : List Nat :=
  (definitions.zipIdx.filter fun entry => entry.1.builtin?.isNone).map Prod.snd

theorem map_fst_declared (models : Models) :
    models.declared.map Prod.fst = declaredPlaces models.definitions := by
  rw [declared, List.map_map]
  rfl

theorem declaredPlaces_snoc (definitions : List Definition) {definition : Definition}
    (hPlain : definition.builtin? = none) :
    declaredPlaces (definitions ++ [definition]) =
      declaredPlaces definitions ++ [definitions.length] := by
  simp [declaredPlaces, List.zipIdx_append, hPlain]

/-- Definitions that are not built in are listed by place. -/
theorem declared_ascending (models : Models) :
    (models.declared.map Prod.fst).Pairwise (· < ·) := by
  have hSublist := (List.filter_sublist (l := models.definitions.zipIdx)
    (p := fun entry => entry.1.builtin?.isNone)).map Prod.snd
  rw [List.zipIdx_map_snd] at hSublist
  rw [map_fst_declared]
  exact List.Pairwise.sublist hSublist List.pairwise_lt_range'

/-- The place that is found under a full name holds a definition of that name. -/
theorem slot?_eq_some {models : Models} {identifier : Identifier} {slot : Nat}
    (hSlot : models.slot? identifier = some slot) : ∃ definition,
      models.definitions[slot]? = some definition ∧ definition.identifier = identifier := by
  rw [slot?, List.findIdx?_eq_some_iff_getElem] at hSlot
  obtain ⟨hLess, hName, _⟩ := hSlot
  exact ⟨_, List.getElem?_eq_getElem hLess, by simpa using hName⟩

theorem slot?_isSome {models : Models} {identifier : Identifier} :
    (models.slot? identifier).isSome = true ↔
      identifier ∈ models.definitions.map Definition.identifier := by
  rw [slot?, List.findIdx?_isSome]
  simp

end Models

/-- A declaration gets a definition, is built in, or is a service. -/
theorem Resolved.getsDefinition_iff {resolved : Resolved} :
    resolved.getsDefinition = true ↔
      resolved.body.isService = false ∧ ∀ kind, resolved.body ≠ .builtin kind := by
  obtain ⟨identifier, body⟩ := resolved
  cases body <;> simp [getsDefinition, ResolvedBody.isService]

/-- The full names of definitions are those of the declarations that are no services. -/
theorem Builder.Seated.mem_names {table sorted : List Resolved} {builder : Builder}
    (hSeated : builder.Seated sorted) (hTable : Resolved.Sound table) (hPerm : sorted.Perm table)
    {name : Identifier} :
    name ∈ builder.definitions.map Definition.identifier ↔ Resolved.IsModel table name := by
  rw [hSeated.names, List.mem_append]
  constructor
  · rintro (hBuiltin | hDeclared)
    · obtain ⟨kind, _, rfl⟩ := List.mem_map.1 hBuiltin
      exact ⟨_, hTable.builtins kind, rfl, rfl⟩
    · obtain ⟨resolved, hMem, rfl⟩ := List.mem_map.1 hDeclared
      obtain ⟨hMem, hModel⟩ := List.mem_filter.1 hMem
      exact ⟨resolved, hPerm.mem_iff.1 hMem, rfl, (Resolved.getsDefinition_iff.1 hModel).1⟩
  · rintro ⟨resolved, hMem, rfl, hModel⟩
    by_cases hKind : ∃ kind, resolved.body = .builtin kind
    · obtain ⟨kind, hKind⟩ := hKind
      rw [hTable.kinds resolved hMem kind hKind]
      exact Or.inl (List.mem_map_of_mem kind.mem_all)
    · refine Or.inr (List.mem_map_of_mem (List.mem_filter.2 ⟨hPerm.mem_iff.2 hMem, ?_⟩))
      exact Resolved.getsDefinition_iff.2 ⟨hModel, fun kind hBody => hKind ⟨kind, hBody⟩⟩

/-- Full names of definitions differ, also while declarations are still to come. -/
theorem Builder.Seated.names_nodup {table done : List Resolved} {builder : Builder}
    (hSeated : builder.Seated done) (hTable : Resolved.Sound table) (hSubset : done ⊆ table)
    (hNames : (done.map Resolved.identifier).Nodup) :
    (builder.definitions.map Definition.identifier).Nodup := by
  rw [hSeated.names, List.nodup_append]
  refine ⟨by decide, hNames.sublist (List.filter_sublist.map _), ?_⟩
  rintro _ hBuiltin _ hDeclared rfl
  obtain ⟨kind, _, hKind⟩ := List.mem_map.1 hBuiltin
  obtain ⟨resolved, hMem, hName⟩ := List.mem_map.1 hDeclared
  obtain ⟨hMem, hModel⟩ := List.mem_filter.1 hMem
  have hSame := List.inj_on_of_nodup_map hTable.names (hSubset hMem)
    (hTable.builtins kind) (hName.trans hKind.symm)
  exact (Resolved.getsDefinition_iff.1 hModel).2 kind (by rw [hSame])

/-- Looking up the names of a table changes neither which full names there are nor which of them are
services. -/
theorem Resolved.isModel_iff {declared : List Declaration} {table : List Resolved}
    (hRun : Resolved.all declared = .ok table) {name : Identifier} :
    Resolved.IsModel table name ↔ Declaration.IsModel declared name := by
  have hAll := Resolved.all_reflects hRun
  constructor
  · rintro ⟨resolved, hMem, rfl, hModel⟩
    obtain ⟨declaration, hDeclared, hName, hBody⟩ := exists_of_mem_right hAll hMem
    exact ⟨declaration, hDeclared, hName.symm, hBody.service.symm.trans hModel⟩
  · rintro ⟨declaration, hMem, rfl, hModel⟩
    obtain ⟨resolved, hResolved, hName, hBody⟩ := exists_of_mem_left hAll hMem
    exact ⟨resolved, hResolved, hName, hBody.service.trans hModel⟩

/-- The definitions and services of a project, and the places and numbers in them. -/
structure Models.Seated (models : Models) (table : List Resolved) : Prop where
  sound : Resolved.Sound table
  names : (models.definitions.map Definition.identifier).Nodup
  isModel : ∀ name, name ∈ models.definitions.map Definition.identifier ↔
    Resolved.IsModel table name
  parameters : ∀ (slot : Nat) (definition : Definition),
    models.definitions[slot]? = some definition → ∀ (index : Nat) (reference : TypeRef),
      definition.parameters[index]? = some reference →
        ∃ number name, reference = .parameter number slot index name
  numbers : ∀ definition ∈ models.definitions,
    ∀ reference ∈ definition.parameters ++ definition.references,
      reference.Within models.references
  services : ∀ service ∈ models.services, ∀ reference ∈ [service.input, service.output],
    reference.Within models.references ∧ reference.Fits models.definitions 0 0

theorem build_seated {table sorted : List Resolved} {models : Models}
    (hTable : Resolved.Sound table) (hPerm : sorted.Perm table)
    (hRun : Models.build sorted = .ok models) :
    models.Seated table := by
  obtain ⟨builder, hBuilder, hModels⟩ := bind_eq_ok.1 hRun
  cases hModels
  have hSeated : builder.Seated ([] ++ sorted) :=
    Builder.foldlM_seated [] Builder.seated_start hBuilder
  have hNames := (hPerm.map Resolved.identifier).nodup_iff.2 hTable.names
  refine ⟨hTable, hSeated.names_nodup hTable hPerm.subset hNames,
    fun _ => hSeated.mem_names hTable hPerm, hSeated.parameters, hSeated.numbers, ?_⟩
  intro service hService
  exact hSeated.services service ((List.mergeSort_perm _ _).mem_iff.1 hService)

theorem compile_seated {options : Options} {sources : List Source} {project : Project}
    (hRun : compile options sources = .ok project) :
    ∃ files declared table, parseFiles sources = .ok files ∧
      Declaration.collect files = .ok declared ∧ Resolved.all declared = .ok table ∧
      project.toModels.Seated table := by
  obtain ⟨files, declared, table, sorted, models, hFiles, hDeclared, hTable,
    hSorted, hBuild, rfl⟩ :=
    compile_eq_ok.1 hRun
  have hSound := Resolved.all_sound (Declaration.collect_lawful hDeclared) hTable
  obtain ⟨hPerm, _⟩ := sortDeclarations_ok hSound.closed hSorted
  exact ⟨files, declared, table, hFiles, hDeclared, hTable, build_seated hSound hPerm hBuild⟩

end Interchange.Schema

import Interchange.Proofs.Schema.Arena
import Interchange.Proofs.Schema.VoidRule

/-!
# What definitions record

A definition says of a model what its declaration says, only that types are references to places.
Reading the references back gives the types of the declaration. Declarations are built only if they
keep the rules, so a project has a lawful table behind it.

* `TypeRef.usage`: the type that a reference stands for.
* `Passes.place_usage`: a reference stands for the type that it was made of.
* `Records`: definitions that say what the declarations of a table say.
* `Builder.Keeps`: what is known of the declarations that are built.
* `Keeps.lawful`: declarations that are built keep all rules.
* `compile_behind`: what stands behind a project.
-/

namespace Interchange.Schema

/-! ## Reading references back -/

mutual

/-- The type that a reference stands for. -/
def TypeRef.usage (definitions : List Definition) : TypeRef → Usage
  | .parameter _ _ index _ => .parameter index
  | .model _ target args =>
    .model (identifierAt definitions target) (TypeRef.usages definitions args)

def TypeRef.usages (definitions : List Definition) : List TypeRef → List Usage
  | [] => []
  | reference :: rest => reference.usage definitions :: TypeRef.usages definitions rest

end

theorem TypeRef.usages_eq_map (definitions : List Definition) (references : List TypeRef) :
    TypeRef.usages definitions references = references.map (TypeRef.usage definitions) := by
  induction references with
  | nil => rfl
  | cons reference rest ih => rw [TypeRef.usages, ih, List.map_cons]

theorem identifierAt_of_getElem? {definitions : List Definition} {slot : Nat}
    {definition : Definition} (hSlot : definitions[slot]? = some definition) :
    identifierAt definitions slot = definition.identifier := by
  rw [identifierAt, hSlot]

/-- More definitions do not change what a reference stands for. -/
theorem TypeRef.Fits.usage_eq {earlier definitions : List Definition} {owner arity : Nat}
    {reference : TypeRef} (hFits : reference.Fits earlier owner arity)
    (hKept : ∀ (slot : Nat) (definition : Definition), earlier[slot]? = some definition →
      definitions[slot]? = some definition) :
    reference.usage definitions = reference.usage earlier := by
  induction hFits with
  | parameter => rfl
  | model hTarget _ _ _ ih =>
    rw [usage, usage, identifierAt_of_getElem? hTarget,
      identifierAt_of_getElem? (hKept _ _ hTarget), usages_eq_map, usages_eq_map,
      List.map_congr_left ih]

namespace Builder

/-- A reference stands for the type that it was made of. -/
theorem Passes.place_usage {builder : Builder} {owner arity : Nat} {parameters : List TypeRef}
    {usage : Usage} (hParameters : OwnParameters owner arity parameters)
    (hPasses : builder.Passes arity usage) (next : Nat) :
    (builder.place parameters usage next).1.usage builder.definitions = usage := by
  induction hPasses generalizing next with
  | parameter hIndex =>
    obtain ⟨slot, name, hOwn⟩ := hParameters _ hIndex
    rw [place, List.getD_eq_getElem?_getD, hOwn]
    rfl
  | @model target args built hFind _ _ _ ih =>
    have hTarget : identifierAt builder.definitions (builder.slotOf target) = target := by
      rw [identifierAt_of_getElem? (getElem?_slotOf hFind), (find?_eq_some hFind).2]
    have hArgs : (builder.placeAll parameters args next).1.map (TypeRef.usage builder.definitions) =
        args.map id := by
      refine map_eq_map_of_forall₂ (placeAll_places builder parameters args next) ?_
      rintro arg hArg _ ⟨own, rfl⟩
      exact ih arg hArg own
    rw [place, TypeRef.usage, hTarget, TypeRef.usages_eq_map, hArgs, List.map_id]

end Builder

/-! ## Definitions and declarations -/

/-- A definition says what a declaration says. -/
structure Recorded (definitions : List Definition) (resolved : Resolved) (definition : Definition) :
    Prop where
  identifier : resolved.identifier = definition.identifier
  model : resolved.body.isService = false
  builtin : ∀ kind, resolved.body = .builtin kind ↔ definition.builtin? = some kind
  arity : resolved.body.arity = definition.arity
  usages : (definition.references.map (TypeRef.usage definitions)).Perm resolved.body.usages

/-- Every definition says what some declaration of the table says. -/
def Records (table : List Resolved) (definitions : List Definition) : Prop :=
  ∀ definition ∈ definitions, ∃ resolved ∈ table, Recorded definitions resolved definition

theorem records_start {table : List Resolved} (hTable : Resolved.Sound table) :
    Records table Builder.start.definitions := by
  intro definition hMem
  obtain ⟨built, hBuilt, rfl⟩ := List.mem_map.1 hMem
  obtain ⟨kind, _, rfl⟩ := List.mem_map.1 hBuilt
  refine ⟨_, hTable.builtins kind, rfl, rfl, ?_, rfl, .nil⟩
  intro other
  simp [Definition.builtin?, Built.ofBuiltin, Definition.ofBuiltin]

theorem Records.snoc {table : List Resolved} {definitions : List Definition} {resolved : Resolved}
    {definition : Definition} (hRecords : Records table definitions)
    (hArena : Arena (definitions ++ [definition])) (hMem : resolved ∈ table)
    (hRecorded : Recorded definitions resolved definition) :
    Records table (definitions ++ [definition]) := by
  -- References lead to earlier places, so one more definition does not change what they stand for.
  have hStable : ∀ (slot : Nat) (other : Definition),
      (definitions ++ [definition])[slot]? = some other → slot ≤ definitions.length →
      other.references.map (TypeRef.usage (definitions ++ [definition])) =
        other.references.map (TypeRef.usage definitions) := by
    intro slot other hSlot hLe
    refine List.map_congr_left fun reference hReference => ?_
    have hFits := hArena.references slot other hSlot reference hReference
    rw [List.take_append_of_le_length hLe] at hFits
    rw [hFits.usage_eq fun _ _ hTake => (getElem?_of_take hTake).2,
      hFits.usage_eq fun slot' found hTake => ?_]
    have hFound := (getElem?_of_take hTake).2
    rw [List.getElem?_append_left (List.getElem?_eq_some_iff.1 hFound).1, hFound]
  intro other hOther
  obtain ⟨slot, hSlot⟩ := List.mem_iff_getElem?.1 hOther
  rcases getElem?_snoc_cases hSlot with ⟨hLess, hOld⟩ | ⟨rfl, rfl⟩
  · obtain ⟨found, hFound, hOwn⟩ := hRecords other (List.mem_of_getElem? hOld)
    refine ⟨found, hFound, hOwn.identifier, hOwn.model, hOwn.builtin, hOwn.arity, ?_⟩
    rw [hStable slot other hSlot (Nat.le_of_lt hLess)]
    exact hOwn.usages
  · refine ⟨resolved, hMem, hRecorded.identifier, hRecorded.model, hRecorded.builtin,
      hRecorded.arity, ?_⟩
    rw [hStable _ other hSlot (Nat.le_refl _)]
    exact hRecorded.usages

namespace Builder

section

variable {builder : Builder} {identifier : Identifier} {params : List String}
  {retired : List UInt32}

theorem messageDefinition_recorded {fields : List (ModelPart Usage)}
    (hChecked : ∀ field ∈ fields,
      builder.check identifier params.length field.content = .ok ()) :
    Recorded builder.definitions ⟨identifier, .message params fields retired⟩
      (builder.messageDefinition identifier params fields retired) := by
  have hOwn := ownParameters_placeParameters builder.built.length builder.references params
  have hRelated := placeFields_related builder
    (placeParameters builder.built.length builder.references params) fields
    (builder.references + params.length)
  have hUsages := map_eq_map_of_forall₂ hRelated (f := ModelPart.content)
    (g := fun part => part.content.usage builder.definitions) (by
      intro field hField part hPlaced
      obtain ⟨next, hContent⟩ := hPlaced.content
      rw [hContent]
      exact (passes_of_check _ (hChecked field hField)).place_usage hOwn next)
  refine ⟨rfl, rfl, ?_, ?_, ?_⟩
  · simp [Definition.builtin?, messageDefinition]
  · exact (length_placeParameters _ _ _).symm
  · rw [ResolvedBody.usages, ← hUsages, Definition.references, messageDefinition, List.map_map]
    exact (List.mergeSort_perm _ _).map _

theorem tagDefinition_recorded {variants : List (ModelPart (Option Usage))}
    (hChecked : ∀ variant ∈ variants,
      builder.checkPayload identifier params.length variant.content = .ok ()) :
    Recorded builder.definitions ⟨identifier, .tag params variants retired⟩
      (builder.tagDefinition identifier params variants retired) := by
  have hOwn := ownParameters_placeParameters builder.built.length builder.references params
  have hRelated := placeVariants_related builder
    (placeParameters builder.built.length builder.references params) variants
    (builder.references + params.length)
  have hUsages := map_eq_map_of_forall₂ hRelated (f := ModelPart.content)
    (g := fun part => part.content.map (TypeRef.usage builder.definitions)) (by
      intro variant hVariant part hPlaced
      have hCheck := hChecked variant hVariant
      have hPayload := hPlaced.content
      generalize variant.content = payload at hCheck hPayload
      generalize part.content = placed at hPayload
      cases hPayload with
      | none => rfl
      | some hPlaces =>
        obtain ⟨next, rfl⟩ := hPlaces
        exact congrArg some ((passes_of_check _ hCheck).place_usage hOwn next))
  have hPayloads : variants.filterMap ModelPart.content =
      ((builder.placeVariants (placeParameters builder.built.length builder.references params)
        variants (builder.references + params.length)).1.filterMap ModelPart.content).map
          (TypeRef.usage builder.definitions) := by
    calc variants.filterMap ModelPart.content
      _ = (variants.map ModelPart.content).filterMap id := by
        rw [List.filterMap_map]
        rfl
      _ = _ := by
        rw [← hUsages, List.filterMap_map, List.map_filterMap]
        rfl
  refine ⟨rfl, rfl, ?_, ?_, ?_⟩
  · simp [Definition.builtin?, tagDefinition]
  · exact (length_placeParameters _ _ _).symm
  · rw [ResolvedBody.usages, hPayloads, Definition.references, tagDefinition]
    exact ((List.mergeSort_perm _ _).filterMap _).map _

end

/-! ## Rules that are kept -/

/-- A type that passes the check is proper. -/
theorem Passes.proper {table : List Resolved} {builder : Builder} {arity : Nat} {usage : Usage}
    (hRecords : Records table builder.definitions) (hPasses : builder.Passes arity usage) :
    usage.Proper table arity := by
  induction hPasses with
  | parameter hIndex => exact .parameter hIndex
  | model hFind hArity _ _ ih =>
    obtain ⟨hBuilt, rfl⟩ := find?_eq_some hFind
    obtain ⟨resolved, hMem, hRecorded⟩ := hRecords _ (List.mem_map_of_mem hBuilt)
    rw [← hRecorded.identifier]
    exact .model hMem hRecorded.model (hArity.trans hRecorded.arity.symm) ih

end Builder

/-- A declaration keeps the rules that concern it alone. -/
structure Resolved.KeepsRules (table : List Resolved) (resolved : Resolved) : Prop where
  applied : ∀ usage ∈ resolved.body.usages, usage.Proper table resolved.body.arity
  numbers : resolved.body.numbers.Nodup
  partNames : resolved.body.partNames.Nodup
  retired : ∀ id ∈ resolved.body.retired, id ∉ resolved.body.numbers
  positive : ∀ id, resolved.body.serviceId? = some id → id ≠ 0

namespace Builder

/-- What is known once the declarations `done` are built: definitions record what they say, and each
of them keeps the rules. -/
structure Keeps (table done : List Resolved) (builder : Builder) : Prop where
  arena : Arena builder.definitions
  records : Records table builder.definitions
  rules : ∀ resolved ∈ done, resolved.KeepsRules table
  services : builder.services.map Service.id =
    done.filterMap fun resolved => resolved.body.serviceId?
  serviceIds : (builder.services.map Service.id).Nodup

theorem keeps_start {table : List Resolved} (hTable : Resolved.Sound table) :
    start.Keeps table [] where
  arena := Arena.start
  records := records_start hTable
  rules := by simp
  services := rfl
  serviceIds := .nil

/-- A declaration that is no service. -/
theorem Keeps.snoc {table done : List Resolved} {builder later : Builder} {resolved : Resolved}
    (hKeeps : builder.Keeps table done) (hArena : Arena later.definitions)
    (hRecords : Records table later.definitions) (hRules : resolved.KeepsRules table)
    (hServices : later.services = builder.services) (hNoService : resolved.body.serviceId? = none) :
    later.Keeps table (done ++ [resolved]) where
  arena := hArena
  records := hRecords
  rules := List.forall_mem_append.2 ⟨hKeeps.rules, List.forall_mem_singleton.2 hRules⟩
  services := by
    rw [hServices, hKeeps.services, List.filterMap_append]
    simp [hNoService]
  serviceIds := by
    rw [hServices]
    exact hKeeps.serviceIds

theorem add_keeps {table done : List Resolved} {builder later : Builder} {resolved : Resolved}
    (hKeeps : builder.Keeps table done) (hMem : resolved ∈ table)
    (hRun : builder.add resolved = .ok later) : later.Keeps table (done ++ [resolved]) := by
  have hArena := add_arena hKeeps.arena hRun
  obtain ⟨identifier, body⟩ := resolved
  cases body with
  | builtin kind =>
    cases hRun
    refine hKeeps.snoc hKeeps.arena hKeeps.records ?_ rfl rfl
    exact ⟨by simp [ResolvedBody.usages], .nil, .nil, by simp [ResolvedBody.retired],
      by simp [ResolvedBody.serviceId?]⟩
  | message params fields retired =>
    obtain ⟨next, hEq⟩ := addMessage_eq builder identifier params fields retired
    simp only [add, hEq, bind_eq_ok, pure_eq_ok] at hRun
    obtain ⟨_, hParts, _, hRetired, rfl⟩ := hRun
    obtain ⟨hNumbers, hNames, _, hChecked⟩ := checkParts_eq_ok.1 hParts
    refine hKeeps.snoc hArena ?_ ?_ rfl rfl
    · rw [definitions_push] at hArena ⊢
      exact hKeeps.records.snoc hArena hMem (messageDefinition_recorded hChecked)
    · refine ⟨?_, hNumbers, hNames, checkRetired_eq_ok.1 hRetired,
        by simp [ResolvedBody.serviceId?]⟩
      refine List.forall_mem_map.2 fun field hField => ?_
      exact (passes_of_check _ (hChecked field hField)).proper hKeeps.records
  | tag params variants retired =>
    obtain ⟨next, hEq⟩ := addTag_eq builder identifier params variants retired
    simp only [add, hEq, bind_eq_ok, pure_eq_ok] at hRun
    obtain ⟨_, hParts, _, hRetired, rfl⟩ := hRun
    obtain ⟨hNumbers, hNames, _, hChecked⟩ := checkParts_eq_ok.1 hParts
    refine hKeeps.snoc hArena ?_ ?_ rfl rfl
    · rw [definitions_push] at hArena ⊢
      exact hKeeps.records.snoc hArena hMem (tagDefinition_recorded hChecked)
    · refine ⟨?_, hNumbers, hNames, checkRetired_eq_ok.1 hRetired,
        by simp [ResolvedBody.serviceId?]⟩
      intro usage hUsage
      obtain ⟨variant, hVariant, hContent⟩ := List.mem_filterMap.1 hUsage
      have hCheck := hChecked variant hVariant
      rw [hContent] at hCheck
      exact (passes_of_check usage hCheck).proper hKeeps.records
  | service input output id =>
    obtain ⟨hPositive, hFree, hInput, hOutput, hBuilt, service, rfl, hServices⟩ :=
      addService_eq_ok hRun
    have hDefinitions : later.definitions = builder.definitions := by
      rw [definitions, hBuilt, definitions]
    refine ⟨hArena, ?_, ?_, ?_, ?_⟩
    · rw [hDefinitions]
      exact hKeeps.records
    · refine List.forall_mem_append.2 ⟨hKeeps.rules, List.forall_mem_singleton.2 ?_⟩
      refine ⟨?_, .nil, .nil, by simp [ResolvedBody.retired], ?_⟩
      · exact List.forall_mem_cons.2 ⟨(passes_of_check input hInput).proper hKeeps.records,
          List.forall_mem_singleton.2 ((passes_of_check output hOutput).proper hKeeps.records)⟩
      · intro id hId
        cases hId
        exact hPositive
    · rw [hServices, List.map_append, hKeeps.services, List.filterMap_append]
      rfl
    · rw [hServices, List.map_append, List.map_singleton, List.nodup_append]
      refine ⟨hKeeps.serviceIds, by simp, ?_⟩
      intro id hId other hOther
      obtain ⟨earlier, hEarlier, rfl⟩ := List.mem_map.1 hId
      rw [List.mem_singleton.1 hOther]
      exact hFree earlier hEarlier

theorem foldlM_keeps {table : List Resolved} (done : List Resolved) {more : List Resolved}
    {builder finish : Builder} (hMore : ∀ resolved ∈ more, resolved ∈ table)
    (hKeeps : builder.Keeps table done) (hRun : more.foldlM add builder = .ok finish) :
    finish.Keeps table (done ++ more) := by
  induction more generalizing done builder with
  | nil =>
    cases hRun
    simpa using hKeeps
  | cons resolved more ih =>
    rw [List.foldlM_cons, bind_eq_ok] at hRun
    obtain ⟨middle, hStep, hRun⟩ := hRun
    obtain ⟨hMem, hMore⟩ := List.forall_mem_cons.1 hMore
    rw [List.append_cons]
    exact ih _ hMore (add_keeps hKeeps hMem hStep) hRun

end Builder

/-- Declarations that are built keep all rules. -/
theorem Builder.Keeps.lawful {table sorted : List Resolved} {builder : Builder}
    (hTable : Resolved.Sound table) (hPerm : sorted.Perm table)
    (hKeeps : builder.Keeps table sorted) : Resolved.Lawful table := by
  have hRules : ∀ resolved ∈ table, resolved.KeepsRules table := fun resolved hMem =>
    hKeeps.rules resolved (hPerm.mem_iff.2 hMem)
  refine ⟨⟨hTable, fun resolved hMem => (hRules resolved hMem).applied⟩,
    fun resolved hMem => (hRules resolved hMem).numbers,
    fun resolved hMem => (hRules resolved hMem).partNames,
    fun resolved hMem => (hRules resolved hMem).retired,
    fun resolved hMem => (hRules resolved hMem).positive, ?_⟩
  rw [← (hPerm.filterMap _).nodup_iff, ← hKeeps.services]
  exact hKeeps.serviceIds

/-! ## Projects -/

/-- The declarations behind the models of a project, in order, and what is built of them. -/
structure Models.Behind (models : Models) (table sorted : List Resolved) (builder : Builder) :
    Prop where
  lawful : Resolved.Lawful table
  perm : sorted.Perm table
  run : sorted.foldlM Builder.add Builder.start = .ok builder
  build : Models.build sorted = .ok models
  definitions : models.definitions = builder.definitions
  keeps : builder.Keeps table sorted
  follows : builder.Follows table sorted

theorem compile_behind {options : Options} {sources : List Source} {project : Project}
    (hRun : compile options sources = .ok project) :
    ∃ table sorted builder, project.toModels.Behind table sorted builder := by
  obtain ⟨files, declared, table, sorted, models, _, hDeclared, hTable, hSorted, hBuild, rfl⟩ :=
    compile_eq_ok.1 hRun
  have hSound := Resolved.all_sound (Declaration.collect_lawful hDeclared) hTable
  obtain ⟨hPerm, hFirst⟩ := sortDeclarations_ok hSound.closed hSorted
  obtain ⟨builder, hBuilder, hModels⟩ := bind_eq_ok.1 hBuild
  have hKeeps : builder.Keeps table ([] ++ sorted) :=
    Builder.foldlM_keeps [] (fun resolved => hPerm.mem_iff.1) (Builder.keeps_start hSound) hBuilder
  have hLawful := hKeeps.lawful hSound hPerm
  have hAll : ([] ++ (sorted ++ [])).Perm table := by simpa using hPerm
  have hFollows : builder.Follows table ([] ++ sorted) :=
    Builder.foldlM_follows hLawful [] hAll (by simpa using hFirst) (Builder.follows_start table)
      hBuilder
  refine ⟨table, sorted, builder, hLawful, hPerm, hBuilder, hBuild, ?_, hKeeps, hFollows⟩
  cases hModels
  rfl

/-- The declaration of a message with one field. -/
def Resolved.ofField (context : Identifier) (number : UInt32) (name : String) (usage : Usage) :
    Resolved :=
  ⟨context, .message [] [⟨number, name, usage⟩] []⟩

/-- A type of a project that stands in a field of one more message is refused exactly if it holds
`void`. -/
theorem Models.Behind.build_field {models : Models} {table sorted : List Resolved}
    {builder : Builder} (hBehind : models.Behind table sorted builder) {usage : Usage}
    (hUsage : usage.Proper table 0) (context : Identifier) (number : UInt32) (name : String) :
    Verdict (usage.Holds table .void)
      (Models.build (sorted ++ [Resolved.ofField context number name usage])) := by
  have hCovers : ∀ resolved ∈ table, resolved.identifier ∈ usage.targets →
      builder.Covers table resolved := by
    intro resolved hMem hTarget
    obtain ⟨model, hModel, hName, hService⟩ := hUsage.scoped.mem_targets _ hTarget
    obtain rfl := List.inj_on_of_nodup_map hBehind.lawful.names hModel hMem hName
    exact hBehind.follows.covers model (hBehind.perm.mem_iff.2 hModel) hService
  have hAdd : Verdict (∃ inner ∈ [usage], inner.Holds table .void)
      (builder.add (Resolved.ofField context number name usage)) := by
    refine Builder.addMessage_verdict (by simp) (by simp) (by simp) ?_
    exact List.forall_mem_singleton.2
      (Builder.check_verdict hBehind.lawful.toProper hUsage hCovers)
  have hFold : (sorted ++ [Resolved.ofField context number name usage]).foldlM Builder.add
      Builder.start = builder.add (Resolved.ofField context number name usage) := by
    rw [List.foldlM_append, hBehind.run]
    exact bind_pure (builder.add (Resolved.ofField context number name usage))
  rw [Models.build, hFold]
  refine (hAdd.bind_ok fun _ => ⟨_, rfl⟩).congr ?_
  simp

end Interchange.Schema

import Interchange.Proofs.Schema.Canonical
import Interchange.Proofs.Schema.Compilation
import Interchange.Proofs.Schema.Places

/-!
# What a content hash stands for

The canonical form of a project is the encoding of what its models and services say, in an order
that does not depend on their places. So two projects have one canonical form exactly if they say
the same, and two that do not say the same can share a content hash only if the digest maps two byte
strings to one.

* `Canonical.Form`: what a project says, and `Form.bytes_injective`: its encoding can be read back.
* `Project.canonical_eq`: the canonical form of a project is this encoding.
* `Project.Sized`, `Project.Sized.form`: the lengths of a project that are written down.
* `SameSchema`, `form_eq_iff`: projects that say the same.
* `compile_canonical`: canonical forms and content hashes of two projects.
-/

namespace Interchange.Schema

namespace Canonical

/-! ## What is written down -/

def Contents.ofBody (definitions : List Definition) : DefinitionBody → Contents
  | .builtin _ => .builtin
  | .message fields retired =>
    .message (fields.map (ModelPart.map (TypeRef.usage definitions))) retired
  | .tag variants retired =>
    .tag (variants.map (ModelPart.map (Option.map (TypeRef.usage definitions)))) retired

def ModelForm.ofDefinition (definitions : List Definition) (definition : Definition) : ModelForm :=
  ⟨definition.identifier, definition.arity, .ofBody definitions definition.body⟩

def ServiceForm.ofService (definitions : List Definition) (service : Service) : ServiceForm :=
  ⟨service.identifier, service.id, service.input.usage definitions,
    service.output.usage definitions⟩

theorem ModelForm.kind_ofDefinition (definitions : List Definition) (definition : Definition) :
    (ofDefinition definitions definition).kind = definition.kind := by
  obtain ⟨identifier, parameters, body⟩ := definition
  cases body <;> simp [ofDefinition, kind, Contents.ofBody, Definition.kind, Definition.arity]

theorem field_eq (definitions : List Definition) (field : ModelPart TypeRef) :
    Canonical.field definitions field = part usage (field.map (TypeRef.usage definitions)) := by
  rw [Canonical.field, reference_eq]
  rfl

theorem variant_eq (definitions : List Definition) (variant : ModelPart (Option TypeRef)) :
    Canonical.variant definitions variant =
      part (flagged usage) (variant.map (Option.map (TypeRef.usage definitions))) := by
  obtain ⟨number, name, payload⟩ := variant
  cases payload with
  | none => rfl
  | some type =>
    rw [Canonical.variant, payload, reference_eq]
    rfl

theorem body_eq (definitions : List Definition) (body : DefinitionBody) :
    Canonical.body definitions body = (Contents.ofBody definitions body).bytes := by
  cases body with
  | builtin kind => rfl
  | message fields ids =>
    rw [Canonical.body, Contents.ofBody, Contents.bytes, counted_map]
    simp only [← field_eq]
  | tag variants ids =>
    rw [Canonical.body, Contents.ofBody, Contents.bytes, counted_map]
    simp only [← variant_eq]

theorem model_eq (definitions : List Definition) (definition : Definition) :
    Canonical.model definitions definition =
      (ModelForm.ofDefinition definitions definition).bytes := by
  rw [Canonical.model, body_eq, ModelForm.bytes, ModelForm.kind_ofDefinition]
  rfl

theorem service_eq (definitions : List Definition) (service : Service) :
    Canonical.service definitions service = (ServiceForm.ofService definitions service).bytes := by
  rw [Canonical.service, reference_eq, reference_eq]
  rfl

/-- What a project says. -/
structure Form where
  name : String
  version : String
  models : List ModelForm
  services : List ServiceForm

namespace Form

def bytes (form : Form) : Bytes :=
  text form.name ++ text form.version ++ counted ModelForm.bytes form.models
    ++ counted ServiceForm.bytes form.services ++ text trailer

structure Sized (form : Form) : Prop where
  name : Short form.name
  version : Short form.version
  models : SizedList ModelForm.Sized form.models
  services : SizedList ServiceForm.Sized form.services

/-- What a project says can be read off its encoding. -/
theorem bytes_injective {form other : Form} (hForm : form.Sized) (hOther : other.Sized)
    (hEq : form.bytes = other.bytes) : form = other := by
  obtain ⟨name, version, models, services⟩ := form
  obtain ⟨name', version', models', services'⟩ := other
  simp only [bytes, List.append_assoc] at hEq
  obtain ⟨rfl, hVersions⟩ := delimited_text hForm.name _ _ _ hOther.name hEq
  obtain ⟨rfl, hModels⟩ := delimited_text hForm.version _ _ _ hOther.version hVersions
  have hItems := fun item hItem => (hForm.models.items item hItem).delimited
  obtain ⟨rfl, hServices⟩ :=
    delimited_counted hForm.models.length hItems _ _ _ hOther.models hModels
  have hItems := fun item hItem => (hForm.services.items item hItem).delimited
  obtain ⟨rfl, _⟩ :=
    delimited_counted hForm.services.length hItems _ _ _ hOther.services hServices
  rfl

end Form

end Canonical

open Canonical

namespace Project

/-- The byte string whose digest is the content hash. -/
def canonical (project : Project) : Bytes :=
  Canonical.project project.name project.version project.toModels

/-- The definitions that are not built in, by full name. -/
def sortedDefinitions (project : Project) : List Definition :=
  (project.declared.map Prod.snd).mergeSort fun a b => a.identifier.le b.identifier

def sortedServices (project : Project) : List Service :=
  project.services.mergeSort fun a b => decide (a.id ≤ b.id)

def form (project : Project) : Form where
  name := project.name
  version := project.version
  models := project.sortedDefinitions.map (.ofDefinition project.definitions)
  services := project.sortedServices.map (.ofService project.definitions)

/-- The canonical form of a project is the encoding of what it says. -/
theorem canonical_eq (project : Project) : project.canonical = project.form.bytes := by
  rw [canonical, Canonical.project, Form.bytes, form, counted_map, counted_map]
  simp only [← model_eq, ← service_eq]
  rfl

end Project

/-! ## Lengths -/

namespace Definition

def partNames (definition : Definition) : List String :=
  match definition.body with
  | .builtin _ => []
  | .message fields _ => fields.map ModelPart.name
  | .tag variants _ => variants.map ModelPart.name

def retired (definition : Definition) : List UInt32 :=
  match definition.body with
  | .builtin _ => []
  | .message _ ids => ids
  | .tag _ ids => ids

/-- The lengths in a definition are below 2^64. -/
structure Sized (definition : Definition) : Prop where
  identifier : ShortName definition.identifier
  arity : definition.arity < 2 ^ 64
  parts : definition.partNames.length < 2 ^ 64
  partNames : ∀ name ∈ definition.partNames, Short name
  retired : definition.retired.length < 2 ^ 64

instance (definition : Definition) : Decidable definition.Sized :=
  decidable_of_iff (ShortName definition.identifier ∧ definition.arity < 2 ^ 64 ∧
      definition.partNames.length < 2 ^ 64 ∧ (∀ name ∈ definition.partNames, Short name) ∧
      definition.retired.length < 2 ^ 64)
    ⟨fun ⟨hIdentifier, hArity, hParts, hNames, hRetired⟩ =>
      ⟨hIdentifier, hArity, hParts, hNames, hRetired⟩,
    fun hSized => ⟨hSized.identifier, hSized.arity, hSized.parts, hSized.partNames, hSized.retired⟩⟩

end Definition

/-- All lengths in a project are below 2^64. The lists of arguments are as long as those of the
parameters of the definitions that they are passed to. -/
structure Project.Sized (project : Project) : Prop where
  name : Short project.name
  version : Short project.version
  declared : project.declared.length < 2 ^ 64
  services : project.services.length < 2 ^ 64
  definitions : ∀ definition ∈ project.definitions, definition.Sized
  serviceNames : ∀ service ∈ project.services, ShortName service.identifier

theorem TypeRef.Fits.sized {earlier definitions : List Definition} {owner arity : Nat}
    {reference : TypeRef} (hFits : reference.Fits earlier owner arity)
    (hEarlier : ∀ (slot : Nat) (definition : Definition), earlier[slot]? = some definition →
      definitions[slot]? = some definition)
    (hNames : ∀ definition ∈ definitions, ShortName definition.identifier)
    (hArities : ∀ definition ∈ definitions, definition.arity < 2 ^ 64) (hArity : arity < 2 ^ 64) :
    SizedUsage (reference.usage definitions) := by
  induction hFits with
  | parameter hIndex => exact .parameter (Nat.lt_trans hIndex hArity)
  | model hTarget _ hLength _ ih =>
    have hSlot := hEarlier _ _ hTarget
    have hMem := List.mem_of_getElem? hSlot
    rw [usage, identifierAt_of_getElem? hSlot, usages_eq_map]
    refine .model (hNames _ hMem) ?_ (List.forall_mem_map.2 ih)
    rw [List.length_map, hLength]
    exact hArities _ hMem

/-- What a definition says is sized if the definition is and so are the types in it. -/
theorem Definition.Sized.form {definitions : List Definition} {definition : Definition}
    (hSized : definition.Sized)
    (hTypes : ∀ reference ∈ definition.references, SizedUsage (reference.usage definitions)) :
    (ModelForm.ofDefinition definitions definition).Sized := by
  refine ⟨hSized.identifier, hSized.arity, ?_⟩
  have hParts := hSized.parts
  have hNames := hSized.partNames
  have hRetired := hSized.retired
  obtain ⟨identifier, parameters, body⟩ := definition
  cases body with
  | builtin kind => trivial
  | message fields ids =>
    refine ⟨⟨?_, ?_⟩, hRetired⟩
    · simpa [Definition.partNames] using hParts
    · refine List.forall_mem_map.2 fun field hField => ?_
      exact ⟨hNames _ (List.mem_map_of_mem hField), hTypes _ (List.mem_map_of_mem hField)⟩
  | tag variants ids =>
    refine ⟨⟨?_, ?_⟩, hRetired⟩
    · simpa [Definition.partNames] using hParts
    · refine List.forall_mem_map.2 fun variant hVariant => ?_
      refine ⟨hNames _ (List.mem_map_of_mem hVariant), ?_⟩
      intro type hType
      obtain ⟨reference, hReference, rfl⟩ := Option.map_eq_some_iff.1 hType
      exact hTypes reference (List.mem_filterMap.2 ⟨variant, hVariant, hReference⟩)

theorem Project.Sized.form {project : Project} {table : List Resolved} (hSized : project.Sized)
    (hArena : Arena project.definitions) (hSeated : project.toModels.Seated table) :
    project.form.Sized := by
  have hNames := fun definition hMem => (hSized.definitions definition hMem).identifier
  have hArities := fun definition hMem => (hSized.definitions definition hMem).arity
  refine ⟨hSized.name, hSized.version, ⟨?_, ?_⟩, ⟨?_, ?_⟩⟩
  · simpa [Project.form, Project.sortedDefinitions] using hSized.declared
  · refine List.forall_mem_map.2 fun definition hMem => ?_
    obtain ⟨⟨slot, _⟩, hEntry, rfl⟩ := List.mem_map.1 (List.mem_mergeSort.1 hMem)
    have hSlot := (Models.mem_declared.1 hEntry).1
    have hOwn := hSized.definitions _ (List.mem_of_getElem? hSlot)
    refine hOwn.form fun reference hReference => ?_
    exact (hArena.references slot _ hSlot reference hReference).sized
      (fun _ _ hTake => (getElem?_of_take hTake).2) hNames hArities hOwn.arity
  · simpa [Project.form, Project.sortedServices] using hSized.services
  · refine List.forall_mem_map.2 fun service hMem => ?_
    have hService := List.mem_mergeSort.1 hMem
    have hType : ∀ reference ∈ [service.input, service.output],
        SizedUsage (reference.usage project.definitions) := by
      intro reference hReference
      have hFits := (hSeated.services service hService reference hReference).2
      exact hFits.sized (fun _ _ hEarlier => hEarlier) hNames hArities (by decide)
    exact ⟨hSized.serviceNames service hService, hType _ (by simp), hType _ (by simp)⟩

/-! ## Projects that say the same -/

/-- Two models of two projects say the same. A type is compared by the full names in it and by the
positions of its parameters. -/
structure SameModel (first second : List Definition) (definition other : Definition) : Prop where
  kind : definition.kind = other.kind
  arity : definition.arity = other.arity
  contents : Contents.ofBody first definition.body = Contents.ofBody second other.body

/-- Two projects say the same. -/
structure SameSchema (first second : Project) : Prop where
  name : first.name = second.name
  version : first.version = second.version
  identifiers : ∀ identifier, (∃ entry ∈ first.declared, entry.2.identifier = identifier) ↔
    ∃ entry ∈ second.declared, entry.2.identifier = identifier
  models : ∀ entry ∈ first.declared, ∀ other ∈ second.declared,
    entry.2.identifier = other.2.identifier →
      SameModel first.definitions second.definitions entry.2 other.2
  services : ∀ form, form ∈ first.services.map (ServiceForm.ofService first.definitions) ↔
    form ∈ second.services.map (ServiceForm.ofService second.definitions)

/-- Full names of definitions and ids of services differ. -/
structure Project.Distinct (project : Project) : Prop where
  names : (project.declared.map fun entry => entry.2.identifier).Nodup
  ids : (project.services.map Service.id).Nodup

/-- Lists without repeated keys that are sorted by them are equal if they have the same entries. -/
theorem eq_of_sorted {α κ : Type} {key : α → κ} (le : κ → κ → Bool)
    (hAntisymm : ∀ a b, le a b = true → le b a = true → a = b) {xs ys : List α}
    (hxs : (xs.map key).Nodup) (hys : (ys.map key).Nodup)
    (hSorted : xs.Pairwise fun a b => le (key a) (key b) = true)
    (hSorted' : ys.Pairwise fun a b => le (key a) (key b) = true)
    (hMem : ∀ a, a ∈ xs ↔ a ∈ ys) : xs = ys := by
  have hPerm : xs.Perm ys := (List.perm_ext_iff_of_nodup hxs.of_map hys.of_map).2 hMem
  refine hPerm.eq_of_pairwise ?_ hSorted hSorted'
  intro a b ha hb hab hba
  exact List.inj_on_of_nodup_map hxs ha ((hMem b).2 hb) (hAntisymm _ _ hab hba)

namespace Project

theorem mem_form_models {project : Project} {form : ModelForm} :
    form ∈ project.form.models ↔
      ∃ entry ∈ project.declared, ModelForm.ofDefinition project.definitions entry.2 = form := by
  rw [Project.form, List.mem_map]
  constructor
  · rintro ⟨definition, hMem, rfl⟩
    obtain ⟨entry, hEntry, rfl⟩ := List.mem_map.1 (List.mem_mergeSort.1 hMem)
    exact ⟨entry, hEntry, rfl⟩
  · rintro ⟨entry, hEntry, rfl⟩
    exact ⟨entry.2, List.mem_mergeSort.2 (List.mem_map_of_mem hEntry), rfl⟩

theorem form_models_sorted (project : Project) : project.form.models.Pairwise fun a b =>
    a.identifier.le b.identifier = true := by
  refine List.pairwise_map.2 (List.pairwise_mergeSort ?_ ?_ _)
  · intro a b c
    exact Identifier.le_trans
  · intro a b
    exact Identifier.le_total _ _

theorem form_services_sorted (project : Project) : project.form.services.Pairwise fun a b =>
    decide (a.id ≤ b.id) = true := by
  refine List.pairwise_map.2 (List.pairwise_mergeSort ?_ ?_ _)
  · intro a b c hab hbc
    exact decide_eq_true (UInt32.le_trans (of_decide_eq_true hab) (of_decide_eq_true hbc))
  · intro a b
    rw [Bool.or_eq_true]
    exact (UInt32.le_total a.id b.id).imp decide_eq_true decide_eq_true

theorem Distinct.form_names {project : Project} (hDistinct : project.Distinct) :
    (project.form.models.map ModelForm.identifier).Nodup := by
  have hPerm := (List.mergeSort_perm (project.declared.map Prod.snd)
    fun a b => a.identifier.le b.identifier).map Definition.identifier
  rw [List.map_map] at hPerm
  rw [Project.form, List.map_map]
  exact hPerm.nodup_iff.2 hDistinct.names

theorem Distinct.form_ids {project : Project} (hDistinct : project.Distinct) :
    (project.form.services.map ServiceForm.id).Nodup := by
  have hPerm := (List.mergeSort_perm project.services
    fun a b => decide (a.id ≤ b.id)).map Service.id
  rw [Project.form, List.map_map]
  exact hPerm.nodup_iff.2 hDistinct.ids

/-- What a project says is given by its name and version and by what its models and services say. -/
theorem form_eq_of_mem {first second : Project} (hFirst : first.Distinct)
    (hSecond : second.Distinct) (hName : first.name = second.name)
    (hVersion : first.version = second.version)
    (hModels : ∀ form, form ∈ first.form.models ↔ form ∈ second.form.models)
    (hServices : ∀ form, form ∈ first.form.services ↔ form ∈ second.form.services) :
    first.form = second.form := by
  have hModels : first.form.models = second.form.models :=
    eq_of_sorted Identifier.le (fun _ _ => Identifier.le_antisymm) hFirst.form_names
      hSecond.form_names first.form_models_sorted second.form_models_sorted hModels
  have hServices : first.form.services = second.form.services := by
    refine eq_of_sorted (fun a b => decide (a ≤ b)) ?_ hFirst.form_ids hSecond.form_ids
      first.form_services_sorted second.form_services_sorted hServices
    intro a b hab hba
    exact UInt32.le_antisymm (of_decide_eq_true hab) (of_decide_eq_true hba)
  have hParts : ∀ project : Project, project.form =
      ⟨project.name, project.version, project.form.models, project.form.services⟩ := fun _ => rfl
  rw [hParts first, hParts second, hName, hVersion, hModels, hServices]

end Project

theorem sameModel_iff {first second : List Definition} {definition other : Definition}
    (hName : definition.identifier = other.identifier) :
    SameModel first second definition other ↔
      ModelForm.ofDefinition first definition = ModelForm.ofDefinition second other := by
  constructor
  · intro hSame
    rw [ModelForm.ofDefinition, ModelForm.ofDefinition, hName, hSame.arity, hSame.contents]
  · intro hForms
    have hKinds := congrArg ModelForm.kind hForms
    rw [ModelForm.kind_ofDefinition, ModelForm.kind_ofDefinition] at hKinds
    exact ⟨hKinds, congrArg ModelForm.arity hForms, congrArg ModelForm.contents hForms⟩

namespace SameSchema

variable {first second : Project}

theorem mem_models (hSame : SameSchema first second) (form : ModelForm) :
    form ∈ first.form.models ↔ form ∈ second.form.models := by
  rw [Project.mem_form_models, Project.mem_form_models]
  constructor
  · rintro ⟨entry, hEntry, rfl⟩
    obtain ⟨other, hOther, hName⟩ := (hSame.identifiers _).1 ⟨entry, hEntry, rfl⟩
    have hModel := hSame.models entry hEntry other hOther hName.symm
    exact ⟨other, hOther, ((sameModel_iff hName.symm).1 hModel).symm⟩
  · rintro ⟨entry, hEntry, rfl⟩
    obtain ⟨other, hOther, hName⟩ := (hSame.identifiers _).2 ⟨entry, hEntry, rfl⟩
    have hModel := hSame.models other hOther entry hEntry hName
    exact ⟨other, hOther, (sameModel_iff hName).1 hModel⟩

end SameSchema

/-- What two projects say is the same exactly if their models and services are, each by its own name
or id. -/
theorem form_eq_iff {first second : Project} (hFirst : first.Distinct) (hSecond : second.Distinct) :
    first.form = second.form ↔ SameSchema first second := by
  constructor
  · intro hForms
    have hModels : ∀ form, form ∈ first.form.models ↔ form ∈ second.form.models := by
      intro form
      rw [hForms]
    have hServices : ∀ form, form ∈ first.form.services ↔ form ∈ second.form.services := by
      intro form
      rw [hForms]
    simp only [Project.mem_form_models] at hModels
    refine ⟨congrArg Form.name hForms, congrArg Form.version hForms, ?_, ?_, ?_⟩
    · intro identifier
      constructor
      · rintro ⟨entry, hEntry, rfl⟩
        obtain ⟨other, hOther, hSame⟩ := (hModels _).1 ⟨entry, hEntry, rfl⟩
        exact ⟨other, hOther, congrArg ModelForm.identifier hSame⟩
      · rintro ⟨entry, hEntry, rfl⟩
        obtain ⟨other, hOther, hSame⟩ := (hModels _).2 ⟨entry, hEntry, rfl⟩
        exact ⟨other, hOther, congrArg ModelForm.identifier hSame⟩
    · intro entry hEntry other hOther hName
      -- The model of the second project that says the same has the same full name, so it is
      -- `other`.
      obtain ⟨found, hFound, hSame⟩ := (hModels _).1 ⟨entry, hEntry, rfl⟩
      have hFoundName : found.2.identifier = other.2.identifier :=
        (congrArg ModelForm.identifier hSame).trans hName
      obtain rfl := List.inj_on_of_nodup_map hSecond.names hFound hOther hFoundName
      exact (sameModel_iff hName).2 hSame.symm
    · simpa [Project.form, Project.sortedServices] using hServices
  · intro hSame
    refine Project.form_eq_of_mem hFirst hSecond hSame.name hSame.version hSame.mem_models ?_
    simpa [Project.form, Project.sortedServices] using hSame.services

/-! ## Compiled projects -/

theorem compile_distinct {options : Options} {sources : List Source} {project : Project}
    (hRun : compile options sources = .ok project) : project.Distinct := by
  obtain ⟨_, _, table, _, _, _, hSeated⟩ := compile_seated hRun
  obtain ⟨table, sorted, builder, hBehind⟩ := compile_behind hRun
  constructor
  · have hSublist := (List.filter_sublist (l := project.definitions.zipIdx)
      (p := fun entry => entry.1.builtin?.isNone)).map fun entry => entry.1.identifier
    have hAll : project.definitions.zipIdx.map (fun entry => entry.1.identifier) =
        project.definitions.map Definition.identifier := by
      rw [← List.zipIdx_map_fst 0 project.definitions, List.map_map, List.zipIdx_map_fst]
      rfl
    rw [hAll] at hSublist
    rw [Models.declared, List.map_map]
    exact hSeated.names.sublist hSublist
  · obtain ⟨other, hBuilder, hModels⟩ := bind_eq_ok.1 hBehind.build
    obtain rfl : builder = other := Except.ok.inj (hBehind.run.symm.trans hBuilder)
    rw [← pure_eq_ok.1 hModels]
    exact ((List.mergeSort_perm _ _).map Service.id).nodup_iff.2 hBehind.keeps.serviceIds

/-- Two projects whose lengths can be written down have one canonical form exactly if they say the
same. The content hash is the digest of the canonical form, so it is the same exactly if they say
the same or their canonical forms collide. -/
theorem compile_canonical {options options' : Options} {sources sources' : List Source}
    {project project' : Project} (hRun : compile options sources = .ok project)
    (hRun' : compile options' sources' = .ok project') (hSized : project.Sized)
    (hSized' : project'.Sized) :
    (project.canonical = project'.canonical ↔ SameSchema project project') ∧
      project.contentHash = hexText (Sha256.digest project.canonical) ∧
      (project.contentHash = project'.contentHash ↔ SameSchema project project' ∨
        (project.canonical ≠ project'.canonical ∧
          Sha256.digest project.canonical = Sha256.digest project'.canonical)) := by
  have hHash : ∀ {options : Options} {sources : List Source} {project : Project},
      compile options sources = .ok project →
        project.contentHash = hexText (Sha256.digest project.canonical) := by
    intro options sources project hRun
    obtain ⟨_, _, _, _, _, _, _, _, _, _, rfl⟩ := compile_eq_ok.1 hRun
    rfl
  obtain ⟨_, _, _, _, _, _, hSeated⟩ := compile_seated hRun
  obtain ⟨_, _, _, _, _, _, hSeated'⟩ := compile_seated hRun'
  have hForm := hSized.form (compile_arena hRun) hSeated
  have hForm' := hSized'.form (compile_arena hRun') hSeated'
  have hSame : project.canonical = project'.canonical ↔ SameSchema project project' := by
    rw [← form_eq_iff (compile_distinct hRun) (compile_distinct hRun'), Project.canonical_eq,
      Project.canonical_eq]
    exact ⟨Form.bytes_injective hForm hForm', congrArg Form.bytes⟩
  refine ⟨hSame, hHash hRun, ?_⟩
  rw [hHash hRun, hHash hRun', ← hSame]
  constructor
  · intro hTexts
    by_cases hForms : project.canonical = project'.canonical
    · exact Or.inl hForms
    · exact Or.inr ⟨hForms, hexText_injective hTexts⟩
  · rintro (hForms | ⟨_, hDigests⟩)
    · rw [hForms]
    · rw [hDigests]

theorem Luggage.sized {options : Options} (hName : Short options.name)
    (hVersion : Short options.version) : (models.toProject options).Sized where
  name := hName
  version := hVersion
  declared := (by decide : models.declared.length < 2 ^ 64)
  services := (by decide : models.services.length < 2 ^ 64)
  definitions := (by decide : ∀ definition ∈ models.definitions, definition.Sized)
  serviceNames := by simp [Models.toProject, models]

/-- The luggage under two names. -/
theorem luggage_canonical_ne :
    (Luggage.models.toProject { name := "luggage" }).canonical ≠
      (Luggage.models.toProject { name := "baggage" }).canonical := by
  intro hEq
  have hSame := (compile_canonical (Luggage.compiles.compile { name := "luggage" })
    (Luggage.compiles.compile { name := "baggage" }) (Luggage.sized (by decide) (by decide))
    (Luggage.sized (by decide) (by decide))).1.1 hEq
  exact absurd hSame.name (by decide)

end Interchange.Schema

import Interchange.Proofs.Schema.Construction

/-!
# Compilation does not stop

The last phase writes the canonical form of what is built, and reads places and numbers for it. With
this phase guarded as well, compilation is a guarded run from texts to a project. It does not stop
at a defect, whatever the texts are, and gives what `compile` gives: a project or an error of the
schema. The two errors that stand for a wrong order of definitions and a wrong parameter are never
met.

* `Canonical.guardedProject_eq`: the canonical form.
* `guardedCompile`: compilation, with every access that has to succeed.
* `External`: runs that fail with errors of a schema only.
* `compile_safe`: compilation does not stop.
-/

namespace Interchange.Schema

open Guarded

/-! ## The canonical form -/

namespace Canonical

/-- The definition at a place. -/
def guardedDefinition (models : Models) (place : Nat) : Guarded CompileError Definition :=
  demand .bounds models.definitions[place]?

/-- Reads the reference with a number. -/
def guardedNumber (models : Models) (number : Nat) : Guarded CompileError Unit :=
  if number < models.references then pure () else stop .bounds

mutual

def guardedReference (models : Models) : TypeRef → Guarded CompileError Bytes
  | .parameter slot _ index _ => do
    guardedNumber models slot
    return text "parameter" ++ number index
  | .model site target args => do
    guardedNumber models site.slot
    let definition ← guardedDefinition models target
    let inner ← guardedReferences models args
    return text "model" ++ identifier definition.identifier ++ number args.length ++ inner

def guardedReferences (models : Models) : List TypeRef → Guarded CompileError Bytes
  | [] => return []
  | first :: rest => do
    let front ← guardedReference models first
    let others ← guardedReferences models rest
    return front ++ others

end

/-- The number of items, then the items. -/
def guardedCounted {α : Type} (item : α → Guarded CompileError Bytes) (items : List α) :
    Guarded CompileError Bytes := do
  let forms ← items.mapM item
  return number items.length ++ forms.flatten

def guardedField (models : Models) (part : ModelPart TypeRef) : Guarded CompileError Bytes := do
  let type ← guardedReference models part.content
  return number part.number.toNat ++ text part.name ++ type

def guardedPayload (models : Models) : Option TypeRef → Guarded CompileError Bytes
  | some type => do
    let form ← guardedReference models type
    return number 1 ++ form
  | none => return number 0

def guardedVariant (models : Models) (part : ModelPart (Option TypeRef)) :
    Guarded CompileError Bytes := do
  let form ← guardedPayload models part.content
  return number part.number.toNat ++ text part.name ++ form

def guardedBody (models : Models) : DefinitionBody → Guarded CompileError Bytes
  | .builtin _ => return []
  | .message fields ids => do
    let forms ← guardedCounted (guardedField models) fields
    return forms ++ retired ids
  | .tag variants ids => do
    let forms ← guardedCounted (guardedVariant models) variants
    return forms ++ retired ids

def guardedModel (models : Models) (definition : Definition) : Guarded CompileError Bytes := do
  let form ← guardedBody models definition.body
  return text definition.kindName ++ identifier definition.identifier ++ number definition.arity
    ++ form

def guardedService (models : Models) (service : Service) : Guarded CompileError Bytes := do
  let input ← guardedReference models service.input
  let output ← guardedReference models service.output
  return identifier service.identifier ++ number service.id.toNat ++ input ++ output

/-- The canonical form, for which the definitions that are not built in are read from their
places. -/
def guardedProject (name version : String) (models : Models) : Guarded CompileError Bytes := do
  let declared ← (models.declared.map Prod.fst).mapM (guardedDefinition models)
  let definitions ← guardedCounted (guardedModel models)
    (declared.mergeSort fun a b => a.identifier.le b.identifier)
  let services ← guardedCounted (guardedService models)
    (models.services.mergeSort fun a b => decide (a.id ≤ b.id))
  return text name ++ text version ++ definitions ++ services ++ text trailer

/-- A reference all of whose numbers are known and all of whose places hold definitions. -/
structure Readable (models : Models) (reference : TypeRef) : Prop where
  numbers : reference.Within models.references
  places : ∃ owner arity, reference.Fits models.definitions owner arity

variable {models : Models}

theorem guardedReferences_eq {args : List TypeRef}
    (hEach : ∀ arg ∈ args, guardedReference models arg = pure (reference models.definitions arg)) :
    guardedReferences models args = pure (references models.definitions args) := by
  induction args with
  | nil => rfl
  | cons first rest ih =>
    obtain ⟨hFirst, hRest⟩ := List.forall_mem_cons.1 hEach
    rw [guardedReferences, hFirst, pure_bind, ih hRest, pure_bind, references]

theorem guardedReference_eq {type : TypeRef} (hReadable : Readable models type) :
    guardedReference models type = pure (reference models.definitions type) := by
  obtain ⟨hWithin, owner, arity, hFits⟩ := hReadable
  induction hFits with
  | parameter hIndex =>
    cases hWithin with
    | parameter hSlot =>
      rw [guardedReference, guardedNumber, if_pos hSlot, pure_bind, reference]
  | @model site target args definition hTarget _ _ _ ih =>
    cases hWithin with
    | model hSlot hArgs =>
      rw [guardedReference, guardedNumber, if_pos hSlot, pure_bind, guardedDefinition,
        demand_some hTarget, pure_bind,
        guardedReferences_eq fun arg hArg => ih arg hArg (hArgs arg hArg), pure_bind, reference,
        identifierAt, hTarget]

theorem guardedCounted_eq {α : Type} {item : α → Guarded CompileError Bytes} {form : α → Bytes}
    {items : List α} (hEach : ∀ x ∈ items, item x = pure (form x)) :
    guardedCounted item items = pure (counted form items) := by
  rw [guardedCounted, mapM_pure hEach, pure_bind, counted, List.flatMap_def]

theorem guardedField_eq {part : ModelPart TypeRef} (hReadable : Readable models part.content) :
    guardedField models part = pure (field models.definitions part) := by
  rw [guardedField, guardedReference_eq hReadable, pure_bind, field]

theorem guardedVariant_eq {part : ModelPart (Option TypeRef)}
    (hReadable : ∀ type, part.content = some type → Readable models type) :
    guardedVariant models part = pure (variant models.definitions part) := by
  rw [guardedVariant, variant]
  cases hContent : part.content with
  | none => rfl
  | some type =>
    rw [guardedPayload, guardedReference_eq (hReadable type hContent)]
    rfl

theorem guardedModel_eq {definition : Definition}
    (hReadable : ∀ type ∈ definition.references, Readable models type) :
    guardedModel models definition = pure (model models.definitions definition) := by
  have hBody : guardedBody models definition.body =
      pure (body models.definitions definition.body) := by
    rw [Definition.references] at hReadable
    cases hKind : definition.body with
    | builtin kind => rfl
    | message fields ids =>
      rw [hKind] at hReadable
      have hEach := guardedCounted_eq fun part hPart =>
        guardedField_eq (hReadable _ (List.mem_map_of_mem (f := ModelPart.content) hPart))
      rw [guardedBody, hEach, pure_bind, body]
    | tag variants ids =>
      rw [hKind] at hReadable
      have hEach : guardedCounted (guardedVariant models) variants =
          pure (counted (variant models.definitions) variants) :=
        guardedCounted_eq fun part hPart => guardedVariant_eq fun type hType =>
          hReadable type (List.mem_filterMap.2 ⟨part, hPart, hType⟩)
      rw [guardedBody, hEach, pure_bind, body]
  rw [guardedModel, hBody, pure_bind, model]

theorem guardedService_eq {service : Schema.Service}
    (hReadable : ∀ type ∈ [service.input, service.output], Readable models type) :
    guardedService models service = pure (Canonical.service models.definitions service) := by
  rw [guardedService, guardedReference_eq (hReadable _ (by simp)), pure_bind,
    guardedReference_eq (hReadable _ (by simp)), pure_bind, Canonical.service]

/-- In what is built every number is known and every place holds a definition. -/
theorem guardedProject_eq {table sorted : List Resolved} (hTable : Resolved.Sound table)
    (hPerm : sorted.Perm table) (hRun : Models.build sorted = .ok models) (name version : String) :
    guardedProject name version models = pure (project name version models) := by
  have hSeated := build_seated hTable hPerm hRun
  have hArena := build_arena hRun
  have hPlaces : (models.declared.map Prod.fst).mapM (guardedDefinition models) =
      pure (models.declared.map Prod.snd) := by
    rw [List.mapM_map]
    refine mapM_pure fun entry hEntry => ?_
    exact demand_some (Models.mem_declared.1 hEntry).1
  have hModels : ∀ definition ∈ (models.declared.map Prod.snd).mergeSort
      (fun a b => a.identifier.le b.identifier),
        guardedModel models definition = pure (model models.definitions definition) := by
    intro definition hMem
    obtain ⟨⟨place, definition⟩, hEntry, rfl⟩ :=
      List.mem_map.1 ((List.mergeSort_perm _ _).mem_iff.1 hMem)
    have hPlace := (Models.mem_declared.1 hEntry).1
    refine guardedModel_eq fun type hType => ⟨?_, place, definition.arity, ?_⟩
    · exact hSeated.numbers _ (List.mem_of_getElem? hPlace) type (List.mem_append_right _ hType)
    · have hFits := (hArena.references place _ hPlace type hType).append
        (models.definitions.drop place)
      rwa [List.take_append_drop] at hFits
  have hServices : ∀ service ∈ models.services.mergeSort (fun a b => decide (a.id ≤ b.id)),
      guardedService models service = pure (Canonical.service models.definitions service) := by
    intro service hMem
    refine guardedService_eq fun type hType => ?_
    obtain ⟨hWithin, hFits⟩ :=
      hSeated.services service ((List.mergeSort_perm _ _).mem_iff.1 hMem) type hType
    exact ⟨hWithin, 0, 0, hFits⟩
  rw [guardedProject, hPlaces, pure_bind, guardedCounted_eq hModels, pure_bind,
    guardedCounted_eq hServices, pure_bind, project]

end Canonical

/-! ## All phases -/

/-- The project of some schema texts. Every access that has to succeed is made on the way. -/
def guardedCompile (options : Options) (sources : List Source) : Guarded CompileError Project := do
  let files ← mapError CompileError.malformed (guardedParseFiles sources)
  let table ← clean (Declaration.collect files)
  let resolved ← clean (Resolved.all table)
  let sorted ← guardedSort resolved
  let models ← guardedBuild sorted
  let form ← Canonical.guardedProject options.name options.version models
  return { models with
    name := options.name
    version := options.version
    contentHash := hexText (Sha256.digest form) }

theorem guardedCompile_eq (options : Options) (sources : List Source) :
    guardedCompile options sources = clean (compile options sources) := by
  rw [guardedCompile, guardedParseFiles_eq, compile]
  cases parseFiles sources with
  | error diagnostics => rfl
  | ok files =>
    show (clean (Declaration.collect files) >>= _) = clean (compileFiles files >>= _)
    rw [compileFiles]
    cases hDeclared : Declaration.collect files with
    | error error => rfl
    | ok declared =>
      show (clean (Resolved.all declared) >>= _) = clean ((Resolved.all declared >>= _) >>= _)
      cases hTable : Resolved.all declared with
      | error error => rfl
      | ok table =>
        -- From here on every access rests on what the phases before have found out.
        have hSound := Resolved.all_sound (Declaration.collect_lawful hDeclared) hTable
        show (guardedSort table >>= _) = clean ((sortDeclarations table >>= _) >>= _)
        rw [guardedSort_eq hSound.closed]
        cases hSorted : sortDeclarations table with
        | error error => rfl
        | ok sorted =>
          obtain ⟨hPerm, hFirst⟩ := sortDeclarations_ok hSound.closed hSorted
          show (guardedBuild sorted >>= _) = clean (Models.build sorted >>= _)
          rw [guardedBuild_eq hSound hPerm hFirst]
          cases hBuild : Models.build sorted with
          | error error => rfl
          | ok models =>
            show (Canonical.guardedProject options.name options.version models >>= _) = _
            rw [Canonical.guardedProject_eq hSound hPerm hBuild]
            rfl

/-! ## Errors of a schema -/

/-- An error that no schema is to blame for. -/
def CompileError.isInternal : CompileError → Bool
  | undefinedTarget _ => true
  | undefinedParameter _ _ => true
  | _ => false

/-- A run that fails with errors of a schema only. -/
def External {α : Type} (run : Except CompileError α) : Prop :=
  ∀ error, run = .error error → error.isInternal = false

namespace External

variable {α β : Type}

theorem ok (a : α) : External (.ok a) := by
  intro error hRun
  cases hRun

theorem error {error : CompileError} (hExternal : error.isInternal = false) :
    External (.error error : Except CompileError α) := by
  intro other hRun
  cases hRun
  exact hExternal

theorem bind {run : Except CompileError α} {next : α → Except CompileError β} (hRun : External run)
    (hNext : ∀ a, run = .ok a → External (next a)) : External (run >>= next) := by
  intro error hError
  rcases bind_eq_error.1 hError with hFirst | ⟨a, hFirst, hLater⟩
  · exact hRun error hFirst
  · exact hNext a hFirst error hLater

theorem mapM {step : α → Except CompileError β} {xs : List α}
    (hStep : ∀ x ∈ xs, External (step x)) : External (xs.mapM step) := by
  induction xs with
  | nil => exact ok []
  | cons x xs ih =>
    obtain ⟨hFirst, hRest⟩ := List.forall_mem_cons.1 hStep
    rw [List.mapM_cons]
    exact hFirst.bind fun y _ => (ih hRest).bind fun ys _ => ok (y :: ys)

theorem foldlM {step : β → α → Except CompileError β} (hStep : ∀ b x, External (step b x))
    (xs : List α) (start : β) : External (xs.foldlM step start) := by
  intro error hRun
  obtain ⟨_, x, _, middle, _, _, hFails⟩ := foldlM_eq_error hRun
  exact hStep middle x error hFails

end External

theorem Declaration.collect_external (files : List SourceFile) : External (collect files) := by
  refine External.foldlM (fun table entry => ?_) _ _
  cases entry with
  | entered path =>
    rw [register]
    split_ifs
    · exact .error rfl
    · exact .ok _
  | declared declaration =>
    rw [register]
    split
    · exact .error rfl
    · exact .ok _

namespace Scope

mutual

theorem usage_external (scope : Scope) : (type : TypeExpr) → External (scope.usage type)
  | .mk name args span => by
    rw [usage]
    split
    · split_ifs
      · exact .ok _
      · exact .error rfl
    · split
      · exact .error rfl
      · split_ifs
        · exact .error rfl
        · exact (usages_external scope args).bind fun _ _ => .ok _

theorem usages_external (scope : Scope) : (types : List TypeExpr) → External (scope.usages types)
  | [] => by
    rw [usages]
    exact .ok []
  | type :: rest => by
    rw [usages]
    exact (usage_external scope type).bind fun first _ =>
      (usages_external scope rest).bind fun others _ => .ok _

end

theorem allRetiredIds_external (scope : Scope) (options : List OptionDecl) :
    External (scope.allRetiredIds options) := by
  refine (External.mapM fun option _ => ?_).bind fun ids _ => .ok _
  rw [retiredIds]
  split_ifs
  · split
    · exact .ok _
    · exact .ok _
    · exact .error rfl
  · exact .error rfl

theorem setOption_external (scope : Scope) (settings : ServiceSettings) (option : OptionDecl) :
    External (scope.setOption settings option) := by
  rw [setOption]
  split
  · exact .error rfl
  · split_ifs
    · exact .error rfl
    · split
      · exact (usage_external scope _).bind fun _ _ => .ok _
      · exact (usage_external scope _).bind fun _ _ => .ok _
      · exact .ok _
      all_goals exact .error rfl

theorem service_external (scope : Scope) (options : List OptionDecl) :
    External (scope.service options) := by
  refine (External.foldlM scope.setOption_external options _).bind fun settings _ => ?_
  split
  · exact .error rfl
  · exact .error rfl
  · exact .error rfl
  · exact .ok _

theorem field_external (scope : Scope) (decl : FieldDecl) : External (scope.field decl) :=
  (usage_external scope decl.type).bind fun _ _ => .ok _

theorem variant_external (scope : Scope) (decl : VariantDecl) : External (scope.variant decl) := by
  rw [variant]
  split
  · exact .ok _
  · exact (usage_external scope _).bind fun _ _ => .ok _

end Scope

theorem Resolved.all_external (table : List Declaration) : External (Resolved.all table) := by
  refine External.mapM fun declaration _ => ?_
  have hBody : External (bodyOf table declaration.identifier declaration.body) := by
    cases declaration.body with
    | builtin kind => exact .ok _
    | message decl =>
      exact (External.mapM fun part _ => Scope.field_external _ part).bind fun fields _ =>
        (Scope.allRetiredIds_external _ _).bind fun ids _ => .ok _
    | tag decl =>
      exact (External.mapM fun part _ => Scope.variant_external _ part).bind fun variants _ =>
        (Scope.allRetiredIds_external _ _).bind fun ids _ => .ok _
    | service decl => exact Scope.service_external _ _
  exact hBody.bind fun body _ => .ok _

theorem sortDeclarations_external (table : List Resolved) : External (sortDeclarations table) := by
  rw [sortDeclarations]
  split
  · exact .ok _
  · exact .error rfl

theorem Resolved.Breach.external {table : List Resolved} {error : CompileError}
    (hBreach : Breach table error) : error.isInternal = false := by
  cases hBreach with
  | usage _ _ _ hMisused => cases hMisused <;> rfl
  | _ => rfl

theorem compileFiles_external (files : List SourceFile) : External (compileFiles files) := by
  refine (Declaration.collect_external files).bind fun declared hDeclared => ?_
  refine (Resolved.all_external declared).bind fun table hTable => ?_
  refine (sortDeclarations_external table).bind fun sorted hSorted => ?_
  have hSound := Resolved.all_sound (Declaration.collect_lawful hDeclared) hTable
  obtain ⟨hPerm, hFirst⟩ := sortDeclarations_ok hSound.closed hSorted
  refine External.bind (fun error hRun => ?_) fun builder _ => .ok _
  obtain ⟨done, resolved, later, builder, rfl, hDone, hStep⟩ := foldlM_eq_error hRun
  exact (Builder.add_breach hSound hPerm hFirst hDone hStep).external

/-- Compilation never stops at an access that has to succeed: with all of them made, it gives what
it gives without them, a project or an error, and the error is one of the schema. -/
theorem compile_safe (options : Options) (sources : List Source) :
    (guardedCompile options sources).run = .ok (compile options sources) ∧
    ∀ error, compile options sources = .error error → error.isInternal = false := by
  refine ⟨congrArg ExceptT.run (guardedCompile_eq options sources), fun error hRun => ?_⟩
  rw [compile] at hRun
  split at hRun
  · cases hRun
    rfl
  next files _ =>
    exact (compileFiles_external files).bind (fun models _ => .ok _) error hRun

end Interchange.Schema

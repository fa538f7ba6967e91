import Interchange.Proofs.Schema.Building
import Interchange.Proofs.Schema.VoidCheck

/-!
# The rule on void

Declarations are built one by one, each behind the models that it names. Under all other rules a run
fails exactly if the types of some declaration hold `void`: what is built so far always says of the
declarations before what the check of the next one asks.

* `Resolved.Lawful`: every other rule is kept.
* `Builder.Follows`: what is built after some of the declarations.
* `add_verdict`, `add_follows`: one declaration.
* `build_voidTypeArgument_iff`: all of them.
-/

namespace Interchange.Schema

/-! ## The other rules -/

namespace ResolvedBody

/-- The numbers of fields or variants, in source order. -/
def numbers : ResolvedBody → List UInt32
  | message _ fields _ => fields.map ModelPart.number
  | tag _ variants _ => variants.map ModelPart.number
  | _ => []

/-- The names of fields or variants, in source order. -/
def partNames : ResolvedBody → List String
  | message _ fields _ => fields.map ModelPart.name
  | tag _ variants _ => variants.map ModelPart.name
  | _ => []

def retired : ResolvedBody → List UInt32
  | message _ _ retired => retired
  | tag _ _ retired => retired
  | _ => []

def serviceId? : ResolvedBody → Option UInt32
  | service _ _ id => some id
  | _ => none

end ResolvedBody

/-- A table that keeps every rule but the one on `void`: types have as many arguments as they take,
numbers and names of parts differ, retired ids are not in use, and service ids are positive and
differ. -/
structure Resolved.Lawful (table : List Resolved) : Prop extends Resolved.Proper table where
  numbers : ∀ resolved ∈ table, resolved.body.numbers.Nodup
  partNames : ∀ resolved ∈ table, resolved.body.partNames.Nodup
  retired : ∀ resolved ∈ table, ∀ id ∈ resolved.body.retired, id ∉ resolved.body.numbers
  positive : ∀ resolved ∈ table, ∀ id, resolved.body.serviceId? = some id → id ≠ 0
  serviceIds : (table.filterMap fun resolved => resolved.body.serviceId?).Nodup

namespace Builder

/-! ## One declaration -/

theorem checkParts_verdict {α : Type} {context : Identifier} {taken : UInt32 → CompileError}
    {sound : α → Except CompileError Unit} (holds : α → Prop) {earlier parts : List (ModelPart α)}
    (hNumbers : (parts.map ModelPart.number).Nodup) (hNames : (parts.map ModelPart.name).Nodup)
    (hEarlier : ∀ part ∈ parts, ∀ other ∈ earlier,
      other.number ≠ part.number ∧ other.name ≠ part.name)
    (hSound : ∀ part ∈ parts, Verdict (holds part.content) (sound part.content)) :
    Verdict (∃ part ∈ parts, holds part.content)
      (checkParts context taken sound earlier parts) := by
  induction parts generalizing earlier with
  | nil => simp [checkParts, Verdict]
  | cons part rest ih =>
    obtain ⟨hNumber, hNumbers⟩ := List.nodup_cons.1 hNumbers
    obtain ⟨hName, hNames⟩ := List.nodup_cons.1 hNames
    obtain ⟨hOwn, hRest⟩ := List.forall_mem_cons.1 hEarlier
    obtain ⟨hFirst, hSound⟩ := List.forall_mem_cons.1 hSound
    have hNoNumber : ¬ earlier.any (·.number == part.number) = true := by
      simp only [List.any_eq_true, beq_iff_eq, not_exists, not_and]
      exact fun other hOther => (hOwn other hOther).1
    have hNoName : ¬ earlier.any (·.name == part.name) = true := by
      simp only [List.any_eq_true, beq_iff_eq, not_exists, not_and]
      exact fun other hOther => (hOwn other hOther).2
    rw [checkParts, if_neg hNoNumber, if_neg hNoName]
    have hLater : ∀ later ∈ rest, ∀ other ∈ part :: earlier,
        other.number ≠ later.number ∧ other.name ≠ later.name := by
      intro later hMem
      refine List.forall_mem_cons.2 ⟨⟨?_, ?_⟩, hRest later hMem⟩
      · exact fun hEq => hNumber (hEq ▸ List.mem_map_of_mem hMem)
      · exact fun hEq => hName (hEq ▸ List.mem_map_of_mem hMem)
    refine (hFirst.bind fun _ _ => ih hNumbers hNames hLater hSound).congr ?_
    simp

/-! ## What is built -/

/-- What is built after the declarations `done`. -/
structure Follows (table done : List Resolved) (builder : Builder) : Prop where
  builtins : ∀ kind, builder.find? kind.identifier = some (Built.ofBuiltin kind)
  covers : ∀ resolved ∈ done, resolved.body.isService = false → builder.Covers table resolved
  names : ∀ built ∈ builder.built,
    (∃ kind, Builtin.identifier kind = built.definition.identifier) ∨
      ∃ resolved ∈ done, resolved.identifier = built.definition.identifier
  serviceIds : ∀ service ∈ builder.services,
    ∃ resolved ∈ done, resolved.body.serviceId? = some service.id

theorem follows_start (table : List Resolved) : start.Follows table [] where
  builtins := find?_start
  covers := by simp
  names built hBuilt := by
    obtain ⟨kind, _, rfl⟩ := List.mem_map.1 hBuilt
    exact Or.inl ⟨kind, rfl⟩
  serviceIds := by simp [start]

/-- A declaration comes next: the models it names are done, and it is not. -/
structure Next (table done : List Resolved) (resolved : Resolved) : Prop where
  subset : done ⊆ table
  mem : resolved ∈ table
  name : ∀ other ∈ done, other.identifier ≠ resolved.identifier
  serviceId : ∀ other ∈ done, ∀ id, other.body.serviceId? = some id →
    resolved.body.serviceId? ≠ some id
  dependencies : ∀ target ∈ resolved.dependencies, ∃ earlier ∈ done, earlier.identifier = target

theorem next_of_split {table done later : List Resolved} {resolved : Resolved}
    (hTable : Resolved.Lawful table) (hPerm : (done ++ resolved :: later).Perm table)
    (hFirst : Resolved.DependenciesFirst (done ++ resolved :: later)) :
    Next table done resolved := by
  have hNames := ((hPerm.map Resolved.identifier).nodup_iff).2 hTable.names
  rw [List.map_append, List.map_cons] at hNames
  have hIds := (hPerm.filterMap fun resolved => resolved.body.serviceId?).nodup_iff.2
    hTable.serviceIds
  rw [List.filterMap_append] at hIds
  refine ⟨?_, hPerm.mem_iff.1 (by simp), ?_, ?_, hFirst done resolved later rfl⟩
  · intro other hOther
    exact hPerm.mem_iff.1 (List.mem_append_left _ hOther)
  · intro other hOther
    exact (List.nodup_append.1 hNames).2.2 _ (List.mem_map_of_mem hOther) _ List.mem_cons_self
  · intro other hOther id hId hOwn
    have hDone : id ∈ done.filterMap fun resolved => resolved.body.serviceId? :=
      List.mem_filterMap.2 ⟨other, hOther, hId⟩
    have hLater : id ∈ (resolved :: later).filterMap fun resolved => resolved.body.serviceId? :=
      List.mem_filterMap.2 ⟨resolved, List.mem_cons_self, hOwn⟩
    exact (List.nodup_append.1 hIds).2.2 id hDone id hLater rfl

/-- The models that the types of the next declaration name are covered. -/
theorem Follows.covers_targets {table done : List Resolved} {builder : Builder}
    {resolved : Resolved} (hTable : Resolved.Lawful table) (hFollows : builder.Follows table done)
    (hNext : Next table done resolved) :
    ∀ usage ∈ resolved.body.usages, ∀ other ∈ table, other.identifier ∈ usage.targets →
      builder.Covers table other := by
  intro usage hUsage other hOther hTarget
  have hNeeded : other.identifier ∈ resolved.dependencies :=
    List.mem_flatMap.2 ⟨usage, hUsage, hTarget⟩
  obtain ⟨earlier, hEarlier, hName⟩ := hNext.dependencies _ hNeeded
  obtain rfl := List.inj_on_of_nodup_map hTable.names (hNext.subset hEarlier) hOther hName
  have hScoped := hTable.usages resolved hNext.mem usage hUsage
  obtain ⟨model, hModel, hName, hService⟩ := hScoped.mem_targets _ hTarget
  obtain rfl := List.inj_on_of_nodup_map hTable.names hModel hOther hName
  exact hFollows.covers _ hEarlier hService

/-- The id of the next service is free. -/
theorem Follows.free {table done : List Resolved} {builder : Builder} {resolved : Resolved}
    {id : UInt32} (hFollows : builder.Follows table done) (hNext : Next table done resolved)
    (hId : resolved.body.serviceId? = some id) : ∀ service ∈ builder.services, service.id ≠ id := by
  rintro service hService rfl
  obtain ⟨other, hOther, hTaken⟩ := hFollows.serviceIds service hService
  exact hNext.serviceId other hOther _ hTaken hId

theorem checkPayload_verdict {builder : Builder} {context : Identifier} {arity : Nat}
    {holds : Usage → Prop} {payload : Option Usage}
    (hCheck : ∀ usage, payload = some usage →
      Verdict (holds usage) (builder.check context arity usage)) :
    Verdict (∃ usage, payload = some usage ∧ holds usage)
      (builder.checkPayload context arity payload) := by
  cases payload with
  | none => simp [checkPayload, Verdict]
  | some usage =>
    refine (hCheck usage rfl).congr ?_
    simp

section

variable {builder : Builder} {identifier : Identifier} {params : List String} {holds : Usage → Prop}

theorem addMessage_verdict {fields : List (ModelPart Usage)} {retired : List UInt32}
    (hNumbers : (fields.map ModelPart.number).Nodup) (hNames : (fields.map ModelPart.name).Nodup)
    (hRetired : ∀ id ∈ retired, id ∉ fields.map ModelPart.number)
    (hCheck : ∀ usage ∈ fields.map ModelPart.content,
      Verdict (holds usage) (builder.check identifier params.length usage)) :
    Verdict (∃ usage ∈ fields.map ModelPart.content, holds usage)
      (builder.addMessage identifier params fields retired) := by
  obtain ⟨next, hEq⟩ := addMessage_eq builder identifier params fields retired
  rw [hEq, checkRetired_eq_ok.2 hRetired]
  have hParts : Verdict (∃ field ∈ fields, holds field.content)
      (checkParts identifier (.duplicateFieldId identifier)
        (builder.check identifier params.length) [] fields) :=
    checkParts_verdict holds hNumbers hNames (by simp) fun field hField =>
      hCheck field.content (List.mem_map_of_mem hField)
  refine (hParts.bind_ok fun _ => ⟨_, rfl⟩).congr ?_
  simp

theorem addTag_verdict {variants : List (ModelPart (Option Usage))} {retired : List UInt32}
    (hNumbers : (variants.map ModelPart.number).Nodup)
    (hNames : (variants.map ModelPart.name).Nodup)
    (hRetired : ∀ id ∈ retired, id ∉ variants.map ModelPart.number)
    (hCheck : ∀ usage ∈ variants.filterMap ModelPart.content,
      Verdict (holds usage) (builder.check identifier params.length usage)) :
    Verdict (∃ usage ∈ variants.filterMap ModelPart.content, holds usage)
      (builder.addTag identifier params variants retired) := by
  obtain ⟨next, hEq⟩ := addTag_eq builder identifier params variants retired
  rw [hEq, checkRetired_eq_ok.2 hRetired]
  have hParts : Verdict
      (∃ variant ∈ variants, ∃ usage, variant.content = some usage ∧ holds usage)
      (checkParts identifier (.duplicateTagValue identifier)
        (builder.checkPayload identifier params.length) [] variants) :=
    checkParts_verdict (fun payload => ∃ usage, payload = some usage ∧ holds usage) hNumbers hNames
      (by simp) fun variant hVariant => checkPayload_verdict fun usage hUsage =>
        hCheck usage (List.mem_filterMap.2 ⟨variant, hVariant, hUsage⟩)
  refine (hParts.bind_ok fun _ => ⟨_, rfl⟩).congr ?_
  simp only [List.mem_filterMap]
  constructor
  · rintro ⟨variant, hVariant, usage, hUsage, hHolds⟩
    exact ⟨usage, ⟨variant, hVariant, hUsage⟩, hHolds⟩
  · rintro ⟨usage, ⟨variant, hVariant, hUsage⟩, hHolds⟩
    exact ⟨variant, hVariant, usage, hUsage, hHolds⟩

theorem addService_verdict {input output : Usage} {id : UInt32} (hPositive : id ≠ 0)
    (hFree : ∀ service ∈ builder.services, service.id ≠ id)
    (hCheck : ∀ usage ∈ [input, output],
      Verdict (holds usage) (builder.check identifier 0 usage)) :
    Verdict (∃ usage ∈ [input, output], holds usage)
      (builder.addService identifier input output id) := by
  obtain ⟨inputRef, outputRef, next, hEq⟩ :=
    addService_eq builder identifier input output id hPositive hFree
  rw [hEq]
  have hInput := hCheck input (by simp)
  have hOutput := hCheck output (by simp)
  refine (hInput.bind fun _ _ => hOutput.bind_ok fun _ => ⟨_, rfl⟩).congr ?_
  simp

end

/-- The next declaration is added unless one of its types holds `void`. -/
theorem add_verdict {table done : List Resolved} {builder : Builder} {resolved : Resolved}
    (hTable : Resolved.Lawful table) (hFollows : builder.Follows table done)
    (hNext : Next table done resolved) :
    Verdict (∃ usage ∈ resolved.body.usages, usage.Holds table .void) (builder.add resolved) := by
  have hCheck : ∀ usage ∈ resolved.body.usages, Verdict (usage.Holds table .void)
      (builder.check resolved.identifier resolved.body.arity usage) := fun usage hUsage =>
    check_verdict hTable.toProper (hTable.applied resolved hNext.mem usage hUsage)
      (hFollows.covers_targets hTable hNext usage hUsage)
  have hNumbers := hTable.numbers resolved hNext.mem
  have hNames := hTable.partNames resolved hNext.mem
  have hRetired := hTable.retired resolved hNext.mem
  have hPositive := hTable.positive resolved hNext.mem
  obtain ⟨identifier, body⟩ := resolved
  cases body with
  | builtin kind => simp [add, ResolvedBody.usages, Verdict]
  | message params fields retired => exact addMessage_verdict hNumbers hNames hRetired hCheck
  | tag params variants retired => exact addTag_verdict hNumbers hNames hRetired hCheck
  | service input output id =>
    exact addService_verdict (hPositive id rfl) (hFollows.free hNext rfl) hCheck

theorem Covers.push {table : List Resolved} {builder : Builder} {resolved : Resolved}
    (hCovers : builder.Covers table resolved) (definition : Definition) (usages : List Usage)
    (references : Nat) : (builder.push definition usages references).Covers table resolved := by
  obtain ⟨built, hFind, hTells⟩ := hCovers.built
  exact ⟨⟨built, find?_push_of_some _ _ _ hFind, hTells⟩, hCovers.clean⟩

/-- A built-in type is covered from the start. -/
theorem Follows.covers_builtin {table done : List Resolved} {builder : Builder}
    (hFollows : builder.Follows table done) (kind : Builtin) :
    builder.Covers table ⟨kind.identifier, .builtin kind⟩ := by
  refine ⟨⟨_, hFollows.builtins kind, rfl, ?_⟩, by simp [ResolvedBody.usages]⟩
  intro index hIndex
  have hIndex : index < kind.arity := hIndex
  simp [Built.holds, Built.ofBuiltin, hIndex, Resolved.Exposes, ResolvedBody.usages]

/-- One more definition, which is that of the next declaration. -/
theorem Follows.push {table done : List Resolved} {builder : Builder} {resolved : Resolved}
    {definition : Definition} (hTable : Resolved.Lawful table)
    (hFollows : builder.Follows table done) (hNext : Next table done resolved)
    (hClean : ∀ usage ∈ resolved.body.usages, ¬ usage.Holds table .void)
    (hName : definition.identifier = resolved.identifier)
    (hArity : definition.parameters.length = resolved.body.arity)
    (hPlain : definition.builtin? = none) (hBody : ∀ kind, resolved.body ≠ .builtin kind)
    (references : Nat) :
    (builder.push definition resolved.body.usages references).Follows table
      (done ++ [resolved]) := by
  have hNew : ∀ built ∈ builder.built, built.definition.identifier ≠ definition.identifier := by
    rw [hName]
    intro built hBuilt hEq
    rcases hFollows.names built hBuilt with ⟨kind, hKind⟩ | ⟨other, hOther, hOtherName⟩
    · have hSame := List.inj_on_of_nodup_map hTable.names (hTable.builtins kind) hNext.mem
        (hKind.trans hEq)
      exact hBody kind (by rw [← hSame])
    · exact hNext.name other hOther (hOtherName.trans hEq)
  refine ⟨?_, ?_, ?_, ?_⟩
  · intro kind
    exact find?_push_of_some _ _ _ (hFollows.builtins kind)
  · intro other hOther hService
    rcases List.mem_append.1 hOther with hOther | hOther
    · exact (hFollows.covers other hOther hService).push _ _ _
    · obtain rfl := List.mem_singleton.1 hOther
      have hFind := find?_push_self other.body.usages references hNew
      rw [hName] at hFind
      refine ⟨⟨_, hFind, ?_, ?_⟩, hClean⟩
      · rw [← hArity]
        exact Definition.arity_of_builtin?_eq_none hPlain
      · intro index hIndex
        rw [hArity, holds_heldFlags hTable.toProper hIndex (hTable.applied other hNext.mem)
          (hFollows.covers_targets hTable hNext), Resolved.Exposes]
        simp [hBody]
  · intro built hBuilt
    rcases List.mem_append.1 hBuilt with hBuilt | hBuilt
    · refine (hFollows.names built hBuilt).imp_right ?_
      rintro ⟨other, hOther, hEq⟩
      exact ⟨other, List.mem_append_left _ hOther, hEq⟩
    · obtain rfl := List.mem_singleton.1 hBuilt
      exact Or.inr ⟨resolved, by simp, hName.symm⟩
  · intro service hService
    obtain ⟨other, hOther, hId⟩ := hFollows.serviceIds service hService
    exact ⟨other, List.mem_append_left _ hOther, hId⟩

/-- A declaration that adds no definition. -/
theorem Follows.keep {table done : List Resolved} {builder later : Builder} {resolved : Resolved}
    (hFollows : builder.Follows table done) (hBuilt : later.built = builder.built)
    (hCovers : resolved.body.isService = false → builder.Covers table resolved)
    (hServices : ∀ service ∈ later.services, service ∈ builder.services ∨
      resolved.body.serviceId? = some service.id) : later.Follows table (done ++ [resolved]) := by
  have hFind : ∀ identifier, later.find? identifier = builder.find? identifier := by
    intro identifier
    rw [find?, find?, hBuilt]
  refine ⟨?_, ?_, ?_, ?_⟩
  · intro kind
    rw [hFind]
    exact hFollows.builtins kind
  · intro other hOther hService
    have hKept : builder.Covers table other := by
      rcases List.mem_append.1 hOther with hOther | hOther
      · exact hFollows.covers other hOther hService
      · obtain rfl := List.mem_singleton.1 hOther
        exact hCovers hService
    exact ⟨by simpa only [hFind] using hKept.built, hKept.clean⟩
  · rw [hBuilt]
    intro built hMem
    refine (hFollows.names built hMem).imp_right ?_
    rintro ⟨other, hOther, hEq⟩
    exact ⟨other, List.mem_append_left _ hOther, hEq⟩
  · intro service hService
    rcases hServices service hService with hOld | hOwn
    · obtain ⟨other, hOther, hId⟩ := hFollows.serviceIds service hOld
      exact ⟨other, List.mem_append_left _ hOther, hId⟩
    · exact ⟨resolved, by simp, hOwn⟩

/-- What is built follows the declarations, one by one. -/
theorem add_follows {table done : List Resolved} {builder later : Builder} {resolved : Resolved}
    (hTable : Resolved.Lawful table) (hFollows : builder.Follows table done)
    (hNext : Next table done resolved) (hRun : builder.add resolved = .ok later) :
    later.Follows table (done ++ [resolved]) := by
  have hClean : ∀ usage ∈ resolved.body.usages, ¬ usage.Holds table .void := by
    have hVerdict := add_verdict hTable hFollows hNext
    rw [hRun] at hVerdict
    intro usage hUsage hHolds
    exact hVerdict ⟨usage, hUsage, hHolds⟩
  obtain ⟨identifier, body⟩ := resolved
  cases body with
  | builtin kind =>
    cases hRun
    obtain rfl : identifier = kind.identifier := hTable.kinds _ hNext.mem kind rfl
    exact hFollows.keep rfl (fun _ => hFollows.covers_builtin kind) fun _ => Or.inl
  | message params fields retired =>
    obtain ⟨next, hEq⟩ := addMessage_eq builder identifier params fields retired
    simp only [add, hEq, bind_eq_ok, pure_eq_ok] at hRun
    obtain ⟨_, _, _, _, rfl⟩ := hRun
    exact hFollows.push hTable hNext hClean rfl (length_placeParameters _ _ params)
      rfl (by simp) next
  | tag params variants retired =>
    obtain ⟨next, hEq⟩ := addTag_eq builder identifier params variants retired
    simp only [add, hEq, bind_eq_ok, pure_eq_ok] at hRun
    obtain ⟨_, _, _, _, rfl⟩ := hRun
    exact hFollows.push hTable hNext hClean rfl (length_placeParameters _ _ params)
      rfl (by simp) next
  | service input output id =>
    obtain ⟨inputRef, outputRef, next, hEq⟩ := addService_eq builder identifier input output id
      (hTable.positive _ hNext.mem id rfl) (hFollows.free hNext rfl)
    simp only [add, hEq, bind_eq_ok, pure_eq_ok] at hRun
    obtain ⟨_, _, _, _, rfl⟩ := hRun
    refine hFollows.keep rfl (by simp [ResolvedBody.isService]) ?_
    intro service hService
    refine (List.mem_append.1 hService).imp_right fun hOwn => ?_
    obtain rfl := List.mem_singleton.1 hOwn
    rfl

/-! ## All declarations -/

section

variable {table : List Resolved} (hTable : Resolved.Lawful table)

include hTable

theorem foldlM_follows (done : List Resolved) {more later : List Resolved}
    {builder finish : Builder} (hPerm : (done ++ (more ++ later)).Perm table)
    (hFirst : Resolved.DependenciesFirst (done ++ (more ++ later)))
    (hFollows : builder.Follows table done) (hRun : more.foldlM add builder = .ok finish) :
    finish.Follows table (done ++ more) := by
  induction more generalizing done builder with
  | nil =>
    cases hRun
    simpa using hFollows
  | cons resolved more ih =>
    rw [List.foldlM_cons, bind_eq_ok] at hRun
    obtain ⟨middle, hStep, hRun⟩ := hRun
    have hMiddle := add_follows hTable hFollows (next_of_split hTable hPerm hFirst) hStep
    rw [List.append_cons]
    exact ih _ (by simpa using hPerm) (by simpa using hFirst) hMiddle hRun

theorem foldlM_verdict (done : List Resolved) {more : List Resolved} {builder : Builder}
    (hPerm : (done ++ more).Perm table) (hFirst : Resolved.DependenciesFirst (done ++ more))
    (hFollows : builder.Follows table done) :
    Verdict (∃ resolved ∈ more, ∃ usage ∈ resolved.body.usages, usage.Holds table .void)
      (more.foldlM add builder) := by
  induction more generalizing done builder with
  | nil => simp [Verdict, pure, Except.pure]
  | cons resolved more ih =>
    have hNext := next_of_split hTable hPerm hFirst
    have hRest : ∀ middle, builder.add resolved = .ok middle →
        Verdict (∃ resolved ∈ more, ∃ usage ∈ resolved.body.usages, usage.Holds table .void)
          (more.foldlM add middle) := fun middle hStep =>
      ih _ (by simpa using hPerm) (by simpa using hFirst) (add_follows hTable hFollows hNext hStep)
    rw [List.foldlM_cons]
    refine ((add_verdict hTable hFollows hNext).bind hRest).congr ?_
    rw [List.exists_mem_cons_iff]

end

end Builder

/-- Declarations in order that keep every other rule are refused for `void` exactly if one of their
types holds it once it is written out, and are built otherwise. On the way, the flag of a parameter
is set exactly if an array or a map holds the parameter. -/
theorem build_voidTypeArgument_iff {table sorted : List Resolved} (hTable : Resolved.Lawful table)
    (hSorted : sortDeclarations table = .ok sorted) :
    ((∃ context template, Models.build sorted = .error (.voidTypeArgument context template)) ↔
      ∃ resolved ∈ table, ∃ usage ∈ resolved.body.usages, usage.Holds table .void) ∧
    ((∃ models, Models.build sorted = .ok models) ↔
      ∀ resolved ∈ table, ∀ usage ∈ resolved.body.usages, ¬ usage.Holds table .void) ∧
    ∀ done later builder, sorted = done ++ later →
      done.foldlM Builder.add Builder.start = .ok builder →
      ∀ resolved ∈ done, resolved.body.isService = false →
        ∃ built, builder.find? resolved.identifier = some built ∧
          ∀ index < resolved.body.arity,
            built.holds index = true ↔ resolved.Exposes table index := by
  obtain ⟨hPerm, hFirst⟩ := sortDeclarations_ok hTable.toSound.closed hSorted
  have hRun : Verdict (∃ resolved ∈ table, ∃ usage ∈ resolved.body.usages, usage.Holds table .void)
      (Models.build sorted) := by
    have hAll : Verdict
        (∃ resolved ∈ sorted, ∃ usage ∈ resolved.body.usages, usage.Holds table .void)
        (sorted.foldlM Builder.add Builder.start) :=
      Builder.foldlM_verdict hTable [] hPerm hFirst (Builder.follows_start table)
    refine (hAll.bind_ok fun builder => ⟨_, rfl⟩).congr ?_
    exact exists_congr fun resolved => and_congr_left fun _ => hPerm.mem_iff
  refine ⟨hRun.error_iff, ?_, ?_⟩
  · rw [hRun.ok_iff]
    simp
  · rintro done later builder rfl hDone resolved hMem hService
    have hFollows :=
      Builder.foldlM_follows hTable [] hPerm hFirst (Builder.follows_start table) hDone
    obtain ⟨built, hFind, hTells⟩ := (hFollows.covers resolved hMem hService).built
    exact ⟨built, hFind, hTells.holds⟩

/-- A template that hands its parameter to an array. -/
def bag : Resolved :=
  ⟨⟨"app", "Bag"⟩, .message ["T"] [⟨1, "items", .model Builtin.array.identifier [.parameter 0]⟩] []⟩

/-- A message that fills the template with `void`. -/
def sack : Resolved :=
  ⟨⟨"app", "Sack"⟩, .message [] [⟨1, "bag", .model bag.identifier [.void]⟩] []⟩

def baggage : List Resolved :=
  Builtin.all.map (fun kind => ⟨kind.identifier, .builtin kind⟩) ++ [bag, sack]

theorem mem_baggage {resolved : Resolved} : resolved ∈ baggage ↔
    (∃ kind : Builtin, resolved = ⟨kind.identifier, .builtin kind⟩) ∨
      resolved = bag ∨ resolved = sack := by
  simp [baggage, Builtin.mem_all, eq_comm]

theorem baggage_lawful : Resolved.Lawful baggage := by
  have hApplied : ∀ resolved ∈ baggage, ∀ usage ∈ resolved.body.usages,
      usage.Proper baggage resolved.body.arity := by
    intro resolved hMem
    rcases mem_baggage.1 hMem with ⟨kind, rfl⟩ | rfl | rfl
    · simp [ResolvedBody.usages]
    · refine List.forall_mem_singleton.2 (.model (mem_baggage.2 (Or.inl ⟨.array, rfl⟩)) rfl rfl ?_)
      exact List.forall_mem_singleton.2 (.parameter Nat.zero_lt_one)
    · refine List.forall_mem_singleton.2 (.model (mem_baggage.2 (Or.inr (Or.inl rfl))) rfl rfl ?_)
      refine List.forall_mem_singleton.2 (.model (mem_baggage.2 (Or.inl ⟨.void, rfl⟩)) rfl rfl ?_)
      simp
  have hRetired : ∀ resolved ∈ baggage, resolved.body.retired = [] := by decide
  have hServices : ∀ resolved ∈ baggage, resolved.body.serviceId? = none := by decide
  refine ⟨⟨⟨by decide, ?_, ?_, ?_⟩, hApplied⟩, by decide, by decide, ?_, ?_, by decide⟩
  · intro kind
    exact mem_baggage.2 (Or.inl ⟨kind, rfl⟩)
  · intro resolved hMem kind hKind
    rcases mem_baggage.1 hMem with ⟨other, rfl⟩ | rfl | rfl
    all_goals cases hKind
    rfl
  · intro resolved hMem usage hUsage
    exact (hApplied resolved hMem usage hUsage).scoped
  · intro resolved hMem id hId
    simp [hRetired resolved hMem] at hId
  · intro resolved hMem id hId
    simp [hServices resolved hMem] at hId

/-- The `void` comes to light only once the template is written out. -/
theorem build_baggage : Resolved.Lawful baggage ∧ ∃ sorted context template,
    sortDeclarations baggage = .ok sorted ∧
      Models.build sorted = .error (.voidTypeArgument context template) := by
  obtain ⟨sorted, hSorted⟩ := sortDeclarations_of_rank baggage_lawful.toSound.closed
    (fun name => baggage.findIdx (·.identifier == name)) (by decide)
  have hBag : bag ∈ baggage := mem_baggage.2 (Or.inr (Or.inl rfl))
  have hSack : sack ∈ baggage := mem_baggage.2 (Or.inr (Or.inr rfl))
  have hHolds : (Usage.model bag.identifier [.void]).Holds baggage .void :=
    ⟨.array, [.void], rfl, .single (.content hBag List.mem_cons_self), List.mem_cons_self⟩
  obtain ⟨context, template, hBuild⟩ := (build_voidTypeArgument_iff baggage_lawful hSorted).1.2
    ⟨sack, hSack, _, List.mem_cons_self, hHolds⟩
  exact ⟨baggage_lawful, sorted, context, template, hSorted, hBuild⟩

end Interchange.Schema

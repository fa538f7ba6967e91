import Interchange.Proofs.Schema.Compilation
import Interchange.Proofs.Schema.Outcome

/-!
# Valid schemas

Declarations in dependency order are built exactly if they keep the rules of the language. What
comes out lays out every declaration, and an error names a rule that is broken where it says.

* `Resolved.Valid`: the rules.
* `Resolved.Breach`: a rule is broken, as an error says.
* `foldlM_part`: what is known after some declarations, whatever comes behind them.
* `add_breach`: the error of one declaration.
* `build_exact`: when declarations are built, what comes out, and what errors say.
-/

namespace Interchange.Schema

/-! ## The rules -/

namespace Usage

/-- Every model in a type has as many arguments as its declaration takes. -/
inductive Applied (table : List Resolved) : Usage → Prop
  | parameter (index : Nat) : Applied table (.parameter index)
  | model {target : Identifier} {args : List Usage}
      (hArity : ∀ resolved ∈ table, resolved.identifier = target →
        args.length = resolved.body.arity)
      (hArgs : ∀ arg ∈ args, Applied table arg) : Applied table (.model target args)

/-- A type that is written out in full has an array or a map of `void` inside. -/
def HoldsVoid (table : List Resolved) (usage : Usage) : Prop :=
  ∃ held, usage.Holds table held ∧ Builder.isVoid held = true

/-- A type in scope is proper exactly if its models have as many arguments as they take. -/
theorem Scoped.proper_iff {table : List Resolved}
    (hNames : (table.map Resolved.identifier).Nodup) {arity : Nat} {usage : Usage}
    (hScoped : usage.Scoped (Resolved.IsModel table) arity) :
    usage.Proper table arity ↔ usage.Applied table := by
  induction hScoped with
  | parameter hIndex => exact ⟨fun _ => .parameter _, fun _ => .parameter hIndex⟩
  | model hTarget _ ih =>
    obtain ⟨found, hFound, rfl, hModel⟩ := hTarget
    constructor
    · intro hProper
      generalize hName : found.identifier = name at hProper
      cases hProper with
      | @model resolved args hMem _ hArity hArgs =>
        refine .model ?_ fun arg hArg => (ih arg hArg).1 (hArgs arg hArg)
        intro other hOther hSame
        rw [List.inj_on_of_nodup_map hNames hOther hMem hSame]
        exact hArity
    · intro hApplied
      cases hApplied with
      | model hArity hArgs =>
        exact .model hFound hModel (hArity found hFound rfl) fun arg hArg =>
          (ih arg hArg).2 (hArgs arg hArg)

end Usage

/-- The rules of the language: numbers and names of the parts of a model differ, retired ids are not
in use, types have as many arguments as they take and do not hold `void`, and service ids are
positive and differ. -/
structure Resolved.Valid (table : List Resolved) : Prop where
  numbers : ∀ resolved ∈ table, resolved.body.numbers.Nodup
  partNames : ∀ resolved ∈ table, resolved.body.partNames.Nodup
  retired : ∀ resolved ∈ table, ∀ id ∈ resolved.body.retired, id ∉ resolved.body.numbers
  applied : ∀ resolved ∈ table, ∀ usage ∈ resolved.body.usages, usage.Applied table
  void : ∀ resolved ∈ table, ∀ usage ∈ resolved.body.usages, ¬ usage.HoldsVoid table
  positive : ∀ resolved ∈ table, ∀ id, resolved.body.serviceId? = some id → id ≠ 0
  serviceIds : (table.filterMap fun resolved => resolved.body.serviceId?).Nodup

/-- A valid table is one that keeps all other rules and whose types do not hold `void`. -/
theorem Resolved.valid_iff {table : List Resolved} (hTable : Resolved.Sound table) :
    Resolved.Valid table ↔ Resolved.Lawful table ∧
      ¬ ∃ resolved ∈ table, ∃ usage ∈ resolved.body.usages, usage.Holds table .void := by
  constructor
  · intro hValid
    have hProper : ∀ resolved ∈ table, ∀ usage ∈ resolved.body.usages,
        usage.Proper table resolved.body.arity := fun resolved hMem usage hUsage =>
      ((hTable.usages resolved hMem usage hUsage).proper_iff hTable.names).2
        (hValid.applied resolved hMem usage hUsage)
    refine ⟨⟨⟨hTable, hProper⟩, hValid.numbers, hValid.partNames, hValid.retired, hValid.positive,
      hValid.serviceIds⟩, ?_⟩
    rintro ⟨resolved, hMem, usage, hUsage, hHolds⟩
    exact hValid.void resolved hMem usage hUsage ⟨.void, hHolds, by decide⟩
  · rintro ⟨hLawful, hClean⟩
    refine ⟨hLawful.numbers, hLawful.partNames, hLawful.retired, ?_, ?_, hLawful.positive,
      hLawful.serviceIds⟩
    · intro resolved hMem usage hUsage
      exact ((hTable.usages resolved hMem usage hUsage).proper_iff hTable.names).1
        (hLawful.applied resolved hMem usage hUsage)
    · rintro resolved hMem usage hUsage ⟨held, hHolds, hVoid⟩
      have hProper := (hLawful.applied resolved hMem usage hUsage).holds hLawful.toProper hHolds
      obtain rfl := (Builder.isVoid_iff hLawful.toProper hProper).1 hVoid
      exact hClean ⟨resolved, hMem, usage, hUsage, hHolds⟩

/-! ## Broken rules -/

namespace Usage

/-- One type is written inside another, or is that type. -/
inductive Mentions : Usage → Usage → Prop
  | self (usage : Usage) : Mentions usage usage
  | argument {target : Identifier} {args : List Usage} {arg inner : Usage} (hArg : arg ∈ args)
      (hInner : Mentions arg inner) : Mentions (.model target args) inner

/-- A model is used in a way that the rules forbid, as an error in the declaration `context` says:
with too few or too many arguments, or with a `void` for an array or a map. -/
inductive Misused (table : List Resolved) (context : Identifier) : Usage → CompileError → Prop
  | arity {resolved : Resolved} {args : List Usage} (hMem : resolved ∈ table)
      (hArity : args.length ≠ resolved.body.arity) :
      Misused table context (.model resolved.identifier args)
        (.arityMismatch context resolved.identifier resolved.body.arity args.length)
  | void {target : Identifier} {args : List Usage} {arg : Usage} (hArg : arg ∈ args)
      (hVoid : Builder.isVoid arg = true) (hHolds : (Usage.model target args).Holds table arg) :
      Misused table context (.model target args) (.voidTypeArgument context target)

end Usage

/-- A rule is broken in the declaration that an error names, as the error says. -/
inductive Resolved.Breach (table : List Resolved) : CompileError → Prop
  | fieldId {identifier : Identifier} {params : List String} {fields : List (ModelPart Usage)}
      {retired : List UInt32} {id : UInt32}
      (hMem : ⟨identifier, .message params fields retired⟩ ∈ table)
      (hTwice : List.Duplicate id (fields.map ModelPart.number)) :
      Breach table (.duplicateFieldId identifier id)
  | tagValue {identifier : Identifier} {params : List String}
      {variants : List (ModelPart (Option Usage))} {retired : List UInt32} {value : UInt32}
      (hMem : ⟨identifier, .tag params variants retired⟩ ∈ table)
      (hTwice : List.Duplicate value (variants.map ModelPart.number)) :
      Breach table (.duplicateTagValue identifier value)
  | partName {resolved : Resolved} {name : String} (hMem : resolved ∈ table)
      (hTwice : List.Duplicate name resolved.body.partNames) :
      Breach table (.duplicateFieldName resolved.identifier name)
  | retired {resolved : Resolved} {id : UInt32} (hMem : resolved ∈ table)
      (hRetired : id ∈ resolved.body.retired) (hLive : id ∈ resolved.body.numbers) :
      Breach table (.retiredIdInUse resolved.identifier id)
  | usage {resolved : Resolved} {usage inner : Usage} {error : CompileError}
      (hMem : resolved ∈ table) (hUsage : usage ∈ resolved.body.usages)
      (hInner : usage.Mentions inner) (hMisused : inner.Misused table resolved.identifier error) :
      Breach table error
  | serviceId {identifier : Identifier} {input output : Usage}
      (hMem : ⟨identifier, .service input output 0⟩ ∈ table) :
      Breach table (.invalidServiceId identifier 0)
  | serviceIds {first second : Resolved} {id : UInt32} (hFirst : first ∈ table)
      (hSecond : second ∈ table) (hDiffer : first.identifier ≠ second.identifier)
      (hFirstId : first.body.serviceId? = some id) (hSecondId : second.body.serviceId? = some id) :
      Breach table (.duplicateServiceId id first.identifier second.identifier)

/-! ## Parts of a table -/

namespace Usage

theorem Part.mono {part table : List Resolved} (hSubset : part ⊆ table) {usage inner : Usage}
    (hPart : Part part usage inner) : Part table usage inner := by
  cases hPart with
  | argument hArg => exact .argument hArg
  | content hMem hInner => exact .content (hSubset hMem) hInner

theorem Holds.mono {part table : List Resolved} (hSubset : part ⊆ table) {usage held : Usage}
    (hHolds : usage.Holds part held) : usage.Holds table held := by
  obtain ⟨kind, args, hKind, hUnfolds, hHeld⟩ := hHolds
  refine ⟨kind, args, hKind, ?_, hHeld⟩
  exact Relation.ReflTransGen.mono (fun _ _ => Part.mono hSubset) _ _ hUnfolds

theorem Scoped.mono_targets {known known' : Identifier → Prop} {arity : Nat} {usage : Usage}
    (hScoped : usage.Scoped known arity) (hKnown : ∀ target ∈ usage.targets, known' target) :
    usage.Scoped known' arity := by
  induction hScoped with
  | parameter hIndex => exact .parameter hIndex
  | model _ _ ih =>
    refine .model (hKnown _ (by simp [targets]))
      fun arg hArg => ih arg hArg fun target hTarget => ?_
    apply hKnown
    rw [targets]
    exact List.mem_cons_of_mem _ (mem_targetsOfAll.2 ⟨arg, hArg, hTarget⟩)

end Usage

/-- An argument for a parameter that arrays or maps hold is held, whatever the arguments are. -/
theorem Resolved.Exposes.holds {table : List Resolved} (hTable : Resolved.Proper table)
    {resolved : Resolved} {args : List Usage} {position : Nat} {arg : Usage}
    (hExposes : resolved.Exposes table position) (hMem : resolved ∈ table)
    (hArity : args.length = resolved.body.arity) (hArg : args[position]? = some arg) :
    (Usage.model resolved.identifier args).Holds table arg := by
  rcases hExposes with ⟨kind, hBody, hKind⟩ | ⟨usage, hContent, hHolds⟩
  · rw [hTable.kinds resolved hMem kind hBody]
    exact ⟨kind, args, hKind, .refl, List.mem_of_getElem? hArg⟩
  · obtain ⟨hPosition, rfl⟩ := List.getElem?_eq_some_iff.1 hArg
    have hProper := hTable.applied resolved hMem usage hContent
    rw [← hArity] at hProper
    have hReplaced := hHolds.subst hTable hProper
    rw [Usage.subst_parameter hPosition] at hReplaced
    exact hReplaced.of_part (.content hMem hContent)

/-- The built-in types that are not among some declarations. -/
def Resolved.missing (done : List Resolved) : List Resolved :=
  (Builtin.all.filter fun kind => kind.identifier ∉ done.map Resolved.identifier).map
    fun kind => ⟨kind.identifier, .builtin kind⟩

namespace Resolved

theorem mem_missing {done : List Resolved} {resolved : Resolved} :
    resolved ∈ missing done ↔ ∃ kind : Builtin, resolved = ⟨kind.identifier, .builtin kind⟩ ∧
      kind.identifier ∉ done.map Resolved.identifier := by
  simp [missing, Builtin.mem_all, eq_comm, and_comm]

theorem usages_of_mem_missing {done : List Resolved} {resolved : Resolved}
    (hMem : resolved ∈ missing done) : resolved.body.usages = [] := by
  obtain ⟨kind, rfl, _⟩ := mem_missing.1 hMem
  rfl

/-- What the next declaration of an order names is a model that is declared before it. -/
theorem DependenciesFirst.isModel {table done later : List Resolved} {resolved : Resolved}
    (hFirst : DependenciesFirst (done ++ resolved :: later)) (hTable : Sound table)
    (hSubset : done ++ resolved :: later ⊆ table) {usage : Usage}
    (hUsage : usage ∈ resolved.body.usages) {target : Identifier}
    (hTarget : target ∈ usage.targets) : IsModel done target := by
  obtain ⟨earlier, hEarlier, hName⟩ := hFirst done resolved later rfl target
    (List.mem_flatMap.2 ⟨usage, hUsage, hTarget⟩)
  have hScoped := hTable.usages resolved (hSubset (by simp)) usage hUsage
  -- A service cannot be named, and full names differ, so the earlier declaration is a model.
  obtain ⟨model, hModel, hSame, hService⟩ := hScoped.mem_targets target hTarget
  obtain rfl := List.inj_on_of_nodup_map hTable.names (hSubset (List.mem_append_left _ hEarlier))
    hModel (hName.trans hSame.symm)
  exact ⟨earlier, hEarlier, hName, hService⟩

/-- Declarations that name no model may come last. -/
theorem DependenciesFirst.append_of_free {done more : List Resolved}
    (hDone : DependenciesFirst done) (hFree : ∀ resolved ∈ more, resolved.body.usages = []) :
    DependenciesFirst (done ++ more) := by
  intro before resolved after hSplit target hTarget
  have hOld : resolved ∉ more := by
    intro hMem
    rw [Resolved.dependencies, hFree resolved hMem] at hTarget
    cases hTarget
  rcases List.append_eq_append_iff.1 hSplit with ⟨front, _, hRest⟩ | ⟨back, hDoneSplit, hRest⟩
  · exact absurd (by simp [hRest]) hOld
  · cases back with
    | nil =>
      rw [List.nil_append] at hRest
      exact absurd (hRest ▸ List.mem_cons_self) hOld
    | cons other back =>
      obtain ⟨rfl, _⟩ := List.cons.inj hRest
      exact hDone before resolved back hDoneSplit target hTarget

/-- The first declarations of an order, with the missing built-in types. -/
theorem Sound.part {table done later : List Resolved} (hTable : Sound table)
    (hPerm : (done ++ later).Perm table) (hFirst : DependenciesFirst (done ++ later)) :
    done ++ missing done ⊆ table ∧ Sound (done ++ missing done) ∧
      DependenciesFirst (done ++ missing done) := by
  have hSubset : done ++ missing done ⊆ table := by
    intro resolved hMem
    rcases List.mem_append.1 hMem with hDone | hMissing
    · exact hPerm.mem_iff.1 (List.mem_append_left _ hDone)
    · obtain ⟨kind, rfl, _⟩ := mem_missing.1 hMissing
      exact hTable.builtins kind
  have hDone : DependenciesFirst done := fun before resolved after hSplit =>
    hFirst before resolved (after ++ later) (by simp [hSplit])
  refine ⟨hSubset, ⟨?_, ?_, fun resolved hMem => hTable.kinds resolved (hSubset hMem), ?_⟩,
    hDone.append_of_free fun resolved => usages_of_mem_missing⟩
  · have hNames := (hPerm.map Resolved.identifier).nodup_iff.2 hTable.names
    rw [List.map_append] at hNames ⊢
    refine List.nodup_append.2 ⟨(List.nodup_append.1 hNames).1, ?_, ?_⟩
    · rw [missing, List.map_map]
      exact List.Nodup.sublist (List.filter_sublist.map _)
        (show (Builtin.all.map Builtin.identifier).Nodup by decide)
    · rintro name hName other hOther rfl
      obtain ⟨resolved, hMem, rfl⟩ := List.mem_map.1 hOther
      obtain ⟨kind, rfl, hAbsent⟩ := mem_missing.1 hMem
      exact hAbsent hName
  · intro kind
    by_cases hKind : kind.identifier ∈ done.map Resolved.identifier
    · obtain ⟨resolved, hMem, hName⟩ := List.mem_map.1 hKind
      have hSame := List.inj_on_of_nodup_map hTable.names
        (hSubset (List.mem_append_left _ hMem)) (hTable.builtins kind) hName
      exact List.mem_append_left _ (hSame ▸ hMem)
    · exact List.mem_append_right _ (mem_missing.2 ⟨kind, rfl, hKind⟩)
  · intro resolved hMem usage hUsage
    rcases List.mem_append.1 hMem with hOld | hMissing
    · obtain ⟨before, after, hSplit⟩ := List.append_of_mem hOld
      have hInside : before ++ resolved :: after ⊆ table := hSplit ▸ fun other hOther =>
        hSubset (List.mem_append_left _ hOther)
      refine (hTable.usages resolved (hSubset hMem) usage hUsage).mono_targets ?_
      intro target hTarget
      obtain ⟨earlier, hEarlier, hModel⟩ :=
        DependenciesFirst.isModel (hSplit ▸ hDone) hTable hInside hUsage hTarget
      exact ⟨earlier, by simp [hSplit, hEarlier], hModel⟩
    · rw [usages_of_mem_missing hMissing] at hUsage
      cases hUsage

end Resolved

namespace Builder

theorem foldlM_missing (done : List Resolved) (builder : Builder) :
    (Resolved.missing done).foldlM add builder = .ok builder := by
  rw [Resolved.missing]
  induction Builtin.all.filter fun kind => kind.identifier ∉ done.map Resolved.identifier with
  | nil => rfl
  | cons kind rest ih => exact ih

/-- Whatever comes behind them, the declarations that are built keep the rules among themselves, and
what is built follows them. -/
theorem foldlM_part {table done later : List Resolved} {builder : Builder}
    (hTable : Resolved.Sound table) (hPerm : (done ++ later).Perm table)
    (hFirst : Resolved.DependenciesFirst (done ++ later))
    (hRun : done.foldlM add start = .ok builder) :
    ∃ part, part ⊆ table ∧ done ⊆ part ∧ Resolved.Lawful part ∧ builder.Follows part part := by
  obtain ⟨hSubset, hSound, hOrder⟩ := hTable.part hPerm hFirst
  have hAll : (done ++ Resolved.missing done).foldlM add start = .ok builder := by
    rw [List.foldlM_append, hRun]
    exact foldlM_missing done builder
  have hKeeps : builder.Keeps (done ++ Resolved.missing done)
      ([] ++ (done ++ Resolved.missing done)) :=
    foldlM_keeps [] (fun _ hMem => hMem) (keeps_start hSound) hAll
  have hLawful := hKeeps.lawful hSound (.refl _)
  have hOwn : ([] ++ (done ++ Resolved.missing done ++ [])).Perm
      (done ++ Resolved.missing done) := by
    simp
  refine ⟨_, hSubset, List.subset_append_left _ _, hLawful, ?_⟩
  exact foldlM_follows hLawful [] hOwn (by simpa using hOrder) (follows_start _) hAll

/-- The models that the next declaration names are built. -/
theorem Follows.covers_next {table part done later : List Resolved} {builder : Builder}
    {resolved : Resolved} (hTable : Resolved.Sound table)
    (hPerm : (done ++ resolved :: later).Perm table)
    (hFirst : Resolved.DependenciesFirst (done ++ resolved :: later)) (hDone : done ⊆ part)
    (hFollows : builder.Follows part part) :
    ∀ usage ∈ resolved.body.usages, ∀ target ∈ usage.targets,
      ∃ other ∈ part, other.identifier = target ∧ builder.Covers part other := by
  intro usage hUsage target hTarget
  obtain ⟨earlier, hEarlier, hName, hService⟩ :=
    hFirst.isModel hTable hPerm.subset hUsage hTarget
  exact ⟨earlier, hDone hEarlier, hName, hFollows.covers earlier (hDone hEarlier) hService⟩

/-! ## Errors of checks -/

theorem checkAll_error {builder : Builder} {context : Identifier} {arity : Nat}
    {usages : List Usage} {error : CompileError}
    (hRun : builder.checkAll context arity usages = .error error) :
    ∃ usage ∈ usages, builder.check context arity usage = .error error := by
  induction usages with
  | nil => cases hRun
  | cons usage rest ih =>
    rw [checkAll, bind_eq_error] at hRun
    rcases hRun with hFirst | ⟨_, _, hRest⟩
    · exact ⟨usage, List.mem_cons_self, hFirst⟩
    · obtain ⟨other, hOther, hError⟩ := ih hRest
      exact ⟨other, List.mem_cons_of_mem _ hOther, hError⟩

/-- The error of a type in scope whose models are built is about a model that is written in it. -/
theorem check_misused {part table : List Resolved} {known : Identifier → Prop} {builder : Builder}
    {context : Identifier} {arity : Nat} {usage : Usage} {error : CompileError}
    (hPart : Resolved.Proper part) (hSubset : part ⊆ table) (hScoped : usage.Scoped known arity)
    (hCovers : ∀ target ∈ usage.targets,
      ∃ other ∈ part, other.identifier = target ∧ builder.Covers part other)
    (hRun : builder.check context arity usage = .error error) :
    ∃ inner, usage.Mentions inner ∧ inner.Misused table context error := by
  induction hScoped with
  | parameter hIndex =>
    rw [check, if_pos hIndex] at hRun
    cases hRun
  | @model target args _ _ ih =>
    obtain ⟨other, hOther, rfl, hBuilt⟩ := hCovers target (by simp [Usage.targets])
    obtain ⟨built, hFind, hTells⟩ := hBuilt.built
    have hName := (find?_eq_some hFind).2
    rw [check, hFind] at hRun
    dsimp only at hRun
    split at hRun
    next hArity =>
      cases hRun
      rw [hName, hTells.arity] at *
      exact ⟨_, .self _, .arity (hSubset hOther) (Ne.symm hArity)⟩
    next hArity =>
      have hLength : args.length = other.body.arity := by
        rw [← hTells.arity]
        omega
      split at hRun
      next hVoid =>
        cases hRun
        obtain ⟨position, arg, hArg, hHolds, hIsVoid⟩ := holdsVoid_iff.1 hVoid
        have hPosition := (List.getElem?_eq_some_iff.1 hArg).1
        rw [Nat.zero_add] at hHolds
        have hExposes := (hTells.holds position (hLength ▸ hPosition)).1 hHolds
        rw [hName]
        exact ⟨_, .self _, .void (List.mem_of_getElem? hArg) hIsVoid
          ((hExposes.holds hPart hOther hLength hArg).mono hSubset)⟩
      next =>
        obtain ⟨arg, hArg, hError⟩ := checkAll_error hRun
        obtain ⟨inner, hInner, hMisused⟩ := ih arg hArg (fun target hTarget => by
          refine hCovers target ?_
          rw [Usage.targets]
          exact List.mem_cons_of_mem _ (Usage.mem_targetsOfAll.2 ⟨arg, hArg, hTarget⟩)) hError
        exact ⟨inner, .argument hArg hInner, hMisused⟩

theorem duplicate_cons_of {α : Type} {a b : α} {earlier rest : List α} (hMem : a ∈ rest)
    (hTwice : a ∈ b :: earlier ∨ List.Duplicate a rest) :
    a ∈ earlier ∨ List.Duplicate a (b :: rest) := by
  rcases hTwice with hFront | hRest
  · rcases List.mem_cons.1 hFront with rfl | hEarlier
    · exact Or.inr (hMem.duplicate_cons_self)
    · exact Or.inl hEarlier
  · exact Or.inr (hRest.duplicate_cons b)

/-- The error of parts: a number or a name comes twice, or a content is unsound. -/
theorem checkParts_error {α : Type} {context : Identifier} {taken : UInt32 → CompileError}
    {sound : α → Except CompileError Unit} {earlier parts : List (ModelPart α)}
    {error : CompileError} (hRun : checkParts context taken sound earlier parts = .error error) :
    (∃ number, error = taken number ∧ number ∈ parts.map ModelPart.number ∧
      (number ∈ earlier.map ModelPart.number ∨
        List.Duplicate number (parts.map ModelPart.number))) ∨
    (∃ name, error = .duplicateFieldName context name ∧ name ∈ parts.map ModelPart.name ∧
      (name ∈ earlier.map ModelPart.name ∨ List.Duplicate name (parts.map ModelPart.name))) ∨
    ∃ part ∈ parts, sound part.content = .error error := by
  induction parts generalizing earlier with
  | nil => cases hRun
  | cons part rest ih =>
    rw [checkParts] at hRun
    split at hRun
    next hTaken =>
      cases hRun
      obtain ⟨other, hOther, hSame⟩ := List.any_eq_true.1 hTaken
      refine Or.inl ⟨part.number, rfl, List.mem_cons_self,
        Or.inl (List.mem_map.2 ⟨other, hOther, ?_⟩)⟩
      simpa using hSame
    next =>
      split at hRun
      next hTaken =>
        cases hRun
        obtain ⟨other, hOther, hSame⟩ := List.any_eq_true.1 hTaken
        refine Or.inr (Or.inl
          ⟨part.name, rfl, List.mem_cons_self, Or.inl (List.mem_map.2 ⟨other, hOther, ?_⟩)⟩)
        simpa using hSame
      next =>
        rcases bind_eq_error.1 hRun with hSound | ⟨_, _, hRest⟩
        · exact Or.inr (Or.inr ⟨part, List.mem_cons_self, hSound⟩)
        · rcases ih hRest with ⟨number, rfl, hMem, hTwice⟩ | ⟨name, rfl, hMem, hTwice⟩ | hContent
          · refine Or.inl ⟨number, rfl, List.mem_cons_of_mem _ hMem, ?_⟩
            exact duplicate_cons_of hMem hTwice
          · refine Or.inr (Or.inl ⟨name, rfl, List.mem_cons_of_mem _ hMem, ?_⟩)
            exact duplicate_cons_of hMem hTwice
          · obtain ⟨other, hOther, hError⟩ := hContent
            exact Or.inr (Or.inr ⟨other, List.mem_cons_of_mem _ hOther, hError⟩)

/-! ## Errors of declarations -/

section

variable {table : List Resolved} {builder : Builder} {identifier : Identifier}
  {params : List String} {retired : List UInt32} {error : CompileError}

theorem checkRetired_breach {resolved : Resolved} (hMem : resolved ∈ table)
    (hRun : checkRetired resolved.identifier resolved.body.retired resolved.body.numbers =
      .error error) : Resolved.Breach table error := by
  rw [checkRetired] at hRun
  split at hRun
  next id hFind =>
    cases hRun
    have hLive := List.find?_some hFind
    exact .retired hMem (List.mem_of_find?_eq_some hFind) (by simpa using hLive)
  next => cases hRun

theorem addMessage_breach {fields : List (ModelPart Usage)}
    (hMem : ⟨identifier, .message params fields retired⟩ ∈ table)
    (hCheck : ∀ usage ∈ fields.map ModelPart.content, ∀ error,
      builder.check identifier params.length usage = .error error → Resolved.Breach table error)
    (hRun : builder.addMessage identifier params fields retired = .error error) :
    Resolved.Breach table error := by
  obtain ⟨next, hEq⟩ := addMessage_eq builder identifier params fields retired
  rw [hEq, bind_eq_error] at hRun
  rcases hRun with hParts | ⟨_, _, hRun⟩
  · rcases checkParts_error hParts with ⟨id, rfl, _, hTwice⟩ | ⟨name, rfl, _, hTwice⟩ | hContent
    · exact .fieldId hMem (hTwice.resolve_left (by simp))
    · exact .partName hMem (hTwice.resolve_left (by simp))
    · obtain ⟨field, hField, hError⟩ := hContent
      exact hCheck field.content (List.mem_map_of_mem hField) error hError
  · rcases bind_eq_error.1 hRun with hRetired | ⟨_, _, hRun⟩
    · exact checkRetired_breach hMem hRetired
    · cases hRun

theorem addTag_breach {variants : List (ModelPart (Option Usage))}
    (hMem : ⟨identifier, .tag params variants retired⟩ ∈ table)
    (hCheck : ∀ usage ∈ variants.filterMap ModelPart.content, ∀ error,
      builder.check identifier params.length usage = .error error → Resolved.Breach table error)
    (hRun : builder.addTag identifier params variants retired = .error error) :
    Resolved.Breach table error := by
  obtain ⟨next, hEq⟩ := addTag_eq builder identifier params variants retired
  rw [hEq, bind_eq_error] at hRun
  rcases hRun with hParts | ⟨_, _, hRun⟩
  · rcases checkParts_error hParts with ⟨value, rfl, _, hTwice⟩ | ⟨name, rfl, _, hTwice⟩ | hContent
    · exact .tagValue hMem (hTwice.resolve_left (by simp))
    · exact .partName hMem (hTwice.resolve_left (by simp))
    · obtain ⟨⟨number, name, payload⟩, hVariant, hError⟩ := hContent
      cases payload with
      | none => cases hError
      | some usage =>
        exact hCheck usage (List.mem_filterMap.2 ⟨_, hVariant, rfl⟩) error hError
  · rcases bind_eq_error.1 hRun with hRetired | ⟨_, _, hRun⟩
    · exact checkRetired_breach hMem hRetired
    · cases hRun

theorem addService_breach {input output : Usage} {id : UInt32}
    (hMem : ⟨identifier, .service input output id⟩ ∈ table)
    (hServices : ∀ service ∈ builder.services, ∃ first ∈ table,
      first.identifier = service.identifier ∧ first.identifier ≠ identifier ∧
        first.body.serviceId? = some service.id)
    (hCheck : ∀ usage ∈ [input, output], ∀ error,
      builder.check identifier 0 usage = .error error → Resolved.Breach table error)
    (hRun : builder.addService identifier input output id = .error error) :
    Resolved.Breach table error := by
  by_cases hPositive : id = 0
  · subst hPositive
    cases hRun
    exact .serviceId hMem
  · cases hFind : builder.services.find? (·.id == id) with
    | some service =>
      rw [addService, if_neg hPositive, hFind] at hRun
      cases hRun
      obtain ⟨first, hFirst, hName, hDiffer, hId⟩ :=
        hServices service (List.mem_of_find?_eq_some hFind)
      have hSame : service.id = id := by simpa using List.find?_some hFind
      have hBreach := Resolved.Breach.serviceIds hFirst hMem hDiffer (hSame ▸ hId) rfl
      rwa [hName] at hBreach
    | none =>
      obtain ⟨inputRef, outputRef, next, hEq⟩ := addService_eq builder identifier input output id
        hPositive (by simpa using hFind)
      rw [hEq, bind_eq_error] at hRun
      rcases hRun with hInput | ⟨_, _, hRun⟩
      · exact hCheck input (by simp) error hInput
      · rcases bind_eq_error.1 hRun with hOutput | ⟨_, _, hRun⟩
        · exact hCheck output (by simp) error hOutput
        · cases hRun

end

/-- The error of a declaration that comes next names a rule that is broken. -/
theorem add_breach {table done later : List Resolved} {builder : Builder} {resolved : Resolved}
    {error : CompileError} (hTable : Resolved.Sound table)
    (hPerm : (done ++ resolved :: later).Perm table)
    (hFirst : Resolved.DependenciesFirst (done ++ resolved :: later))
    (hDone : done.foldlM add start = .ok builder) (hRun : builder.add resolved = .error error) :
    Resolved.Breach table error := by
  have hMem : resolved ∈ table := hPerm.mem_iff.1 (by simp)
  obtain ⟨part, hSubset, hInside, hLawful, hFollows⟩ := foldlM_part hTable hPerm hFirst hDone
  have hCovers := hFollows.covers_next hTable hPerm hFirst hInside
  have hCheck : ∀ usage ∈ resolved.body.usages, ∀ error,
      builder.check resolved.identifier resolved.body.arity usage = .error error →
        Resolved.Breach table error := by
    intro usage hUsage error hError
    obtain ⟨inner, hInner, hMisused⟩ := check_misused hLawful.toProper hSubset
      (hTable.usages resolved hMem usage hUsage) (hCovers usage hUsage) hError
    exact .usage hMem hUsage hInner hMisused
  have hServices : ∀ service ∈ builder.services, ∃ first ∈ table,
      first.identifier = service.identifier ∧ first.identifier ≠ resolved.identifier ∧
        first.body.serviceId? = some service.id := by
    intro service hService
    have hDeclared : service.resolved builder.definitions ∈ done := by
      have hOwn := List.mem_map_of_mem (f := Service.resolved builder.definitions) hService
      rw [(foldlM_laidOut hDone).2] at hOwn
      have hNew : service.resolved builder.definitions ∈
          done.filter fun resolved => resolved.body.isService := by
        simpa only [start, List.map_nil, List.nil_append] using hOwn
      exact (List.mem_filter.1 hNew).1
    have hNames := (hPerm.map Resolved.identifier).nodup_iff.2 hTable.names
    rw [List.map_append, List.map_cons] at hNames
    refine ⟨_, hSubset (hInside hDeclared), rfl, ?_, rfl⟩
    exact (List.nodup_append.1 hNames).2.2 _ (List.mem_map_of_mem hDeclared) _ List.mem_cons_self
  obtain ⟨identifier, body⟩ := resolved
  cases body with
  | builtin kind => cases hRun
  | message params fields retired => exact addMessage_breach hMem hCheck hRun
  | tag params variants retired => exact addTag_breach hMem hCheck hRun
  | service input output id => exact addService_breach hMem hServices hCheck hRun

end Builder

/-! ## All declarations -/

/-- What is built of a table: one definition a model, which lays it out, and the declared services
by ascending id. -/
structure Models.LaidOut (table : List Resolved) (models : Models) : Prop where
  definitions : ∀ definition ∈ models.definitions,
    ∃ resolved ∈ table, resolved.LaidOut models.definitions definition
  declared : ∀ resolved ∈ table, resolved.body.isService = false →
    ∃ definition ∈ models.definitions, resolved.LaidOut models.definitions definition
  names : (models.definitions.map Definition.identifier).Nodup
  services : (models.services.map (Service.resolved models.definitions)).Perm
    (table.filter fun resolved => resolved.body.isService)
  serviceIds : (models.services.map Service.id).Pairwise (· < ·)

theorem build_laidOut {table sorted : List Resolved} {models : Models}
    (hTable : Resolved.Sound table) (hPerm : sorted.Perm table)
    (hRun : Models.build sorted = .ok models) : models.LaidOut table := by
  have hSeated := build_seated hTable hPerm hRun
  obtain ⟨builder, hBuilder, hModels⟩ := bind_eq_ok.1 hRun
  cases hModels
  obtain ⟨hLaidOut, hServices⟩ := Builder.foldlM_laidOut hBuilder
  have hKeeps := Builder.foldlM_keeps [] (fun resolved => hPerm.mem_iff.1)
    (Builder.keeps_start hTable) hBuilder
  have hDefinitions : ∀ definition ∈ builder.definitions,
      ∃ resolved ∈ table, resolved.LaidOut builder.definitions definition := by
    intro definition hMem
    rcases hLaidOut definition hMem with hStart | ⟨resolved, hResolved, hOwn⟩
    · obtain ⟨built, hBuilt, rfl⟩ := List.mem_map.1 hStart
      obtain ⟨kind, _, rfl⟩ := List.mem_map.1 hBuilt
      exact ⟨_, hTable.builtins kind, rfl, rfl, rfl⟩
    · exact ⟨resolved, hPerm.mem_iff.1 hResolved, hOwn⟩
  refine ⟨hDefinitions, ?_, hSeated.names, ?_, mergeSort_ascending Service.id hKeeps.serviceIds⟩
  · intro resolved hMem hModel
    obtain ⟨definition, hDefinition, hName⟩ :=
      List.mem_map.1 ((hSeated.isModel resolved.identifier).2 ⟨resolved, hMem, rfl, hModel⟩)
    obtain ⟨other, hOther, hOwn⟩ := hDefinitions definition hDefinition
    obtain rfl :=
      List.inj_on_of_nodup_map hTable.names hOther hMem (hOwn.identifier.symm.trans hName)
    exact ⟨definition, hDefinition, hOwn⟩
  · have hSorted := (List.mergeSort_perm builder.services fun a b => decide (a.id ≤ b.id)).map
      (Service.resolved builder.definitions)
    rw [hServices] at hSorted
    exact hSorted.trans (hPerm.filter _)

/-- Declarations in dependency order are built exactly if they keep the rules, every error names a
rule that is broken, and what is built lays out every declaration. -/
theorem build_exact {table sorted : List Resolved} (hTable : Resolved.Sound table)
    (hPerm : sorted.Perm table) (hFirst : Resolved.DependenciesFirst sorted) :
    ((∃ models, Models.build sorted = .ok models) ↔ Resolved.Valid table) ∧
    (∀ error, Models.build sorted = .error error → Resolved.Breach table error) ∧
    ∀ models, Models.build sorted = .ok models → models.LaidOut table := by
  refine ⟨?_, ?_, fun models => build_laidOut hTable hPerm⟩
  · rw [Resolved.valid_iff hTable]
    have hVerdict : Resolved.Lawful table → Verdict
        (∃ resolved ∈ table, ∃ usage ∈ resolved.body.usages, usage.Holds table .void)
        (Models.build sorted) := by
      intro hLawful
      have hAll := Builder.foldlM_verdict hLawful [] hPerm hFirst (Builder.follows_start table)
      refine (hAll.bind_ok fun builder => ⟨_, rfl⟩).congr ?_
      exact exists_congr fun resolved => and_congr_left fun _ => hPerm.mem_iff
    constructor
    · rintro ⟨models, hBuild⟩
      obtain ⟨builder, hBuilder, _⟩ := bind_eq_ok.1 hBuild
      have hKeeps : builder.Keeps table ([] ++ sorted) := Builder.foldlM_keeps []
        (fun resolved => hPerm.mem_iff.1) (Builder.keeps_start hTable) hBuilder
      have hLawful := hKeeps.lawful hTable hPerm
      exact ⟨hLawful, (hVerdict hLawful).ok_iff.1 ⟨models, hBuild⟩⟩
    · rintro ⟨hLawful, hClean⟩
      exact (hVerdict hLawful).ok_iff.2 hClean
  · intro error hRun
    rcases bind_eq_error.1 hRun with hFold | ⟨_, _, hModels⟩
    · obtain ⟨done, resolved, later, builder, rfl, hDone, hStep⟩ := foldlM_eq_error hFold
      exact Builder.add_breach hTable hPerm hFirst hDone hStep
    · cases hModels

/-- The luggage is valid, and its models lay it out. The bag that is filled with `void` is refused,
for a rule that it breaks. -/
theorem luggage_exact :
    (Resolved.Valid Luggage.table ∧ Luggage.models.LaidOut Luggage.table) ∧
      ∃ sorted error, sortDeclarations baggage = .ok sorted ∧
        Models.build sorted = .error error ∧ Resolved.Breach baggage error := by
  constructor
  · obtain ⟨_, _, _, hDeclared, hResolved⟩ := Luggage.compiles.resolve
    have hSound := Resolved.all_sound (Declaration.collect_lawful hDeclared) hResolved
    obtain ⟨hPerm, hFirst⟩ := sortDeclarations_ok hSound.closed Luggage.compiles.sort
    obtain ⟨hValid, _, hLaidOut⟩ := build_exact hSound hPerm hFirst
    exact ⟨hValid.1 ⟨_, Luggage.compiles.build⟩, hLaidOut _ Luggage.compiles.build⟩
  · obtain ⟨sorted, hSorted⟩ := sortDeclarations_of_rank baggage_lawful.toSound.closed
      (fun name => baggage.findIdx (·.identifier == name)) (by decide)
    obtain ⟨hPerm, hFirst⟩ := sortDeclarations_ok baggage_lawful.toSound.closed hSorted
    obtain ⟨hValid, hBreach, _⟩ := build_exact baggage_lawful.toSound hPerm hFirst
    have hBag : bag ∈ baggage := mem_baggage.2 (Or.inr (Or.inl rfl))
    have hSack : sack ∈ baggage := mem_baggage.2 (Or.inr (Or.inr rfl))
    have hHolds : (Usage.model bag.identifier [.void]).Holds baggage .void :=
      ⟨.array, [.void], rfl, .single (.content hBag List.mem_cons_self), List.mem_cons_self⟩
    cases hBuild : Models.build sorted with
    | ok models =>
      exact absurd ⟨.void, hHolds, by decide⟩
        ((hValid.1 ⟨models, hBuild⟩).void sack hSack _ List.mem_cons_self)
    | error error => exact ⟨sorted, error, hSorted, hBuild, hBreach error hBuild⟩

end Interchange.Schema

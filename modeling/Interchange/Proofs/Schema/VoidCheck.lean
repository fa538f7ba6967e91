import Interchange.Proofs.Schema.DependencyOrder
import Interchange.Proofs.Schema.Unfolding

/-!
# The check for void

An array and a map may not hold `void`. Where a type is used, the builder looks at the flags of the
models it names and never writes the type out. The flags say enough: they are set for the parameters
that arrays or maps hold once everything is written out, so the check fails exactly on the types
that hold a `void`.

* `Verdict`: a step fails exactly because of a held `void`.
* `check_verdict`: the check of one type.
* `holdsParameter_iff`: the flag of one parameter.
-/

namespace Interchange.Schema

/-! ## Verdicts -/

/-- A step succeeds if nothing holds `void`, and else fails for that reason. -/
def Verdict {α : Type} (holds : Prop) : Except CompileError α → Prop
  | .ok _ => ¬ holds
  | .error error => holds ∧ ∃ context template, error = .voidTypeArgument context template

namespace Verdict

variable {α β : Type} {holds later : Prop}

theorem bind {x : Except CompileError α} {f : α → Except CompileError β} (hFirst : Verdict holds x)
    (hNext : ∀ a, x = .ok a → Verdict later (f a)) : Verdict (holds ∨ later) (x >>= f) := by
  cases x with
  | error error => exact ⟨Or.inl hFirst.1, hFirst.2⟩
  | ok a =>
    have hSecond := hNext a rfl
    show Verdict (holds ∨ later) (f a)
    cases hRun : f a with
    | error error =>
      rw [hRun] at hSecond
      exact ⟨Or.inr hSecond.1, hSecond.2⟩
    | ok b =>
      rw [hRun] at hSecond
      rintro (hHolds | hLater)
      · exact hFirst hHolds
      · exact hSecond hLater

/-- A step that cannot fail changes nothing. -/
theorem bind_ok {x : Except CompileError α} {f : α → Except CompileError β}
    (hFirst : Verdict holds x) (hNext : ∀ a, ∃ b, f a = .ok b) : Verdict holds (x >>= f) := by
  cases x with
  | error error => exact hFirst
  | ok a =>
    obtain ⟨b, hRun⟩ := hNext a
    show Verdict holds (f a)
    rw [hRun]
    exact hFirst

theorem error_iff {x : Except CompileError α} (hVerdict : Verdict holds x) :
    (∃ context template, x = .error (.voidTypeArgument context template)) ↔ holds := by
  cases x with
  | ok a => simpa [Verdict] using hVerdict
  | error error =>
    obtain ⟨hHolds, context, template, rfl⟩ := hVerdict
    exact ⟨fun _ => hHolds, fun _ => ⟨context, template, rfl⟩⟩

theorem ok_iff {x : Except CompileError α} (hVerdict : Verdict holds x) :
    (∃ a, x = .ok a) ↔ ¬ holds := by
  cases x with
  | ok a => exact ⟨fun _ => hVerdict, fun _ => ⟨a, rfl⟩⟩
  | error error => simpa using hVerdict.1

theorem congr {x : Except CompileError α} (hVerdict : Verdict holds x) (hIff : holds ↔ later) :
    Verdict later x := by
  rwa [← propext hIff]

end Verdict

/-! ## Flags -/

namespace Builder

/-- A built definition says of a declaration what the check asks for: the number of its parameters,
and which of them arrays or maps hold. -/
structure Tells (table : List Resolved) (resolved : Resolved) (built : Built) : Prop where
  arity : built.definition.arity = resolved.body.arity
  holds : ∀ index < resolved.body.arity,
    built.holds index = true ↔ resolved.Exposes table index

/-- A declaration is built, and none of its types holds `void`. -/
structure Covers (table : List Resolved) (builder : Builder) (resolved : Resolved) : Prop where
  built : ∃ built, builder.find? resolved.identifier = some built ∧ Tells table resolved built
  clean : ∀ usage ∈ resolved.body.usages, ¬ usage.Holds table .void

theorem not_holds_parameter {table : List Resolved} {index : Nat} {held : Usage} :
    ¬ (Usage.parameter index).Holds table held := by
  intro hHolds
  rcases Usage.holds_cases.1 hHolds with ⟨_, _, _, hEq, _⟩ | ⟨_, hPart, _⟩
  · cases hEq
  · cases hPart

/-- A proper type is `void` if it names it. -/
theorem isVoid_iff {table : List Resolved} (hTable : Resolved.Proper table) {arity : Nat}
    {usage : Usage} (hUsage : usage.Proper table arity) : isVoid usage = true ↔ usage = .void := by
  constructor
  · intro hVoid
    cases hUsage with
    | parameter => simp [isVoid] at hVoid
    | @model resolved args hMem _ hArity _ =>
      have hName : resolved.identifier = Builtin.void.identifier := by simpa [isVoid] using hVoid
      obtain rfl := List.inj_on_of_nodup_map hTable.names hMem (hTable.builtins .void) hName
      obtain rfl := List.length_eq_zero_iff.1 hArity
      rfl
  · rintro rfl
    simp [isVoid, Usage.void]

theorem holdsVoid_iff {built : Built} {index : Nat} {args : List Usage} :
    holdsVoid built index args = true ↔
      ∃ position arg, args[position]? = some arg ∧ built.holds (index + position) = true ∧
        isVoid arg = true := by
  induction args generalizing index with
  | nil => simp [holdsVoid]
  | cons first rest ih =>
    rw [holdsVoid, Bool.or_eq_true, Bool.and_eq_true, ih]
    constructor
    · rintro (⟨hHolds, hVoid⟩ | ⟨position, arg, hArg, hHolds, hVoid⟩)
      · exact ⟨0, first, rfl, hHolds, hVoid⟩
      · refine ⟨position + 1, arg, hArg, ?_, hVoid⟩
        rwa [Nat.add_comm position 1, ← Nat.add_assoc]
    · rintro ⟨position, arg, hArg, hHolds, hVoid⟩
      cases position with
      | zero =>
        obtain rfl : first = arg := by simpa using hArg
        exact Or.inl ⟨hHolds, hVoid⟩
      | succ position =>
        refine Or.inr ⟨position, arg, hArg, ?_, hVoid⟩
        rwa [Nat.add_comm position 1, ← Nat.add_assoc] at hHolds

/-- The check of the arguments of one model: some of them is a `void` for a held parameter. -/
theorem holdsVoid_iff_exposes {table : List Resolved} (hTable : Resolved.Proper table) {arity : Nat}
    {resolved : Resolved} {built : Built} {args : List Usage}
    (hTells : Tells table resolved built) (hArity : args.length = resolved.body.arity)
    (hArgs : ∀ arg ∈ args, arg.Proper table arity) :
    holdsVoid built 0 args = true ↔
      ∃ position, resolved.Exposes table position ∧ args[position]? = some .void := by
  rw [holdsVoid_iff]
  constructor
  · rintro ⟨position, arg, hArg, hHolds, hVoid⟩
    obtain rfl := (isVoid_iff hTable (hArgs arg (List.mem_of_getElem? hArg))).1 hVoid
    have hPosition := (List.getElem?_eq_some_iff.1 hArg).1
    rw [Nat.zero_add] at hHolds
    exact ⟨position, (hTells.holds position (hArity ▸ hPosition)).1 hHolds, hArg⟩
  · rintro ⟨position, hExposes, hArg⟩
    have hPosition := (List.getElem?_eq_some_iff.1 hArg).1
    refine ⟨position, .void, hArg, ?_, ?_⟩
    · rw [Nat.zero_add]
      exact (hTells.holds position (hArity ▸ hPosition)).2 hExposes
    · exact (isVoid_iff hTable (hArgs _ (List.mem_of_getElem? hArg))).2 rfl

theorem checkAll_verdict {table : List Resolved} {builder : Builder} {context : Identifier}
    {arity : Nat} {usages : List Usage}
    (hEach : ∀ usage ∈ usages,
      Verdict (usage.Holds table .void) (builder.check context arity usage)) :
    Verdict (∃ usage ∈ usages, usage.Holds table .void)
      (builder.checkAll context arity usages) := by
  induction usages with
  | nil => simp [checkAll, Verdict]
  | cons usage rest ih =>
    obtain ⟨hFirst, hRest⟩ := List.forall_mem_cons.1 hEach
    rw [checkAll]
    refine (hFirst.bind fun _ _ => ih hRest).congr ?_
    simp

/-- The check fails exactly on the types that hold `void`. -/
theorem check_verdict {table : List Resolved} (hTable : Resolved.Proper table) {builder : Builder}
    {context : Identifier} {arity : Nat} {usage : Usage} (hUsage : usage.Proper table arity)
    (hCovers : ∀ resolved ∈ table, resolved.identifier ∈ usage.targets →
      builder.Covers table resolved) :
    Verdict (usage.Holds table .void) (builder.check context arity usage) := by
  induction hUsage with
  | parameter hIndex =>
    rw [check, if_pos hIndex]
    exact not_holds_parameter
  | @model resolved args hMem hModel hArity hArgs ih =>
    have hOwn := hCovers resolved hMem (by simp [Usage.targets])
    obtain ⟨built, hFind, hTells⟩ := hOwn.built
    have hIff := Usage.holds_void_model_iff hTable hMem (.model hMem hModel hArity hArgs) hOwn.clean
    have hVoid := holdsVoid_iff_exposes hTable hTells hArity hArgs
    have hAll : Verdict (∃ arg ∈ args, arg.Holds table .void)
        (builder.checkAll context arity args) := by
      apply checkAll_verdict
      intro arg hArg
      refine ih arg hArg fun other hOther hTarget => hCovers other hOther ?_
      rw [Usage.targets]
      exact List.mem_cons_of_mem _ (Usage.mem_targetsOfAll.2 ⟨arg, hArg, hTarget⟩)
    rw [check, hFind]
    dsimp only
    rw [if_neg (by simp [hTells.arity, hArity])]
    by_cases hHeld : holdsVoid built 0 args = true
    · rw [if_pos hHeld]
      exact ⟨hIff.2 (Or.inl (hVoid.1 hHeld)), _, _, rfl⟩
    · rw [if_neg hHeld]
      refine hAll.congr ?_
      rw [hIff, ← hVoid]
      simp [hHeld]

/-! ## Setting flags -/

theorem holdsParameterAmong_iff {builder : Builder} {index : Nat} {built : Built} {position : Nat}
    {args : List Usage} :
    builder.holdsParameterAmong index built position args = true ↔
      ∃ offset arg, args[offset]? = some arg ∧
        builder.holdsParameter index (built.holds (position + offset)) arg = true := by
  induction args generalizing position with
  | nil => simp [holdsParameterAmong]
  | cons first rest ih =>
    rw [holdsParameterAmong, Bool.or_eq_true, ih]
    constructor
    · rintro (hFirst | ⟨offset, arg, hArg, hHolds⟩)
      · exact ⟨0, first, rfl, hFirst⟩
      · refine ⟨offset + 1, arg, hArg, ?_⟩
        rwa [Nat.add_comm offset 1, ← Nat.add_assoc]
    · rintro ⟨offset, arg, hArg, hHolds⟩
      cases offset with
      | zero =>
        obtain rfl : first = arg := by simpa using hArg
        exact Or.inl hHolds
      | succ offset =>
        refine Or.inr ⟨offset, arg, hArg, ?_⟩
        rwa [Nat.add_comm offset 1, ← Nat.add_assoc] at hHolds

/-- The flag of a parameter is set for a type that is held and is the parameter, and for a type that
holds it. -/
theorem holdsParameter_iff {table : List Resolved} (hTable : Resolved.Proper table)
    {builder : Builder} {arity index : Nat} {inside : Bool} {usage : Usage}
    (hUsage : usage.Proper table arity)
    (hCovers : ∀ resolved ∈ table, resolved.identifier ∈ usage.targets →
      builder.Covers table resolved) :
    builder.holdsParameter index inside usage = true ↔
      (inside = true ∧ usage = .parameter index) ∨ usage.Holds table (.parameter index) := by
  induction hUsage generalizing inside with
  | parameter hIndex => simp [holdsParameter, not_holds_parameter]
  | @model resolved args hMem hModel hArity hArgs ih =>
    obtain ⟨built, hFind, hTells⟩ := (hCovers resolved hMem (by simp [Usage.targets])).built
    have hEach : ∀ inside, ∀ arg ∈ args, (builder.holdsParameter index inside arg = true ↔
        (inside = true ∧ arg = .parameter index) ∨ arg.Holds table (.parameter index)) := by
      intro inside arg hArg
      refine ih arg hArg fun other hOther hTarget => hCovers other hOther ?_
      rw [Usage.targets]
      exact List.mem_cons_of_mem _ (Usage.mem_targetsOfAll.2 ⟨arg, hArg, hTarget⟩)
    rw [holdsParameter, hFind]
    dsimp only
    rw [holdsParameterAmong_iff,
      Usage.holds_parameter_model_iff hTable hMem (.model hMem hModel hArity hArgs)]
    constructor
    · rintro ⟨position, arg, hArg, hHolds⟩
      rw [Nat.zero_add] at hHolds
      have hPosition := (List.getElem?_eq_some_iff.1 hArg).1
      right
      rcases (hEach _ arg (List.mem_of_getElem? hArg)).1 hHolds with ⟨hFlag, rfl⟩ | hInner
      · exact Or.inl ⟨position, (hTells.holds position (hArity ▸ hPosition)).1 hFlag, hArg⟩
      · exact Or.inr ⟨arg, List.mem_of_getElem? hArg, hInner⟩
    · rintro (⟨_, hEq⟩ | ⟨position, hExposes, hArg⟩ | ⟨arg, hArg, hInner⟩)
      · cases hEq
      · have hPosition := (List.getElem?_eq_some_iff.1 hArg).1
        have hFlag := (hTells.holds position (hArity ▸ hPosition)).2 hExposes
        refine ⟨position, _, hArg, (hEach _ _ (List.mem_of_getElem? hArg)).2 (Or.inl ⟨?_, rfl⟩)⟩
        rwa [Nat.zero_add]
      · obtain ⟨position, hPosition⟩ := List.mem_iff_getElem?.1 hArg
        exact ⟨position, arg, hPosition, (hEach _ arg hArg).2 (Or.inr hInner)⟩

theorem holds_heldFlags {table : List Resolved} (hTable : Resolved.Proper table) {builder : Builder}
    {definition : Definition} {arity index : Nat} {usages : List Usage} (hIndex : index < arity)
    (hUsages : ∀ usage ∈ usages, usage.Proper table arity)
    (hCovers : ∀ usage ∈ usages, ∀ resolved ∈ table, resolved.identifier ∈ usage.targets →
      builder.Covers table resolved) :
    Built.holds ⟨definition, builder.heldFlags arity usages⟩ index = true ↔
      ∃ usage ∈ usages, usage.Holds table (.parameter index) := by
  have hFlag : Built.holds ⟨definition, builder.heldFlags arity usages⟩ index =
      usages.any (builder.holdsParameter index false) := by
    simp [Built.holds, heldFlags, hIndex]
  rw [hFlag, List.any_eq_true]
  refine exists_congr fun usage => and_congr_right fun hUsage => ?_
  rw [holdsParameter_iff hTable (hUsages usage hUsage) (hCovers usage hUsage)]
  simp

end Builder

end Interchange.Schema

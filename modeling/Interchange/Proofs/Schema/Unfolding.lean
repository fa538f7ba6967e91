import Interchange.Proofs.Schema.Resolution
import Mathlib.Logic.Relation

/-!
# Unfolding types

A type stands for what its declaration says, with its arguments in the place of the parameters.
Writing that out step by step, and going into arguments as well, meets every type that has something
to do with the first one. An array or a map that is met holds its arguments.

* `Usage.subst`: a type with its parameters replaced.
* `Usage.Unfolds`: a type is met when another one is written out in full.
* `Usage.Holds`: an array or a map inside a type has a given argument.
* `holds_model_iff`: what is held inside a model comes from its arguments or from its declaration.
-/

namespace Interchange.Schema

/-! ## Replacing parameters -/

mutual

/-- A type with each parameter replaced by the type at its position. -/
def Usage.subst (bindings : List Usage) : Usage → Usage
  | .parameter index => bindings.getD index (.parameter index)
  | .model target args => .model target (Usage.substAll bindings args)

def Usage.substAll (bindings : List Usage) : List Usage → List Usage
  | [] => []
  | usage :: rest => usage.subst bindings :: Usage.substAll bindings rest

end

namespace Usage

@[simp] theorem substAll_eq_map (bindings usages : List Usage) :
    substAll bindings usages = usages.map (subst bindings) := by
  induction usages with
  | nil => rfl
  | cons usage rest ih => rw [substAll, ih, List.map_cons]

@[simp] theorem subst_model (bindings : List Usage) (target : Identifier) (args : List Usage) :
    subst bindings (.model target args) = .model target (args.map (subst bindings)) := by
  rw [subst, substAll_eq_map]

theorem subst_parameter {bindings : List Usage} {index : Nat} (hIndex : index < bindings.length) :
    subst bindings (.parameter index) = bindings.get ⟨index, hIndex⟩ := by
  rw [subst, List.getD_eq_getElem?_getD, List.getElem?_eq_getElem hIndex]
  rfl

/-- A type that names models of the table with as many arguments as they take, and parameters below
`arity`. -/
inductive Proper (table : List Resolved) (arity : Nat) : Usage → Prop
  | parameter {index : Nat} (hIndex : index < arity) : Proper table arity (.parameter index)
  | model {resolved : Resolved} {args : List Usage} (hMem : resolved ∈ table)
      (hModel : resolved.body.isService = false) (hArity : args.length = resolved.body.arity)
      (hArgs : ∀ arg ∈ args, Proper table arity arg) :
      Proper table arity (.model resolved.identifier args)

theorem Proper.scoped {table : List Resolved} {arity : Nat} {usage : Usage}
    (hUsage : usage.Proper table arity) : usage.Scoped (Resolved.IsModel table) arity := by
  induction hUsage with
  | parameter hIndex => exact .parameter hIndex
  | @model resolved args hMem hModel _ _ ih => exact .model ⟨resolved, hMem, rfl, hModel⟩ ih

/-- Replacing parameters by proper types leaves a type proper. -/
theorem Proper.subst {table : List Resolved} {arity : Nat} {bindings : List Usage} {usage : Usage}
    (hUsage : usage.Proper table bindings.length)
    (hBindings : ∀ binding ∈ bindings, binding.Proper table arity) :
    (usage.subst bindings).Proper table arity := by
  induction hUsage with
  | parameter hIndex =>
    rw [subst_parameter hIndex]
    exact hBindings _ (List.get_mem _ _)
  | model hMem hModel hArity _ ih =>
    rw [subst_model]
    refine .model hMem hModel (by rw [List.length_map, hArity]) ?_
    intro arg hArg
    obtain ⟨inner, hInner, rfl⟩ := List.mem_map.1 hArg
    exact ih inner hInner

/-- Replacing parameters twice is replacing them once by replaced types. -/
theorem Proper.subst_subst {table : List Resolved} {bindings : List Usage} {usage : Usage}
    (hUsage : usage.Proper table bindings.length) (outer : List Usage) :
    (usage.subst bindings).subst outer = usage.subst (bindings.map (Usage.subst outer)) := by
  induction hUsage with
  | @parameter index hIndex =>
    have hMapped : index < (bindings.map (Usage.subst outer)).length := by
      rw [List.length_map]
      exact hIndex
    rw [subst_parameter hIndex, subst_parameter hMapped]
    simp
  | model hMem hModel hArity _ ih =>
    rw [subst_model, subst_model, subst_model, List.map_map]
    congr 1
    exact List.map_congr_left ih

end Usage

/-! ## Unfolding -/

/-- A sound table in which every type has as many arguments as it takes. -/
structure Resolved.Proper (table : List Resolved) : Prop extends Resolved.Sound table where
  applied : ∀ resolved ∈ table, ∀ usage ∈ resolved.body.usages,
    usage.Proper table resolved.body.arity

namespace Usage

/-- One type stands directly inside another: as an argument, or in the declaration of the model with
the arguments in the place of the parameters. -/
inductive Part (table : List Resolved) : Usage → Usage → Prop
  | argument {target : Identifier} {args : List Usage} {arg : Usage} (hArg : arg ∈ args) :
      Part table (.model target args) arg
  | content {resolved : Resolved} {args : List Usage} {inner : Usage} (hMem : resolved ∈ table)
      (hInner : inner ∈ resolved.body.usages) :
      Part table (.model resolved.identifier args) (inner.subst args)

/-- One type is met when another is written out in full. -/
def Unfolds (table : List Resolved) : Usage → Usage → Prop :=
  Relation.ReflTransGen (Part table)

/-- An array or a map inside a type has the argument `held`. -/
def Holds (table : List Resolved) (usage held : Usage) : Prop :=
  ∃ kind : Builtin, ∃ args, kind.isContainer = true ∧
    usage.Unfolds table (.model kind.identifier args) ∧ held ∈ args

theorem Holds.of_part {table : List Resolved} {held usage inner : Usage}
    (hPart : Part table usage inner) (hInner : inner.Holds table held) :
    usage.Holds table held := by
  obtain ⟨kind, args, hKind, hUnfolds, hHeld⟩ := hInner
  exact ⟨kind, args, hKind, .head hPart hUnfolds, hHeld⟩

/-- A type that holds something is an array or a map with that argument, or a part of it holds
it. -/
theorem holds_cases {table : List Resolved} {held usage : Usage} :
    usage.Holds table held ↔
      (∃ kind : Builtin, ∃ args, kind.isContainer = true ∧ usage = .model kind.identifier args ∧
        held ∈ args) ∨
      ∃ inner, Part table usage inner ∧ inner.Holds table held := by
  constructor
  · rintro ⟨kind, args, hKind, hUnfolds, hHeld⟩
    rcases Relation.ReflTransGen.cases_head hUnfolds with hEq | ⟨inner, hPart, hRest⟩
    · exact Or.inl ⟨kind, args, hKind, hEq, hHeld⟩
    · exact Or.inr ⟨inner, hPart, kind, args, hKind, hRest, hHeld⟩
  · rintro (⟨kind, args, hKind, rfl, hHeld⟩ | ⟨inner, hPart, hInner⟩)
    · exact ⟨kind, args, hKind, .refl, hHeld⟩
    · exact hInner.of_part hPart

/-- The types of a declaration fit the arguments of a proper type that names it. -/
theorem Proper.content {table : List Resolved} (hTable : Resolved.Proper table) {arity : Nat}
    {resolved : Resolved} {args : List Usage} {inner : Usage}
    (hUsage : (Usage.model resolved.identifier args).Proper table arity) (hMem : resolved ∈ table)
    (hInner : inner ∈ resolved.body.usages) : inner.Proper table args.length := by
  generalize hTarget : resolved.identifier = target at hUsage
  cases hUsage with
  | model hFound _ hArity _ =>
    obtain rfl := List.inj_on_of_nodup_map hTable.names hMem hFound hTarget
    rw [hArity]
    exact hTable.applied resolved hMem inner hInner

theorem Proper.args {table : List Resolved} {arity : Nat} {target : Identifier} {args : List Usage}
    (hUsage : (Usage.model target args).Proper table arity) :
    ∀ arg ∈ args, arg.Proper table arity := by
  cases hUsage with
  | model _ _ _ hArgs => exact hArgs

/-- What is met when a proper type is written out is proper. -/
theorem Proper.unfolds {table : List Resolved} (hTable : Resolved.Proper table) {arity : Nat}
    {usage inner : Usage} (hUsage : usage.Proper table arity)
    (hUnfolds : usage.Unfolds table inner) :
    inner.Proper table arity := by
  induction hUnfolds with
  | refl => exact hUsage
  | tail _ hPart ih =>
    cases hPart with
    | argument hArg => exact ih.args _ hArg
    | content hMem hInner => exact (ih.content hTable hMem hInner).subst ih.args

/-! ## Unfolding and replacing -/

/-- Replacing parameters keeps what is met. -/
theorem Unfolds.subst {table : List Resolved} (hTable : Resolved.Proper table)
    {bindings : List Usage} {usage inner : Usage} (hUsage : usage.Proper table bindings.length)
    (hUnfolds : usage.Unfolds table inner) :
    (usage.subst bindings).Unfolds table (inner.subst bindings) := by
  induction hUnfolds with
  | refl => exact .refl
  | tail hBefore hPart ih =>
    refine .tail ih ?_
    have hMiddle := hUsage.unfolds hTable hBefore
    cases hPart with
    | argument hArg =>
      rw [subst_model]
      exact .argument (List.mem_map_of_mem hArg)
    | content hMem hInner =>
      rw [subst_model, (hMiddle.content hTable hMem hInner).subst_subst bindings]
      exact .content hMem hInner

/-- What is met after replacing parameters was met before, up to the replacement, or is met in one
of the replacing types. -/
theorem unfolds_subst_cases {table : List Resolved} (hTable : Resolved.Proper table)
    {bindings : List Usage} {usage inner : Usage} (hUsage : usage.Proper table bindings.length)
    (hUnfolds : (usage.subst bindings).Unfolds table inner) :
    (∃ outer, usage.Unfolds table outer ∧ outer.subst bindings = inner) ∨
      ∃ binding ∈ bindings, binding.Unfolds table inner := by
  induction hUnfolds with
  | refl => exact Or.inl ⟨usage, .refl, rfl⟩
  | @tail middle inner _ hPart ih =>
    rcases ih with ⟨outer, hOuter, rfl⟩ | ⟨binding, hBinding, hMet⟩
    · have hProper := hUsage.unfolds hTable hOuter
      cases outer with
      | parameter index =>
        -- The step starts inside the type that replaces the parameter.
        cases hProper with
        | parameter hIndex =>
          refine Or.inr ⟨_, List.get_mem bindings ⟨index, hIndex⟩, .single ?_⟩
          rwa [subst_parameter hIndex] at hPart
      | model target args =>
        left
        rw [subst_model] at hPart
        cases hPart with
        | argument hArg =>
          obtain ⟨arg, hMem, rfl⟩ := List.mem_map.1 hArg
          exact ⟨arg, .tail hOuter (.argument hMem), rfl⟩
        | @content resolved _ inner hMem hInner =>
          exact ⟨inner.subst args, .tail hOuter (.content hMem hInner),
            (hProper.content hTable hMem hInner).subst_subst bindings⟩
    · exact Or.inr ⟨binding, hBinding, .tail hMet hPart⟩

/-! ## Held types -/

/-- Replacing parameters replaces them in what is held. -/
theorem Holds.subst {table : List Resolved} (hTable : Resolved.Proper table) {bindings : List Usage}
    {usage held : Usage} (hUsage : usage.Proper table bindings.length)
    (hHolds : usage.Holds table held) :
    (usage.subst bindings).Holds table (held.subst bindings) := by
  obtain ⟨kind, args, hKind, hUnfolds, hHeld⟩ := hHolds
  have hReplaced := hUnfolds.subst hTable hUsage
  rw [subst_model] at hReplaced
  exact ⟨kind, _, hKind, hReplaced, List.mem_map_of_mem hHeld⟩

/-- What is held after replacing parameters was held before, up to the replacement, or is held in
one of the replacing types. -/
theorem holds_subst_cases {table : List Resolved} (hTable : Resolved.Proper table)
    {bindings : List Usage} {usage held : Usage} (hUsage : usage.Proper table bindings.length)
    (hHolds : (usage.subst bindings).Holds table held) :
    (∃ inner, usage.Holds table inner ∧ inner.subst bindings = held) ∨
      ∃ binding ∈ bindings, binding.Holds table held := by
  obtain ⟨kind, args, hKind, hUnfolds, hHeld⟩ := hHolds
  rcases unfolds_subst_cases hTable hUsage hUnfolds with ⟨outer, hOuter, hEq⟩ |
    ⟨binding, hMem, hMet⟩
  · cases hUsage.unfolds hTable hOuter with
    | @parameter index hIndex =>
      rw [subst_parameter hIndex] at hEq
      refine Or.inr ⟨_, List.get_mem bindings ⟨index, hIndex⟩, kind, args, hKind, ?_, hHeld⟩
      rw [hEq]
      exact .refl
    | @model resolved inner _ _ _ _ =>
      rw [subst_model] at hEq
      obtain ⟨hTarget, rfl⟩ := Usage.model.inj hEq
      obtain ⟨arg, hArg, rfl⟩ := List.mem_map.1 hHeld
      rw [hTarget] at hOuter
      exact Or.inl ⟨arg, ⟨kind, inner, hKind, hOuter, hArg⟩, rfl⟩
  · exact Or.inr ⟨binding, hMem, kind, args, hKind, hMet, hHeld⟩

end Usage

/-- An array or a map holds what is given for the parameter at `index`: the declaration is an array
or a map itself, or one of its types holds the parameter. -/
def Resolved.Exposes (table : List Resolved) (resolved : Resolved) (index : Nat) : Prop :=
  (∃ kind, resolved.body = .builtin kind ∧ kind.isContainer = true) ∨
    ∃ usage ∈ resolved.body.usages, usage.Holds table (.parameter index)

namespace Usage

/-- What a proper type holds is proper. -/
theorem Proper.holds {table : List Resolved} (hTable : Resolved.Proper table) {arity : Nat}
    {usage held : Usage} (hUsage : usage.Proper table arity) (hHolds : usage.Holds table held) :
    held.Proper table arity := by
  obtain ⟨_, _, _, hUnfolds, hHeld⟩ := hHolds
  exact (hUsage.unfolds hTable hUnfolds).args held hHeld

/-- What is held inside a model is an argument for a parameter that is held, or is held inside an
argument, or is held in the declaration already and is no parameter there. -/
theorem holds_model_iff {table : List Resolved} (hTable : Resolved.Proper table) {arity : Nat}
    {resolved : Resolved} {args : List Usage} {held : Usage} (hMem : resolved ∈ table)
    (hUsage : (Usage.model resolved.identifier args).Proper table arity) :
    (Usage.model resolved.identifier args).Holds table held ↔
      (∃ index, resolved.Exposes table index ∧ args[index]? = some held) ∨
      (∃ arg ∈ args, arg.Holds table held) ∨
      ∃ usage ∈ resolved.body.usages, ∃ target inner,
        usage.Holds table (.model target inner) ∧ (Usage.model target inner).subst args = held := by
  constructor
  · intro hHolds
    rcases holds_cases.1 hHolds with ⟨kind, inner, hKind, hEq, hHeld⟩ | ⟨inner, hPart, hInner⟩
    · obtain ⟨hTarget, rfl⟩ := Usage.model.inj hEq
      obtain rfl := List.inj_on_of_nodup_map hTable.names hMem (hTable.builtins kind) hTarget
      obtain ⟨index, hIndex⟩ := List.mem_iff_getElem?.1 hHeld
      exact Or.inl ⟨index, Or.inl ⟨kind, rfl, hKind⟩, hIndex⟩
    · generalize hTarget : resolved.identifier = target at hPart
      cases hPart with
      | argument hArg => exact Or.inr (Or.inl ⟨inner, hArg, hInner⟩)
      | @content other _ usage hOther hContent =>
        obtain rfl := List.inj_on_of_nodup_map hTable.names hMem hOther hTarget
        have hProper := hUsage.content hTable hMem hContent
        rcases holds_subst_cases hTable hProper hInner with ⟨own, hOwn, hEq⟩ | ⟨arg, hArg, hHeld⟩
        · cases hProper.holds hTable hOwn with
          | @parameter index hIndex =>
            rw [subst_parameter hIndex] at hEq
            refine Or.inl ⟨index, Or.inr ⟨usage, hContent, hOwn⟩, ?_⟩
            rw [List.getElem?_eq_getElem hIndex]
            exact congrArg some hEq
          | model => exact Or.inr (Or.inr ⟨usage, hContent, _, _, hOwn, hEq⟩)
        · exact Or.inr (Or.inl ⟨arg, hArg, hHeld⟩)
  · rintro (⟨index, hExposes, hArg⟩ | ⟨arg, hArg, hHeld⟩ | ⟨usage, hContent, target,
      inner, hOwn, rfl⟩)
    · rcases hExposes with ⟨kind, hBody, hKind⟩ | ⟨usage, hContent, hOwn⟩
      · have hName := hTable.kinds resolved hMem kind hBody
        exact holds_cases.2 (Or.inl ⟨kind, args, hKind, by rw [hName], List.mem_of_getElem? hArg⟩)
      · obtain ⟨hIndex, hEq⟩ := List.getElem?_eq_some_iff.1 hArg
        have hReplaced := hOwn.subst hTable (hUsage.content hTable hMem hContent)
        rw [subst_parameter hIndex] at hReplaced
        rw [← hEq]
        exact hReplaced.of_part (.content hMem hContent)
    · exact hHeld.of_part (.argument hArg)
    · have hReplaced := hOwn.subst hTable (hUsage.content hTable hMem hContent)
      exact hReplaced.of_part (.content hMem hContent)

/-- A parameter that is held inside a model is an argument for a held parameter, or is held inside
an argument. -/
theorem holds_parameter_model_iff {table : List Resolved} (hTable : Resolved.Proper table)
    {arity : Nat} {resolved : Resolved} {args : List Usage} {index : Nat} (hMem : resolved ∈ table)
    (hUsage : (Usage.model resolved.identifier args).Proper table arity) :
    (Usage.model resolved.identifier args).Holds table (.parameter index) ↔
      (∃ position, resolved.Exposes table position ∧ args[position]? = some (.parameter index)) ∨
      ∃ arg ∈ args, arg.Holds table (.parameter index) := by
  rw [holds_model_iff hTable hMem hUsage]
  constructor
  · rintro (hOwn | hInner | ⟨_, _, target, inner, _, hEq⟩)
    · exact Or.inl hOwn
    · exact Or.inr hInner
    · rw [subst_model] at hEq
      cases hEq
  · rintro (hOwn | hInner)
    · exact Or.inl hOwn
    · exact Or.inr (Or.inl hInner)

/-! ## Void -/

/-- The type `void`. -/
def void : Usage :=
  .model Builtin.void.identifier []

/-- A `void` that is held inside a model whose declaration holds none is an argument for a held
parameter, or is held inside an argument. -/
theorem holds_void_model_iff {table : List Resolved} (hTable : Resolved.Proper table)
    {arity : Nat} {resolved : Resolved} {args : List Usage} (hMem : resolved ∈ table)
    (hUsage : (Usage.model resolved.identifier args).Proper table arity)
    (hClean : ∀ usage ∈ resolved.body.usages, ¬ usage.Holds table void) :
    (Usage.model resolved.identifier args).Holds table void ↔
      (∃ position, resolved.Exposes table position ∧ args[position]? = some void) ∨
      ∃ arg ∈ args, arg.Holds table void := by
  rw [holds_model_iff hTable hMem hUsage]
  constructor
  · rintro (hOwn | hInner | ⟨usage, hContent, target, inner, hHolds, hEq⟩)
    · exact Or.inl hOwn
    · exact Or.inr hInner
    · rw [subst_model, void] at hEq
      obtain ⟨rfl, hArgs⟩ := Usage.model.inj hEq
      obtain rfl := List.map_eq_nil_iff.1 hArgs
      exact absurd hHolds (hClean usage hContent)
  · rintro (hOwn | hInner)
    · exact Or.inl hOwn
    · exact Or.inr (Or.inl hInner)

end Usage

end Interchange.Schema

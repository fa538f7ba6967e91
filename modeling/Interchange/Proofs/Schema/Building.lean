import Interchange.Proofs.Result
import Interchange.Schema.Build

/-!
# Steps of building

What one declaration adds to what is built. A message and a tag are checked first; then one
definition comes behind the others, and those stay where they are.

* `Passes`: the types that pass the check.
* `addMessage_eq`, `addTag_eq`, `addService_eq`: checks first, then the new state.
* `find?_push_self`, `find?_push_of_some`: looking up definitions after one more of them.
-/

namespace Interchange.Schema

/-- A definition that is not built in takes an argument for each of its parameters. -/
theorem Definition.arity_of_builtin?_eq_none {definition : Definition}
    (hPlain : definition.builtin? = none) : definition.arity = definition.parameters.length := by
  rw [Definition.arity]
  rw [Definition.builtin?] at hPlain
  split
  next hBody =>
    rw [hBody] at hPlain
    cases hPlain
  next => rfl

namespace Builder

/-! ## Looking up -/

theorem find?_eq_some {builder : Builder} {identifier : Identifier} {built : Built}
    (hFind : builder.find? identifier = some built) :
    built ∈ builder.built ∧ built.definition.identifier = identifier := by
  have hName := List.find?_some hFind
  exact ⟨List.mem_of_find?_eq_some hFind, by simpa using hName⟩

theorem find?_start (kind : Builtin) :
    start.find? kind.identifier = some (Built.ofBuiltin kind) := by
  cases kind <;> rfl

section

variable {builder : Builder} (usages : List Usage) (references : Nat)

/-- A definition that is found stays the one that is found. -/
theorem find?_push_of_some {identifier : Identifier} {built : Built} (definition : Definition)
    (hFind : builder.find? identifier = some built) :
    (builder.push definition usages references).find? identifier = some built := by
  rw [find?, push, List.find?_append]
  rw [find?] at hFind
  rw [hFind]
  rfl

/-- A definition with a new name is found under it. -/
theorem find?_push_self {definition : Definition}
    (hNew : ∀ built ∈ builder.built, built.definition.identifier ≠ definition.identifier) :
    (builder.push definition usages references).find? definition.identifier =
      some ⟨definition, builder.heldFlags definition.parameters.length usages⟩ := by
  have hNone : builder.built.find? (·.definition.identifier == definition.identifier) = none := by
    simpa using hNew
  rw [find?, push, List.find?_append, hNone]
  simp

end

/-! ## Checking types -/

/-- The types that pass the check, in a definition with `arity` parameters. -/
inductive Passes (builder : Builder) (arity : Nat) : Usage → Prop
  | parameter {index : Nat} (hIndex : index < arity) : Passes builder arity (.parameter index)
  | model {target : Identifier} {args : List Usage} {built : Built}
      (hFind : builder.find? target = some built)
      (hArity : args.length = built.definition.arity) (hVoid : holdsVoid built 0 args = false)
      (hArgs : ∀ arg ∈ args, Passes builder arity arg) : Passes builder arity (.model target args)

mutual

theorem passes_of_check {builder : Builder} {context : Identifier} {arity : Nat} :
    (usage : Usage) → builder.check context arity usage = .ok () → builder.Passes arity usage
  | .parameter index => by
    intro hCheck
    rw [check] at hCheck
    split at hCheck
    next hIndex => exact .parameter hIndex
    next => cases hCheck
  | .model target args => by
    intro hCheck
    rw [check] at hCheck
    split at hCheck
    · cases hCheck
    next built hFind =>
      split at hCheck
      · cases hCheck
      next hArity =>
        split at hCheck
        · cases hCheck
        next hVoid =>
          exact .model hFind (by omega) (by simpa using hVoid) (passes_of_checkAll args hCheck)

theorem passes_of_checkAll {builder : Builder} {context : Identifier} {arity : Nat} :
    (usages : List Usage) → builder.checkAll context arity usages = .ok () →
      ∀ usage ∈ usages, builder.Passes arity usage
  | [] => by simp
  | usage :: rest => by
    intro hCheck
    rw [checkAll, bind_eq_ok] at hCheck
    obtain ⟨_, hFirst, hRest⟩ := hCheck
    exact List.forall_mem_cons.2 ⟨passes_of_check usage hFirst, passes_of_checkAll rest hRest⟩

end

/-! ## Checking parts -/

/-- Parts pass if their numbers differ, their names differ, also from those of earlier parts, and
every content is sound. -/
theorem checkParts_eq_ok {α : Type} {context : Identifier} {taken : UInt32 → CompileError}
    {sound : α → Except CompileError Unit} {earlier parts : List (ModelPart α)} :
    checkParts context taken sound earlier parts = .ok () ↔
      (parts.map ModelPart.number).Nodup ∧ (parts.map ModelPart.name).Nodup ∧
      (∀ part ∈ parts, ∀ other ∈ earlier, other.number ≠ part.number ∧ other.name ≠ part.name) ∧
      ∀ part ∈ parts, sound part.content = .ok () := by
  induction parts generalizing earlier with
  | nil => simp [checkParts]
  | cons part rest ih =>
    rw [checkParts]
    split
    next hTaken =>
      obtain ⟨other, hOther, hSame⟩ := List.any_eq_true.1 hTaken
      simp only [reduceCtorEq, false_iff]
      rintro ⟨_, _, hEarlier, _⟩
      exact (hEarlier part List.mem_cons_self other hOther).1 (by simpa using hSame)
    next hFree =>
      split
      next hTaken =>
        obtain ⟨other, hOther, hSame⟩ := List.any_eq_true.1 hTaken
        simp only [reduceCtorEq, false_iff]
        rintro ⟨_, _, hEarlier, _⟩
        exact (hEarlier part List.mem_cons_self other hOther).2 (by simpa using hSame)
      next hNew =>
        simp only [List.any_eq_true, beq_iff_eq, not_exists, not_and] at hFree hNew
        simp only [bind_eq_ok, ih, List.map_cons, List.nodup_cons,
          List.forall_mem_cons, List.mem_map, not_exists, not_and]
        grind

theorem checkRetired_eq_ok {context : Identifier} {retired live : List UInt32} :
    checkRetired context retired live = .ok () ↔ ∀ id ∈ retired, id ∉ live := by
  rw [checkRetired]
  split
  next id hFind =>
    have hMem := List.mem_of_find?_eq_some hFind
    have hLive := List.find?_some hFind
    simp only [List.contains_iff_mem] at hLive
    simp only [reduceCtorEq, false_iff]
    exact fun hNone => hNone id hMem hLive
  next hFind =>
    simp only [true_iff]
    intro id hMem hLive
    simpa [hLive] using List.find?_eq_none.1 hFind id hMem

/-! ## Adding -/

/-- The definition of a message whose types are checked. -/
def messageDefinition (builder : Builder) (identifier : Identifier) (params : List String)
    (fields : List (ModelPart Usage)) (retired : List UInt32) : Definition :=
  let parameters := placeParameters builder.built.length builder.references params
  let placed := builder.placeFields parameters fields (builder.references + params.length)
  ⟨identifier, parameters, .message (ModelPart.sort placed.1) (sortRetired retired)⟩

/-- The definition of a tag whose types are checked. -/
def tagDefinition (builder : Builder) (identifier : Identifier) (params : List String)
    (variants : List (ModelPart (Option Usage))) (retired : List UInt32) : Definition :=
  let parameters := placeParameters builder.built.length builder.references params
  let placed := builder.placeVariants parameters variants (builder.references + params.length)
  ⟨identifier, parameters, .tag (ModelPart.sort placed.1) (sortRetired retired)⟩

theorem length_placeParameters (owner next : Nat) (params : List String) :
    (placeParameters owner next params).length = params.length := by
  simp [placeParameters]

theorem addMessage_eq (builder : Builder) (identifier : Identifier) (params : List String)
    (fields : List (ModelPart Usage)) (retired : List UInt32) :
    ∃ next, builder.addMessage identifier params fields retired = do
      checkParts identifier (.duplicateFieldId identifier)
        (builder.check identifier params.length) [] fields
      checkRetired identifier retired (fields.map ModelPart.number)
      return builder.push (builder.messageDefinition identifier params fields retired)
        (fields.map ModelPart.content) next :=
  ⟨_, rfl⟩

theorem addTag_eq (builder : Builder) (identifier : Identifier) (params : List String)
    (variants : List (ModelPart (Option Usage))) (retired : List UInt32) :
    ∃ next, builder.addTag identifier params variants retired = do
      checkParts identifier (.duplicateTagValue identifier)
        (builder.checkPayload identifier params.length) [] variants
      checkRetired identifier retired (variants.map ModelPart.number)
      return builder.push (builder.tagDefinition identifier params variants retired)
        (variants.filterMap ModelPart.content) next :=
  ⟨_, rfl⟩

/-- A service with a free id is checked, and the definitions stay as they are. -/
theorem addService_eq (builder : Builder) (identifier : Identifier) (input output : Usage)
    (id : UInt32) (hPositive : id ≠ 0) (hFree : ∀ service ∈ builder.services, service.id ≠ id) :
    ∃ inputRef outputRef next, builder.addService identifier input output id = do
      builder.check identifier 0 input
      builder.check identifier 0 output
      return { builder with
        services := builder.services ++ [⟨identifier, id, inputRef, outputRef⟩]
        references := next } := by
  have hNone : builder.services.find? (·.id == id) = none := by
    simpa using hFree
  refine ⟨(builder.place [] input builder.references).1,
    (builder.place [] output (builder.place [] input builder.references).2).1,
    (builder.place [] output (builder.place [] input builder.references).2).2, ?_⟩
  rw [addService, if_neg hPositive, hNone]

/-- What adding a service does, if it succeeds. -/
theorem addService_eq_ok {builder later : Builder} {identifier : Identifier} {input output : Usage}
    {id : UInt32} (hRun : builder.addService identifier input output id = .ok later) :
    id ≠ 0 ∧ (∀ service ∈ builder.services, service.id ≠ id) ∧
      builder.check identifier 0 input = .ok () ∧ builder.check identifier 0 output = .ok () ∧
      later.built = builder.built ∧
      ∃ service, service.id = id ∧ later.services = builder.services ++ [service] := by
  have hPositive : id ≠ 0 := by
    rintro rfl
    cases hRun
  have hFree : ∀ service ∈ builder.services, service.id ≠ id := by
    rintro service hService rfl
    rw [addService, if_neg hPositive] at hRun
    cases hFind : builder.services.find? (·.id == service.id) with
    | none => simpa using List.find?_eq_none.1 hFind service hService
    | some first =>
      rw [hFind] at hRun
      cases hRun
  obtain ⟨inputRef, outputRef, next, hEq⟩ :=
    addService_eq builder identifier input output id hPositive hFree
  simp only [hEq, bind_eq_ok, pure_eq_ok] at hRun
  obtain ⟨_, hInput, _, hOutput, rfl⟩ := hRun
  exact ⟨hPositive, hFree, hInput, hOutput, rfl, _, rfl, rfl⟩

end Builder

end Interchange.Schema

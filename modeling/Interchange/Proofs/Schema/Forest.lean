import Interchange.Proofs.Schema.Compilation
import Interchange.Proofs.Schema.Places

/-!
# The forest of references

Every use of a type gets a number of its own. The numbers are handed out one after the other, those
of the arguments before that of the type, so what is built for a declaration takes a row of numbers
without gaps. Only the uses of a parameter share the number that was handed out for the parameter.
So every number is that of one parameter or stands at one place: in a field, a payload or a side of
a service, or among the arguments of one other reference.

* `TypeRef.taken`: the numbers that are handed out for a reference.
* `TypeRef.Draws`: the parameters in a reference.
* `Passes.place_row`, `placeAll_row`: a row of numbers for some types.
* `Tally`, `add_tallied`, `build_tally`: all numbers of what is built.
* `Use`, `Models.Written`, `Models.Uses`: the places where references stand.
* `Models.entries`: all of these places, with what stands there.
* `compile_forest`: numbers and places of a project.
-/

namespace Interchange.Schema

/-! ## Numbers of a reference -/

mutual

/-- The numbers that are handed out for a reference, its own behind those of its arguments. A
parameter has its number from before. -/
def TypeRef.taken : TypeRef → List Nat
  | .parameter _ _ _ _ => []
  | .model site _ args => TypeRef.takenAll args ++ [site.slot]

def TypeRef.takenAll : List TypeRef → List Nat
  | [] => []
  | reference :: rest => reference.taken ++ TypeRef.takenAll rest

end

/-- All parameters in a reference are among these. -/
inductive TypeRef.Draws (parameters : List TypeRef) : TypeRef → Prop
  | parameter {slot owner index : Nat} {name : String}
      (hMem : TypeRef.parameter slot owner index name ∈ parameters) :
      Draws parameters (.parameter slot owner index name)
  | model {site : UseSite} {target : Nat} {args : List TypeRef}
      (hArgs : ∀ arg ∈ args, Draws parameters arg) : Draws parameters (.model site target args)

theorem TypeRef.Draws.mono {parameters more : List TypeRef} {reference : TypeRef}
    (hDraws : reference.Draws parameters) (hSubset : parameters ⊆ more) : reference.Draws more := by
  induction hDraws with
  | parameter hMem => exact .parameter (hSubset hMem)
  | model _ ih => exact .model ih

/-- References whose numbers are a row from `next` up to `later`, with parameters among these. -/
structure Row (parameters references : List TypeRef) (next later : Nat) : Prop where
  grown : next ≤ later
  numbers : TypeRef.takenAll references = List.range' next (later - next)
  drawn : ∀ reference ∈ references, reference.Draws parameters

theorem row_nil (parameters : List TypeRef) (next : Nat) : Row parameters [] next next where
  grown := Nat.le_refl next
  numbers := by
    rw [Nat.sub_self]
    rfl
  drawn := List.forall_mem_nil _

/-- A row behind a row is a row. -/
theorem range'_append_of_le {first middle last : Nat} (hLow : first ≤ middle)
    (hHigh : middle ≤ last) :
    List.range' first (middle - first) ++ List.range' middle (last - middle) =
      List.range' first (last - first) := by
  obtain ⟨m, rfl⟩ := Nat.exists_eq_add_of_le hLow
  obtain ⟨n, rfl⟩ := Nat.exists_eq_add_of_le hHigh
  rw [Nat.add_sub_cancel_left, Nat.add_sub_cancel_left, Nat.add_assoc, Nat.add_sub_cancel_left,
    List.range'_append_1]

theorem Row.cons {parameters references : List TypeRef} {reference : TypeRef}
    {next middle later : Nat} (hFirst : Row parameters [reference] next middle)
    (hRest : Row parameters references middle later) :
    Row parameters (reference :: references) next later where
  grown := hFirst.grown.trans hRest.grown
  numbers := by
    have hOwn := hFirst.numbers
    rw [TypeRef.takenAll, TypeRef.takenAll, List.append_nil] at hOwn
    rw [TypeRef.takenAll, hOwn, hRest.numbers, range'_append_of_le hFirst.grown hRest.grown]
  drawn := List.forall_mem_cons.2 ⟨hFirst.drawn reference List.mem_cons_self, hRest.drawn⟩

/-- A type takes the number behind those of its arguments. -/
theorem Row.model {parameters args : List TypeRef} {next own : Nat}
    (hArgs : Row parameters args next own) (kind : DefinitionKind) (target : Nat) :
    Row parameters [.model ⟨own, kind⟩ target args] next (own + 1) where
  grown := hArgs.grown.trans (Nat.le_succ own)
  numbers := by
    have hOwn : List.range' own (own + 1 - own) = [own] := by
      rw [Nat.add_sub_cancel_left]
      rfl
    rw [TypeRef.takenAll, TypeRef.takenAll, List.append_nil, TypeRef.taken, hArgs.numbers, ← hOwn,
      range'_append_of_le hArgs.grown (Nat.le_succ own)]
  drawn := List.forall_mem_singleton.2 (.model hArgs.drawn)

/-! ## Handing out rows -/

namespace Builder

variable {builder : Builder} {parameters : List TypeRef} {owner arity : Nat}

theorem placeAll_row {usages : List Usage}
    (hEach : ∀ usage ∈ usages, ∀ next, Row parameters [(builder.place parameters usage next).1] next
      (builder.place parameters usage next).2) (next : Nat) :
    Row parameters (builder.placeAll parameters usages next).1 next
      (builder.placeAll parameters usages next).2 := by
  induction usages generalizing next with
  | nil => exact row_nil parameters next
  | cons usage rest ih =>
    obtain ⟨hOwn, hOthers⟩ := List.forall_mem_cons.1 hEach
    exact (hOwn next).cons (ih hOthers _)

/-- The reference of a type that passes. -/
theorem Passes.place_row {usage : Usage} (hOwn : OwnParameters owner arity parameters)
    (hPasses : builder.Passes arity usage) (next : Nat) :
    Row parameters [(builder.place parameters usage next).1] next
      (builder.place parameters usage next).2 := by
  induction hPasses generalizing next with
  | parameter hIndex =>
    obtain ⟨slot, name, hFound⟩ := hOwn _ hIndex
    rw [place, List.getD_eq_getElem?_getD, hFound]
    refine ⟨Nat.le_refl next, ?_,
      List.forall_mem_singleton.2 (.parameter (List.mem_of_getElem? hFound))⟩
    rw [Nat.sub_self]
    rfl
  | @model target args built _ _ _ _ ih => exact (placeAll_row ih next).model _ _

/-- The types of fields are placed one after the other. -/
theorem placeFields_contents (builder : Builder) (parameters : List TypeRef)
    (fields : List (ModelPart Usage)) (next : Nat) :
    ((builder.placeFields parameters fields next).1.map ModelPart.content,
        (builder.placeFields parameters fields next).2) =
      builder.placeAll parameters (fields.map ModelPart.content) next := by
  induction fields generalizing next with
  | nil => rfl
  | cons field rest ih =>
    exact congrArg
      (fun others => ((builder.place parameters field.content next).1 :: others.1, others.2))
      (ih (builder.place parameters field.content next).2)

/-- The payloads that there are are placed one after the other. -/
theorem placeVariants_contents (builder : Builder) (parameters : List TypeRef)
    (variants : List (ModelPart (Option Usage))) (next : Nat) :
    ((builder.placeVariants parameters variants next).1.filterMap ModelPart.content,
        (builder.placeVariants parameters variants next).2) =
      builder.placeAll parameters (variants.filterMap ModelPart.content) next := by
  induction variants generalizing next with
  | nil => rfl
  | cons variant rest ih =>
    obtain ⟨number, name, payload⟩ := variant
    cases payload with
    | none => exact ih next
    | some usage =>
      exact congrArg (fun others => ((builder.place parameters usage next).1 :: others.1, others.2))
        (ih (builder.place parameters usage next).2)

theorem map_slot_placeParameters (owner next : Nat) (params : List String) :
    (placeParameters owner next params).map TypeRef.slot = List.range' next params.length := by
  have hSlots : (placeParameters owner next params).map TypeRef.slot =
      (params.zipIdx.map Prod.snd).map (next + ·) := by
    rw [placeParameters, List.map_map, List.map_map]
    rfl
  rw [hSlots, List.zipIdx_map_snd, List.map_add_range', Nat.add_zero]

end Builder

/-! ## All numbers -/

theorem TypeRef.takenAll_eq_flatMap (references : List TypeRef) :
    takenAll references = references.flatMap taken := by
  induction references with
  | nil => rfl
  | cons reference rest ih => rw [takenAll, ih, List.flatMap_cons]

/-- The numbers that are handed out for a definition: those of its parameters, and those of its
types. -/
def Definition.taken (definition : Definition) : List Nat :=
  definition.parameters.map TypeRef.slot ++ definition.references.flatMap TypeRef.taken

/-- The numbers that are handed out for a service. -/
def Service.taken (service : Service) : List Nat :=
  [service.input, service.output].flatMap TypeRef.taken

theorem range_append_row {next later : Nat} (hGrown : next ≤ later) :
    List.range next ++ List.range' next (later - next) = List.range later := by
  rw [List.range_eq_range', List.range_eq_range']
  exact range'_append_of_le (Nat.zero_le next) hGrown

/-- What is known of the numbers of what is built: all those up to the next free one are handed out,
each of them once, and the parameters in the types of a definition are its own. -/
structure Tally (definitions : List Definition) (services : List Service)
    (references : Nat) : Prop where
  numbers : (definitions.flatMap Definition.taken ++ services.flatMap Service.taken).Perm
    (List.range references)
  drawn : ∀ definition ∈ definitions, ∀ reference ∈ definition.references,
    reference.Draws definition.parameters
  services : ∀ service ∈ services, ∀ reference ∈ [service.input, service.output], reference.Draws []

namespace Builder

/-- The numbers of what is built so far. -/
def Tallied (builder : Builder) : Prop :=
  Tally builder.definitions builder.services builder.references

theorem tallied_start : start.Tallied where
  numbers := .nil
  drawn definition hMem := by
    obtain ⟨built, hBuilt, rfl⟩ := List.mem_map.1 hMem
    obtain ⟨kind, _, rfl⟩ := List.mem_map.1 hBuilt
    exact List.forall_mem_nil _
  services := List.forall_mem_nil _

section

variable {builder later : Builder} {identifier : Identifier} {params : List String}
  {retired : List UInt32}

/-- One more definition, whose types were placed behind its parameters. -/
theorem Tallied.push (hTallied : builder.Tallied) {definition : Definition} {placed : List TypeRef}
    {next : Nat}
    (hParameters : definition.parameters =
      placeParameters builder.built.length builder.references params)
    (hPlaced : definition.references.Perm placed)
    (hRow : Row definition.parameters placed (builder.references + params.length) next)
    (usages : List Usage) : (builder.push definition usages next).Tallied := by
  have hGrown := hRow.grown
  -- The parameters have the first numbers, and the types have those behind.
  have hTaken :
      definition.taken.Perm (List.range' builder.references (next - builder.references)) := by
    have hTypes := hPlaced.flatMap_right TypeRef.taken
    rw [← TypeRef.takenAll_eq_flatMap placed, hRow.numbers] at hTypes
    rw [← range'_append_of_le (Nat.le_add_right _ params.length) hGrown, Nat.add_sub_cancel_left,
      Definition.taken, hParameters, map_slot_placeParameters]
    exact hTypes.append_left _
  refine ⟨?_, ?_, hTallied.services⟩
  · -- The new numbers stand between those of the definitions and those of the services.
    rw [definitions_push, List.flatMap_append, List.flatMap_singleton, List.append_assoc]
    refine (List.perm_append_comm.append_left _).trans ?_
    rw [← List.append_assoc]
    refine (hTallied.numbers.append hTaken).trans (.of_eq ?_)
    exact range_append_row (by omega)
  · intro other hOther
    rw [definitions_push] at hOther
    rcases List.mem_append.1 hOther with hOld | hNew
    · exact hTallied.drawn other hOld
    · obtain rfl := List.mem_singleton.1 hNew
      exact fun reference hReference => hRow.drawn reference (hPlaced.mem_iff.1 hReference)

theorem addMessage_tallied {fields : List (ModelPart Usage)} (hTallied : builder.Tallied)
    (hRun : builder.addMessage identifier params fields retired = .ok later) : later.Tallied := by
  simp only [addMessage, bind_eq_ok, pure_eq_ok] at hRun
  obtain ⟨_, hParts, _, _, rfl⟩ := hRun
  obtain ⟨_, _, _, hChecked⟩ := checkParts_eq_ok.1 hParts
  have hOwn := ownParameters_placeParameters builder.built.length builder.references params
  have hPlaced :=
    placeFields_contents builder (placeParameters builder.built.length builder.references params)
    fields (builder.references + params.length)
  have hRow := placeAll_row (List.forall_mem_map.2 fun field hField =>
    (passes_of_check _ (hChecked field hField)).place_row hOwn) (builder.references + params.length)
  rw [← hPlaced] at hRow
  refine hTallied.push rfl ?_ hRow _
  exact (List.mergeSort_perm _ _).map ModelPart.content

theorem addTag_tallied {variants : List (ModelPart (Option Usage))} (hTallied : builder.Tallied)
    (hRun : builder.addTag identifier params variants retired = .ok later) : later.Tallied := by
  simp only [addTag, bind_eq_ok, pure_eq_ok] at hRun
  obtain ⟨_, hParts, _, _, rfl⟩ := hRun
  obtain ⟨_, _, _, hChecked⟩ := checkParts_eq_ok.1 hParts
  have hOwn := ownParameters_placeParameters builder.built.length builder.references params
  have hPlaced := placeVariants_contents builder
    (placeParameters builder.built.length builder.references params) variants
    (builder.references + params.length)
  have hPasses : ∀ usage ∈ variants.filterMap ModelPart.content,
      builder.Passes params.length usage := by
    intro usage hUsage
    obtain ⟨variant, hVariant, hContent⟩ := List.mem_filterMap.1 hUsage
    have hCheck := hChecked variant hVariant
    rw [hContent] at hCheck
    exact passes_of_check usage hCheck
  have hRow := placeAll_row (fun usage hUsage => (hPasses usage hUsage).place_row hOwn)
    (builder.references + params.length)
  rw [← hPlaced] at hRow
  refine hTallied.push rfl ?_ hRow _
  exact (List.mergeSort_perm _ _).filterMap ModelPart.content

theorem addService_tallied {input output : Usage} {id : UInt32} (hTallied : builder.Tallied)
    (hRun : builder.addService identifier input output id = .ok later) : later.Tallied := by
  obtain ⟨hPositive, hFree, hInput, hOutput, _⟩ := addService_eq_ok hRun
  have hNone : builder.services.find? (·.id == id) = none := by
    simpa using hFree
  rw [addService, if_neg hPositive, hNone] at hRun
  simp only [bind_eq_ok, pure_eq_ok] at hRun
  obtain ⟨_, _, _, _, rfl⟩ := hRun
  have hOwn : OwnParameters 0 0 [] := fun index hIndex => absurd hIndex (Nat.not_lt_zero index)
  have hRow := ((passes_of_check input hInput).place_row hOwn builder.references).cons
    ((passes_of_check output hOutput).place_row hOwn _)
  refine ⟨?_, hTallied.drawn, ?_⟩
  · rw [List.flatMap_append, List.flatMap_singleton, ← List.append_assoc, Service.taken,
      ← TypeRef.takenAll_eq_flatMap, hRow.numbers]
    refine (hTallied.numbers.append_right _).trans (.of_eq ?_)
    exact range_append_row hRow.grown
  · refine List.forall_mem_append.2 ⟨hTallied.services, List.forall_mem_singleton.2 hRow.drawn⟩

/-- One more declaration. -/
theorem add_tallied {resolved : Resolved} (hTallied : builder.Tallied)
    (hRun : builder.add resolved = .ok later) : later.Tallied := by
  obtain ⟨identifier, body⟩ := resolved
  cases body with
  | builtin kind =>
    cases hRun
    exact hTallied
  | message params fields retired => exact addMessage_tallied hTallied hRun
  | tag params variants retired => exact addTag_tallied hTallied hRun
  | service input output id => exact addService_tallied hTallied hRun

end

end Builder

theorem build_tally {declarations : List Resolved} {models : Models}
    (hRun : Models.build declarations = .ok models) :
    Tally models.definitions models.services models.references := by
  obtain ⟨builder, hBuilder, hModels⟩ := bind_eq_ok.1 hRun
  cases hModels
  have hTallied : builder.Tallied := by
    refine foldlM_invariant Builder.Tallied Builder.tallied_start ?_ hBuilder
    intro earlier resolved _ later hEarlier hStep
    exact Builder.add_tallied hEarlier hStep
  have hServices := List.mergeSort_perm builder.services fun a b => decide (a.id ≤ b.id)
  refine ⟨?_, hTallied.drawn, ?_⟩
  · exact ((hServices.flatMap_right Service.taken).append_left _).trans hTallied.numbers
  · exact fun service hService => hTallied.services service (hServices.mem_iff.1 hService)

/-! ## Places -/

/-- A place where a reference stands: a field or a variant of a definition, a side of a service, or
an argument of the reference that has the number `slot`. -/
inductive Use where
  | field (definition index : Nat)
  | payload (definition index : Nat)
  | input (service : Nat)
  | output (service : Nat)
  | argument (slot index : Nat)
deriving DecidableEq, Repr

namespace Models

/-- A reference that stands in no other one. -/
inductive Written (models : Models) : Use → TypeRef → Prop
  | field {place index : Nat} {definition : Definition} {fields : List (ModelPart TypeRef)}
      {retired : List UInt32} {field : ModelPart TypeRef}
      (hDefinition : models.definitions[place]? = some definition)
      (hBody : definition.body = .message fields retired) (hField : fields[index]? = some field) :
      Written models (.field place index) field.content
  | payload {place index : Nat} {definition : Definition}
      {variants : List (ModelPart (Option TypeRef))} {retired : List UInt32}
      {variant : ModelPart (Option TypeRef)} {reference : TypeRef}
      (hDefinition : models.definitions[place]? = some definition)
      (hBody : definition.body = .tag variants retired) (hVariant : variants[index]? = some variant)
      (hPayload : variant.content = some reference) :
      Written models (.payload place index) reference
  | input {place : Nat} {service : Service} (hService : models.services[place]? = some service) :
      Written models (.input place) service.input
  | output {place : Nat} {service : Service} (hService : models.services[place]? = some service) :
      Written models (.output place) service.output

/-- A reference at its place. -/
inductive Uses (models : Models) : Use → TypeRef → Prop
  | written {use : Use} {reference : TypeRef} (hWritten : models.Written use reference) :
      Uses models use reference
  | argument {use : Use} {site : UseSite} {target index : Nat} {args : List TypeRef} {arg : TypeRef}
      (hOuter : Uses models use (.model site target args)) (hArg : args[index]? = some arg) :
      Uses models (.argument site.slot index) arg

/-- A reference among the parameters of a definition, at the place of the definition and its own one
among the parameters. -/
def ParameterAt (models : Models) (place : Nat × Nat) (reference : TypeRef) : Prop :=
  ∃ definition, models.definitions[place.1]? = some definition ∧
    definition.parameters[place.2]? = some reference

/-- A reference that has the number `slot`. -/
def Stores (models : Models) (slot : Nat) (reference : TypeRef) : Prop :=
  reference.slot = slot ∧
    ((∃ place, models.ParameterAt place reference) ∨ ∃ use, models.Uses use reference)

end Models

/-! ## All places

The places of a project are listed in the order in which the numbers are handed out. -/

mutual

/-- A reference at the place `use` and all those inside, without the parameters, each with its
place. -/
def TypeRef.entries (use : Use) : TypeRef → List (Use × TypeRef)
  | .parameter _ _ _ _ => []
  | .model site target args =>
    TypeRef.argumentEntries site.slot 0 args ++ [(use, .model site target args)]

def TypeRef.argumentEntries (slot index : Nat) : List TypeRef → List (Use × TypeRef)
  | [] => []
  | arg :: rest =>
    arg.entries (.argument slot index) ++ TypeRef.argumentEntries slot (index + 1) rest

end

namespace TypeRef

mutual

theorem map_slot_entries (use : Use) (reference : TypeRef) :
    (reference.entries use).map (fun entry => entry.2.slot) = reference.taken := by
  cases reference with
  | parameter slot owner index name => rfl
  | model site target args =>
    rw [entries, taken, List.map_append, map_slot_argumentEntries]
    rfl

theorem map_slot_argumentEntries (slot index : Nat) (args : List TypeRef) :
    (argumentEntries slot index args).map (fun entry => entry.2.slot) = takenAll args := by
  cases args with
  | nil => rfl
  | cons arg rest =>
    rw [argumentEntries, takenAll, List.map_append, map_slot_entries, map_slot_argumentEntries]

end

/-- The entries of one argument are among those of all. -/
theorem entries_subset_argumentEntries {args : List TypeRef} {arg : TypeRef} {index : Nat}
    (slot first : Nat) (hArg : args[index]? = some arg) :
    arg.entries (.argument slot (first + index)) ⊆ argumentEntries slot first args := by
  induction args generalizing first index with
  | nil => cases hArg
  | cons head rest ih =>
    cases index with
    | zero =>
      cases hArg
      exact List.subset_append_left _ _
    | succ index =>
      have hRest := ih (first + 1) hArg
      rw [Nat.add_assoc, Nat.add_comm 1 index] at hRest
      exact List.Subset.trans hRest (List.subset_append_right _ _)

mutual

/-- All entries stand where they say, if the outermost does. -/
theorem uses_of_mem_entries {models : Models} {use : Use} (reference : TypeRef)
    (hUses : models.Uses use reference) :
    ∀ entry ∈ reference.entries use, models.Uses entry.1 entry.2 := by
  cases reference with
  | parameter slot owner index name => exact List.forall_mem_nil _
  | model site target args =>
    rw [entries]
    refine List.forall_mem_append.2 ⟨?_, List.forall_mem_singleton.2 hUses⟩
    refine uses_of_mem_argumentEntries site.slot 0 args ?_
    intro index arg hArg
    rw [Nat.zero_add]
    exact .argument hUses hArg

theorem uses_of_mem_argumentEntries {models : Models} (slot first : Nat) (args : List TypeRef)
    (hUses : ∀ (index : Nat) (arg : TypeRef), args[index]? = some arg →
      models.Uses (.argument slot (first + index)) arg) :
    ∀ entry ∈ argumentEntries slot first args, models.Uses entry.1 entry.2 := by
  cases args with
  | nil => exact List.forall_mem_nil _
  | cons arg rest =>
    rw [argumentEntries]
    refine List.forall_mem_append.2 ⟨uses_of_mem_entries arg (hUses 0 arg rfl), ?_⟩
    refine uses_of_mem_argumentEntries slot (first + 1) rest ?_
    intro index other hOther
    rw [Nat.add_assoc, Nat.add_comm 1 index]
    exact hUses (index + 1) other hOther

end

end TypeRef

/-- The types of a definition, each with its place. -/
def Definition.roots (place : Nat) (definition : Definition) : List (Use × TypeRef) :=
  match definition.body with
  | .builtin _ => []
  | .message fields _ => fields.zipIdx.map fun entry => (.field place entry.2, entry.1.content)
  | .tag variants _ =>
    variants.zipIdx.filterMap fun entry => entry.1.content.map (Prod.mk (.payload place entry.2))

/-- The sides of a service, each with its place. -/
def Service.roots (place : Nat) (service : Service) : List (Use × TypeRef) :=
  [(.input place, service.input), (.output place, service.output)]

theorem Definition.map_snd_roots (place : Nat) (definition : Definition) :
    (definition.roots place).map Prod.snd = definition.references := by
  obtain ⟨identifier, parameters, body⟩ := definition
  cases body with
  | builtin kind => rfl
  | message fields retired =>
    have hFields := congrArg (List.map ModelPart.content) (List.zipIdx_map_fst 0 fields)
    rw [List.map_map] at hFields
    exact List.map_map.trans hFields
  | tag variants retired =>
    have hVariants := congrArg (List.filterMap ModelPart.content) (List.zipIdx_map_fst 0 variants)
    rw [List.filterMap_map] at hVariants
    refine List.map_filterMap.trans (Eq.trans (List.filterMap_congr fun entry _ => ?_) hVariants)
    rw [Option.map_map]
    exact Option.map_id'

/-- What is done with each entry of a list whatever its position. -/
theorem flatMap_zipIdx_fst {α β : Type} (xs : List α) (f : α → List β) :
    (xs.zipIdx.flatMap fun entry => f entry.1) = xs.flatMap f := by
  have hFst := congrArg (List.flatMap f) (List.zipIdx_map_fst 0 xs)
  rwa [List.flatMap_map] at hFst

namespace Models

/-- All references that stand in no other one, each with its place. -/
def roots (models : Models) : List (Use × TypeRef) :=
  models.definitions.zipIdx.flatMap (fun entry => entry.1.roots entry.2) ++
    models.services.zipIdx.flatMap fun entry => entry.1.roots entry.2

/-- All references but the parameters, each with its place. -/
def entries (models : Models) : List (Use × TypeRef) :=
  models.roots.flatMap fun root => root.2.entries root.1

/-- All references, each listed once. -/
def stored (models : Models) : List TypeRef :=
  models.definitions.flatMap Definition.parameters ++ models.entries.map Prod.snd

variable {models : Models}

theorem written_of_mem_roots {use : Use} {reference : TypeRef} {place : Nat}
    {definition : Definition} (hDefinition : models.definitions[place]? = some definition)
    (hRoot : (use, reference) ∈ definition.roots place) : models.Written use reference := by
  rw [Definition.roots] at hRoot
  split at hRoot
  next => cases hRoot
  next hBody =>
    obtain ⟨⟨field, index⟩, hField, hEntry⟩ := List.mem_map.1 hRoot
    cases hEntry
    exact .field hDefinition hBody (List.mem_zipIdx_iff_getElem?.1 hField)
  next hBody =>
    obtain ⟨⟨variant, index⟩, hVariant, hEntry⟩ := List.mem_filterMap.1 hRoot
    obtain ⟨payload, hPayload, hEntry⟩ := Option.map_eq_some_iff.1 hEntry
    cases hEntry
    exact .payload hDefinition hBody (List.mem_zipIdx_iff_getElem?.1 hVariant) hPayload

theorem mem_roots {use : Use} {reference : TypeRef} :
    (use, reference) ∈ models.roots ↔ models.Written use reference := by
  rw [roots, List.mem_append, List.mem_flatMap, List.mem_flatMap]
  constructor
  · rintro (⟨⟨definition, place⟩, hDefinition, hRoot⟩ | ⟨⟨service, place⟩, hService, hRoot⟩)
    · exact written_of_mem_roots (List.mem_zipIdx_iff_getElem?.1 hDefinition) hRoot
    · rw [List.mem_zipIdx_iff_getElem?] at hService
      rcases List.mem_pair.1 hRoot with hInput | hOutput
      · cases hInput
        exact .input hService
      · cases hOutput
        exact .output hService
  · intro hWritten
    cases hWritten with
    | @field place index definition fields retired field hDefinition hBody hField =>
      refine Or.inl ⟨(definition, place), List.mem_zipIdx_iff_getElem?.2 hDefinition, ?_⟩
      rw [Definition.roots, hBody]
      exact List.mem_map.2 ⟨(field, index), List.mem_zipIdx_iff_getElem?.2 hField, rfl⟩
    | @payload place index definition variants retired variant _ hDefinition hBody
        hVariant hPayload =>
      refine Or.inl ⟨(definition, place), List.mem_zipIdx_iff_getElem?.2 hDefinition, ?_⟩
      rw [Definition.roots, hBody]
      refine List.mem_filterMap.2 ⟨(variant, index), List.mem_zipIdx_iff_getElem?.2 hVariant, ?_⟩
      rw [hPayload]
      rfl
    | @input place service hService =>
      exact Or.inr ⟨(service, place), List.mem_zipIdx_iff_getElem?.2 hService, List.mem_cons_self⟩
    | @output place service hService =>
      exact Or.inr ⟨(service, place), List.mem_zipIdx_iff_getElem?.2 hService,
        List.mem_cons_of_mem _ List.mem_cons_self⟩

theorem flatMap_taken_roots (models : Models) :
    (models.roots.flatMap fun root => root.2.taken) =
      (models.definitions.flatMap fun definition => definition.references.flatMap TypeRef.taken) ++
        models.services.flatMap Service.taken := by
  rw [roots, List.flatMap_append, List.flatMap_assoc, List.flatMap_assoc]
  congr 1
  · rw [← flatMap_zipIdx_fst models.definitions]
    refine List.flatMap_congr fun entry _ => ?_
    rw [← Definition.map_snd_roots entry.2, List.flatMap_map]
  · exact flatMap_zipIdx_fst models.services Service.taken

theorem map_slot_entries (models : Models) :
    models.entries.map (TypeRef.slot ∘ Prod.snd) =
      models.roots.flatMap fun root => root.2.taken := by
  rw [entries, List.map_flatMap]
  exact List.flatMap_congr fun root _ => TypeRef.map_slot_entries root.1 root.2

/-- The numbers of all references are those that are handed out. -/
theorem map_slot_stored (hTally : Tally models.definitions models.services models.references) :
    (models.stored.map TypeRef.slot).Perm (List.range models.references) := by
  refine List.Perm.trans ?_ hTally.numbers
  rw [stored, List.map_append, List.map_flatMap, List.map_map, map_slot_entries,
    flatMap_taken_roots, ← List.append_assoc]
  exact (List.flatMap_append_perm models.definitions _ _).append_right _

/-! ## What stands at the places -/

theorem Uses.entries_subset {use : Use} {reference : TypeRef} (hUses : models.Uses use reference) :
    reference.entries use ⊆ models.entries := by
  induction hUses with
  | @written use reference hWritten =>
    intro entry hEntry
    exact List.mem_flatMap.2 ⟨(use, reference), mem_roots.2 hWritten, hEntry⟩
  | @argument use site target index args arg hOuter hArg ih =>
    have hAmong := TypeRef.entries_subset_argumentEntries site.slot 0 hArg
    rw [Nat.zero_add] at hAmong
    exact fun entry hEntry => ih (List.mem_append_left _ (hAmong hEntry))

theorem uses_of_mem_entries {entry : Use × TypeRef} (hEntry : entry ∈ models.entries) :
    models.Uses entry.1 entry.2 := by
  obtain ⟨root, hRoot, hEntry⟩ := List.mem_flatMap.1 hEntry
  exact TypeRef.uses_of_mem_entries root.2 (.written (mem_roots.1 hRoot)) entry hEntry

theorem mem_parameters {reference : TypeRef} :
    reference ∈ models.definitions.flatMap Definition.parameters ↔
      ∃ place, models.ParameterAt place reference := by
  rw [List.mem_flatMap]
  constructor
  · rintro ⟨definition, hDefinition, hReference⟩
    obtain ⟨slot, hSlot⟩ := List.mem_iff_getElem?.1 hDefinition
    obtain ⟨index, hIndex⟩ := List.mem_iff_getElem?.1 hReference
    exact ⟨(slot, index), definition, hSlot, hIndex⟩
  · rintro ⟨_, definition, hSlot, hIndex⟩
    exact ⟨definition, List.mem_of_getElem? hSlot, List.mem_of_getElem? hIndex⟩

theorem Written.draws (hTally : Tally models.definitions models.services models.references)
    {use : Use} {reference : TypeRef} (hWritten : models.Written use reference) :
    reference.Draws (models.definitions.flatMap Definition.parameters) := by
  have hOwn : ∀ {place : Nat} {definition : Definition},
      models.definitions[place]? = some definition →
      reference ∈ definition.references →
        reference.Draws (models.definitions.flatMap Definition.parameters) := by
    intro place definition hDefinition hReference
    have hMem := List.mem_of_getElem? hDefinition
    refine (hTally.drawn definition hMem reference hReference).mono ?_
    exact fun parameter hParameter => List.mem_flatMap.2 ⟨definition, hMem, hParameter⟩
  cases hWritten with
  | field hDefinition hBody hField =>
    refine hOwn hDefinition ?_
    rw [Definition.references, hBody]
    exact List.mem_map_of_mem (List.mem_of_getElem? hField)
  | payload hDefinition hBody hVariant hPayload =>
    refine hOwn hDefinition ?_
    rw [Definition.references, hBody]
    exact List.mem_filterMap.2 ⟨_, List.mem_of_getElem? hVariant, hPayload⟩
  | input hService =>
    have hSides := hTally.services _ (List.mem_of_getElem? hService)
    exact (hSides _ List.mem_cons_self).mono (List.nil_subset _)
  | output hService =>
    have hSides := hTally.services _ (List.mem_of_getElem? hService)
    exact (hSides _ (List.mem_cons_of_mem _ List.mem_cons_self)).mono (List.nil_subset _)

theorem Uses.draws (hTally : Tally models.definitions models.services models.references) {use : Use}
    {reference : TypeRef} (hUses : models.Uses use reference) :
    reference.Draws (models.definitions.flatMap Definition.parameters) := by
  induction hUses with
  | written hWritten => exact hWritten.draws hTally
  | argument _ hArg ih =>
    cases ih with
    | model hArgs => exact hArgs _ (List.mem_of_getElem? hArg)

/-- A parameter that stands at a place is one of a definition. -/
theorem Uses.parameterAt (hTally : Tally models.definitions models.services models.references)
    {use : Use} {slot owner index : Nat} {name : String}
    (hUses : models.Uses use (.parameter slot owner index name)) :
    ∃ place, models.ParameterAt place (.parameter slot owner index name) := by
  cases hUses.draws hTally with
  | parameter hMem => exact mem_parameters.1 hMem

/-- The references that are listed are the parameters and those that stand at a place. -/
theorem mem_stored (hTally : Tally models.definitions models.services models.references)
    {reference : TypeRef} : reference ∈ models.stored ↔
      (∃ place, models.ParameterAt place reference) ∨ ∃ use, models.Uses use reference := by
  rw [stored, List.mem_append, mem_parameters]
  constructor
  · rintro (hParameter | hStored)
    · exact Or.inl hParameter
    · obtain ⟨entry, hEntry, rfl⟩ := List.mem_map.1 hStored
      exact Or.inr ⟨entry.1, uses_of_mem_entries hEntry⟩
  · rintro (hParameter | ⟨use, hUses⟩)
    · exact Or.inl hParameter
    · cases reference with
      | parameter slot owner index name => exact Or.inl (hUses.parameterAt hTally)
      | model site target args =>
        have hEntry := hUses.entries_subset (List.mem_append_right _ (List.mem_singleton_self _))
        exact Or.inr (List.mem_map_of_mem hEntry)

/-- What is met inside a reference stands at a place. -/
theorem Uses.reaches {use : Use} {outer inner : TypeRef} (hUses : models.Uses use outer)
    (hReaches : outer.Reaches inner) : ∃ other, models.Uses other inner := by
  induction hReaches with
  | refl => exact ⟨use, hUses⟩
  | @tail middle last _ hLast ih =>
    obtain ⟨other, hMiddle⟩ := ih
    cases middle with
    | parameter slot owner index name => cases hLast
    | model site target args =>
      obtain ⟨index, hIndex⟩ := List.mem_iff_getElem?.1 hLast
      exact ⟨_, hMiddle.argument hIndex⟩

/-- What stands at a place is met inside a reference that stands in no other one. -/
theorem Uses.exists_root {use : Use} {reference : TypeRef} (hUses : models.Uses use reference) :
    ∃ root top, models.Written root top ∧ top.Reaches reference := by
  induction hUses with
  | @written use reference hWritten => exact ⟨use, reference, hWritten, .refl⟩
  | argument _ hArg ih =>
    obtain ⟨root, top, hWritten, hReaches⟩ := ih
    exact ⟨root, top, hWritten, hReaches.tail (List.mem_of_getElem? hArg)⟩

end Models

/-! ## One place for each number -/

/-- The lists of two entries have nothing in common if no entry is repeated in all of them. -/
theorem eq_of_mem_flatMap {α β : Type} {xs : List α} {f : α → List β} {x y : α} {b : β}
    (hNodup : (xs.flatMap f).Nodup) (hx : x ∈ xs) (hy : y ∈ xs) (hInX : b ∈ f x) (hInY : b ∈ f y) :
    x = y := by
  by_contra hDiffer
  have hSymm : Std.Symm (Function.onFun List.Disjoint f) :=
    ⟨fun _ _ hPair => List.disjoint_symm hPair⟩
  exact (List.nodup_flatMap.1 hNodup).2.forall hx hy hDiffer hInX hInY

/-- The number of a type that is met inside a reference is handed out for that reference. -/
theorem TypeRef.Reaches.slot_mem_taken {outer : TypeRef} {site : UseSite} {target : Nat}
    {args : List TypeRef} (hReaches : outer.Reaches (.model site target args)) :
    site.slot ∈ outer.taken := by
  induction hReaches using Relation.ReflTransGen.head_induction_on with
  | refl => exact List.mem_append_right _ (List.mem_singleton_self _)
  | @head outer middle hMiddle _ ih =>
    cases outer with
    | parameter slot owner index name => cases hMiddle
    | model outerSite outerTarget outerArgs =>
      rw [taken, takenAll_eq_flatMap]
      exact List.mem_append_left _ (List.mem_flatMap.2 ⟨middle, hMiddle, ih⟩)

namespace Tally

variable {models : Models} (hTally : Tally models.definitions models.services models.references)
include hTally

theorem nodup_slots : (models.stored.map TypeRef.slot).Nodup :=
  (Models.map_slot_stored hTally).nodup_iff.2 List.nodup_range

theorem nodup_entries : (models.entries.map (TypeRef.slot ∘ Prod.snd)).Nodup := by
  have hNodup := hTally.nodup_slots
  rw [Models.stored, List.map_append, List.map_map] at hNodup
  exact hNodup.of_append_right

/-- A number has at most one reference. -/
theorem stores_unique {slot : Nat} {reference other : TypeRef}
    (hStores : models.Stores slot reference) (hOther : models.Stores slot other) :
    reference = other :=
  List.inj_on_of_nodup_map hTally.nodup_slots ((Models.mem_stored hTally).2 hStores.2)
    ((Models.mem_stored hTally).2 hOther.2) (hStores.1.trans hOther.1.symm)

theorem exists_stores_iff {slot : Nat} :
    (∃ reference, models.Stores slot reference) ↔ slot < models.references := by
  rw [← List.mem_range, ← (Models.map_slot_stored hTally).mem_iff, List.mem_map]
  refine exists_congr fun reference => ?_
  rw [Models.Stores, Models.mem_stored hTally]
  exact And.comm

/-- A type stands at one place only. -/
theorem use_unique {site : UseSite} {target : Nat} {args : List TypeRef} {use other : Use}
    {reference : TypeRef} (hUses : models.Uses use (.model site target args))
    (hOther : models.Uses other reference) (hSame : reference.slot = site.slot) : other = use := by
  have hStores : models.Stores site.slot (.model site target args) := ⟨rfl, Or.inr ⟨use, hUses⟩⟩
  obtain rfl := hTally.stores_unique ⟨hSame, Or.inr ⟨other, hOther⟩⟩ hStores
  have hFirst := hUses.entries_subset (List.mem_append_right _ (List.mem_singleton_self _))
  have hSecond := hOther.entries_subset (List.mem_append_right _ (List.mem_singleton_self _))
  exact congrArg Prod.fst (List.inj_on_of_nodup_map hTally.nodup_entries hSecond hFirst rfl)

/-- A type is met inside one of the outermost references only. -/
theorem root_unique {site : UseSite} {target : Nat} {args : List TypeRef} {root other : Use}
    {top otherTop inner : TypeRef} (hWritten : models.Written root top)
    (hReaches : top.Reaches (.model site target args)) (hOther : models.Written other otherTop)
    (hInside : otherTop.Reaches inner) (hSame : inner.slot = site.slot) : other = root := by
  have hInner := (Models.Uses.written hOther).reaches hInside
  have hStores : models.Stores site.slot (.model site target args) :=
    ⟨rfl, Or.inr ((Models.Uses.written hWritten).reaches hReaches)⟩
  obtain rfl := hTally.stores_unique ⟨hSame, Or.inr hInner⟩ hStores
  have hNodup := hTally.nodup_entries
  rw [Models.map_slot_entries] at hNodup
  exact congrArg Prod.fst (eq_of_mem_flatMap hNodup (Models.mem_roots.2 hOther)
    (Models.mem_roots.2 hWritten) hInside.slot_mem_taken hReaches.slot_mem_taken)

end Tally

/-- Numbers and places in a project:

* every number below the number of references is that of exactly one reference, and no other number
  is;
* the number of a type stands at exactly one place, which is a field, a payload, a side of a
  service, or a position among the arguments of another reference;
* it is met inside exactly one of the references that stand in no other one, so these are the roots
  of trees that have nothing in common;
* the number of a parameter is found at exactly one place among the parameters of all
  definitions. -/
theorem compile_forest {options : Options} {sources : List Source} {project : Project}
    (hRun : compile options sources = .ok project) :
    (∀ slot < project.references, ∃! reference, project.Stores slot reference) ∧
    (∀ (slot : Nat) (reference : TypeRef), project.Stores slot reference →
      slot < project.references) ∧
    (∀ (slot : Nat) (site : UseSite) (target : Nat) (args : List TypeRef),
      project.Stores slot (.model site target args) →
        (∃! use, ∃ reference, project.Uses use reference ∧ reference.slot = slot) ∧
        ∃! root, ∃ top inner, project.Written root top ∧ top.Reaches inner ∧ inner.slot = slot) ∧
    ∀ (slot number owner index : Nat) (name : String),
      project.Stores slot (.parameter number owner index name) →
        ∃! place, ∃ reference, project.ParameterAt place reference ∧ reference.slot = slot := by
  obtain ⟨_, _, _, _, models, _, _, _, _, hBuild, hProject⟩ := compile_eq_ok.1 hRun
  have hTally : Tally project.definitions project.services project.references := by
    rw [← hProject]
    exact build_tally hBuild
  obtain ⟨_, _, _, _, _, _, hSeated⟩ := compile_seated hRun
  refine ⟨?_, fun slot reference hStores => hTally.exists_stores_iff.1 ⟨reference, hStores⟩, ?_, ?_⟩
  · intro slot hSlot
    obtain ⟨reference, hStores⟩ := hTally.exists_stores_iff.2 hSlot
    exact ⟨reference, hStores, fun other hOther => hTally.stores_unique hOther hStores⟩
  · rintro _ site target args ⟨rfl, hStands⟩
    have hUsed : ∃ use, project.Uses use (.model site target args) := by
      rcases hStands with ⟨place, definition, hDefinition, hParameter⟩ | hUses
      · obtain ⟨_, _, hEq⟩ := hSeated.parameters _ _ hDefinition _ _ hParameter
        cases hEq
      · exact hUses
    obtain ⟨use, hUses⟩ := hUsed
    obtain ⟨root, top, hWritten, hReaches⟩ := hUses.exists_root
    refine ⟨⟨use, ⟨_, hUses, rfl⟩, ?_⟩, ⟨root, ⟨top, _, hWritten, hReaches, rfl⟩, ?_⟩⟩
    · rintro other ⟨reference, hOther, hSame⟩
      exact hTally.use_unique hUses hOther hSame
    · rintro other ⟨otherTop, inner, hOther, hInside, hSame⟩
      exact hTally.root_unique hWritten hReaches hOther hInside hSame
  · rintro _ number owner index name ⟨rfl, hStands⟩
    have hParameter : ∃ place, project.ParameterAt place (.parameter number owner index name) :=
      hStands.elim id fun ⟨_, hUses⟩ => hUses.parameterAt hTally
    obtain ⟨place, hPlace⟩ := hParameter
    refine ⟨place, ⟨_, hPlace, rfl⟩, ?_⟩
    rintro other ⟨reference, hOther, hSame⟩
    obtain rfl := hTally.stores_unique ⟨hSame, Or.inl ⟨other, hOther⟩⟩ ⟨rfl, Or.inl ⟨place, hPlace⟩⟩
    -- A parameter names the place of its definition and its own one.
    obtain ⟨definition, hDefinition, hGet⟩ := hPlace
    obtain ⟨otherDefinition, hOtherDefinition, hOtherGet⟩ := hOther
    obtain ⟨_, _, hFirst⟩ := hSeated.parameters _ _ hDefinition _ _ hGet
    obtain ⟨_, _, hSecond⟩ := hSeated.parameters _ _ hOtherDefinition _ _ hOtherGet
    obtain ⟨_, hOwner, hIndex, _⟩ := TypeRef.parameter.inj (hSecond.symm.trans hFirst)
    exact Prod.ext hOwner hIndex

/-- Both fields of a bag use its one parameter. The bag in the array of bags is an argument of the
array, at no other place, and stands in the tree of the field. -/
theorem luggage_forest :
    Luggage.models.Uses (.argument 2 0) (.parameter 1 17 0 "T") ∧
      Luggage.models.Uses (.argument 3 0) (.parameter 1 17 0 "T") ∧
      (∃! place, ∃ reference, Luggage.models.ParameterAt place reference ∧ reference.slot = 1) ∧
      Luggage.models.Uses (.argument 6 0)
        (.model ⟨5, .messageTemplate⟩ 17 [.parameter 4 18 0 "T"]) ∧
      (∃! use, ∃ reference, Luggage.models.Uses use reference ∧ reference.slot = 5) ∧
      (∃! root, ∃ top inner, Luggage.models.Written root top ∧ top.Reaches inner ∧ inner.slot = 5) ∧
      ∃! reference, Luggage.models.Stores 6 reference := by
  obtain ⟨hOnce, _, hTypes, hParameters⟩ := compile_forest (Luggage.compiles.compile {})
  have hItems : Luggage.models.Written (.field 17 0)
      (.model ⟨2, .builtin⟩ 14 [.parameter 1 17 0 "T"]) :=
    Models.mem_roots.1 (.tail _ (.head _))
  have hLock : Luggage.models.Written (.field 17 1)
      (.model ⟨3, .tagTemplate⟩ 16 [.parameter 1 17 0 "T"]) :=
    Models.mem_roots.1 (.tail _ (.tail _ (.head _)))
  have hBags : Luggage.models.Written (.field 18 0)
      (.model ⟨6, .builtin⟩ 14 [.model ⟨5, .messageTemplate⟩ 17 [.parameter 4 18 0 "T"]]) :=
    Models.mem_roots.1 (.tail _ (.tail _ (.tail _ (.head _))))
  have hItem := Models.Uses.argument (.written hItems) (List.getElem?_cons_zero)
  have hLocked := Models.Uses.argument (.written hLock) (List.getElem?_cons_zero)
  have hBag := Models.Uses.argument (.written hBags) (List.getElem?_cons_zero)
  obtain ⟨hUse, hRoot⟩ := hTypes 5 _ _ _ ⟨rfl, Or.inr ⟨_, hBag⟩⟩
  exact ⟨hItem, hLocked, hParameters 1 _ _ _ _ ⟨rfl, Or.inr ⟨_, hItem⟩⟩, hBag, hUse, hRoot,
    hOnce 6 (by decide)⟩

end Interchange.Schema

import Interchange.Proofs.Schema.Guarded
import Interchange.Proofs.Schema.Validity

/-!
# Building in reserved places

A definition is built in a place that is reserved for it first, because its parameters name that
place. Until it is filled nobody may look at it. References are made while the types of a
declaration are gone through, and everything on the way is looked up: the place of a model, the
definition there, parameters and flags by position. Here each of these accesses is guarded. None of
them fails, and what is built is what `Builder.add` builds.

* `Site`: what is built so far, with reserved places.
* `Site.reference`, `Site.collect`: the reference of a type, and the flags it sets.
* `Site.Serves`: a site gives the answers that a builder gives.
* `reference_eq`, `collect_eq`: they do what checking, placing and flagging do.
* `guardedBuild`: all declarations.
-/

namespace Interchange.Schema

open Guarded

/-- What is built so far. `slots` are the places, of which some are reserved only, `places` leads
from the declarations that are built to their places, `models` lists the places that were filled,
and `flags` leads from the places of templates to the flags of their parameters. A reference is
there as soon as it has a number, so of references only the next number is kept. -/
structure Site where
  slots : List (Option Definition)
  builtins : List (Builtin × Nat)
  places : List (Identifier × Nat)
  models : List Nat
  flags : List (Nat × List Bool)
  services : List Service
  references : Nat
deriving Repr

namespace Site

/-- The built-in types in their places, and no declaration. -/
def start : Site :=
  ⟨Builtin.all.map fun kind => some (.ofBuiltin kind), Builtin.all.zipIdx, [], [], [], [], 0⟩

/-- The definition at a place. -/
def get (site : Site) (place : Nat) : Guarded CompileError Definition := do
  let slot ← demand .bounds site.slots[place]?
  demand .absent slot

/-- Reserves the next place. -/
def reserve (site : Site) : Site :=
  { site with slots := site.slots ++ [none] }

/-- Fills a place. -/
def fill (site : Site) (place : Nat) (definition : Definition) : Guarded CompileError Site :=
  if place < site.slots.length then
    pure { site with slots := site.slots.set place (some definition) }
  else stop .bounds

/-- All definitions, once every place is filled. -/
def freeze (site : Site) : Guarded CompileError (List Definition) :=
  demand .unfilled (site.slots.mapM id)

/-! ## Types -/

/-- The argument at a position becomes an argument of an array or a map. -/
def isContained (site : Site) (place index : Nat) : Guarded CompileError Bool := do
  let definition ← site.get place
  if definition.builtin?.any Builtin.isContainer then return true
  else
    match site.flags.lookup place with
    | none => return false
    | some contained => demand .flag contained[index]?

/-- The type is `void`. -/
def isVoid (site : Site) : Usage → Guarded CompileError Bool
  | .parameter _ => return false
  | .model target _ =>
    match site.places.lookup target with
    | none => return false
    | some place => do
      let void ← demand .builtin (site.builtins.lookup .void)
      return place == void

/-- One of the arguments from position `index` on is a `void` for an array or a map. -/
def anyVoid (site : Site) (place : Nat) : (index : Nat) → List Usage → Guarded CompileError Bool
  | _, [] => return false
  | index, arg :: rest => do
    let contained ← site.isContained place index
    let void ← if contained then site.isVoid arg else pure false
    if void then return true else site.anyVoid place (index + 1) rest

mutual

/-- The reference of a type inside the declaration `context`, with numbers from `next` on, and the
next free number. -/
def reference (site : Site) (context : Identifier) (parameters : List TypeRef) :
    Usage → (next : Nat) → Guarded CompileError (TypeRef × Nat)
  | .parameter index, next => do
    let parameter ← demand .parameter parameters[index]?
    return (parameter, next)
  | .model target args, next => do
    let place ← demand .dependency (site.places.lookup target)
    let definition ← site.get place
    if definition.arity ≠ args.length then
      throw (.arityMismatch context definition.identifier definition.arity args.length)
    else
      let void ← site.anyVoid place 0 args
      if void then throw (.voidTypeArgument context definition.identifier)
      else
        let placed ← site.referenceAll context parameters args next
        return (.model ⟨placed.2, definition.kind⟩ place placed.1, placed.2 + 1)

def referenceAll (site : Site) (context : Identifier) (parameters : List TypeRef) :
    List Usage → (next : Nat) → Guarded CompileError (List TypeRef × Nat)
  | [], next => return ([], next)
  | usage :: rest, next => do
    let first ← site.reference context parameters usage next
    let others ← site.referenceAll context parameters rest first.2
    return (first.1 :: others.1, others.2)

end

mutual

/-- Sets the flags of the parameters that arrays or maps hold inside a type. `inside` says that the
type itself is held. -/
def collect (site : Site) :
    (inside : Bool) → Usage → (contained : List Bool) → Guarded CompileError (List Bool)
  | inside, .parameter index, contained => do
    let flag ← demand .flag contained[index]?
    return contained.set index (flag || inside)
  | _, .model target args, contained =>
    match site.places.lookup target with
    | none => return contained
    | some place => site.collectAll place 0 args contained

def collectAll (site : Site) (place : Nat) :
    (index : Nat) → List Usage → (contained : List Bool) → Guarded CompileError (List Bool)
  | _, [], contained => return contained
  | index, arg :: rest, contained => do
    let inside ← site.isContained place index
    let later ← site.collect inside arg contained
    site.collectAll place (index + 1) rest later

end

/-! ## Declarations -/

/-- The parts of a model in source order, whose numbers and names have to differ. -/
def parts {α β : Type} (context : Identifier) (taken : UInt32 → CompileError)
    (refer : α → Nat → Guarded CompileError (β × Nat)) :
    (earlier : List (ModelPart α)) → List (ModelPart α) → (next : Nat) →
      Guarded CompileError (List (ModelPart β) × Nat)
  | _, [], next => return ([], next)
  | earlier, part :: rest, next =>
    if earlier.any (·.number == part.number) then throw (taken part.number)
    else if earlier.any (·.name == part.name) then throw (.duplicateFieldName context part.name)
    else do
      let content ← refer part.content next
      let others ← parts context taken refer (part :: earlier) rest content.2
      return (⟨part.number, part.name, content.1⟩ :: others.1, others.2)

/-- The reference of a payload. -/
def payload (site : Site) (context : Identifier) (parameters : List TypeRef) :
    Option Usage → (next : Nat) → Guarded CompileError (Option TypeRef × Nat)
  | none, next => return (none, next)
  | some usage, next => do
    let placed ← site.reference context parameters usage next
    return (some placed.1, placed.2)

/-- The flags, with those of a definition whose types are `usages`. Only a template has some. -/
def mark (site : Site) (definition : Definition) (usages : List Usage) (place : Nat) :
    Guarded CompileError (List (Nat × List Bool)) :=
  if definition.parameters.isEmpty then return site.flags
  else do
    let contained ← usages.foldlM (fun contained usage => site.collect false usage contained)
      (List.replicate definition.parameters.length false)
    return (place, contained) :: site.flags

/-- Fills the reserved place of a declaration whose types are `usages`. -/
def finish (site : Site) (definition : Definition) (usages : List Usage) (place references : Nat) :
    Guarded CompileError Site := do
  let flags ← site.mark definition usages place
  let filled ← site.fill place definition
  return { filled with
    flags, references
    places := (definition.identifier, place) :: site.places
    models := site.models ++ [place] }

def addMessage (site : Site) (identifier : Identifier) (params : List String)
    (fields : List (ModelPart Usage)) (retired : List UInt32) : Guarded CompileError Site := do
  let place := site.slots.length
  let parameters := Builder.placeParameters place site.references params
  let placed ← parts identifier (.duplicateFieldId identifier)
    (site.reserve.reference identifier parameters) [] fields (site.references + params.length)
  clean (Builder.checkRetired identifier retired (fields.map ModelPart.number))
  site.reserve.finish
    ⟨identifier, parameters, .message (ModelPart.sort placed.1) (Builder.sortRetired retired)⟩
    (fields.map ModelPart.content) place placed.2

def addTag (site : Site) (identifier : Identifier) (params : List String)
    (variants : List (ModelPart (Option Usage))) (retired : List UInt32) :
    Guarded CompileError Site := do
  let place := site.slots.length
  let parameters := Builder.placeParameters place site.references params
  let placed ← parts identifier (.duplicateTagValue identifier)
    (site.reserve.payload identifier parameters) [] variants (site.references + params.length)
  clean (Builder.checkRetired identifier retired (variants.map ModelPart.number))
  site.reserve.finish
    ⟨identifier, parameters, .tag (ModelPart.sort placed.1) (Builder.sortRetired retired)⟩
    (variants.filterMap ModelPart.content) place placed.2

def addService (site : Site) (identifier : Identifier) (input output : Usage) (id : UInt32) :
    Guarded CompileError Site :=
  if id = 0 then throw (.invalidServiceId identifier id)
  else
    match site.services.find? (·.id == id) with
    | some first => throw (.duplicateServiceId id first.identifier identifier)
    | none => do
      let input ← site.reference identifier [] input site.references
      let output ← site.reference identifier [] output input.2
      return { site with
        services := site.services ++ [⟨identifier, id, input.1, output.1⟩]
        references := output.2 }

/-- One more declaration. -/
def add (site : Site) (resolved : Resolved) : Guarded CompileError Site :=
  match resolved.body with
  | .builtin kind => do
    let place ← demand .builtin (site.builtins.lookup kind)
    return { site with places := (resolved.identifier, place) :: site.places }
  | .message params fields retired => site.addMessage resolved.identifier params fields retired
  | .tag params variants retired => site.addTag resolved.identifier params variants retired
  | .service input output id => site.addService resolved.identifier input output id

end Site

/-- The models of declarations in dependency order. -/
def guardedBuild (sorted : List Resolved) : Guarded CompileError Models := do
  let site ← sorted.foldlM Site.add Site.start
  let definitions ← site.freeze
  return {
    definitions
    services := site.services.mergeSort fun a b => decide (a.id ≤ b.id)
    references := site.references }

/-! ## Answers -/

namespace Site

/-- What is kept for a definition: arrays and maps hold all arguments, and a template has one flag a
parameter. -/
def Flagged (built : Built) : Prop :=
  match built.definition.builtin? with
  | some kind => built.held = List.replicate kind.arity kind.isContainer ∧
      built.definition.parameters = []
  | none => built.held.length = built.definition.parameters.length

/-- A site gives the answers that a builder gives, for models with known names. -/
structure Serves (builder : Builder) (known : Identifier → Prop) (site : Site) : Prop where
  flagged : ∀ built ∈ builder.built, Flagged built
  slots : ∀ (place : Nat) (built : Built), builder.built[place]? = some built →
    site.slots[place]? = some (some built.definition)
  flags : ∀ (place : Nat) (built : Built), builder.built[place]? = some built →
    site.flags.lookup place =
      if built.definition.parameters.isEmpty then none else some built.held
  builtins : ∀ kind, site.builtins.lookup kind = some kind.index
  places : ∀ name, known name → (builder.find? name).isSome = true ∧
    site.places.lookup name = some (builder.slotOf name)
  void : ∀ name, known name →
    (builder.slotOf name = Builtin.void.index ↔ name = Builtin.void.identifier)

end Site

theorem Definition.arity_of_builtin?_eq_some {definition : Definition} {kind : Builtin}
    (hKind : definition.builtin? = some kind) : definition.arity = kind.arity := by
  rw [builtin?] at hKind
  cases hBody : definition.body with
  | builtin other =>
    rw [hBody] at hKind
    cases hKind
    rw [arity, hBody]
  | message fields ids =>
    rw [hBody] at hKind
    cases hKind
  | tag variants ids =>
    rw [hBody] at hKind
    cases hKind

theorem Builder.getElem?_built_slotOf {builder : Builder} {name : Identifier} {built : Built}
    (hFind : builder.find? name = some built) :
    builder.built[builder.slotOf name]? = some built := by
  rw [find?, List.find?_eq_getElem?_findIdx] at hFind
  exact hFind

namespace Site.Serves

variable {builder : Builder} {known : Identifier → Prop} {site : Site}

theorem get_eq (hServes : site.Serves builder known) {place : Nat} {built : Built}
    (hBuilt : builder.built[place]? = some built) : site.get place = pure built.definition := by
  rw [get, demand_some (hServes.slots place built hBuilt), pure_bind]
  rfl

theorem isContained_eq (hServes : site.Serves builder known) {place index : Nat} {built : Built}
    (hBuilt : builder.built[place]? = some built) (hIndex : index < built.definition.arity) :
    site.isContained place index = pure (built.holds index) := by
  have hFlagged := hServes.flagged built (List.mem_of_getElem? hBuilt)
  have hFlags := hServes.flags place built hBuilt
  rw [isContained, hServes.get_eq hBuilt, pure_bind]
  unfold Flagged at hFlagged
  cases hKind : built.definition.builtin? with
  | some kind =>
    rw [hKind] at hFlagged
    obtain ⟨hHeld, hParameters⟩ := hFlagged
    rw [Definition.arity_of_builtin?_eq_some hKind] at hIndex
    have hHolds : built.holds index = kind.isContainer := by
      rw [Built.holds, hHeld]
      simp [hIndex]
    rw [hParameters] at hFlags
    rw [hHolds, hFlags]
    cases hContainer : kind.isContainer <;> simp [hContainer]
  | none =>
    rw [hKind] at hFlagged
    rw [Definition.arity_of_builtin?_eq_none hKind, ← hFlagged] at hIndex
    have hNonempty : built.definition.parameters.isEmpty = false := by
      rw [List.isEmpty_eq_false_iff_exists_mem]
      have hLength : 0 < built.definition.parameters.length := by
        have hSame : built.held.length = built.definition.parameters.length := hFlagged
        omega
      exact ⟨_, List.getElem_mem hLength⟩
    rw [hNonempty, if_neg (by simp)] at hFlags
    rw [hFlags, Option.any_none, if_neg (by simp)]
    dsimp only
    rw [demand_some (List.getElem?_eq_getElem hIndex), Built.holds, List.getD_eq_getElem?_getD,
      List.getElem?_eq_getElem hIndex]
    rfl

theorem isVoid_eq (hServes : site.Serves builder known) {arity : Nat} {usage : Usage}
    (hScoped : usage.Scoped known arity) : site.isVoid usage = pure (Builder.isVoid usage) := by
  cases hScoped with
  | parameter => rfl
  | @model target args hTarget _ =>
    rw [isVoid, (hServes.places target hTarget).2]
    dsimp only
    rw [demand_some (hServes.builtins .void), pure_bind, Builder.isVoid]
    congr 1
    rw [Bool.eq_iff_iff, beq_iff_eq, beq_iff_eq]
    exact hServes.void target hTarget

theorem anyVoid_eq (hServes : site.Serves builder known) {place arity : Nat} {built : Built}
    (hBuilt : builder.built[place]? = some built) {index : Nat} {args : List Usage}
    (hArgs : ∀ arg ∈ args, arg.Scoped known arity)
    (hLength : index + args.length ≤ built.definition.arity) :
    site.anyVoid place index args = pure (Builder.holdsVoid built index args) := by
  induction args generalizing index with
  | nil => rfl
  | cons arg rest ih =>
    obtain ⟨hFirst, hRest⟩ := List.forall_mem_cons.1 hArgs
    rw [List.length_cons] at hLength
    rw [anyVoid, hServes.isContained_eq hBuilt (by omega), pure_bind, Builder.holdsVoid]
    have hLater := @ih (index + 1) hRest (by omega)
    cases built.holds index with
    | false =>
      rw [if_neg (by simp), pure_bind]
      exact hLater
    | true =>
      rw [if_pos rfl, hServes.isVoid_eq hFirst, pure_bind]
      cases Builder.isVoid arg with
      | false => exact hLater
      | true => rfl

/-! ## References -/

theorem referenceAll_eq {context : Identifier} {arity : Nat} {parameters : List TypeRef}
    {usages : List Usage}
    (hEach : ∀ usage ∈ usages, ∀ next, site.reference context parameters usage next =
      clean (builder.check context arity usage >>= fun _ =>
        pure (builder.place parameters usage next))) (next : Nat) :
    site.referenceAll context parameters usages next =
      clean (builder.checkAll context arity usages >>= fun _ =>
        pure (builder.placeAll parameters usages next)) := by
  induction usages generalizing next with
  | nil => rfl
  | cons usage rest ih =>
    obtain ⟨hFirst, hRest⟩ := List.forall_mem_cons.1 hEach
    rw [referenceAll, hFirst next, Builder.checkAll]
    cases builder.check context arity usage with
    | error error => rfl
    | ok =>
      -- Checking is over before anything is placed, and here the first type is placed already. Its
      -- place is lost if a later type fails.
      show (site.referenceAll context parameters rest
        (builder.place parameters usage next).2 >>= _) = _
      rw [ih hRest]
      cases builder.checkAll context arity rest <;> rfl

/-- Making the reference of a type is checking the type and placing it. -/
theorem reference_eq (hServes : site.Serves builder known) {context : Identifier}
    {owner arity : Nat} {parameters : List TypeRef} {usage : Usage}
    (hOwn : Builder.OwnParameters owner arity parameters) (hScoped : usage.Scoped known arity)
    (next : Nat) :
    site.reference context parameters usage next =
      clean (builder.check context arity usage >>= fun _ =>
        pure (builder.place parameters usage next)) := by
  induction hScoped generalizing next with
  | @parameter index hIndex =>
    obtain ⟨slot, name, hFound⟩ := hOwn index hIndex
    rw [reference, demand_some hFound, pure_bind, Builder.check, if_pos hIndex, Builder.place,
      List.getD_eq_getElem?_getD, hFound]
    rfl
  | @model target args hTarget hArgs ih =>
    obtain ⟨hSome, hPlace⟩ := hServes.places target hTarget
    obtain ⟨built, hFind⟩ := Option.isSome_iff_exists.1 hSome
    have hBuilt := Builder.getElem?_built_slotOf hFind
    rw [reference, demand_some hPlace, pure_bind, hServes.get_eq hBuilt, pure_bind, Builder.check,
      hFind]
    dsimp only
    by_cases hArity : built.definition.arity = args.length
    · rw [if_neg (not_not.2 hArity), if_neg (not_not.2 hArity),
        hServes.anyVoid_eq hBuilt hArgs (by omega), pure_bind]
      cases Builder.holdsVoid built 0 args with
      | true => rfl
      | false =>
        rw [if_neg (by simp), if_neg (by simp), referenceAll_eq ih, Builder.place,
          Builder.kindOf_eq hFind]
        cases builder.checkAll context arity args <;> rfl
    · rw [if_pos hArity, if_pos hArity]
      rfl

end Site.Serves

/-! ## Flags -/

/-- Flags of which some more are set. -/
def raised (contained : List Bool) (more : Nat → Bool) : List Bool :=
  contained.mapIdx fun index flag => flag || more index

theorem length_raised (contained : List Bool) (more : Nat → Bool) :
    (raised contained more).length = contained.length := by
  simp [raised]

theorem raised_raised (contained : List Bool) (more others : Nat → Bool) :
    raised (raised contained more) others =
      raised contained fun index => more index || others index := by
  simp [raised, List.mapIdx_mapIdx, Function.comp_def, Bool.or_assoc]

theorem raised_false (contained : List Bool) : raised contained (fun _ => false) = contained := by
  simp [raised, List.mapIdx_eq_iff]

theorem raised_replicate (count : Nat) (more : Nat → Bool) :
    raised (List.replicate count false) more = (List.range count).map more := by
  apply List.ext_getElem
  · simp [raised]
  · simp [raised]

namespace Site.Serves

variable {builder : Builder} {known : Identifier → Prop} {site : Site}

theorem collectAll_eq (hServes : site.Serves builder known) {place arity : Nat} {built : Built}
    (hBuilt : builder.built[place]? = some built) {index : Nat} {args : List Usage}
    (hEach : ∀ arg ∈ args, ∀ inside contained, contained.length = arity →
      site.collect inside arg contained =
        pure (raised contained fun i => builder.holdsParameter i inside arg))
    (hLength : index + args.length ≤ built.definition.arity) {contained : List Bool}
    (hContained : contained.length = arity) :
    site.collectAll place index args contained =
      pure (raised contained fun i => builder.holdsParameterAmong i built index args) := by
  induction args generalizing index contained with
  | nil =>
    simp only [Builder.holdsParameterAmong, raised_false]
    rfl
  | cons arg rest ih =>
    obtain ⟨hFirst, hRest⟩ := List.forall_mem_cons.1 hEach
    rw [List.length_cons] at hLength
    rw [collectAll, hServes.isContained_eq hBuilt (by omega), pure_bind,
      hFirst _ contained hContained, pure_bind,
      ih hRest (by omega) ((length_raised _ _).trans hContained), raised_raised]
    rfl

/-- Going through a type sets the flags of the parameters that are held in it. -/
theorem collect_eq (hServes : site.Serves builder known) {arity : Nat} {inside : Bool}
    {usage : Usage} (hScoped : usage.Scoped known arity) (hPasses : builder.Passes arity usage)
    {contained : List Bool} (hContained : contained.length = arity) :
    site.collect inside usage contained =
      pure (raised contained fun index => builder.holdsParameter index inside usage) := by
  induction hPasses generalizing inside contained with
  | @parameter index hIndex =>
    rw [collect, demand_some (List.getElem?_eq_getElem (hContained ▸ hIndex)), pure_bind]
    congr 1
    apply List.ext_getElem
    · simp [raised]
    · intro other hOther _
      simp only [raised, Builder.holdsParameter, List.getElem_mapIdx, List.getElem_set]
      by_cases hSame : index = other
      · subst hSame
        simp
      · simp [hSame]
  | @model target args built hFind hArity _ hArgs ih =>
    -- The type has passed its check, so it has as many arguments as the model has flags.
    cases hScoped with
    | model hTarget hScopedArgs =>
      rw [collect, (hServes.places target hTarget).2]
      dsimp only
      rw [hServes.collectAll_eq (Builder.getElem?_built_slotOf hFind)
        (fun arg hArg inside contained => ih arg hArg (hScopedArgs arg hArg)) (by omega) hContained]
      simp only [Builder.holdsParameter, hFind]

theorem foldlM_collect_eq (hServes : site.Serves builder known) {arity : Nat} {usages : List Usage}
    (hScoped : ∀ usage ∈ usages, usage.Scoped known arity)
    (hPasses : ∀ usage ∈ usages, builder.Passes arity usage) {contained : List Bool}
    (hContained : contained.length = arity) :
    usages.foldlM (fun contained usage => site.collect false usage contained) contained =
      (pure (raised contained fun index => usages.any (builder.holdsParameter index false)) :
        Guarded CompileError (List Bool)) := by
  induction usages generalizing contained with
  | nil =>
    simp only [List.any_nil, raised_false]
    rfl
  | cons usage rest ih =>
    obtain ⟨hFirst, hScoped⟩ := List.forall_mem_cons.1 hScoped
    obtain ⟨hOwn, hPasses⟩ := List.forall_mem_cons.1 hPasses
    rw [List.foldlM_cons, hServes.collect_eq hFirst hOwn hContained, pure_bind,
      ih hScoped hPasses ((length_raised _ _).trans hContained), raised_raised]
    rfl

theorem mark_eq (hServes : site.Serves builder known) {definition : Definition}
    {usages : List Usage}
    (hScoped : ∀ usage ∈ usages, usage.Scoped known definition.parameters.length)
    (hPasses : ∀ usage ∈ usages, builder.Passes definition.parameters.length usage) (place : Nat) :
    site.mark definition usages place = pure
      (if definition.parameters.isEmpty then site.flags
        else (place, builder.heldFlags definition.parameters.length usages) :: site.flags) := by
  rw [mark]
  split
  next => rfl
  next =>
    rw [hServes.foldlM_collect_eq hScoped hPasses List.length_replicate, pure_bind,
      raised_replicate]
    rfl

end Site.Serves

/-! ## Parts -/

namespace Builder

/-- Placing parts whose contents are placed by `place`. -/
def placeParts {α β : Type} (place : α → Nat → β × Nat) :
    List (ModelPart α) → (next : Nat) → List (ModelPart β) × Nat
  | [], next => ([], next)
  | part :: rest, next =>
    let content := place part.content next
    let others := placeParts place rest content.2
    (⟨part.number, part.name, content.1⟩ :: others.1, others.2)

/-- Placing a payload. -/
def placePayload (builder : Builder) (parameters : List TypeRef) :
    Option Usage → (next : Nat) → Option TypeRef × Nat
  | none, next => (none, next)
  | some usage, next =>
    let placed := builder.place parameters usage next
    (some placed.1, placed.2)

theorem placeFields_eq (builder : Builder) (parameters : List TypeRef)
    (fields : List (ModelPart Usage)) (next : Nat) :
    builder.placeFields parameters fields next =
      placeParts (builder.place parameters) fields next := by
  induction fields generalizing next with
  | nil => rfl
  | cons field rest ih =>
    rw [placeFields, placeParts]
    simp only [ih]

theorem placeVariants_eq (builder : Builder) (parameters : List TypeRef)
    (variants : List (ModelPart (Option Usage))) (next : Nat) :
    builder.placeVariants parameters variants next =
      placeParts (builder.placePayload parameters) variants next := by
  induction variants generalizing next with
  | nil => rfl
  | cons variant rest ih =>
    obtain ⟨number, name, payload⟩ := variant
    rw [placeVariants, placeParts]
    cases payload <;> simp only [placePayload, ih]

end Builder

namespace Site

/-- Making the references of parts is checking the parts and placing them. -/
theorem parts_eq {α β : Type} {context : Identifier} {taken : UInt32 → CompileError}
    {refer : α → Nat → Guarded CompileError (β × Nat)} (sound : α → Except CompileError Unit)
    (place : α → Nat → β × Nat) {earlier rest : List (ModelPart α)}
    (hEach : ∀ part ∈ rest, ∀ next, refer part.content next =
      clean (sound part.content >>= fun _ => pure (place part.content next))) (next : Nat) :
    parts context taken refer earlier rest next =
      clean (Builder.checkParts context taken sound earlier rest >>= fun _ =>
        pure (Builder.placeParts place rest next)) := by
  induction rest generalizing earlier next with
  | nil => rfl
  | cons part rest ih =>
    obtain ⟨hFirst, hRest⟩ := List.forall_mem_cons.1 hEach
    rw [parts, Builder.checkParts]
    split
    · rfl
    · split
      · rfl
      · rw [hFirst next]
        cases sound part.content with
        | error error => rfl
        | ok =>
          show (parts context taken refer (part :: earlier) rest
            (place part.content next).2 >>= _) = _
          rw [ih hRest]
          cases Builder.checkParts context taken sound (part :: earlier) rest <;> rfl

theorem Serves.payload_eq {builder : Builder} {known : Identifier → Prop} {site : Site}
    (hServes : site.Serves builder known) {context : Identifier} {owner arity : Nat}
    {parameters : List TypeRef} {content : Option Usage}
    (hOwn : Builder.OwnParameters owner arity parameters)
    (hScoped : ∀ usage, content = some usage → usage.Scoped known arity) (next : Nat) :
    site.payload context parameters content next =
      clean (builder.checkPayload context arity content >>= fun _ =>
        pure (builder.placePayload parameters content next)) := by
  cases content with
  | none => rfl
  | some usage =>
    rw [payload, hServes.reference_eq hOwn (hScoped usage rfl), Builder.checkPayload]
    cases builder.check context arity usage <;> rfl

end Site

end Interchange.Schema

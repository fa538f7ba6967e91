import Interchange.Schema.Project

/-!
# Building definitions

Declarations with their names looked up become definitions, one after the other in dependency order.
Each is checked first and placed then: `check` finds what is wrong with a type, and `place` numbers
its references, the arguments of a type before the type itself.

An array and a map may not hold `void`, because an element has to take up bytes. A template may pass
a parameter on to an array or a map, so every definition is kept together with one flag a parameter:
it is set if the parameter becomes an argument of an array or a map somewhere inside.

* `Builder.check`: arguments fit in number, and none of them is a `void` that would become an
  element.
* `Builder.add`: one more declaration.
* `Models.build`: all declarations of an order.
-/

namespace Interchange.Schema

/-- A definition and, for each of its parameters, whether arrays or maps hold it. -/
structure Built where
  definition : Definition
  held : List Bool
deriving Repr

namespace Built

/-- Arrays and maps hold all of their arguments. -/
def ofBuiltin (kind : Builtin) : Built :=
  ⟨.ofBuiltin kind, List.replicate kind.arity kind.isContainer⟩

/-- Whether the argument at a position is held. -/
def holds (built : Built) (index : Nat) : Bool :=
  built.held.getD index false

end Built

/-- What is built so far: definitions in their places, services in the order of building, and the
number of references. -/
structure Builder where
  built : List Built
  services : List Service
  references : Nat
deriving Repr

namespace Builder

/-- The built-in types and nothing else. -/
def start : Builder :=
  ⟨Builtin.all.map Built.ofBuiltin, [], 0⟩

/-- The definition with a full name. -/
def find? (builder : Builder) (identifier : Identifier) : Option Built :=
  builder.built.find? fun built => built.definition.identifier == identifier

/-- The place of the definition with a full name. -/
def slotOf (builder : Builder) (identifier : Identifier) : Nat :=
  builder.built.findIdx fun built => built.definition.identifier == identifier

/-- The kind of the definition with a full name. A checked type names definitions that are there. -/
def kindOf (builder : Builder) (identifier : Identifier) : DefinitionKind :=
  match builder.find? identifier with
  | some built => built.definition.kind
  | none => .builtin

/-! ## Checking types -/

/-- The type is `void`. -/
def isVoid : Usage → Bool
  | .model target _ => target == Builtin.void.identifier
  | .parameter _ => false

/-- One of the arguments from position `index` on is a held `void`. -/
def holdsVoid (built : Built) : (index : Nat) → List Usage → Bool
  | _, [] => false
  | index, arg :: rest => (built.holds index && isVoid arg) || holdsVoid built (index + 1) rest

mutual

/-- Checks a type inside the declaration `context`, which has `arity` parameters: the number of its
arguments first, `void` among them next, and then the arguments in order. -/
def check (builder : Builder) (context : Identifier) (arity : Nat) :
    Usage → Except CompileError Unit
  | .parameter index =>
    if index < arity then .ok () else .error (.undefinedParameter context index)
  | .model target args =>
    match builder.find? target with
    | none => .error (.undefinedTarget target)
    | some built =>
      if built.definition.arity ≠ args.length then
        .error (.arityMismatch context built.definition.identifier
          built.definition.arity args.length)
      else if holdsVoid built 0 args then
        .error (.voidTypeArgument context built.definition.identifier)
      else builder.checkAll context arity args

def checkAll (builder : Builder) (context : Identifier) (arity : Nat) :
    List Usage → Except CompileError Unit
  | [] => .ok ()
  | usage :: rest => do
    builder.check context arity usage
    builder.checkAll context arity rest

end

/-! ## Numbering references -/

mutual

/-- The reference of a checked type, with numbers from `next` on, and the next free number. -/
def place (builder : Builder) (parameters : List TypeRef) : Usage → (next : Nat) → TypeRef × Nat
  | .parameter index, next => (parameters.getD index (.parameter 0 0 index ""), next)
  | .model target args, next =>
    let (placed, own) := builder.placeAll parameters args next
    (.model ⟨own, builder.kindOf target⟩ (builder.slotOf target) placed, own + 1)

def placeAll (builder : Builder) (parameters : List TypeRef) :
    List Usage → (next : Nat) → List TypeRef × Nat
  | [], next => ([], next)
  | usage :: rest, next =>
    let (first, next) := builder.place parameters usage next
    let (others, next) := builder.placeAll parameters rest next
    (first :: others, next)

end

/-- The references of the fields of a message, in source order. -/
def placeFields (builder : Builder) (parameters : List TypeRef) :
    List (ModelPart Usage) → (next : Nat) → List (ModelPart TypeRef) × Nat
  | [], next => ([], next)
  | field :: rest, next =>
    let (type, next) := builder.place parameters field.content next
    let (others, next) := builder.placeFields parameters rest next
    (⟨field.number, field.name, type⟩ :: others, next)

/-- The references of the payloads of a tag, in source order. -/
def placeVariants (builder : Builder) (parameters : List TypeRef) :
    List (ModelPart (Option Usage)) → (next : Nat) → List (ModelPart (Option TypeRef)) × Nat
  | [], next => ([], next)
  | variant :: rest, next =>
    let (payload, next) :=
      match variant.content with
      | none => (none, next)
      | some usage =>
        let (type, next) := builder.place parameters usage next
        (some type, next)
    let (others, next) := builder.placeVariants parameters rest next
    (⟨variant.number, variant.name, payload⟩ :: others, next)

/-- One reference a template parameter, numbered from `next` on, for the definition at `owner`. -/
def placeParameters (owner next : Nat) (params : List String) : List TypeRef :=
  params.zipIdx.map fun (name, index) => .parameter (next + index) owner index name

/-! ## Held parameters -/

mutual

/-- The parameter at `index` is held inside a type. `inside` says that the type itself is held. -/
def holdsParameter (builder : Builder) (index : Nat) : (inside : Bool) → Usage → Bool
  | inside, .parameter i => inside && i == index
  | _, .model target args =>
    match builder.find? target with
    | none => false
    | some built => builder.holdsParameterAmong index built 0 args

/-- The parameter at `index` is held inside the arguments of `built` from `position` on. -/
def holdsParameterAmong (builder : Builder) (index : Nat) (built : Built) :
    (position : Nat) → List Usage → Bool
  | _, [] => false
  | position, arg :: rest =>
    builder.holdsParameter index (built.holds position) arg
      || builder.holdsParameterAmong index built (position + 1) rest

end

/-- The flags of `arity` parameters for the types of a declaration. -/
def heldFlags (builder : Builder) (arity : Nat) (usages : List Usage) : List Bool :=
  (List.range arity).map fun index => usages.any (builder.holdsParameter index false)

/-! ## Checking declarations -/

/-- Numbers and names of parts differ, and every type is sound. `taken` says which error a repeated
number is, and `sound` checks the content of a part. -/
def checkParts {α : Type} (context : Identifier) (taken : UInt32 → CompileError)
    (sound : α → Except CompileError Unit) :
    (earlier : List (ModelPart α)) → List (ModelPart α) → Except CompileError Unit
  | _, [] => .ok ()
  | earlier, part :: rest =>
    if earlier.any (·.number == part.number) then .error (taken part.number)
    else if earlier.any (·.name == part.name) then .error (.duplicateFieldName context part.name)
    else do
      sound part.content
      checkParts context taken sound (part :: earlier) rest

/-- No retired id is in use. -/
def checkRetired (context : Identifier) (retired live : List UInt32) : Except CompileError Unit :=
  match retired.find? (live.contains ·) with
  | some id => .error (.retiredIdInUse context id)
  | none => .ok ()

/-- Retired ids in ascending order, each once. -/
def sortRetired (retired : List UInt32) : List UInt32 :=
  (retired.mergeSort fun a b => decide (a ≤ b)).eraseReps

/-- A payload is sound if it is absent or its type is. -/
def checkPayload (builder : Builder) (context : Identifier) (arity : Nat) :
    Option Usage → Except CompileError Unit
  | none => .ok ()
  | some usage => builder.check context arity usage

/-! ## Adding declarations -/

/-- Appends a definition whose types are `usages`. -/
def push (builder : Builder) (definition : Definition) (usages : List Usage) (references : Nat) :
    Builder :=
  { builder with
    built := builder.built
      ++ [⟨definition, builder.heldFlags definition.parameters.length usages⟩]
    references }

def addMessage (builder : Builder) (identifier : Identifier) (params : List String)
    (fields : List (ModelPart Usage)) (retired : List UInt32) : Except CompileError Builder := do
  checkParts identifier (.duplicateFieldId identifier)
    (builder.check identifier params.length) [] fields
  checkRetired identifier retired (fields.map ModelPart.number)
  let parameters := placeParameters builder.built.length builder.references params
  let (placed, next) := builder.placeFields parameters fields (builder.references + params.length)
  let body := .message (ModelPart.sort placed) (sortRetired retired)
  return builder.push ⟨identifier, parameters, body⟩ (fields.map ModelPart.content) next

def addTag (builder : Builder) (identifier : Identifier) (params : List String)
    (variants : List (ModelPart (Option Usage))) (retired : List UInt32) :
    Except CompileError Builder := do
  checkParts identifier (.duplicateTagValue identifier)
    (builder.checkPayload identifier params.length) [] variants
  checkRetired identifier retired (variants.map ModelPart.number)
  let parameters := placeParameters builder.built.length builder.references params
  let (placed, next) :=
    builder.placeVariants parameters variants (builder.references + params.length)
  let body := .tag (ModelPart.sort placed) (sortRetired retired)
  return builder.push ⟨identifier, parameters, body⟩ (variants.filterMap ModelPart.content) next

/-- A service id is positive and belongs to one service. -/
def addService (builder : Builder) (identifier : Identifier) (input output : Usage) (id : UInt32) :
    Except CompileError Builder := do
  if id = 0 then throw (.invalidServiceId identifier id)
  if let some first := builder.services.find? (·.id == id) then
    throw (.duplicateServiceId id first.identifier identifier)
  builder.check identifier 0 input
  builder.check identifier 0 output
  let (input, next) := builder.place [] input builder.references
  let (output, next) := builder.place [] output next
  return { builder with
    services := builder.services ++ [⟨identifier, id, input, output⟩]
    references := next }

/-- One more declaration. The built-in types are there from the start. -/
def add (builder : Builder) (resolved : Resolved) : Except CompileError Builder :=
  match resolved.body with
  | .builtin _ => .ok builder
  | .message params fields retired => builder.addMessage resolved.identifier params fields retired
  | .tag params variants retired => builder.addTag resolved.identifier params variants retired
  | .service input output id => builder.addService resolved.identifier input output id

end Builder

/-- The definitions and services of declarations that stand in dependency order. -/
def Models.build (declarations : List Resolved) : Except CompileError Models := do
  let builder ← declarations.foldlM Builder.add Builder.start
  return {
    definitions := builder.built.map Built.definition
    services := builder.services.mergeSort fun a b => decide (a.id ≤ b.id)
    references := builder.references }

end Interchange.Schema

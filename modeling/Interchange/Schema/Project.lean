import Interchange.Schema.Usage

/-!
# Projects

A project is what a set of schema files means: a list of definitions, the built-in types first, and
a list of services. Definitions refer to one another by their place in the list. Every use of a type
is a reference with a number of its own; only the uses of a template parameter share theirs.

* `TypeRef.describe`: a reference as it would be written in full.
* `TypeRef.sameShape`: equality of references up to their own numbers.
* `Project.definition?`, `Project.service?`: finding a definition by name and a service by id.
-/

namespace Interchange.Schema

/-! ## References -/

/-- What kind of model a definition is, and what kind of model a reference leads to. -/
inductive DefinitionKind where
  | builtin
  | message
  | messageTemplate
  | tag
  | tagTemplate
deriving DecidableEq, Repr

/-- The name of a kind in summaries and in the content hash. -/
def DefinitionKind.text : DefinitionKind → String
  | builtin => "builtin"
  | message => "message"
  | messageTemplate => "message template"
  | tag => "tag"
  | tagTemplate => "tag template"

/-- Where a type is used: the number of the reference, and what kind of model it leads to. -/
structure UseSite where
  slot : Nat
  kind : DefinitionKind
deriving DecidableEq, Repr

/-- A use of a type. `slot` is the number of the reference. -/
inductive TypeRef where
  /-- A template parameter of the definition at place `owner`. -/
  | parameter (slot owner index : Nat) (name : String)
  /-- The definition at place `target` with its arguments. -/
  | model (site : UseSite) (target : Nat) (args : List TypeRef)
deriving Repr

namespace TypeRef

def slot : TypeRef → Nat
  | parameter slot _ _ _ => slot
  | model site _ _ => site.slot

/-- The place of the definition; a parameter has none. -/
def target? : TypeRef → Option Nat
  | parameter _ _ _ _ => none
  | model _ target _ => some target

def args : TypeRef → List TypeRef
  | parameter _ _ _ _ => []
  | model _ _ args => args

mutual

/-- The same parameter, or the same definition with arguments of the same shape. -/
def sameShape : TypeRef → TypeRef → Bool
  | .parameter _ owner index _, .parameter _ owner' index' _ => owner == owner' && index == index'
  | .model site target args, .model site' target' args' =>
    site.kind == site'.kind && target == target' && sameShapes args args'
  | .parameter _ _ _ _, .model _ _ _ => false
  | .model _ _ _, .parameter _ _ _ _ => false

def sameShapes : List TypeRef → List TypeRef → Bool
  | [], [] => true
  | a :: as, b :: bs => sameShape a b && sameShapes as bs
  | [], _ :: _ => false
  | _ :: _, [] => false

end

end TypeRef

/-! ## Definitions -/

/-- What a definition says of its values. Fields and variants are sorted by number, retired ids are
sorted and listed once. -/
inductive DefinitionBody where
  | builtin (kind : Builtin)
  | message (fields : List (ModelPart TypeRef)) (retired : List UInt32)
  | tag (variants : List (ModelPart (Option TypeRef))) (retired : List UInt32)
deriving Repr

/-- A model. The parameters of a template are references to themselves. -/
structure Definition where
  identifier : Identifier
  parameters : List TypeRef
  body : DefinitionBody
deriving Repr

namespace Definition

/-- The definition of a built-in type. -/
def ofBuiltin (kind : Builtin) : Definition :=
  ⟨kind.identifier, [], .builtin kind⟩

/-- The number of type arguments. -/
def arity (definition : Definition) : Nat :=
  match definition.body with
  | .builtin kind => kind.arity
  | _ => definition.parameters.length

def builtin? (definition : Definition) : Option Builtin :=
  match definition.body with
  | .builtin kind => some kind
  | _ => none

/-- A message and a tag are templates if they have parameters. -/
def kind (definition : Definition) : DefinitionKind :=
  match definition.body with
  | .builtin _ => .builtin
  | .message _ _ => if definition.parameters.isEmpty then .message else .messageTemplate
  | .tag _ _ => if definition.parameters.isEmpty then .tag else .tagTemplate

/-- The kind of a definition as summaries and the content hash name it. -/
def kindName (definition : Definition) : String :=
  definition.kind.text

end Definition

/-- The full name of the definition at a place. -/
def identifierAt (definitions : List Definition) (slot : Nat) : Identifier :=
  match definitions[slot]? with
  | some definition => definition.identifier
  | none => Identifier.ofGlobal ""

/-- A full name with the texts of its arguments in angle brackets. -/
def applied (identifier : Identifier) (args : List String) : String :=
  if args.isEmpty then identifier.text
  else identifier.text ++ "<" ++ String.intercalate ", " args ++ ">"

namespace TypeRef

mutual

/-- A reference as it would be written in full. A parameter is its name. -/
def describe (definitions : List Definition) : TypeRef → String
  | .parameter _ _ _ name => name
  | .model _ target args => applied (identifierAt definitions target) (describeAll definitions args)

def describeAll (definitions : List Definition) : List TypeRef → List String
  | [] => []
  | reference :: rest => describe definitions reference :: describeAll definitions rest

end

end TypeRef

/-! ## Projects -/

/-- A service. -/
structure Service where
  identifier : Identifier
  id : UInt32
  input : TypeRef
  output : TypeRef
deriving Repr

/-- Definitions, services sorted by id, and the number of references. -/
structure Models where
  definitions : List Definition
  services : List Service
  references : Nat
deriving Repr

/-- The models of a schema with the name, the version and the content hash of the project. -/
structure Project extends Models where
  name : String
  version : String
  contentHash : String
deriving Repr

namespace Models

/-- The definitions that are not built in, with their places. -/
def declared (models : Models) : List (Nat × Definition) :=
  (models.definitions.zipIdx.filter fun entry => entry.1.builtin?.isNone).map Prod.swap

/-- The place of the definition with a full name. -/
def slot? (models : Models) (identifier : Identifier) : Option Nat :=
  models.definitions.findIdx? fun definition => definition.identifier == identifier

/-- The definition with a full name. -/
def definition? (models : Models) (identifier : Identifier) : Option Definition :=
  models.definitions.find? fun definition => definition.identifier == identifier

/-- The service with an id. -/
def service? (models : Models) (id : UInt32) : Option Service :=
  models.services.find? fun service => service.id == id

/-- A reference as it would be written in full. -/
def describe (models : Models) (reference : TypeRef) : String :=
  reference.describe models.definitions

/-- The numbers of definitions and references. -/
def countsText (models : Models) : String :=
  "ModelTable \x7b definitions: " ++ toString models.definitions.length ++ ", references: "
    ++ toString models.references ++ " \x7d"

end Models

/-- How a definition's place is shown, counted from 1. -/
def definitionLabel (slot : Nat) : String :=
  "<model definition #" ++ toString (slot + 1) ++ ">"

/-- How a reference's number is shown, counted from 1. -/
def referenceLabel (slot : Nat) : String :=
  "<model reference #" ++ toString (slot + 1) ++ ">"

end Interchange.Schema

import Interchange.Schema.Fault
import Interchange.Schema.Identifier

/-!
# Errors of a schema

Why a set of schema files is no project. Each cause names the declaration in which it was found;
`CompileError.message` holds the wording.
-/

namespace Interchange.Schema

/-- The three options of a service. -/
inductive ServiceOption where
  | input
  | output
  | id
deriving DecidableEq, Repr

namespace ServiceOption

def key : ServiceOption → String
  | input => "input"
  | output => "output"
  | id => "id"

/-- The option with a key. -/
def ofKey? (key : String) : Option ServiceOption :=
  [input, output, id].find? fun option => option.key == key

end ServiceOption

/-- What the value of an option has to be. -/
inductive OptionDemand where
  | single
  | type
  | integer
  | integers
deriving DecidableEq, Repr

def OptionDemand.text : OptionDemand → String
  | single => "a single value"
  | type => "a type"
  | integer => "an integer"
  | integers => "an integer or integer list"

/-- Why a set of schema files is no project. -/
inductive CompileError where
  /-- The files do not follow the grammar. -/
  | malformed (diagnostics : List Diagnostic)
  | duplicateDeclaration (identifier : Identifier)
  | reservedNamespace (path : String)
  | unresolvedReference (reference : String) (context : Identifier) (span : Span)
  | notAModel (reference : String) (context service : Identifier)
  /-- A cycle: each entry needs the next, and the last is the first again. -/
  | circularDependency (path : List Identifier)
  | duplicateFieldId (model : Identifier) (id : UInt32)
  | duplicateTagValue (model : Identifier) (value : UInt32)
  | duplicateFieldName (model : Identifier) (name : String)
  | retiredIdInUse (model : Identifier) (id : UInt32)
  | duplicateServiceId (id : UInt32) (first second : Identifier)
  | invalidServiceId (service : Identifier) (id : UInt32)
  | missingServiceOption (service : Identifier) (option : ServiceOption)
  | unknownOption (context : Identifier) (option : String)
  | invalidOptionValue (context : Identifier) (option : String) (demand : OptionDemand)
  | arityMismatch (context reference : Identifier) (expected found : Nat)
  | voidTypeArgument (context template : Identifier)
  /-- A type names a model that is not defined yet. The order of definitions rules this out. -/
  | undefinedTarget (target : Identifier)
  /-- A type names a parameter that its declaration does not have. Resolution rules this out. -/
  | undefinedParameter (context : Identifier) (index : Nat)
deriving DecidableEq, Repr

namespace CompileError

/-- The arguments an item takes and the arguments it was given. -/
def argumentCounts (expected found : Nat) : String :=
  toString expected ++ " type argument(s) but " ++ toString found ++ " were given"

def message : CompileError → String
  | malformed diagnostics =>
    toString diagnostics.length ++ " syntax error(s), first: "
      ++ ((diagnostics.head?).map Diagnostic.text).getD ""
  | duplicateDeclaration identifier => identifier.text ++ " is declared more than once"
  | reservedNamespace path =>
    "namespace " ++ Text.quote path ++ " is reserved for built-in types"
  | unresolvedReference reference context span =>
    "unresolved reference " ++ Text.quote reference ++ " in " ++ context.text ++ " at " ++ span.text
  | notAModel reference context service =>
    Text.quote reference ++ " in " ++ context.text ++ " refers to service " ++ service.text
      ++ ", which is not a model"
  | circularDependency path =>
    "circular model dependency: " ++ String.intercalate " -> " (path.map Identifier.text)
  | duplicateFieldId model id =>
    "field id " ++ toString id ++ " is used more than once in " ++ model.text
  | duplicateTagValue model value =>
    "tag value " ++ toString value ++ " is used more than once in " ++ model.text
  | duplicateFieldName model name =>
    "field name " ++ Text.quote name ++ " is used more than once in " ++ model.text
  | retiredIdInUse model id =>
    "id " ++ toString id ++ " of " ++ model.text ++ " is listed in @used_ids but still in use"
  | duplicateServiceId id first second =>
    "service id " ++ toString id ++ " is used by both " ++ first.text ++ " and " ++ second.text
  | invalidServiceId service id =>
    "service " ++ service.text ++ " has id " ++ toString id ++ ", service ids must be positive"
  | missingServiceOption service option =>
    "service " ++ service.text ++ " is missing the @" ++ option.key ++ " option"
  | unknownOption context option => "unknown option @" ++ option ++ " in " ++ context.text
  | invalidOptionValue context option demand =>
    "option @" ++ option ++ " in " ++ context.text ++ " expects " ++ demand.text
  | arityMismatch context reference expected found =>
    reference.text ++ " expects " ++ argumentCounts expected found ++ " (in " ++ context.text ++ ")"
  | voidTypeArgument context template =>
    template.text ++ " cannot be instantiated with void (in " ++ context.text ++ ")"
  | undefinedTarget target => target.text ++ " is not defined yet"
  | undefinedParameter context index =>
    context.text ++ " has no template parameter " ++ toString index

end CompileError

end Interchange.Schema

import Interchange.Schema.Project
import Interchange.Text.Json

/-!
# Summaries

What the command prints about a project: its name, version and content hash, the models that it
declares and its services.

* `Summary.text`: for people.
* `Summary.json`: for programs.
-/

namespace Interchange.Command

open Schema (Project)

/-- A service in a summary. -/
structure ServiceLine where
  id : UInt32
  identifier : String
  input : String
  output : String
deriving DecidableEq, Repr

/-- A summary of a project. -/
structure Summary where
  name : String
  version : String
  contentHash : String
  models : List String
  services : List ServiceLine
deriving DecidableEq, Repr

namespace Summary

def ofProject (project : Project) : Summary where
  name := project.name
  version := project.version
  contentHash := project.contentHash
  models := project.declared.map fun (_, definition) =>
    definition.kindName ++ " " ++ definition.identifier.text
  services := project.services.map fun service =>
    ⟨service.id, service.identifier.text, project.describe service.input,
      project.describe service.output⟩

def serviceText (service : ServiceLine) : String :=
  "  #" ++ toString service.id ++ " " ++ service.identifier ++ ": " ++ service.input ++ " -> "
    ++ service.output ++ "\n"

def text (summary : Summary) : String :=
  summary.name ++ " " ++ summary.version ++ "\ncontent hash: " ++ summary.contentHash ++ "\n"
    ++ "models (" ++ toString summary.models.length ++ "):\n"
    ++ String.join (summary.models.map fun model => "  " ++ model ++ "\n")
    ++ "services (" ++ toString summary.services.length ++ "):\n"
    ++ String.join (summary.services.map serviceText)

/-- Lines of JSON between two brackets, `depth` steps to the right. -/
def enclosed (left right : String) (depth : Nat) (items : List String) : String :=
  let margin := "".pushn ' ' (2 * depth)
  if items.isEmpty then left ++ right
  else
    left ++ "\n" ++ String.intercalate ",\n" (items.map fun item => margin ++ "  " ++ item)
      ++ "\n" ++ margin ++ right

def member (key value : String) : String :=
  Text.jsonString key ++ ": " ++ value

def jsonObject (depth : Nat) (members : List (String × String)) : String :=
  enclosed "\x7b" "\x7d" depth (members.map fun entry => member entry.1 entry.2)

def jsonList (depth : Nat) (items : List String) : String :=
  enclosed "[" "]" depth items

def serviceJson (depth : Nat) (service : ServiceLine) : String :=
  jsonObject depth [("id", toString service.id), ("identifier", Text.jsonString service.identifier),
    ("input", Text.jsonString service.input), ("output", Text.jsonString service.output)]

def json (summary : Summary) : String :=
  jsonObject 0 [("name", Text.jsonString summary.name),
    ("version", Text.jsonString summary.version),
    ("content_hash", Text.jsonString summary.contentHash),
    ("models", jsonList 1 (summary.models.map Text.jsonString)),
    ("services", jsonList 1 (summary.services.map (serviceJson 2)))]

end Summary

end Interchange.Command

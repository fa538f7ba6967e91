import Interchange.Settings.Version
import Interchange.Text.Blank
import Interchange.Text.Quoted
import Interchange.Yaml.Node

/-!
# Project settings

A settings file gives a project its name and may give it a version, a place for output and options
for emitters. Other keys are refused, and so is a key that stands twice.

* `checkVersion`: a text is a version.
* `Settings.parse`: the settings that a text holds.
-/

namespace Interchange.Settings

/-- Why a text holds no settings. -/
inductive SettingsError where
  /-- The text is no document, or the document has other keys or types. -/
  | malformed
  | emptyName
  | invalidVersion (version : String)
deriving DecidableEq, Repr

def SettingsError.message : SettingsError → String
  | malformed => "yaml"
  | emptyName => "Project name must not be empty"
  | invalidVersion version =>
    "Invalid project version " ++ Text.quote version ++ ", expected MAJOR.MINOR.PATCH[-pre]"

/-- A text that has to be a version. -/
def checkVersion (version : String) : Except SettingsError Unit :=
  if isVersion version then .ok () else .error (.invalidVersion version)

/-! ## Values of a document -/

open Yaml (Document Node)

/-- The ways to write that there is no value. -/
def nullWords : List String :=
  ["~", "null", "Null", "NULL"]

/-- The tag of a scalar that is no value. -/
def nullTag : String := Yaml.standardTags ++ "null"

/-- A scalar as text, whatever it looks like. -/
def text? (document : Document) (node : Node) : Option String :=
  match document.target? node with
  | some (.scalar text _ _) => some text
  | _ => none

/-- A scalar as text that may be absent. Only a plain scalar can be no value. One that is tagged as
no value has to be written as such. -/
def optionalText? (document : Document) (node : Node) : Option (Option String) :=
  match document.target? node with
  | some (.scalar text true none) =>
    some (if text.isEmpty || nullWords.contains text then none else some text)
  | some (.scalar text true (some tag)) =>
    if tag != nullTag then some (some text)
    else if nullWords.contains text then some none
    else none
  | some (.scalar text false _) => some (some text)
  | _ => none

/-- The entries of a mapping with their keys as text; nothing at all is the empty mapping. -/
def entries? (document : Document) (node : Node) : Option (List (String × Node)) :=
  match document.target? node with
  | some (.mapping entries) =>
    entries.mapM fun entry => (text? document entry.1).map fun key => (key, entry.2)
  | some (.scalar "" true _) => some []
  | _ => none

/-- Gives a key a value in a list sorted by key. A value that it had is gone. -/
def insertKey {α : Type} (key : String) (value : α) : List (String × α) → List (String × α)
  | [] => [(key, value)]
  | (other, old) :: rest =>
    if key < other then (key, value) :: (other, old) :: rest
    else if key == other then (key, value) :: rest
    else (other, old) :: insertKey key value rest

/-- Entries sorted by key, each key with its last value. -/
def table {α : Type} (entries : List (String × α)) : List (String × α) :=
  entries.foldl (fun sofar entry => insertKey entry.1 entry.2 sofar) []

/-- Applies a partial function to every value. -/
def mapValues? {α β : Type} (f : α → Option β) (entries : List (String × α)) :
    Option (List (String × β)) :=
  entries.mapM fun entry => (f entry.2).map fun value => (entry.1, value)

/-- A mapping of texts. -/
def textTable? (document : Document) (node : Node) : Option (List (String × String)) := do
  return table (← mapValues? (text? document) (← entries? document node))

/-- A mapping of mappings of texts. -/
def emitterTable? (document : Document) (node : Node) :
    Option (List (String × List (String × String))) := do
  return table (← mapValues? (textTable? document) (← entries? document node))

end Interchange.Settings

namespace Interchange

/-- The settings of a project. -/
structure Settings where
  name : String
  version : String
  output : Option String
  /-- Options for emitters, by emitter and key. -/
  emitters : List (String × List (String × String))
deriving DecidableEq, Repr

namespace Settings

open Yaml (Document Node)

/-- The version of a project that names none. -/
def defaultVersion : String := "0.1.0"

/-- The keys of a settings file. -/
def knownKeys : List String :=
  ["name", "version", "output", "emitters"]

/-- Every key is known and stands once. -/
def keysAreSound (entries : List (String × Node)) : Bool :=
  let keys := entries.map Prod.fst
  keys.all (knownKeys.contains ·) && keys.eraseDups.length == keys.length

/-- The value of a key, or what holds without it. -/
def valueOr {α : Type} (entries : List (String × Node)) (key : String)
    (read : Node → Option α) (absent : Option α) : Option α :=
  match entries.find? fun entry => entry.1 == key with
  | some (_, value) => read value
  | none => absent

/-- How far inward settings reach: three mappings and a scalar, with an alias before each but the
first. -/
def depth : Nat := 7

/-- The settings in a document. -/
def ofDocument? (document : Document) : Option Settings := do
  let entries ← entries? document document.root
  if keysAreSound entries then
    let settings : Settings := {
      name := ← valueOr entries "name" (text? document) none
      version := ← valueOr entries "version" (text? document) (some defaultVersion)
      output := ← valueOr entries "output" (optionalText? document) (some none)
      emitters := ← valueOr entries "emitters" (emitterTable? document) (some []) }
    if document.isShort depth then return settings else none
  else none

/-- A project has a name and a version. -/
def check (settings : Settings) : Except SettingsError Unit :=
  if (Text.trimBlank settings.name.toList).isEmpty then .error .emptyName
  else checkVersion settings.version

/-- The settings that a text holds. -/
def parse (text : String) : Except SettingsError Settings :=
  match (Document.parse? text).bind ofDocument? with
  | none => .error .malformed
  | some settings => do
    settings.check
    return settings

end Settings

end Interchange

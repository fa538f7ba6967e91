import Interchange.Command.Arguments
import Interchange.Command.Summary
import Interchange.Settings.Basic
import Interchange.Source.Load

/-!
# Running the command

The command compiles the schema files below a root and prints a summary of the project. The name and
the version come from the command line, else from the settings, else from the defaults.

* `findSettings`: the settings of a project, if it has any.
* `run`: what the command prints, or why it fails.
-/

namespace Interchange.Command

open Schema (Options Diagnostic)
open Settings (SettingsError)
open Source (Files ReadFault ProjectError)

/-- Why the command fails. -/
inductive RunError where
  | unreadableSettings (path : String) (fault : ReadFault)
  /-- The settings file is not UTF-8. -/
  | undecodableSettings (path : String)
  | invalidSettings (path : String) (error : SettingsError)
  | invalidVersion (error : SettingsError)
  | project (root : String) (error : ProjectError)
deriving DecidableEq, Repr

namespace RunError

/-- The cause behind a message, for a file that cannot be read. -/
def causeText : ProjectError → String
  | .load (.unreadable _ fault) => ": " ++ fault.text
  | _ => ""

def message : RunError → String
  | unreadableSettings path fault => "Could not read settings " ++ path ++ ": " ++ fault.text
  | undecodableSettings path =>
    "Could not read settings " ++ path ++ ": stream did not contain valid UTF-8"
  | invalidSettings path error => "Invalid settings " ++ path ++ ": " ++ error.message
  | invalidVersion error => error.message
  | project root error => "Could not compile " ++ root ++ ": " ++ error.message ++ causeText error

end RunError

/-- The name of the settings file in a root. -/
def settingsFile : String := "kestrel.yaml"

/-- The settings in the file at a path. -/
def loadSettings (files : Files) (path : String) : Except RunError Settings :=
  match Source.readFile files path with
  | .error fault => .error (.unreadableSettings path fault)
  | .ok content =>
    match utf8? content with
    | none => .error (.undecodableSettings path)
    | some text =>
      match Settings.parse text with
      | .error error => .error (.invalidSettings path error)
      | .ok settings => .ok settings

/-- The settings at a path that is asked for, or those in the root if there are any. -/
def findSettings (files : Files) (root : String) (path : Option String) :
    Except RunError (Option Settings) :=
  match path with
  | some path => (loadSettings files path).map some
  | none =>
    let path := Source.joinPath root settingsFile
    if Source.isFile files path then (loadSettings files path).map some else .ok none

/-- The name and version of the project. -/
def compileOptions (arguments : Arguments) (settings : Option Settings) : Except RunError Options :=
  let base : Options := match settings with
    | some settings => ⟨settings.name, settings.version⟩
    | none => {}
  let named := { base with name := arguments.name.getD base.name }
  match arguments.projectVersion with
  | none => .ok named
  | some version =>
    match Settings.checkVersion version with
    | .error error => .error (.invalidVersion error)
    | .ok () => .ok { named with version }

/-- What the command prints, and whether it succeeds. -/
structure Report where
  success : Bool
  output : String
  errors : String
deriving DecidableEq, Repr

/-- The report on files that do not follow the grammar: one line for each fault. -/
def faultReport (diagnostics : List Diagnostic) : Report :=
  ⟨false, "", String.join (diagnostics.map fun d => d.text ++ "\n")⟩

/-- The report on a project. -/
def summaryReport (format : Format) (summary : Summary) : Report :=
  match format with
  | .text => ⟨true, summary.text, ""⟩
  | .json => ⟨true, summary.json ++ "\n", ""⟩

/-- Runs the command. -/
def run (files : Files) (arguments : Arguments) : Except RunError Report := do
  let settings ← findSettings files arguments.root arguments.settings
  let options ← compileOptions arguments settings
  match Source.compileDirectory files arguments.root options with
  | .ok project => return summaryReport arguments.format (.ofProject project)
  | .error (.compile (.malformed diagnostics)) => return faultReport diagnostics
  | .error error => throw (.project arguments.root error)

end Interchange.Command

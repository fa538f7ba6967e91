import Interchange.Schema.Compile
import Interchange.Source.Tree
import Interchange.Text.Encoding

/-!
# Loading schema files

The schema files of a project are the files below its root with the extension `ks`, in the order of
their paths. Paths are ordered name by name, so the contents of a directory stay together.

* `readSource`: one file with its text.
* `loadSources`: all schema files below a root.
* `compileDirectory`: the project of a root.
-/

namespace Interchange.Source

open Schema (CompileError Options Project)

/-- Why a schema file cannot be loaded. -/
inductive LoadError where
  | unreadable (path : String) (fault : ReadFault)
  | notText (path : String)
deriving DecidableEq, Repr

def LoadError.message : LoadError → String
  | unreadable path fault => "failed to read " ++ path ++ ": " ++ fault.text
  | notText path => path ++ " is not valid UTF-8"

/-- The extension of schema files. -/
def schemaExtension : String := "ks"

/-- The text in the bytes of the file at a path. -/
def decodeSource (path : String) (content : Bytes) : Except LoadError Schema.Source :=
  match Text.decodeText? content with
  | some text => .ok ⟨path, text⟩
  | none => .error (.notText path)

/-- The file at a path with its text. -/
def readSource (files : Files) (path : String) : Except LoadError Schema.Source :=
  match readFile files path with
  | .error fault => .error (.unreadable path fault)
  | .ok content => decodeSource path content

/-- A schema file below a root: the names that lead to it, and its bytes if they can be read. -/
structure Found where
  names : List String
  content : Except ReadFault Bytes

/-- The name is that of a schema file. -/
def isSchemaName (name : String) : Bool :=
  extension? name == some schemaExtension

mutual

/-- The schema files at and below an entry of a directory. -/
def entryFiles (directory : String) : String × Node → List Found
  | (name, node) => nodeFiles (joinPath directory name) name node

/-- The schema files at and below a path. What stands at a path that is too long cannot be told, and
only its name says whether it is a schema file. -/
def nodeFiles (path name : String) : Node → List Found
  | .file content =>
    if isSchemaName name then
      [⟨[name], if isTooLong path then .error .tooLong else .ok content⟩] else []
  | .directory entries =>
    if isTooLong path then (if isSchemaName name then [⟨[name], .error .tooLong⟩] else [])
    else (schemaFiles path entries).map fun found => { found with names := name :: found.names }

/-- The schema files among the entries of a directory and below them. -/
def schemaFiles (directory : String) : List (String × Node) → List Found
  | [] => []
  | entry :: rest => entryFiles directory entry ++ schemaFiles directory rest

end

/-- A schema file below a root with its text. -/
def Found.source (root : String) (found : Found) : Except LoadError Schema.Source :=
  let path := found.names.foldl joinPath root
  match found.content with
  | .error fault => .error (.unreadable path fault)
  | .ok content => decodeSource path content

/-- The order of paths, name by name. -/
def namesLe : List String → List String → Bool
  | [], _ => true
  | _ :: _, [] => false
  | a :: as, b :: bs => a < b || (a == b && namesLe as bs)

/-- All schema files below a root. -/
def loadSources (files : Files) (root : String) : Except LoadError (List Schema.Source) :=
  match listDirectory files root with
  | .error fault => .error (.unreadable root fault)
  | .ok entries =>
    let found := (schemaFiles root entries).mergeSort fun a b => namesLe a.names b.names
    found.mapM (Found.source root)

/-- Why a directory is no project. -/
inductive ProjectError where
  | load (error : LoadError)
  | compile (error : CompileError)
deriving DecidableEq, Repr

def ProjectError.message : ProjectError → String
  | load error => error.message
  | compile error => error.message

/-- The project whose schema files stand below a root. -/
def compileDirectory (files : Files) (root : String) (options : Options) :
    Except ProjectError Project :=
  match loadSources files root with
  | .error error => .error (.load error)
  | .ok sources =>
    match Schema.compile options sources with
    | .error error => .error (.compile error)
    | .ok project => .ok project

end Interchange.Source

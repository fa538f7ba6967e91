import Interchange.Graph.Order
import Interchange.Schema.Build
import Interchange.Schema.Canonical
import Interchange.Schema.Parse

/-!
# Compiling schema files

From texts to a project: every file is parsed, declarations get their full names, the names in types
are looked up, declarations are put into dependency order, and definitions are built in that order.

* `parseFiles`: the syntax trees of all files, or everything that is wrong with any of them.
* `compile`: the project of some files.
-/

namespace Interchange.Schema

/-- A schema text and the path it is known by. -/
structure Source where
  path : String
  text : String
deriving DecidableEq, Repr

/-- What a project is called. -/
structure Options where
  name : String := "unnamed"
  version : String := "0.1.0"
deriving DecidableEq, Repr

/-- Parses one file. -/
def parseFile (source : Source) : Except (List Diagnostic) SourceFile :=
  match parse source.text with
  | .ok statements => .ok ⟨source.path, statements⟩
  | .error faults => .error (faults.map fun f => ⟨source.path, f.span, f.fault⟩)

/-- Parses all files. One file with faults spoils the result, but the faults of all are reported. -/
def parseFiles : List Source → Except (List Diagnostic) (List SourceFile)
  | [] => .ok []
  | source :: rest =>
    match parseFile source, parseFiles rest with
    | .ok file, .ok files => .ok (file :: files)
    | .ok _, .error later => .error later
    | .error found, .ok _ => .error found
    | .error found, .error later => .error (found ++ later)

/-- Declarations in dependency order. Among independent ones the full names decide. -/
def sortDeclarations (resolved : List Resolved) : Except CompileError (List Resolved) :=
  let names := Identifier.sort (resolved.map Resolved.identifier)
  match Graph.order names (Resolved.needs resolved) with
  | .ok order => .ok (order.filterMap (Resolved.find? resolved))
  | .error path => .error (.circularDependency path)

/-- The models of some parsed files. -/
def compileFiles (files : List SourceFile) : Except CompileError Models := do
  let table ← Declaration.collect files
  let resolved ← Resolved.all table
  let sorted ← sortDeclarations resolved
  Models.build sorted

/-- Models with the name, version and content hash of a project. -/
def Models.toProject (models : Models) (options : Options) : Project :=
  { models with
    name := options.name
    version := options.version
    contentHash := Schema.contentHash options.name options.version models }

/-- The project of some schema texts. -/
def compile (options : Options) (sources : List Source) : Except CompileError Project :=
  match parseFiles sources with
  | .error diagnostics => .error (.malformed diagnostics)
  | .ok files => do
    let models ← compileFiles files
    return models.toProject options

end Interchange.Schema

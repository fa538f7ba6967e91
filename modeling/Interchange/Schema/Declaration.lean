import Interchange.Schema.Builtin
import Interchange.Schema.Error
import Interchange.Schema.Statement

/-!
# Declarations

Every message, tag and service gets its full name: the path of the namespaces around it, then its
own name. `Declaration.entries` walks a file and lists what it meets, and `Declaration.register`
turns the entries of all files into the table of declarations, or finds the first entry that may not
be there.

* `Declaration.collect`: the table of a list of files, with the built-in types in front.
-/

namespace Interchange.Schema

/-- What stands behind a full name. -/
inductive DeclarationBody where
  | builtin (kind : Builtin)
  | message (decl : ModelDecl FieldDecl)
  | tag (decl : ModelDecl VariantDecl)
  | service (decl : ServiceDecl)
deriving Repr

def DeclarationBody.isService : DeclarationBody → Bool
  | service _ => true
  | _ => false

/-- A declaration under its full name. -/
structure Declaration where
  identifier : Identifier
  body : DeclarationBody
deriving Repr

namespace Declaration

/-- The built-in types as declarations. -/
def builtins : List Declaration :=
  Builtin.all.map fun kind => ⟨kind.identifier, .builtin kind⟩

/-- What a walk through a file meets: a namespace that is entered, or a declaration. -/
inductive Entry where
  | entered (path : String)
  | declared (declaration : Declaration)
deriving Repr

/-- The entries of some statements inside the namespace `scope`. A file namespace holds for all
statements after it, a block for the statements in its braces. -/
def entries (scope : String) : List Statement → List Entry
  | [] => []
  | .fileNamespace name _ :: rest =>
    let inner := Namespace.join scope name.text
    .entered inner :: entries inner rest
  | .block name body _ :: rest =>
    let inner := Namespace.join scope name.text
    .entered inner :: entries inner body ++ entries scope rest
  | .message decl :: rest =>
    .declared ⟨⟨scope, decl.name⟩, .message decl⟩ :: entries scope rest
  | .tag decl :: rest =>
    .declared ⟨⟨scope, decl.name⟩, .tag decl⟩ :: entries scope rest
  | .service decl :: rest =>
    .declared ⟨⟨scope, decl.name⟩, .service decl⟩ :: entries scope rest

/-- The declaration with a full name. -/
def find? (table : List Declaration) (identifier : Identifier) : Option Declaration :=
  table.find? fun declaration => declaration.identifier == identifier

/-- Adds an entry to a table. No namespace may be the one of the built-in types or lie inside it,
and no full name may be declared twice. -/
def register (table : List Declaration) : Entry → Except CompileError (List Declaration)
  | .entered path =>
    if Namespace.within path Builtin.scope then .error (.reservedNamespace path) else .ok table
  | .declared declaration =>
    match find? table declaration.identifier with
    | some _ => .error (.duplicateDeclaration declaration.identifier)
    | none => .ok (table ++ [declaration])

/-- The table of the declarations of some files, in source order after the built-in types. -/
def collect (files : List SourceFile) : Except CompileError (List Declaration) :=
  (files.flatMap fun file => entries "" file.statements).foldlM register builtins

end Declaration

end Interchange.Schema

import Interchange.Schema.Token
import Interchange.Schema.Identifier

/-!
# Statements of a schema file

The syntax tree of one file. The body of a declaration keeps its members in the order in which they
are written; `fields` and `options` are the two halves of it.
-/

namespace Interchange.Schema

/-- A dotted name as written: at least one segment. -/
structure QualifiedName where
  first : String
  rest : List String
deriving DecidableEq, Repr

namespace QualifiedName

def segments (name : QualifiedName) : List String :=
  name.first :: name.rest

/-- The segments with dots between them. -/
def text (name : QualifiedName) : String :=
  String.intercalate "." name.segments

/-- The name with one more segment. -/
def push (name : QualifiedName) (segment : String) : QualifiedName :=
  ⟨name.first, name.rest ++ [segment]⟩

/-- All segments but the last as a namespace, and the last as the name. -/
def identifier (name : QualifiedName) : Identifier :=
  ⟨String.intercalate "." name.segments.dropLast, name.segments.getLast (by simp [segments])⟩

end QualifiedName

/-- A type as written, with its arguments. -/
inductive TypeExpr where
  | mk (name : QualifiedName) (args : List TypeExpr) (span : Span)
deriving Repr

namespace TypeExpr

def name : TypeExpr → QualifiedName
  | mk name _ _ => name

def args : TypeExpr → List TypeExpr
  | mk _ args _ => args

/-- The place of its first segment. -/
def span : TypeExpr → Span
  | mk _ _ span => span

end TypeExpr

/-- The value of an option. -/
inductive OptionValue where
  | integer (value : UInt32)
  | list (values : List UInt32)
  | type (type : TypeExpr)
deriving Repr

/-- `@key = value;` -/
structure OptionDecl where
  key : String
  value : OptionValue
  span : Span
deriving Repr

/-- `type name = id;` -/
structure FieldDecl where
  type : TypeExpr
  name : String
  id : UInt32
deriving Repr

/-- A field stands where its type stands. -/
def FieldDecl.span (field : FieldDecl) : Span :=
  field.type.span

/-- `name = value;` or `name(type) = value;` -/
structure VariantDecl where
  name : String
  payload : Option TypeExpr
  value : UInt32
  span : Span
deriving Repr

/-- One entry of the body of a message or a tag. -/
inductive Member (α : Type) where
  | part (part : α)
  | option (option : OptionDecl)
deriving Repr

/-- The head of a declaration: its keyword's place, its template parameters and its name. -/
structure Header where
  span : Span
  params : List String
  name : String
deriving DecidableEq, Repr

/-- A message (`α` is `FieldDecl`) or a tag (`α` is `VariantDecl`). -/
structure ModelDecl (α : Type) extends Header where
  members : List (Member α)
deriving Repr

namespace ModelDecl

variable {α : Type}

/-- The fields or variants in source order. -/
def parts (decl : ModelDecl α) : List α :=
  decl.members.filterMap fun
    | .part part => some part
    | .option _ => none

/-- The options in source order. -/
def options (decl : ModelDecl α) : List OptionDecl :=
  decl.members.filterMap fun
    | .part _ => none
    | .option option => some option

def isTemplate (decl : ModelDecl α) : Bool :=
  !decl.params.isEmpty

end ModelDecl

/-- A service: options only. -/
structure ServiceDecl where
  span : Span
  name : String
  options : List OptionDecl
deriving Repr

/-- A statement. -/
inductive Statement where
  /-- `namespace a.b;`, which holds for the rest of the file. -/
  | fileNamespace (name : QualifiedName) (span : Span)
  /-- A namespace block with its statements. -/
  | block (name : QualifiedName) (body : List Statement) (span : Span)
  | message (decl : ModelDecl FieldDecl)
  | tag (decl : ModelDecl VariantDecl)
  | service (decl : ServiceDecl)
deriving Repr

def Statement.isFileNamespace : Statement → Bool
  | fileNamespace _ _ => true
  | _ => false

/-- The statements of one file. -/
structure SourceFile where
  path : String
  statements : List Statement
deriving Repr

end Interchange.Schema

import Interchange.Schema.Statement

/-!
# The grammar of schema files

The productions of the grammar, as relations between tokens and what they stand for:

    file      = statement*
    statement = 'namespace' name (';' | '{' statement* '}')
              | 'message' header '{' (option | field)* '}'
              | 'tag' header '{' (option | variant)* '}'
              | 'service' IDENT '{' option* '}'
    header    = ('template' '<' IDENT (',' IDENT)* '>')? IDENT
    field     = type IDENT '=' INT ';'
    variant   = IDENT ('(' type ')')? '=' INT ';'
    option    = '@' IDENT '=' (INT | '[' INT (',' INT)* ']' | type) ';'
    type      = name ('<' type (',' type)* '>')?
    name      = IDENT ('.' IDENT)*

Numbers have 32 bits. A production says which of its tokens gives what it stands for its place; the
places of all other tokens are free. Keywords are identifiers, so a message may be named `template`,
and a type `message`.

Two rules are not part of the grammar. The parameters of a template are distinct, and a namespace
for the rest of the file is the first statement of the file.

* `TypeText`, `FieldText`, `VariantText`, `OptionText`, `HeaderText`, `StatementText`: the
  productions.
* `Admissible`: the two rules.
-/

namespace Interchange.Schema

/-! ## Terminals and repetition -/

/-- An identifier and its place. -/
abbrev word (name : String) (span : Span) : Located :=
  ⟨.identifier name, span⟩

/-- A symbol and its place. -/
abbrev mark (symbol : Symbol) (span : Span) : Located :=
  ⟨.symbol symbol, span⟩

/-- A number of 32 bits and its place. -/
abbrev numeral (value : UInt32) (span : Span) : Located :=
  ⟨.integer value.toNat, span⟩

inductive WordText : List Located → String → Prop
  | mk (name : String) (span : Span) : WordText [word name span] name

inductive NumberText : List Located → UInt32 → Prop
  | mk (value : UInt32) (span : Span) : NumberText [numeral value span] value

/-- Any number of texts, one after the other. -/
inductive Repeated {α : Type} (Text : List Located → α → Prop) : List Located → List α → Prop
  | nil : Repeated Text [] []
  | snoc {items last : List Located} {as : List α} {a : α} (hItems : Repeated Text items as)
      (hLast : Text last a) : Repeated Text (items ++ last) (as ++ [a])

/-- One text or more, with commas in between. -/
inductive Separated {α : Type} (Text : List Located → α → Prop) : List Located → List α → Prop
  | one {items : List Located} {a : α} (hFirst : Text items a) : Separated Text items [a]
  | more {items last : List Located} {as : List α} {a : α} {comma : Span}
      (hItems : Separated Text items as) (hLast : Text last a) :
      Separated Text (items ++ [mark .comma comma] ++ last) (as ++ [a])

/-! ## Names and types -/

/-- A dotted name. Its place is that of its first segment. -/
inductive NameText : List Located → Span → QualifiedName → Prop
  | first (segment : String) (span : Span) : NameText [word segment span] span ⟨segment, []⟩
  | push {items : List Located} {span dot place : Span} {name : QualifiedName}
      (hName : NameText items span name) (segment : String) :
      NameText (items ++ [mark .dot dot] ++ [word segment place]) span (name.push segment)

inductive TypeText : List Located → TypeExpr → Prop
  | bare {items : List Located} {span : Span} {name : QualifiedName}
      (hName : NameText items span name) : TypeText items (.mk name [] span)
  | applied {items inner : List Located} {span left right : Span} {name : QualifiedName}
      {args : List TypeExpr} (hName : NameText items span name)
      (hArgs : Separated TypeText inner args) :
      TypeText (items ++ [mark .leftAngle left] ++ inner ++ [mark .rightAngle right])
        (.mk name args span)

/-! ## Members of a body -/

inductive FieldText : List Located → FieldDecl → Prop
  | mk {items : List Located} {type : TypeExpr} {place equals digits stop : Span}
      (hType : TypeText items type) (name : String) (id : UInt32) :
      FieldText (items ++ [word name place] ++ [mark .equals equals] ++ [numeral id digits] ++
        [mark .semicolon stop]) ⟨type, name, id⟩

/-- The name of a variant with the type of its payload, if it has one. -/
inductive CaseText : List Located → String → Span → Option TypeExpr → Prop
  | bare (name : String) (span : Span) : CaseText [word name span] name span none
  | payload {items : List Located} {type : TypeExpr} {left right : Span} (name : String)
      (span : Span) (hType : TypeText items type) :
      CaseText ([word name span] ++ [mark .leftParen left] ++ items ++ [mark .rightParen right])
        name span (some type)

inductive VariantText : List Located → VariantDecl → Prop
  | mk {items : List Located} {name : String} {span equals digits stop : Span}
      {payload : Option TypeExpr} (hCase : CaseText items name span payload) (value : UInt32) :
      VariantText (items ++ [mark .equals equals] ++ [numeral value digits] ++
        [mark .semicolon stop])
        ⟨name, payload, value, span⟩

inductive ValueText : List Located → OptionValue → Prop
  | integer (value : UInt32) {digits : Span} : ValueText [numeral value digits] (.integer value)
  | list {items : List Located} {values : List UInt32} {left right : Span}
      (hValues : Separated NumberText items values) :
      ValueText ([mark .leftBracket left] ++ items ++ [mark .rightBracket right]) (.list values)
  | type {items : List Located} {type : TypeExpr} (hType : TypeText items type) :
      ValueText items (.type type)

inductive OptionText : List Located → OptionDecl → Prop
  | mk {items : List Located} {value : OptionValue} {span place equals stop : Span} (key : String)
      (hValue : ValueText items value) :
      OptionText ([mark .atSign span] ++ [word key place] ++ [mark .equals equals] ++ items ++
        [mark .semicolon stop]) ⟨key, value, span⟩

/-- A member is a field or variant, or an option. -/
inductive MemberText {α : Type} (Text : List Located → α → Prop) : List Located → Member α → Prop
  | part {items : List Located} {part : α} (hPart : Text items part) :
      MemberText Text items (.part part)
  | option {items : List Located} {option : OptionDecl} (hOption : OptionText items option) :
      MemberText Text items (.option option)

/-! ## Statements -/

/-- The parameters and the name of a declaration. -/
inductive HeaderText : List Located → List String → String → Prop
  | plain (name : String) {place : Span} : HeaderText [word name place] [] name
  | template {items : List Located} {params : List String} {keyword left right place : Span}
      (hParams : Separated WordText items params) (name : String) :
      HeaderText ([word "template" keyword] ++ [mark .leftAngle left] ++ items ++
        [mark .rightAngle right] ++ [word name place]) params name

inductive StatementText : List Located → Statement → Prop
  | fileNamespace {items : List Located} {span place stop : Span} {name : QualifiedName}
      (hName : NameText items place name) :
      StatementText ([word "namespace" span] ++ items ++ [mark .semicolon stop])
        (.fileNamespace name span)
  | block {items inner : List Located} {span place left right : Span} {name : QualifiedName}
      {body : List Statement} (hName : NameText items place name)
      (hBody : Repeated StatementText inner body) :
      StatementText ([word "namespace" span] ++ items ++ [mark .leftBrace left] ++ inner ++
        [mark .rightBrace right]) (.block name body span)
  | message {head inner : List Located} {span left right : Span} {params : List String}
      {name : String} {members : List (Member FieldDecl)} (hHeader : HeaderText head params name)
      (hMembers : Repeated (MemberText FieldText) inner members) :
      StatementText ([word "message" span] ++ head ++ [mark .leftBrace left] ++ inner ++
        [mark .rightBrace right]) (.message ⟨⟨span, params, name⟩, members⟩)
  | tag {head inner : List Located} {span left right : Span} {params : List String} {name : String}
      {members : List (Member VariantDecl)} (hHeader : HeaderText head params name)
      (hMembers : Repeated (MemberText VariantText) inner members) :
      StatementText ([word "tag" span] ++ head ++ [mark .leftBrace left] ++ inner ++
        [mark .rightBrace right]) (.tag ⟨⟨span, params, name⟩, members⟩)
  | service {inner : List Located} {span place left right : Span} {options : List OptionDecl}
      (name : String) (hOptions : Repeated OptionText inner options) :
      StatementText
        ([word "service" span] ++ [word name place] ++ [mark .leftBrace left] ++ inner ++
        [mark .rightBrace right]) (.service ⟨span, name, options⟩)

/-- The text of a file. -/
abbrev FileText : List Located → List Statement → Prop :=
  Repeated StatementText

/-! ## Rules -/

/-- Parameters are distinct, and no namespace is for the rest of the file. -/
inductive Statement.Regular : Statement → Prop
  | block {name : QualifiedName} {body : List Statement} {span : Span}
      (hBody : ∀ statement ∈ body, Regular statement) : Regular (.block name body span)
  | message {decl : ModelDecl FieldDecl} (hParams : decl.params.Nodup) : Regular (.message decl)
  | tag {decl : ModelDecl VariantDecl} (hParams : decl.params.Nodup) : Regular (.tag decl)
  | service (decl : ServiceDecl) : Regular (.service decl)

/-- Only the first statement of a file may be a namespace for the rest of it. -/
def Admissible (file : List Statement) : Prop :=
  (∀ statement ∈ file.head?, statement.isFileNamespace = true ∨ statement.Regular) ∧
    ∀ statement ∈ file.tail, statement.Regular

end Interchange.Schema

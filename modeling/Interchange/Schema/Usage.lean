import Interchange.Schema.Declaration
import Interchange.Schema.ModelPart

/-!
# Types in use

A written type becomes a `Usage`: every name in it is looked up and stands for a template parameter
of the declaration around it or for a declared model. `Resolved` is a declaration all of whose types
are looked up and whose options are read.

A name without a dot is first a template parameter, then a built-in type. Every other name is tried
in the namespace of the declaration and then in each namespace around it, outward.

* `Scope.target?`: the declaration that a name stands for.
* `Scope.usage`: a written type with its names looked up.
* `Resolved.ofDeclaration`, `Resolved.all`: declarations with their names looked up.
* `Resolved.dependencies`: the models that a declaration needs.
-/

namespace Interchange.Schema

/-- A type whose names are looked up. -/
inductive Usage where
  /-- A template parameter of the declaration around the type, by position. -/
  | parameter (index : Nat)
  | model (target : Identifier) (args : List Usage)
deriving Repr

/-- A declaration with its names looked up. -/
inductive ResolvedBody where
  | builtin (kind : Builtin)
  | message (params : List String) (fields : List (ModelPart Usage)) (retired : List UInt32)
  | tag (params : List String) (variants : List (ModelPart (Option Usage))) (retired : List UInt32)
  | service (input output : Usage) (id : UInt32)
deriving Repr

structure Resolved where
  identifier : Identifier
  body : ResolvedBody
deriving Repr

/-! ## Names -/

theorem splitLastDot?_length {text before after : List Char}
    (hSplit : splitLastDot? text = some (before, after)) : before.length < text.length := by
  induction text generalizing before with
  | nil => simp [splitLastDot?] at hSplit
  | cons c rest ih =>
    simp only [splitLastDot?] at hSplit
    split at hSplit
    next b a hRest =>
      simp only [Option.some.injEq, Prod.mk.injEq] at hSplit
      obtain ⟨rfl, rfl⟩ := hSplit
      have hLt := ih hRest
      simp only [List.length_cons]
      omega
    next =>
      split at hSplit
      · simp only [Option.some.injEq, Prod.mk.injEq] at hSplit
        obtain ⟨rfl, rfl⟩ := hSplit
        simp
      · simp at hSplit

theorem Namespace.parent?_length {path outer : String} (hParent : parent? path = some outer) :
    outer.length < path.length := by
  unfold parent? at hParent
  split at hParent
  · simp at hParent
  next hNonempty =>
    split at hParent
    next before after hSplit =>
      have hLt := splitLastDot?_length hSplit
      simp only [Option.some.injEq] at hParent
      subst hParent
      simpa [← String.length_toList] using hLt
    next =>
      simp only [Option.some.injEq] at hParent
      subst hParent
      have hNe : path ≠ "" := by
        intro hEmpty
        simp [hEmpty] at hNonempty
      have hPos : path.length ≠ 0 := by
        intro hZero
        exact hNe (String.length_eq_zero_iff.1 hZero)
      simp only [String.length_empty]
      omega

/-- A namespace and the namespaces around it, from the inside outward. -/
def Namespace.enclosing (path : String) : List String :=
  match _h : parent? path with
  | some outer => path :: enclosing outer
  | none => [path]
termination_by path.length
decreasing_by exact Namespace.parent?_length _h

/-- Where a type is written: the declaration around it, the template parameters of that declaration,
the table of all declarations, and the namespaces in which names are looked up. -/
structure Scope where
  owner : Identifier
  params : List String
  table : List Declaration
  paths : List String

namespace Scope

/-- What a declaration sees: names are looked up from its own namespace outward. -/
def inside (owner : Identifier) (params : List String) (table : List Declaration) : Scope :=
  ⟨owner, params, table, Namespace.enclosing owner.scope⟩

/-- The declaration that a name stands for: for a name without a dot the built-in type of that name,
and else the first hit among the namespaces of the scope. -/
def target? (scope : Scope) (reference : Identifier) : Option Declaration :=
  let builtin :=
    if reference.isGlobal then
      (Builtin.lookup? reference.name).bind
        fun kind => Declaration.find? scope.table kind.identifier
    else none
  match builtin with
  | some declaration => some declaration
  | none =>
    scope.paths.findSome? fun path =>
      Declaration.find? scope.table ⟨Namespace.join path reference.scope, reference.name⟩

/-- The position of a name without a dot among the template parameters. -/
def parameter? (scope : Scope) (reference : Identifier) : Option Nat :=
  if reference.isGlobal then scope.params.findIdx? (· == reference.name) else none

mutual

/-- A written type with its names looked up. A template parameter takes no arguments, and a service
is no type. -/
def usage (scope : Scope) : TypeExpr → Except CompileError Usage
  | .mk name args span =>
    match scope.parameter? name.identifier with
    | some index =>
      if args.isEmpty then .ok (.parameter index)
      else .error (.arityMismatch scope.owner name.identifier 0 args.length)
    | none =>
      match scope.target? name.identifier with
      | none => .error (.unresolvedReference name.text scope.owner span)
      | some declaration =>
        if declaration.body.isService then
          .error (.notAModel name.text scope.owner declaration.identifier)
        else do
          return .model declaration.identifier (← scope.usages args)

/-- The types of an argument list, in order. -/
def usages (scope : Scope) : List TypeExpr → Except CompileError (List Usage)
  | [] => .ok []
  | type :: rest => do
    let first ← scope.usage type
    return first :: (← scope.usages rest)

end

/-! ## Options -/

/-- The option key that lists retired ids. -/
def retiredKey : String := "used_ids"

/-- The ids that an option of a message or a tag retires. -/
def retiredIds (scope : Scope) (option : OptionDecl) : Except CompileError (List UInt32) :=
  if option.key == retiredKey then
    match option.value with
    | .integer id => .ok [id]
    | .list ids => .ok ids
    | .type _ => .error (.invalidOptionValue scope.owner option.key .integers)
  else .error (.unknownOption scope.owner option.key)

/-- All retired ids of a message or a tag, as written. -/
def allRetiredIds (scope : Scope) (options : List OptionDecl) :
    Except CompileError (List UInt32) := do
  return (← options.mapM scope.retiredIds).flatten

/-- What the options of a service have set so far. -/
structure ServiceSettings where
  input : Option Usage
  output : Option Usage
  id : Option UInt32

/-- Whether an option is set already. -/
def ServiceSettings.has (settings : ServiceSettings) : ServiceOption → Bool
  | .input => settings.input.isSome
  | .output => settings.output.isSome
  | .id => settings.id.isSome

/-- Reads one option of a service. -/
def setOption (scope : Scope) (settings : ServiceSettings) (option : OptionDecl) :
    Except CompileError ServiceSettings :=
  let refuse (demand : OptionDemand) : Except CompileError ServiceSettings :=
    .error (.invalidOptionValue scope.owner option.key demand)
  match ServiceOption.ofKey? option.key with
  | none => .error (.unknownOption scope.owner option.key)
  | some known =>
    if settings.has known then refuse .single
    else
      match known, option.value with
      | .input, .type type => do return { settings with input := some (← scope.usage type) }
      | .output, .type type => do return { settings with output := some (← scope.usage type) }
      | .id, .integer value => .ok { settings with id := some value }
      | .input, _ => refuse .type
      | .output, _ => refuse .type
      | .id, _ => refuse .integer

/-- A service needs all three options. -/
def service (scope : Scope) (options : List OptionDecl) : Except CompileError ResolvedBody := do
  let settings ← options.foldlM scope.setOption ⟨none, none, none⟩
  match settings.input, settings.output, settings.id with
  | none, _, _ => .error (.missingServiceOption scope.owner .input)
  | some _, none, _ => .error (.missingServiceOption scope.owner .output)
  | some _, some _, none => .error (.missingServiceOption scope.owner .id)
  | some input, some output, some id => .ok (.service input output id)

/-! ## Declarations -/

def field (scope : Scope) (decl : FieldDecl) : Except CompileError (ModelPart Usage) := do
  return ⟨decl.id, decl.name, ← scope.usage decl.type⟩

def variant (scope : Scope) (decl : VariantDecl) : Except CompileError (ModelPart (Option Usage)) :=
  match decl.payload with
  | none => .ok ⟨decl.value, decl.name, none⟩
  | some type => do return ⟨decl.value, decl.name, some (← scope.usage type)⟩

end Scope

namespace Resolved

/-- Looks up the names of one declaration, its parts first and its options after them. -/
def bodyOf (table : List Declaration) (owner : Identifier) :
    DeclarationBody → Except CompileError ResolvedBody
  | .builtin kind => .ok (.builtin kind)
  | .message decl => do
    let scope := Scope.inside owner decl.params table
    let fields ← decl.parts.mapM scope.field
    return .message decl.params fields (← scope.allRetiredIds decl.options)
  | .tag decl => do
    let scope := Scope.inside owner decl.params table
    let variants ← decl.parts.mapM scope.variant
    return .tag decl.params variants (← scope.allRetiredIds decl.options)
  | .service decl => Scope.service (.inside owner [] table) decl.options

def ofDeclaration (table : List Declaration) (declaration : Declaration) :
    Except CompileError Resolved := do
  return ⟨declaration.identifier, ← bodyOf table declaration.identifier declaration.body⟩

/-- Looks up the names of a whole table, in its order. -/
def all (table : List Declaration) : Except CompileError (List Resolved) :=
  table.mapM (ofDeclaration table)

end Resolved

/-! ## Dependencies -/

mutual

/-- The models that a type names, the outer one first. -/
def Usage.targets : Usage → List Identifier
  | .parameter _ => []
  | .model target args => target :: Usage.targetsOfAll args

def Usage.targetsOfAll : List Usage → List Identifier
  | [] => []
  | usage :: rest => usage.targets ++ Usage.targetsOfAll rest

end

/-- The types written in a declaration, in source order. -/
def ResolvedBody.usages : ResolvedBody → List Usage
  | builtin _ => []
  | message _ fields _ => fields.map ModelPart.content
  | tag _ variants _ => variants.filterMap ModelPart.content
  | service input output _ => [input, output]

/-- The models that a declaration needs, in source order. -/
def Resolved.dependencies (resolved : Resolved) : List Identifier :=
  resolved.body.usages.flatMap Usage.targets

namespace Resolved

/-- The declaration with a full name. -/
def find? (table : List Resolved) (identifier : Identifier) : Option Resolved :=
  table.find? fun resolved => resolved.identifier == identifier

/-- The models that the declaration with a full name needs. -/
def needs (table : List Resolved) (identifier : Identifier) : List Identifier :=
  match find? table identifier with
  | some resolved => resolved.dependencies
  | none => []

end Resolved

end Interchange.Schema

/-!
# Namespaces and identifiers

A namespace is a dotted path, and the empty path is the global namespace. An identifier is a name in
a namespace. Identifiers are ordered by namespace first and by name second; every list that must not
depend on the order of files is sorted that way.

* `Namespace.join`, `Namespace.parent?`, `Namespace.within`: paths.
* `Identifier.parse`, `Identifier.text`: reading and writing a dotted name.
-/

namespace Interchange.Schema

/-! ## Namespaces -/

/-- The text before and the text after the last dot. -/
def splitLastDot? : List Char → Option (List Char × List Char)
  | [] => none
  | c :: rest =>
    match splitLastDot? rest with
    | some (before, after) => some (c :: before, after)
    | none => if c = '.' then some ([], rest) else none

namespace Namespace

/-- The path `inner` inside the path `outer`. The empty path changes nothing on either side. -/
def join (outer inner : String) : String :=
  if outer.isEmpty then inner
  else if inner.isEmpty then outer
  else outer ++ "." ++ inner

/-- The path without its innermost segment; the global namespace has none. -/
def parent? (path : String) : Option String :=
  if path.isEmpty then none
  else
    match splitLastDot? path.toList with
    | some (before, _) => some (String.ofList before)
    | none => some ""

/-- `path` is `reserved` or lies inside it. -/
def within (path reserved : String) : Bool :=
  path == reserved || (reserved ++ ".").toList.isPrefixOf path.toList

end Namespace

/-! ## Identifiers -/

/-- The full name of a declaration. -/
structure Identifier where
  /-- The namespace path. -/
  scope : String
  name : String
deriving DecidableEq, Repr

namespace Identifier

/-- A name of the global namespace. -/
def ofGlobal (name : String) : Identifier :=
  ⟨"", name⟩

/-- Splits a dotted name at its last dot; a name without a dot is global. -/
def parse (text : String) : Identifier :=
  match splitLastDot? text.toList with
  | some (before, after) => ⟨String.ofList before, String.ofList after⟩
  | none => ofGlobal text

def isGlobal (id : Identifier) : Bool :=
  id.scope.isEmpty

/-- The dotted name. -/
def text (id : Identifier) : String :=
  if id.scope.isEmpty then id.name else id.scope ++ "." ++ id.name

/-- The order by namespace, then by name. -/
def le (a b : Identifier) : Bool :=
  a.scope < b.scope || (a.scope == b.scope && decide (a.name ≤ b.name))

/-- A list of identifiers in their order. -/
def sort (ids : List Identifier) : List Identifier :=
  ids.mergeSort le

end Identifier

end Interchange.Schema

import Interchange.Digest.Sha256
import Interchange.Schema.Project

/-!
# The canonical form of a project

The content hash of a project is the SHA-256 digest of its canonical form: a byte string that holds
everything that matters to readers and writers of its data and nothing else. Numbers take eight
bytes, text is its length and its UTF-8 bytes. Models stand in the order of their names and services
in the order of their ids; a template parameter is its position.

* `Canonical.project`: the canonical form.
* `contentHash`: its digest as hexadecimal text.
-/

namespace Interchange.Schema

namespace Canonical

def number (n : Nat) : Bytes :=
  leBytes 8 n

def text (s : String) : Bytes :=
  let bytes := utf8 s
  number bytes.length ++ bytes

def identifier (id : Identifier) : Bytes :=
  text id.scope ++ text id.name

/-- The number of items, then the items. -/
def counted {α : Type} (item : α → Bytes) (items : List α) : Bytes :=
  number items.length ++ items.flatMap item

mutual

def reference (definitions : List Definition) : TypeRef → Bytes
  | .parameter _ _ index _ => text "parameter" ++ number index
  | .model _ target args =>
    text "model" ++ identifier (identifierAt definitions target) ++ number args.length
      ++ references definitions args

def references (definitions : List Definition) : List TypeRef → Bytes
  | [] => []
  | first :: rest => reference definitions first ++ references definitions rest

end

def field (definitions : List Definition) (part : ModelPart TypeRef) : Bytes :=
  number part.number.toNat ++ text part.name ++ reference definitions part.content

def payload (definitions : List Definition) : Option TypeRef → Bytes
  | some type => number 1 ++ reference definitions type
  | none => number 0

def variant (definitions : List Definition) (part : ModelPart (Option TypeRef)) : Bytes :=
  number part.number.toNat ++ text part.name ++ payload definitions part.content

def retired (ids : List UInt32) : Bytes :=
  counted (fun id => number id.toNat) ids

def body (definitions : List Definition) : DefinitionBody → Bytes
  | .builtin _ => []
  | .message fields ids => counted (field definitions) fields ++ retired ids
  | .tag variants ids => counted (variant definitions) variants ++ retired ids

def model (definitions : List Definition) (definition : Definition) : Bytes :=
  text definition.kindName ++ identifier definition.identifier ++ number definition.arity
    ++ body definitions definition.body

def service (definitions : List Definition) (service : Service) : Bytes :=
  identifier service.identifier ++ number service.id.toNat
    ++ reference definitions service.input ++ reference definitions service.output

/-- The last text of every canonical form: the form's own name and version. -/
def trailer : String := "KS-SCHEMA/1"

/-- The canonical form of models under a project name and version. -/
def project (name version : String) (models : Models) : Bytes :=
  let declared := (models.declared.map Prod.snd).mergeSort fun a b => a.identifier.le b.identifier
  let services := models.services.mergeSort fun a b => decide (a.id ≤ b.id)
  text name ++ text version
    ++ counted (model models.definitions) declared
    ++ counted (service models.definitions) services
    ++ text trailer

end Canonical

/-- The digest of the canonical form, in hexadecimal. -/
def contentHash (name version : String) (models : Models) : String :=
  hexText (Sha256.digest (Canonical.project name version models))

end Interchange.Schema

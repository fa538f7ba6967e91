/-!
# Parts of a model

A message consists of fields and a tag of variants. Both are numbered and named parts with a
content: a type while schemas are read, a codec once values are.
-/

namespace Interchange.Schema

/-- A numbered and named part of a model: a field of a message or a variant of a tag. -/
structure ModelPart (α : Type) where
  number : UInt32
  name : String
  content : α
deriving DecidableEq, Repr

namespace ModelPart

variable {α β : Type}

def map (f : α → β) (part : ModelPart α) : ModelPart β :=
  ⟨part.number, part.name, f part.content⟩

/-- The part with a number. -/
def find? (parts : List (ModelPart α)) (number : UInt32) : Option (ModelPart α) :=
  parts.find? fun part => part.number == number

/-- Parts by ascending number. -/
def sort (parts : List (ModelPart α)) : List (ModelPart α) :=
  parts.mergeSort fun a b => decide (a.number ≤ b.number)

end ModelPart

end Interchange.Schema

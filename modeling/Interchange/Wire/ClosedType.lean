import Interchange.Schema.Project

/-!
# Closed types

A closed type is a definition of a project with all of its template parameters bound: the place of
the definition and a closed type for each parameter.

* `ClosedType.eqb_iff`: `ClosedType.eqb` decides equality.
* `ClosedType.describe`: a type as it would be written in full.
* `TypeRef.close`: a reference with its parameters replaced.
-/

namespace Interchange.Wire

open Schema

/-- A definition with its parameters bound. -/
inductive ClosedType where
  | mk (slot : Nat) (args : List ClosedType)
deriving Repr

namespace ClosedType

/-- The place of the definition. -/
def slot : ClosedType → Nat
  | mk slot _ => slot

def args : ClosedType → List ClosedType
  | mk _ args => args

/-! ## Equality -/

mutual

def eqb : ClosedType → ClosedType → Bool
  | .mk slot args, .mk slot' args' => slot == slot' && eqbAll args args'

def eqbAll : List ClosedType → List ClosedType → Bool
  | [], [] => true
  | a :: as, b :: bs => eqb a b && eqbAll as bs
  | _, _ => false

end

mutual

theorem eqb_iff : (a b : ClosedType) → (eqb a b = true ↔ a = b)
  | .mk slot args, .mk slot' args' => by simp [eqb, eqbAll_iff args]

theorem eqbAll_iff : (a b : List ClosedType) → (eqbAll a b = true ↔ a = b)
  | [], b => by cases b <;> simp [eqbAll]
  | type :: as, b => by cases b <;> simp [eqbAll, eqb_iff type, eqbAll_iff as]

end

instance : DecidableEq ClosedType :=
  fun a b => decidable_of_iff (eqb a b = true) (eqb_iff a b)

/-! ## Texts -/

mutual

/-- A type as it would be written in full. -/
def describe (definitions : List Definition) : ClosedType → String
  | .mk slot args => applied (identifierAt definitions slot) (describeAll definitions args)

def describeAll (definitions : List Definition) : List ClosedType → List String
  | [] => []
  | type :: rest => describe definitions type :: describeAll definitions rest

end

mutual

/-- A type by the places of its definitions. -/
def label : ClosedType → String
  | .mk slot [] => definitionLabel slot
  | .mk slot (first :: rest) =>
    "ConcreteType(" ++ definitionLabel slot ++ ", ["
      ++ String.intercalate ", " (label first :: labels rest) ++ "])"

def labels : List ClosedType → List String
  | [] => []
  | type :: rest => label type :: labels rest

end

/-- The built-in type of a closed type. -/
def builtin? (definitions : List Definition) (type : ClosedType) : Option Builtin :=
  (definitions[type.slot]?).bind Definition.builtin?

end ClosedType

end Interchange.Wire

namespace Interchange.Schema.TypeRef

open Interchange.Wire

mutual

/-- A reference with each parameter replaced by the type at its position. -/
def close (bindings : List ClosedType) : TypeRef → Option ClosedType
  | .parameter _ _ index _ => bindings[index]?
  | .model _ target args =>
    match closeAll bindings args with
    | some closed => some (.mk target closed)
    | none => none

def closeAll (bindings : List ClosedType) : List TypeRef → Option (List ClosedType)
  | [] => some []
  | reference :: rest =>
    match close bindings reference, closeAll bindings rest with
    | some type, some types => some (type :: types)
    | _, _ => none

end

/-- The reference is a template parameter and nothing around it. -/
def isParameter : TypeRef → Bool
  | parameter _ _ _ _ => true
  | model _ _ _ => false

end Interchange.Schema.TypeRef

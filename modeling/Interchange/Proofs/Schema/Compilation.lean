import Interchange.Proofs.Schema.Arena
import Mathlib

/-!
# Compilations step by step

What becomes of some sources is known once it is known for every step: which declarations there are
when names are looked up, their dependency order, and their definitions. The built-in types stand in
front of every table. In the order of full names they come last, behind namespaces such as `app`.

The texts of a project are evaluated down to the characters. That takes the equations of functions
from all over the library, so it is imported whole.

* `Compiles`: sources with the result of every step.
* `Compiles.compile`: their project.
* `sortDeclarations_of_names`: the dependency order, where the order of full names is known.
* `Luggage.compiles`: a project with templates.
-/

namespace Interchange.Schema

/-! ## Tables -/

/-- The built-in types by name. -/
def Builtin.byName : List Builtin :=
  [.array, .bool, .float32, .float64, .int16, .int32, .int64, .int8, .map, .string,
    .uint16, .uint32, .uint64, .uint8, .uuid, .void]

theorem Builtin.perm_byName : Builtin.all.Perm byName := by
  decide

namespace Resolved

/-- The declarations of built-in types. -/
def builtins (kinds : List Builtin) : List Resolved :=
  kinds.map fun kind => ⟨kind.identifier, .builtin kind⟩

/-- The table of some declarations. -/
def tableOf (declared : List Resolved) : List Resolved :=
  builtins Builtin.all ++ declared

/-- The full names of a table, if those of the declarations come before the others. -/
theorem sort_names {declared : List Resolved} {names : List Identifier}
    (hNames : (declared.map Resolved.identifier).Perm names)
    (hSorted : (names ++ Builtin.byName.map Builtin.identifier).Pairwise
      fun a b => Identifier.le a b = true) :
    Identifier.sort ((tableOf declared).map Resolved.identifier) =
      names ++ Builtin.byName.map Builtin.identifier := by
  refine Identifier.sort_eq ?_ hSorted
  rw [tableOf, List.map_append, builtins, List.map_map]
  have hBuiltins := Builtin.perm_byName.map Builtin.identifier
  exact List.perm_append_comm.trans (hNames.append hBuiltins)

end Resolved

/-- The dependency order of a table whose full names are sorted already. -/
theorem sortDeclarations_of_names {declared sorted : List Resolved} (names : List Identifier)
    (hNames : (declared.map Resolved.identifier).Perm names)
    (hSorted : (names ++ Builtin.byName.map Builtin.identifier).Pairwise
      fun a b => Identifier.le a b = true)
    (hOrder : (Graph.order (names ++ Builtin.byName.map Builtin.identifier)
      (Resolved.needs (Resolved.tableOf declared))).toOption.map
        (fun order => order.filterMap (Resolved.find? (Resolved.tableOf declared))) = some sorted) :
    sortDeclarations (Resolved.tableOf declared) = .ok sorted := by
  obtain ⟨order, hRun, rfl⟩ := Option.map_eq_some_iff.1 hOrder
  rw [sortDeclarations, Resolved.sort_names hNames hSorted, toOption_eq_some.1 hRun]

/-! ## Steps -/

/-- Sources with the result of every step of their compilation. -/
structure Compiles (sources : List Source) (table sorted : List Resolved) (models : Models) :
    Prop where
  resolve : ∃ files declared, parseFiles sources = .ok files ∧
    Declaration.collect files = .ok declared ∧ Resolved.all declared = .ok table
  sort : sortDeclarations table = .ok sorted
  build : Models.build sorted = .ok models

theorem Compiles.compile {sources : List Source} {table sorted : List Resolved} {models : Models}
    (hCompiles : Compiles sources table sorted models) (options : Options) :
    compile options sources = .ok (models.toProject options) := by
  obtain ⟨files, declared, hFiles, hDeclared, hTable⟩ := hCompiles.resolve
  exact compile_eq_ok.2 ⟨files, declared, table, sorted, models, hFiles, hDeclared, hTable,
    hCompiles.sort, hCompiles.build, rfl⟩

/-- The first step, from the value of all that it does. -/
theorem resolve_of_toOption {sources : List Source} {table : List Resolved}
    (hValue : ((parseFiles sources).toOption.bind fun files =>
      (Declaration.collect files).toOption.bind fun declared => (Resolved.all declared).toOption) =
        some table) :
    ∃ files declared, parseFiles sources = .ok files ∧
      Declaration.collect files = .ok declared ∧ Resolved.all declared = .ok table := by
  obtain ⟨files, hFiles, hRest⟩ := Option.bind_eq_some_iff.1 hValue
  obtain ⟨declared, hDeclared, hTable⟩ := Option.bind_eq_some_iff.1 hRest
  exact ⟨files, declared, toOption_eq_some.1 hFiles, toOption_eq_some.1 hDeclared,
    toOption_eq_some.1 hTable⟩

/-! ## A project

Three templates, of which each passes its parameter on: the locks, the bags that have them, and
arrays of bags. -/

namespace Luggage

def sources : List Source :=
  [⟨"lock.ks", "namespace app; tag template<T> Lock { Open = 0; Closed(T) = 1; }"⟩,
    ⟨"bag.ks", "namespace app; message template<T> Bag { array<T> items = 1; Lock<T> lock = 2; }"⟩,
    ⟨"bags.ks", "namespace app; message template<T> Bags { array<Bag<T>> bags = 1; }"⟩]

def lock : Resolved :=
  ⟨⟨"app", "Lock"⟩, .tag ["T"] [⟨0, "Open", none⟩, ⟨1, "Closed", some (.parameter 0)⟩] []⟩

def bag : Resolved :=
  ⟨⟨"app", "Bag"⟩, .message ["T"] [⟨1, "items", .model Builtin.array.identifier [.parameter 0]⟩,
    ⟨2, "lock", .model lock.identifier [.parameter 0]⟩] []⟩

def bags : Resolved :=
  ⟨⟨"app", "Bags"⟩, .message ["T"]
    [⟨1, "bags", .model Builtin.array.identifier [.model bag.identifier [.parameter 0]]⟩] []⟩

def table : List Resolved :=
  Resolved.tableOf [lock, bag, bags]

def sorted : List Resolved :=
  [⟨Builtin.array.identifier, .builtin .array⟩, lock, bag, bags] ++
    Resolved.builtins (Builtin.byName.erase .array)

def models : Models where
  definitions := Builtin.all.map Definition.ofBuiltin ++
    [⟨lock.identifier, [.parameter 0 16 0 "T"],
      .tag [⟨0, "Open", none⟩, ⟨1, "Closed", some (.parameter 0 16 0 "T")⟩] []⟩,
    ⟨bag.identifier, [.parameter 1 17 0 "T"],
      .message [⟨1, "items", .model ⟨2, .builtin⟩ 14 [.parameter 1 17 0 "T"]⟩,
        ⟨2, "lock", .model ⟨3, .tagTemplate⟩ 16 [.parameter 1 17 0 "T"]⟩] []⟩,
    ⟨bags.identifier, [.parameter 4 18 0 "T"],
      .message [⟨1, "bags", .model ⟨6, .builtin⟩ 14
        [.model ⟨5, .messageTemplate⟩ 17 [.parameter 4 18 0 "T"]]⟩] []⟩]
  services := []
  references := 7

theorem compiles : Compiles sources table sorted models where
  resolve := resolve_of_toOption (by cbv)
  sort := sortDeclarations_of_names [bag.identifier, bags.identifier, lock.identifier] (by decide)
    (by decide +kernel) (by cbv)
  build := by cbv

end Luggage

end Interchange.Schema

import Interchange.Proofs.Schema.Layout

/-!
# Full names of declarations

The full name of a declaration is read off the tree of a file: the namespaces around the
declaration, from the outside in, and then its own name. A block is around the statements in its
braces, and a file namespace is around all that follow it. The table of declarations is filled by a
walk that carries a path along. It gives every declaration its full name, whatever the depth, and it
looks at every namespace that is entered, so no declaration can get among the built-in types.

* `Declared`, `declaredIn`, `namespacesIn`: the declarations and the namespaces of a file with what
  is around them.
* `entries_declared`, `entries_entered`: what the walk meets.
* `around_mem_namespacesIn`: what is around a declaration is a namespace of the file.
* `place?_eq_some_iff`: looking up a place by its name, and a name by its place.
* `collect_table`: when there is a table, and what it holds.
-/

namespace Interchange.Schema

/-! ## What stands in a file -/

/-- A declaration with the namespaces around it, the outermost first. -/
structure Declared where
  around : List QualifiedName
  name : String
  body : DeclarationBody

/-- The names with dots between them; what is empty is left out. -/
def dotted (names : List String) : String :=
  String.intercalate "." (names.filter fun name => name ≠ "")

/-- The path of some namespaces, the outermost first. -/
def pathOf (names : List QualifiedName) : String :=
  dotted (names.map QualifiedName.text)

namespace Declared

/-- The declaration inside one more namespace. -/
def inside (outer : QualifiedName) (declared : Declared) : Declared :=
  { declared with around := outer :: declared.around }

/-- The full name. -/
def identifier (declared : Declared) : Identifier :=
  ⟨pathOf declared.around, declared.name⟩

/-- The declaration under its full name. -/
def declaration (declared : Declared) : Declaration :=
  ⟨declared.identifier, declared.body⟩

end Declared

/-- The messages, tags and services among statements, in source order. -/
def declaredIn : List Statement → List Declared
  | [] => []
  | .fileNamespace name _ :: rest => (declaredIn rest).map (.inside name)
  | .block name body _ :: rest => (declaredIn body).map (.inside name) ++ declaredIn rest
  | .message decl :: rest => ⟨[], decl.name, .message decl⟩ :: declaredIn rest
  | .tag decl :: rest => ⟨[], decl.name, .tag decl⟩ :: declaredIn rest
  | .service decl :: rest => ⟨[], decl.name, .service decl⟩ :: declaredIn rest

/-- The namespaces among statements, in source order: the name of each with those around it in
front. -/
def namespacesIn : List Statement → List (List QualifiedName)
  | [] => []
  | .fileNamespace name _ :: rest => [name] :: (namespacesIn rest).map (name :: ·)
  | .block name body _ :: rest => [name] :: (namespacesIn body).map (name :: ·) ++ namespacesIn rest
  | .message _ :: rest => namespacesIn rest
  | .tag _ :: rest => namespacesIn rest
  | .service _ :: rest => namespacesIn rest

/-- The path of the built-in types, or one below it. -/
def ReservedPath (path : String) : Prop :=
  path = "ks" ∨ ∃ below, path = "ks." ++ below

theorem within_scope_iff {path : String} :
    Namespace.within path Builtin.scope = true ↔ ReservedPath path := by
  have hDot : Builtin.scope ++ "." = "ks." := by decide
  rw [Namespace.within, Bool.or_eq_true, beq_iff_eq, List.isPrefixOf_iff_prefix, hDot]
  refine or_congr Iff.rfl ⟨?_, ?_⟩
  · rintro ⟨below, hPath⟩
    have hBelow : (String.ofList below).toList = below := String.toList_ofList
    refine ⟨String.ofList below, String.toList_inj.1 ?_⟩
    rw [← hPath, String.toList_append, hBelow]
  · rintro ⟨below, rfl⟩
    rw [String.toList_append]
    exact List.prefix_append _ _

theorem not_reserved_global : ¬ ReservedPath "" := by
  rintro (hEq | ⟨below, hEq⟩)
  · exact absurd hEq (by decide)
  · have hLength := congrArg String.length hEq
    have hDot : "ks.".length = 3 := by decide
    rw [String.length_append, hDot, String.length_empty] at hLength
    omega

/-! ## Paths -/

theorem dotted_cons {name : String} (hName : name ≠ "") (names : List String) :
    dotted (name :: names) =
      String.intercalate "." (name :: names.filter fun name => name ≠ "") := by
  rw [dotted, List.filter_cons_of_pos (by simpa using hName)]

theorem dotted_singleton (name : String) : dotted [name] = name := by
  by_cases hName : name = ""
  · subst hName
    rfl
  · rw [dotted_cons hName]
    exact String.intercalate_singleton

/-- Joining two paths puts a dot between them. -/
theorem dotted_join (outer inner : String) (names : List String) :
    dotted (Namespace.join outer inner :: names) = dotted (outer :: inner :: names) := by
  by_cases hOuter : outer = ""
  · subst hOuter
    rfl
  · by_cases hInner : inner = ""
    · subst hInner
      rw [Namespace.join, if_neg (by simpa using hOuter), if_pos (by simp), dotted_cons hOuter,
        dotted_cons hOuter]
      rfl
    · have hJoin : Namespace.join outer inner = outer ++ "." ++ inner := by
        rw [Namespace.join, if_neg (by simpa using hOuter), if_neg (by simpa using hInner)]
      have hSome : outer ++ "." ++ inner ≠ "" := by simp
      rw [hJoin, dotted_cons hSome, dotted_cons hOuter,
        List.filter_cons_of_pos (by simpa using hInner), String.intercalate_cons_cons]
      cases names.filter fun name => name ≠ "" with
      | nil => rw [String.intercalate_singleton, String.intercalate_singleton]
      | cons first rest =>
        rw [String.intercalate_cons_cons, String.intercalate_cons_cons]
        simp only [String.append_assoc]

/-! ## The walk -/

/-- The path of some namespaces inside the path `scope`. -/
def pathFrom (scope : String) (names : List QualifiedName) : String :=
  dotted (scope :: names.map QualifiedName.text)

theorem pathFrom_cons (scope : String) (name : QualifiedName) (names : List QualifiedName) :
    pathFrom scope (name :: names) = pathFrom (Namespace.join scope name.text) names :=
  (dotted_join scope name.text _).symm

theorem pathFrom_nil (scope : String) : pathFrom scope [] = scope :=
  dotted_singleton scope

/-- A namespace and those inside it. -/
theorem map_pathFrom_inside (scope : String) (name : QualifiedName)
    (inner : List (List QualifiedName)) :
    ([name] :: inner.map (name :: ·)).map (pathFrom scope) =
      Namespace.join scope name.text :: inner.map (pathFrom (Namespace.join scope name.text)) := by
  rw [List.map_cons, List.map_map, pathFrom_cons, pathFrom_nil]
  exact congrArg (_ :: List.map · inner) (funext fun names => pathFrom_cons scope name names)

/-- The declaration under its full name, where the whole stands inside the path `scope`. -/
def Declared.declarationFrom (scope : String) (declared : Declared) : Declaration :=
  ⟨⟨pathFrom scope declared.around, declared.name⟩, declared.body⟩

theorem Declared.declarationFrom_inside (scope : String) (name : QualifiedName) :
    declarationFrom scope ∘ inside name = declarationFrom (Namespace.join scope name.text) := by
  funext declared
  rw [Function.comp_apply, declarationFrom, inside, pathFrom_cons]
  rfl

namespace Declaration

def Entry.path? : Entry → Option String
  | .entered path => some path
  | .declared _ => none

theorem mem_filterMap_path? {entries : List Entry} {path : String} :
    path ∈ entries.filterMap Entry.path? ↔ Entry.entered path ∈ entries := by
  rw [List.mem_filterMap]
  constructor
  · rintro ⟨entry, hMem, hPath⟩
    cases entry with
    | entered other =>
      cases hPath
      exact hMem
    | declared declaration => cases hPath
  · exact fun hMem => ⟨_, hMem, rfl⟩

/-- The walk meets the declarations of a file under their full names. -/
theorem entries_declared (scope : String) (statements : List Statement) :
    (entries scope statements).filterMap Entry.declaration? =
      (declaredIn statements).map (Declared.declarationFrom scope) := by
  induction scope, statements using entries.induct with
  | case1 scope =>
    rw [entries, declaredIn]
    rfl
  | case2 scope name span rest inner ih =>
    rw [entries, declaredIn, List.map_map, Declared.declarationFrom_inside]
    exact ih
  | case3 scope name body span rest inner ihBody ihRest =>
    rw [entries, declaredIn, List.map_append, List.map_map,
      Declared.declarationFrom_inside, ← ihRest, List.cons_append, List.filterMap_cons_none rfl,
      List.filterMap_append, ihBody]
  | case4 scope decl rest ih | case5 scope decl rest ih | case6 scope decl rest ih =>
    rw [entries, declaredIn, List.map_cons, ← ih, Declared.declarationFrom, pathFrom_nil]
    rfl

/-- The walk enters the namespaces of a file under their full paths. -/
theorem entries_entered (scope : String) (statements : List Statement) :
    (entries scope statements).filterMap Entry.path? =
      (namespacesIn statements).map (pathFrom scope) := by
  induction scope, statements using entries.induct with
  | case1 scope =>
    rw [entries, namespacesIn]
    rfl
  | case2 scope name span rest inner ih =>
    rw [entries, namespacesIn, map_pathFrom_inside]
    exact congrArg (inner :: ·) ih
  | case3 scope name body span rest inner ihBody ihRest =>
    rw [entries, namespacesIn, List.map_append, map_pathFrom_inside, ← ihRest,
      List.filterMap_append]
    exact congrArg (· ++ _) (congrArg (inner :: ·) ihBody)
  | case4 scope decl rest ih | case5 scope decl rest ih | case6 scope decl rest ih =>
    rw [entries, namespacesIn, ← ih]
    rfl

end Declaration

/-- What is around a declaration is nothing, or a namespace of the file. -/
theorem around_mem_namespacesIn (statements : List Statement) :
    ∀ declared ∈ declaredIn statements,
      declared.around = [] ∨ declared.around ∈ namespacesIn statements := by
  have hInside : ∀ {name : QualifiedName} {inner : List Statement},
      (∀ declared ∈ declaredIn inner, declared.around = [] ∨ declared.around ∈ namespacesIn inner) →
        ∀ declared ∈ (declaredIn inner).map (Declared.inside name),
          declared.around ∈ [name] :: (namespacesIn inner).map (name :: ·) := by
    intro name inner hInner declared hMem
    obtain ⟨other, hOther, rfl⟩ := List.mem_map.1 hMem
    rcases hInner other hOther with hNone | hSome
    · exact List.mem_cons.2 (Or.inl (congrArg (name :: ·) hNone))
    · exact List.mem_cons_of_mem _ (List.mem_map_of_mem hSome)
  induction statements using declaredIn.induct with
  | case1 => simp [declaredIn]
  | case2 name span rest ih =>
    rw [declaredIn, namespacesIn]
    exact fun declared hMem => Or.inr (hInside ih declared hMem)
  | case3 name body span rest ihBody ihRest =>
    rw [declaredIn, namespacesIn]
    intro declared hMem
    rcases List.mem_append.1 hMem with hMem | hMem
    · exact Or.inr (List.mem_append_left _ (hInside ihBody declared hMem))
    · exact (ihRest declared hMem).imp_right (List.mem_append_right _)
  | case4 decl rest ih | case5 decl rest ih | case6 decl rest ih =>
    rw [declaredIn, namespacesIn]
    exact List.forall_mem_cons.2 ⟨Or.inl rfl, ih⟩

/-! ## The table -/

namespace Declaration

/-- The place of a full name in a table. -/
def place? (table : List Declaration) (identifier : Identifier) : Option Nat :=
  table.findIdx? fun declaration => declaration.identifier == identifier

/-- The full name at a place of a table. -/
def identifierAt? (table : List Declaration) (place : Nat) : Option Identifier :=
  table[place]?.map Declaration.identifier

/-- A declaration is found at the place of its name. -/
theorem find?_eq_place? (table : List Declaration) (identifier : Identifier) :
    find? table identifier = (place? table identifier).bind fun place => table[place]? :=
  List.find?_eq_bind_findIdx?_getElem?

/-- Where full names differ, places and names can be looked up from each other. -/
theorem place?_eq_some_iff {table : List Declaration}
    (hNames : (table.map Declaration.identifier).Nodup) {identifier : Identifier} {place : Nat} :
    place? table identifier = some place ↔ identifierAt? table place = some identifier := by
  rw [place?, identifierAt?, List.findIdx?_eq_some_iff_getElem, Option.map_eq_some_iff]
  constructor
  · rintro ⟨hPlace, hName, _⟩
    exact ⟨_, List.getElem?_eq_getElem hPlace, beq_iff_eq.1 hName⟩
  · rintro ⟨declaration, hDeclaration, rfl⟩
    obtain ⟨hPlace, rfl⟩ := List.getElem?_eq_some_iff.1 hDeclaration
    refine ⟨hPlace, beq_iff_eq.2 rfl, fun earlier hEarlier hSame => ?_⟩
    -- The same name at an earlier place would stand in the list of names twice.
    have hNames :=
      List.pairwise_iff_getElem.1 hNames earlier place (by simpa using hEarlier.trans hPlace)
      (by simpa using hPlace) hEarlier
    simp only [List.getElem_map] at hNames
    exact hNames (beq_iff_eq.1 hSame)

end Declaration

/-- The declarations of some files with what is around them. -/
def declaredInFiles (files : List SourceFile) : List Declared :=
  files.flatMap fun file => declaredIn file.statements

/-- The namespaces of some files. -/
def namespacesInFiles (files : List SourceFile) : List (List QualifiedName) :=
  files.flatMap fun file => namespacesIn file.statements

namespace Declaration

theorem entries_declaredInFiles (files : List SourceFile) :
    (files.flatMap fun file => entries "" file.statements).filterMap Entry.declaration? =
      (declaredInFiles files).map Declared.declaration := by
  rw [List.filterMap_flatMap, declaredInFiles, List.map_flatMap]
  exact congrArg (List.flatMap · files) (funext fun file => entries_declared "" file.statements)

theorem entered_mem_entries {files : List SourceFile} {path : String} :
    Entry.entered path ∈ (files.flatMap fun file => entries "" file.statements) ↔
      ∃ names ∈ namespacesInFiles files, pathOf names = path := by
  have hPaths : (files.flatMap fun file => entries "" file.statements).filterMap Entry.path? =
      (namespacesInFiles files).map pathOf := by
    rw [List.filterMap_flatMap, namespacesInFiles, List.map_flatMap]
    exact congrArg (List.flatMap · files) (funext fun file => entries_entered "" file.statements)
  rw [← mem_filterMap_path?, hPaths, List.mem_map]

/-- The table of some files: no namespace is reserved, and all full names differ. -/
theorem collect_eq_ok {files : List SourceFile} {table : List Declaration} :
    collect files = .ok table ↔
      (∀ names ∈ namespacesInFiles files, ¬ ReservedPath (pathOf names)) ∧
        ((builtins ++ (declaredInFiles files).map Declared.declaration).map
          Declaration.identifier).Nodup ∧
          table = builtins ++ (declaredInFiles files).map Declared.declaration := by
  rw [collect, foldlM_register builtins_lawful.names, entries_declaredInFiles, ← and_assoc]
  refine and_congr_left fun _ => ⟨fun hAll => ⟨?_, ?_⟩, fun hAll => ⟨?_, ?_⟩⟩
  · intro names hNames hReserved
    have hFree := hAll.namespaces _ (entered_mem_entries.2 ⟨names, hNames, rfl⟩)
    rw [within_scope_iff.2 hReserved] at hFree
    cases hFree
  · rw [← entries_declaredInFiles]
    exact hAll.names
  · intro path hPath
    obtain ⟨names, hNames, rfl⟩ := entered_mem_entries.1 hPath
    exact Bool.eq_false_iff.2 fun hWithin => hAll.1 names hNames (within_scope_iff.1 hWithin)
  · rw [entries_declaredInFiles]
    exact hAll.2

end Declaration

/-- Where no namespace is reserved, no declaration lives in the namespace of the built-in types or
below. -/
theorem not_reserved_of_declared {files : List SourceFile}
    (hFree : ∀ names ∈ namespacesInFiles files, ¬ ReservedPath (pathOf names)) :
    ∀ declared ∈ declaredInFiles files, ¬ ReservedPath declared.identifier.scope := by
  intro declared hMem
  obtain ⟨file, hFile, hMem⟩ := List.mem_flatMap.1 hMem
  rcases around_mem_namespacesIn file.statements declared hMem with hNone | hSome
  · rw [Declared.identifier, hNone]
    exact not_reserved_global
  · exact hFree _ (List.mem_flatMap.2 ⟨file, hFile, hSome⟩)

/-- Where no namespace is reserved, the built-in types are in nobody's way. -/
theorem nodup_with_builtins {files : List SourceFile}
    (hFree : ∀ names ∈ namespacesInFiles files, ¬ ReservedPath (pathOf names)) :
    ((Declaration.builtins ++ (declaredInFiles files).map Declared.declaration).map
      Declaration.identifier).Nodup ↔ ((declaredInFiles files).map Declared.identifier).Nodup := by
  have hNames : ((declaredInFiles files).map Declared.declaration).map Declaration.identifier =
      (declaredInFiles files).map Declared.identifier := List.map_map
  rw [List.map_append, hNames, List.nodup_append]
  refine ⟨fun hAll => hAll.2.1, fun hAll => ⟨Declaration.builtins_lawful.names, hAll, ?_⟩⟩
  rintro builtin hBuiltin _ hDeclared rfl
  obtain ⟨declaration, hDeclaration, rfl⟩ := List.mem_map.1 hBuiltin
  obtain ⟨kind, _, rfl⟩ := List.mem_map.1 hDeclaration
  obtain ⟨declared, hMem, hSame⟩ := List.mem_map.1 hDeclared
  refine not_reserved_of_declared hFree declared hMem (Or.inl ?_)
  rw [hSame]
  rfl

/-- The full names of the declarations follow those of the built-in types. -/
theorem identifierAt?_declared (files : List SourceFile) (place : Nat) :
    Declaration.identifierAt?
      (Declaration.builtins ++ (declaredInFiles files).map Declared.declaration)
      (Declaration.builtins.length + place) =
        ((declaredInFiles files).map Declared.identifier)[place]? := by
  rw [Declaration.identifierAt?, List.getElem?_append_right (Nat.le_add_right _ _),
    Nat.add_sub_cancel_left, ← List.getElem?_map, List.map_map]
  rfl

/-- There is a table exactly if no namespace is reserved and the full names of all declarations
differ. It holds the sixteen built-in types and then every declaration under its full name, in
source order. Places and full names can be looked up from each other, and no declaration lives in
the namespace of the built-in types or below it. -/
theorem collect_table (files : List SourceFile) :
    ((∃ table, Declaration.collect files = .ok table) ↔
      (∀ names ∈ namespacesInFiles files, ¬ ReservedPath (pathOf names)) ∧
        ((declaredInFiles files).map Declared.identifier).Nodup) ∧
    ∀ table, Declaration.collect files = .ok table →
      Declaration.builtins.length = 16 ∧
      table = Declaration.builtins ++ (declaredInFiles files).map Declared.declaration ∧
      (∀ identifier place, Declaration.place? table identifier = some place ↔
        Declaration.identifierAt? table place = some identifier) ∧
      (∀ identifier, Declaration.find? table identifier =
        (Declaration.place? table identifier).bind fun place => table[place]?) ∧
      ∀ declared ∈ declaredInFiles files, ¬ ReservedPath declared.identifier.scope := by
  refine ⟨⟨?_, ?_⟩, ?_⟩
  · rintro ⟨table, hRun⟩
    obtain ⟨hFree, hNames, _⟩ := Declaration.collect_eq_ok.1 hRun
    exact ⟨hFree, (nodup_with_builtins hFree).1 hNames⟩
  · rintro ⟨hFree, hNames⟩
    exact ⟨_, Declaration.collect_eq_ok.2 ⟨hFree, (nodup_with_builtins hFree).2 hNames, rfl⟩⟩
  · intro table hRun
    obtain ⟨hFree, hNames, rfl⟩ := Declaration.collect_eq_ok.1 hRun
    exact ⟨rfl, rfl, fun _ _ => Declaration.place?_eq_some_iff hNames,
      Declaration.find?_eq_place? _, not_reserved_of_declared hFree⟩

section

/-- Notes in four namespaces, two of which have a part named like the one of the built-in types. -/
def notes : List SourceFile :=
  let note : Statement := .message ⟨⟨.start, [], "Note"⟩, []⟩
  [⟨"inner.ks", [.fileNamespace ⟨"app", ["ks"]⟩ .start, .block ⟨"ks", []⟩ [note] .start, note]⟩,
    ⟨"outer.ks", [note, .block ⟨"kss", []⟩ [note] .start]⟩]

/-- The notes have a table: the innermost of them stands at its place, and that place is found by
its name. A block below the namespace of the built-in types has no table, even if nothing is
declared in it. -/
theorem collect_notes :
    (∃ table, Declaration.collect notes = .ok table ∧ table.length = 20 ∧
      Declaration.place? table ⟨"app.ks.ks", "Note"⟩ = some 16 ∧
        Declaration.identifierAt? table 17 = some ⟨"app.ks", "Note"⟩) ∧
    ¬ ∃ table,
      Declaration.collect [⟨"below.ks", [.block ⟨"ks", ["below"]⟩ [] .start]⟩] = .ok table := by
  constructor
  · have hPaths : (namespacesInFiles notes).map pathOf = ["app.ks", "app.ks.ks", "kss"] := by cbv
    have hNames : (declaredInFiles notes).map Declared.identifier =
        [⟨"app.ks.ks", "Note"⟩, ⟨"app.ks", "Note"⟩, ⟨"", "Note"⟩, ⟨"kss", "Note"⟩] := by cbv
    have hFree : ∀ names ∈ namespacesInFiles notes, ¬ ReservedPath (pathOf names) := by
      intro names hMem
      have hPath : pathOf names ∈ ["app.ks", "app.ks.ks", "kss"] :=
        hPaths ▸ List.mem_map_of_mem hMem
      rw [← within_scope_iff]
      revert hPath
      generalize pathOf names = path
      revert path
      decide
    obtain ⟨table, hRun⟩ := (collect_table notes).1.2 ⟨hFree, hNames ▸ by decide⟩
    obtain ⟨hBuiltins, rfl, hPlaces, _⟩ := (collect_table notes).2 table hRun
    have hCount : (declaredInFiles notes).length = 4 := by
      simpa using congrArg List.length hNames
    have hAt := identifierAt?_declared notes
    rw [hBuiltins, hNames] at hAt
    refine ⟨_, hRun, ?_, (hPlaces _ _).2 (hAt 0), hAt 1⟩
    rw [List.length_append, List.length_map, hBuiltins, hCount]
  · rw [(collect_table _).1]
    rintro ⟨hFree, _⟩
    refine hFree [⟨"ks", ["below"]⟩] ?_ (Or.inr ⟨"below", ?_⟩)
    · simp [namespacesInFiles, namespacesIn]
    · cbv

end

end Interchange.Schema

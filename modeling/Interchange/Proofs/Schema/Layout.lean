import Interchange.Proofs.Schema.Compilation
import Interchange.Proofs.Schema.Spans

/-!
# The layout of files does not matter

How declarations are spread over files, in which order they stand, and how their namespaces are
written changes nothing. The table of declarations lists the same entries in another order. Names
are looked up in it by full name, and dependency order starts from sorted names, so from there on
the order of the table is forgotten.

* `SameDeclarations`: tables with the same declarations up to their places in the text.
* `all_perm`: the declarations of two such tables with their names looked up.
* `sortDeclarations_perm`: dependency order forgets the order of a table.
* `collect_perm`, `parseFiles_perm`: files in another order.
* `compile_layout`: the whole way.
-/

namespace Interchange.Schema

/-- Tables that hold the same declarations, up to their places in the text. -/
def SameDeclarations (table table' : List Declaration) : Prop :=
  ∀ declaration, declaration ∈ table.map Declaration.spanless ↔
    declaration ∈ table'.map Declaration.spanless

theorem SameDeclarations.symm {table table' : List Declaration}
    (hSame : SameDeclarations table table') : SameDeclarations table' table :=
  fun declaration => (hSame declaration).symm

/-! ## Looking up -/

theorem SameDeclarations.exists_alike {table table' : List Declaration}
    (hSame : SameDeclarations table table') {declaration : Declaration}
    (hMem : declaration ∈ table) :
    ∃ declaration' ∈ table', declaration'.spanless = declaration.spanless :=
  List.mem_map.1 ((hSame _).1 (List.mem_map_of_mem hMem))

/-- Where full names differ, a declaration is found under its own. -/
theorem Declaration.find?_identifier {table : List Declaration}
    (hNames : (table.map Declaration.identifier).Nodup) {declaration : Declaration}
    (hMem : declaration ∈ table) : find? table declaration.identifier = some declaration := by
  cases hFind : find? table declaration.identifier with
  | none => exact absurd (List.mem_map_of_mem hMem) (find?_eq_none hFind)
  | some other =>
    obtain ⟨hOther, hName⟩ := find?_eq_some hFind
    rw [List.inj_on_of_nodup_map hNames hOther hMem hName]

theorem SameDeclarations.lookupsAlike {table table' : List Declaration}
    (hSame : SameDeclarations table table') (hTable : Declaration.Lawful table)
    (hTable' : Declaration.Lawful table') : Declaration.LookupsAlike table table' := by
  have hFound : ∀ {table table' : List Declaration}, SameDeclarations table table' →
      Declaration.Lawful table' → ∀ declaration ∈ table,
        (Declaration.find? table' declaration.identifier).map Declaration.spanless =
          some declaration.spanless := by
    intro table table' hSame hTable' declaration hMem
    obtain ⟨declaration', hMem', hAlike⟩ := hSame.exists_alike hMem
    rw [← Declaration.identifier_eq hAlike, Declaration.find?_identifier hTable'.names hMem',
      Option.map_some, hAlike]
  intro identifier
  cases hFind : Declaration.find? table identifier with
  | some declaration =>
    obtain ⟨hMem, rfl⟩ := Declaration.find?_eq_some hFind
    rw [hFound hSame hTable' declaration hMem, Option.map_some]
  | none =>
    cases hFind' : Declaration.find? table' identifier with
    | none => rfl
    | some declaration' =>
      obtain ⟨hMem', rfl⟩ := Declaration.find?_eq_some hFind'
      have hOther := hFound hSame.symm hTable declaration' hMem'
      rw [hFind] at hOther
      cases hOther

/-- The declarations of two tables with their names looked up, in the orders of the tables. -/
theorem Resolved.all_perm {table table' : List Declaration} {found : List Resolved}
    (hTable : Declaration.Lawful table) (hTable' : Declaration.Lawful table')
    (hSame : SameDeclarations table table') (hRun : all table = .ok found) :
    ∃ found', all table' = .ok found' ∧ found'.Perm found := by
  have hLookups := hSame.lookupsAlike hTable hTable'
  have hEach := mapM_eq_ok.1 hRun
  have hEach' : ∀ declaration' ∈ table', ∃ resolved,
      ofDeclaration table' declaration' = .ok resolved := by
    intro declaration' hMem'
    obtain ⟨declaration, hMem, hAlike⟩ := hSame.symm.exists_alike hMem'
    obtain ⟨resolved, _, hOk⟩ := exists_of_mem_left hEach hMem
    exact ⟨resolved, (ofDeclaration_agree hLookups hAlike resolved).1 hOk⟩
  obtain ⟨found', hEach'⟩ := exists_forall₂ hEach'
  have hRun' : all table' = .ok found' := mapM_eq_ok.2 hEach'
  refine ⟨found', hRun', ?_⟩
  -- Full names differ in both results, so it is enough to compare their entries.
  have hNodup := (all_sound hTable hRun).names.of_map
  have hNodup' := (all_sound hTable' hRun').names.of_map
  refine (List.perm_ext_iff_of_nodup hNodup' hNodup).2 fun resolved => ?_
  constructor
  · intro hResolved
    obtain ⟨declaration', hMem', hOk'⟩ := exists_of_mem_right hEach' hResolved
    obtain ⟨declaration, hMem, hAlike⟩ := hSame.symm.exists_alike hMem'
    obtain ⟨other, hOther, hOk⟩ := exists_of_mem_left hEach hMem
    have hSecond := (ofDeclaration_agree hLookups hAlike other).1 hOk
    rwa [Except.ok.inj (hOk'.symm.trans hSecond)]
  · intro hResolved
    obtain ⟨declaration, hMem, hOk⟩ := exists_of_mem_right hEach hResolved
    obtain ⟨declaration', hMem', hAlike⟩ := hSame.exists_alike hMem
    obtain ⟨other, hOther, hOk'⟩ := exists_of_mem_left hEach' hMem'
    have hFirst := (ofDeclaration_agree hLookups hAlike.symm other).2 hOk'
    rwa [Except.ok.inj (hOk.symm.trans hFirst)]

/-! ## Dependency order -/

theorem Resolved.find?_perm {table table' : List Resolved}
    (hNames : (table.map Resolved.identifier).Nodup) (hPerm : table'.Perm table) :
    Resolved.find? table' = Resolved.find? table := by
  have hNames' := (hPerm.map Resolved.identifier).nodup_iff.2 hNames
  funext identifier
  cases hFind : Resolved.find? table identifier with
  | some resolved =>
    obtain ⟨hMem, rfl⟩ := find?_eq_some hFind
    exact find?_identifier hNames' (hPerm.mem_iff.2 hMem)
  | none =>
    cases hFind' : Resolved.find? table' identifier with
    | none => rfl
    | some resolved =>
      obtain ⟨hMem, rfl⟩ := find?_eq_some hFind'
      rw [find?_identifier hNames (hPerm.mem_iff.1 hMem)] at hFind
      cases hFind

/-- Dependency order forgets the order of a table. -/
theorem sortDeclarations_perm {table table' : List Resolved}
    (hNames : (table.map Resolved.identifier).Nodup) (hPerm : table'.Perm table) :
    sortDeclarations table' = sortDeclarations table := by
  have hFind := Resolved.find?_perm hNames hPerm
  have hSort := Identifier.sort_perm (hPerm.map Resolved.identifier)
  have hNeeds : Resolved.needs table' = Resolved.needs table := by
    funext identifier
    rw [Resolved.needs, Resolved.needs, hFind]
  rw [sortDeclarations, sortDeclarations, hSort, hNeeds, hFind]

/-- The models of two lists of files that declare the same. -/
theorem compileFiles_agree {files files' : List SourceFile} {table table' : List Declaration}
    (hTable : Declaration.collect files = .ok table)
    (hTable' : Declaration.collect files' = .ok table') (hSame : SameDeclarations table table') :
    Agree (compileFiles files) (compileFiles files') := by
  have hForward : ∀ {files files' : List SourceFile} {table table' : List Declaration},
      Declaration.collect files = .ok table → Declaration.collect files' = .ok table' →
        SameDeclarations table table' → ∀ models, compileFiles files = .ok models →
          compileFiles files' = .ok models := by
    intro files files' table table' hTable hTable' hSame models hRun
    have hLawful := Declaration.collect_lawful hTable
    obtain ⟨_, hCollect, hRun⟩ := bind_eq_ok.1 hRun
    obtain rfl := Except.ok.inj (hTable.symm.trans hCollect)
    obtain ⟨resolved, hResolved, hRun⟩ := bind_eq_ok.1 hRun
    obtain ⟨sorted, hSorted, hBuild⟩ := bind_eq_ok.1 hRun
    obtain ⟨resolved', hResolved', hPerm⟩ := Resolved.all_perm hLawful
      (Declaration.collect_lawful hTable') hSame hResolved
    have hSorted' : sortDeclarations resolved' = .ok sorted := by
      rw [sortDeclarations_perm (Resolved.all_sound hLawful hResolved).names hPerm, hSorted]
    exact bind_eq_ok.2 ⟨table', hTable', bind_eq_ok.2 ⟨resolved', hResolved',
      bind_eq_ok.2 ⟨sorted, hSorted', hBuild⟩⟩⟩
  intro models
  exact ⟨hForward hTable hTable' hSame models, hForward hTable' hTable hSame.symm models⟩

/-! ## Files in another order -/

namespace Declaration

def Entry.declaration? : Entry → Option Declaration
  | .entered _ => none
  | .declared declaration => some declaration

/-- What may be registered in any order: namespaces that are not reserved, and declarations whose
full names differ from one another and from those of a table. -/
structure Registrable (table : List Declaration) (entries : List Entry) : Prop where
  namespaces : ∀ path, Entry.entered path ∈ entries → Namespace.within path Builtin.scope = false
  names : ((table ++ entries.filterMap Entry.declaration?).map Declaration.identifier).Nodup

theorem filterMap_declaration?_cons (entry : Entry) (rest : List Entry) :
    (entry :: rest).filterMap Entry.declaration? =
      [entry].filterMap Entry.declaration? ++ rest.filterMap Entry.declaration? := by
  rw [← List.filterMap_append]
  rfl

theorem registrable_cons {table : List Declaration} {entry : Entry} {rest : List Entry} :
    Registrable table (entry :: rest) ↔ Registrable table [entry] ∧
      Registrable (table ++ [entry].filterMap Entry.declaration?) rest := by
  constructor
  · intro hAll
    have hNames := hAll.names
    rw [filterMap_declaration?_cons, ← List.append_assoc] at hNames
    refine ⟨⟨?_, ?_⟩, ⟨?_, hNames⟩⟩
    · intro path hPath
      rw [List.mem_singleton] at hPath
      exact hAll.namespaces path (hPath ▸ List.mem_cons_self)
    · rw [List.map_append] at hNames
      exact hNames.of_append_left
    · exact fun path hPath => hAll.namespaces path (List.mem_cons_of_mem _ hPath)
  · rintro ⟨hFirst, hRest⟩
    refine ⟨?_, ?_⟩
    · intro path hPath
      rcases List.mem_cons.1 hPath with rfl | hPath
      · exact hFirst.namespaces path (List.mem_singleton_self _)
      · exact hRest.namespaces path hPath
    · rw [filterMap_declaration?_cons, ← List.append_assoc]
      exact hRest.names

theorem register_eq_ok {table later : List Declaration} {entry : Entry}
    (hTable : (table.map Declaration.identifier).Nodup) :
    register table entry = .ok later ↔
      Registrable table [entry] ∧ later = table ++ [entry].filterMap Entry.declaration? := by
  cases entry with
  | entered path =>
    have hSame : table ++ [Entry.entered path].filterMap Entry.declaration? = table :=
      List.append_nil table
    rw [register, hSame]
    split
    next hWithin =>
      constructor
      · intro hRun
        cases hRun
      · rintro ⟨hEntry, _⟩
        have hFree := hEntry.namespaces path (List.mem_singleton_self _)
        simp [hWithin] at hFree
    next hWithin =>
      constructor
      · intro hRun
        cases hRun
        refine ⟨⟨?_, by rwa [hSame]⟩, rfl⟩
        intro other hOther
        cases List.mem_singleton.1 hOther
        simpa using hWithin
      · rintro ⟨_, rfl⟩
        rfl
  | declared declaration =>
    have hSnoc : table ++ [Entry.declared declaration].filterMap Entry.declaration? =
        table ++ [declaration] := rfl
    have hNodup : ((table ++ [declaration]).map Declaration.identifier).Nodup ↔
        declaration.identifier ∉ table.map Declaration.identifier := by
      rw [List.map_append, List.map_singleton, List.nodup_append_comm, List.singleton_append,
        List.nodup_cons]
      exact and_iff_left hTable
    rw [register, hSnoc]
    split
    next other hFind =>
      obtain ⟨hMem, hName⟩ := find?_eq_some hFind
      constructor
      · intro hRun
        cases hRun
      · rintro ⟨hEntry, _⟩
        have hFresh := hNodup.1 hEntry.names
        exact absurd (hName ▸ List.mem_map_of_mem hMem) hFresh
    next hFind =>
      constructor
      · intro hRun
        cases hRun
        exact ⟨⟨by simp, hNodup.2 (find?_eq_none hFind)⟩, rfl⟩
      · rintro ⟨_, rfl⟩
        rfl

theorem foldlM_register {table later : List Declaration} {entries : List Entry}
    (hTable : (table.map Declaration.identifier).Nodup) :
    entries.foldlM register table = .ok later ↔
      Registrable table entries ∧ later = table ++ entries.filterMap Entry.declaration? := by
  induction entries generalizing table with
  | nil =>
    rw [List.foldlM_nil, pure_eq_ok, List.filterMap_nil, List.append_nil]
    constructor
    · rintro rfl
      exact ⟨⟨by simp, by simpa using hTable⟩, rfl⟩
    · rintro ⟨_, rfl⟩
      rfl
  | cons entry rest ih =>
    rw [List.foldlM_cons, bind_eq_ok, registrable_cons, filterMap_declaration?_cons entry rest,
      ← List.append_assoc]
    constructor
    · rintro ⟨middle, hStep, hRun⟩
      obtain ⟨hFirst, rfl⟩ := (register_eq_ok hTable).1 hStep
      obtain ⟨hRest, hLater⟩ := (ih hFirst.names).1 hRun
      exact ⟨⟨hFirst, hRest⟩, hLater⟩
    · rintro ⟨⟨hFirst, hRest⟩, hLater⟩
      exact ⟨_, (register_eq_ok hTable).2 ⟨hFirst, rfl⟩, (ih hFirst.names).2 ⟨hRest, hLater⟩⟩

/-- Files in another order have the same table in another order. -/
theorem collect_perm {files files' : List SourceFile} {table : List Declaration}
    (hPerm : files'.Perm files) (hRun : collect files = .ok table) :
    ∃ table', collect files' = .ok table' ∧ table'.Perm table := by
  have hEntries := hPerm.flatMap_right fun file => entries "" file.statements
  obtain ⟨hAll, rfl⟩ := (foldlM_register builtins_lawful.names).1 hRun
  have hTables : (builtins ++ (files'.flatMap fun file => entries "" file.statements).filterMap
      Entry.declaration?).Perm (builtins ++ (files.flatMap fun file =>
        entries "" file.statements).filterMap Entry.declaration?) :=
    (hEntries.filterMap _).append_left _
  refine ⟨_, (foldlM_register builtins_lawful.names).2 ⟨⟨?_, ?_⟩, rfl⟩, hTables⟩
  · intro path hPath
    exact hAll.namespaces path (hEntries.mem_iff.1 hPath)
  · exact (hTables.map _).nodup_iff.2 hAll.names

end Declaration

theorem SameDeclarations.of_perm {table table' : List Declaration} (hPerm : table'.Perm table) :
    SameDeclarations table table' :=
  fun _ => (hPerm.map Declaration.spanless).mem_iff.symm

theorem parseFiles_eq_ok {sources : List Source} {files : List SourceFile} :
    parseFiles sources = .ok files ↔
      List.Forall₂ (fun source file => parseFile source = .ok file) sources files := by
  induction sources generalizing files with
  | nil =>
    rw [parseFiles, List.forall₂_nil_left_iff, Except.ok.injEq]
    exact eq_comm
  | cons source rest ih =>
    rw [parseFiles, List.forall₂_cons_left_iff]
    constructor
    · intro hRun
      split at hRun
      next file others hFile hOthers =>
        cases hRun
        exact ⟨file, others, hFile, ih.1 hOthers, rfl⟩
      all_goals cases hRun
    · rintro ⟨file, others, hFile, hOthers, rfl⟩
      rw [hFile, ih.2 hOthers]

theorem parseFiles_perm {sources sources' : List Source} {files : List SourceFile}
    (hPerm : sources'.Perm sources) (hRun : parseFiles sources = .ok files) :
    ∃ files', parseFiles sources' = .ok files' ∧ files'.Perm files := by
  obtain ⟨files', hFiles', hPerm'⟩ := List.perm_comp_forall₂ hPerm (parseFiles_eq_ok.1 hRun)
  exact ⟨files', parseFiles_eq_ok.2 hFiles', hPerm'⟩

/-! ## The whole way -/

/-- The project of parsed files. -/
def compileParsed (options : Options) (files : List SourceFile) : Except CompileError Project := do
  return (← compileFiles files).toProject options

theorem compile_eq_ok_iff_parsed {options : Options} {sources : List Source} {project : Project} :
    compile options sources = .ok project ↔
      ∃ files, parseFiles sources = .ok files ∧ compileParsed options files = .ok project := by
  rw [compile]
  split
  next hError => simp [hError]
  next files hFiles => simp [hFiles, compileParsed]

namespace Luggage

/-- The luggage in two files, with namespaces as blocks and in another order. -/
def nested : List Source :=
  [⟨"bags.ks", "namespace app { message template<T> Bags { array<Bag<T>> bags = 1; } }"⟩,
    ⟨"rest.ks", "namespace app { tag template<T> Lock { Open = 0; Closed(T) = 1; } }" ++
      " namespace app { message template<T> Bag { array<T> items = 1; Lock<T> lock = 2; } }"⟩]

/-- A type under a name without dots. -/
def written (name : String) (args : List TypeExpr) : TypeExpr :=
  .mk ⟨name, []⟩ args .start

def lockDeclaration : Declaration :=
  ⟨lock.identifier, .tag ⟨⟨.start, ["T"], "Lock"⟩, [.part ⟨"Open", none, 0, .start⟩,
    .part ⟨"Closed", some (written "T" []), 1, .start⟩]⟩⟩

def bagDeclaration : Declaration :=
  ⟨bag.identifier, .message ⟨⟨.start, ["T"], "Bag"⟩,
    [.part ⟨written "array" [written "T" []], "items", 1⟩,
      .part ⟨written "Lock" [written "T" []], "lock", 2⟩]⟩⟩

def bagsDeclaration : Declaration :=
  ⟨bags.identifier, .message ⟨⟨.start, ["T"], "Bags"⟩,
    [.part ⟨written "array" [written "Bag" [written "T" []]], "bags", 1⟩]⟩⟩

theorem collect_sources : ((parseFiles sources).toOption.bind fun files =>
    (Declaration.collect files).toOption.map (List.map Declaration.spanless)) =
      some (Declaration.builtins ++ [lockDeclaration, bagDeclaration, bagsDeclaration]) := by
  cbv

theorem collect_nested : ((parseFiles nested).toOption.bind fun files =>
    (Declaration.collect files).toOption.map (List.map Declaration.spanless)) =
      some (Declaration.builtins ++ [bagsDeclaration, lockDeclaration, bagDeclaration]) := by
  cbv

end Luggage

/-- Two lists of parsed files whose declarations differ only in their order and in their places in
the text have the same project, or neither has one. In particular that holds for schema texts in any
order. -/
theorem compile_layout :
    (∀ (files files' : List SourceFile) (table table' : List Declaration),
      Declaration.collect files = .ok table → Declaration.collect files' = .ok table' →
      SameDeclarations table table' → ∀ (options : Options) (project : Project),
        compileParsed options files = .ok project ↔ compileParsed options files' = .ok project) ∧
    ∀ sources sources' : List Source, sources.Perm sources' →
      ∀ (options : Options) (project : Project),
        compile options sources = .ok project ↔ compile options sources' = .ok project := by
  have hParsed : ∀ (files files' : List SourceFile) (table table' : List Declaration),
      Declaration.collect files = .ok table → Declaration.collect files' = .ok table' →
      SameDeclarations table table' → ∀ options,
        Agree (compileParsed options files) (compileParsed options files') := by
    intro files files' table table' hTable hTable' hSame options
    exact (compileFiles_agree hTable hTable' hSame).bind fun models => Agree.refl _
  refine ⟨hParsed, ?_⟩
  have hForward : ∀ {sources sources' : List Source}, sources'.Perm sources →
      ∀ (options : Options) (project : Project), compile options sources = .ok project →
        compile options sources' = .ok project := by
    intro sources sources' hPerm options project hRun
    obtain ⟨files, hFiles, hProject⟩ := compile_eq_ok_iff_parsed.1 hRun
    obtain ⟨files', hFiles', hFilesPerm⟩ := parseFiles_perm hPerm hFiles
    obtain ⟨models, hModels, _⟩ := bind_eq_ok.1 hProject
    obtain ⟨table, hTable, _⟩ := bind_eq_ok.1 hModels
    obtain ⟨table', hTable', hTablePerm⟩ := Declaration.collect_perm hFilesPerm hTable
    have hAgree := hParsed files files' table table' hTable hTable' (.of_perm hTablePerm) options
    exact compile_eq_ok_iff_parsed.2 ⟨files', hFiles', (hAgree project).1 hProject⟩
  intro sources sources' hPerm options project
  exact ⟨hForward hPerm.symm options project, hForward hPerm options project⟩

/-- The luggage in its other layout. -/
theorem compile_nestedLuggage :
    compile {} Luggage.nested = .ok (Luggage.models.toProject {}) := by
  obtain ⟨files, hFiles, hTable⟩ := Option.bind_eq_some_iff.1 Luggage.collect_sources
  obtain ⟨table, hTable, hSpanless⟩ := Option.map_eq_some_iff.1 hTable
  obtain ⟨files', hFiles', hTable'⟩ := Option.bind_eq_some_iff.1 Luggage.collect_nested
  obtain ⟨table', hTable', hSpanless'⟩ := Option.map_eq_some_iff.1 hTable'
  have hRotated : [Luggage.lockDeclaration, Luggage.bagDeclaration, Luggage.bagsDeclaration].Perm
      [Luggage.bagsDeclaration, Luggage.lockDeclaration, Luggage.bagDeclaration] :=
    List.perm_append_singleton Luggage.bagsDeclaration [Luggage.lockDeclaration, _]
  have hSame : SameDeclarations table table' := by
    intro declaration
    rw [hSpanless, hSpanless']
    exact (hRotated.append_left Declaration.builtins).mem_iff
  have hLuggage := compile_eq_ok_iff_parsed.1 (Luggage.compiles.compile {})
  obtain ⟨parsed, hParsed, hProject⟩ := hLuggage
  obtain rfl := Except.ok.inj (hParsed.symm.trans (toOption_eq_some.1 hFiles))
  refine compile_eq_ok_iff_parsed.2 ⟨files', toOption_eq_some.1 hFiles', ?_⟩
  exact (compile_layout.1 parsed files' table table' (toOption_eq_some.1 hTable)
    (toOption_eq_some.1 hTable') hSame {} _).1 hProject

end Interchange.Schema

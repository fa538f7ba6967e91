import Interchange.Proofs.Schema.Construction

/-!
# What may be relied on in a project

A project lists its models by place and finds them by full name. Both are read off the definitions,
though nothing but the order of building says which place a name has. Here they are compared with
what a site keeps while it builds: the places that it filled, and the place that it gave to every
name.

* `Site.Mirrors.lookup_places`: the place that a site kept is the place that is found.
* `build_kept`, `compile_kept`: a site and a project.
* `compile_wellFormed`: the definitions, services and names of a project.
-/

namespace Interchange.Schema

/-! ## Kept places -/

namespace Site

/-- A definition that is found by name has the place of its name. -/
theorem Mirrors.slot?_eq {done : List Resolved} {site : Site} {builder : Builder} {models : Models}
    (hMirrors : Mirrors done site builder) (hModels : models.definitions = builder.definitions)
    {name : Identifier} (hModel : Resolved.IsModel done name) :
    models.slot? name = some (builder.slotOf name) := by
  obtain ⟨resolved, hMem, rfl, hService⟩ := hModel
  have hSome := (hMirrors.places resolved hMem hService).1
  rw [Builder.find?, List.find?_isSome] at hSome
  rw [Models.slot?, hModels, Builder.definitions, List.findIdx?_map,
    List.findIdx?_eq_some_iff_findIdx_eq]
  exact ⟨List.findIdx_lt_length.2 hSome, rfl⟩

/-- The place that a site kept for a name is the place that is found under it. -/
theorem Mirrors.lookup_places {done : List Resolved} {site : Site} {builder : Builder}
    {models : Models} (hMirrors : Mirrors done site builder)
    (hModels : models.definitions = builder.definitions)
    (hNames : ∀ name, name ∈ models.definitions.map Definition.identifier →
      Resolved.IsModel done name) (name : Identifier) :
    site.places.lookup name = models.slot? name := by
  by_cases hModel : Resolved.IsModel done name
  · rw [hMirrors.slot?_eq hModels hModel]
    obtain ⟨resolved, hMem, rfl, hService⟩ := hModel
    exact (hMirrors.places resolved hMem hService).2
  · have hKept : site.places.lookup name = none :=
      Option.not_isSome_iff_eq_none.1 fun hSome => hModel (hMirrors.known name hSome)
    have hFound : models.slot? name = none :=
      Option.not_isSome_iff_eq_none.1
        fun hSome => hModel (hNames name (Models.slot?_isSome.1 hSome))
    rw [hKept, hFound]

end Site

/-- A site goes through the same declarations and keeps what is built. -/
theorem build_kept {table sorted : List Resolved} {models : Models} (hTable : Resolved.Sound table)
    (hPerm : sorted.Perm table) (hFirst : Resolved.DependenciesFirst sorted)
    (hRun : Models.build sorted = .ok models) :
    ∃ site, sorted.foldlM Site.add Site.start = pure site ∧
      site.models = models.declared.map Prod.fst ∧
      ∀ identifier, site.places.lookup identifier = models.slot? identifier := by
  have hNames := (build_seated hTable hPerm hRun).isModel
  obtain ⟨builder, hBuilder, hModels⟩ := bind_eq_ok.1 hRun
  cases hModels
  have hTracks := Site.foldlM_tracks hTable [] hPerm hFirst rfl Site.mirrors_start
  rw [hBuilder] at hTracks
  generalize hSite : sorted.foldlM Site.add Site.start = result at hTracks
  cases hTracks with
  | @ok site _ hMirrors =>
    refine ⟨site, rfl, ?_, hMirrors.lookup_places rfl fun name hName => ?_⟩
    · rw [Models.map_fst_declared]
      exact hMirrors.models
    · obtain ⟨resolved, hMem, hResolved⟩ := (hNames name).1 hName
      exact ⟨resolved, hPerm.mem_iff.2 hMem, hResolved⟩

theorem compile_kept {options : Options} {sources : List Source} {project : Project}
    (hRun : compile options sources = .ok project) :
    ∃ files table resolved sorted site, parseFiles sources = .ok files ∧
      Declaration.collect files = .ok table ∧ Resolved.all table = .ok resolved ∧
      sortDeclarations resolved = .ok sorted ∧ sorted.foldlM Site.add Site.start = pure site ∧
      site.models = project.declared.map Prod.fst ∧
      ∀ identifier, site.places.lookup identifier = project.slot? identifier := by
  obtain ⟨files, table, resolved, sorted, models, hFiles, hTable, hResolved,
    hSorted, hBuild, rfl⟩ :=
    compile_eq_ok.1 hRun
  have hSound := Resolved.all_sound (Declaration.collect_lawful hTable) hResolved
  obtain ⟨hPerm, hFirst⟩ := sortDeclarations_ok hSound.closed hSorted
  obtain ⟨site, hSite, hKept⟩ := build_kept hSound hPerm hFirst hBuild
  exact ⟨files, table, resolved, sorted, site, hFiles, hTable, hResolved, hSorted, hSite, hKept⟩

/-! ## Projects -/

/-- What may be relied on in a project:

* a reference inside a definition has a number, and is a parameter of the definition or leads to an
  earlier one, is of its kind and has as many arguments as it takes;
* the parameters of a definition name its place and their position;
* no parameter is met inside the references of a service;
* the definitions that are not built in are listed by place, each of them once;
* a full name is found exactly if a model is declared under it or it is built in, and the definition
  that is found has this name;
* what is listed and what is found is what was kept while the declarations were built, one after the
  other in dependency order: the places that were filled, and the place of every full name. -/
theorem compile_wellFormed {options : Options} {sources : List Source} {project : Project}
    (hRun : compile options sources = .ok project) :
    (∀ (slot : Nat) (definition : Definition), project.definitions[slot]? = some definition →
      ∀ reference ∈ definition.references, ∀ inner, reference.Reaches inner →
        inner.slot < project.references ∧
          inner.StandsIn project.definitions slot definition.arity) ∧
    (∀ (slot : Nat) (definition : Definition), project.definitions[slot]? = some definition →
      ∀ index < definition.parameters.length, ∃ number < project.references, ∃ name,
        definition.parameters[index]? = some (.parameter number slot index name)) ∧
    (∀ service ∈ project.services, ∀ reference ∈ [service.input, service.output],
      ∀ inner, reference.Reaches inner → inner.slot < project.references ∧
        (∀ number owner index name, inner ≠ .parameter number owner index name) ∧
        inner.StandsIn project.definitions project.definitions.length 0) ∧
    ((project.declared.map Prod.fst).Pairwise (· < ·) ∧
      ∀ (slot : Nat) (definition : Definition), (slot, definition) ∈ project.declared ↔
        project.definitions[slot]? = some definition ∧ definition.builtin? = none) ∧
    (∃ files table, parseFiles sources = .ok files ∧ Declaration.collect files = .ok table ∧
      ∀ identifier, ((project.slot? identifier).isSome = true ↔
          Declaration.IsModel table identifier) ∧
        ∀ slot, project.slot? identifier = some slot → ∃ definition,
          project.definitions[slot]? = some definition ∧ definition.identifier = identifier) ∧
    ∃ files table resolved sorted site, parseFiles sources = .ok files ∧
      Declaration.collect files = .ok table ∧ Resolved.all table = .ok resolved ∧
      sortDeclarations resolved = .ok sorted ∧ sorted.foldlM Site.add Site.start = pure site ∧
      site.models = project.declared.map Prod.fst ∧
      ∀ identifier, site.places.lookup identifier = project.slot? identifier := by
  have hArena := compile_arena hRun
  obtain ⟨files, declared, table, hFiles, hDeclared, hTable, hSeated⟩ := compile_seated hRun
  refine ⟨?_, ?_, ?_, ⟨project.declared_ascending, fun _ _ => Models.mem_declared⟩,
    ⟨files, declared, hFiles, hDeclared, ?_⟩, compile_kept hRun⟩
  · intro slot definition hSlot reference hReference inner hReaches
    have hFits := (hArena.references slot definition hSlot reference hReference).reaches hReaches
    have hWithin := hSeated.numbers definition (List.mem_of_getElem? hSlot) reference
      (List.mem_append_right _ hReference)
    exact ⟨(hWithin.reaches hReaches).slot_lt, hFits.standsIn (Nat.le_refl slot)⟩
  · intro slot definition hSlot index hIndex
    have hGet := List.getElem?_eq_getElem hIndex
    have hMem := List.mem_append_left definition.references (List.getElem_mem hIndex)
    have hWithin := hSeated.numbers definition (List.mem_of_getElem? hSlot) _ hMem
    obtain ⟨number, name, hEq⟩ := hSeated.parameters slot definition hSlot index _ hGet
    rw [hEq] at hGet hWithin
    exact ⟨number, hWithin.slot_lt, name, hGet⟩
  · intro service hService reference hReference inner hReaches
    obtain ⟨hWithin, hFits⟩ := hSeated.services service hService reference hReference
    have hInner := hFits.reaches hReaches
    refine ⟨(hWithin.reaches hReaches).slot_lt, ?_, ?_⟩
    · rintro number owner index name rfl
      cases hInner with
      | parameter hIndex => exact Nat.not_lt_zero _ hIndex
    · cases hInner with
      | parameter hIndex => exact absurd hIndex (Nat.not_lt_zero _)
      | model hTarget hKind hArity _ =>
        exact ⟨(List.getElem?_eq_some_iff.1 hTarget).1, _, hTarget, hKind, hArity⟩
  · intro identifier
    refine ⟨?_, fun slot => Models.slot?_eq_some⟩
    rw [Models.slot?_isSome, hSeated.isModel, Resolved.isModel_iff hTable]

/-- The template `Bags` of the luggage holds an array of bags of its own parameter, and is found by
name. It was the last of three that were built. -/
theorem luggage_wellFormed :
    (TypeRef.model ⟨5, .messageTemplate⟩ 17 [.parameter 4 18 0 "T"]).StandsIn
        Luggage.models.definitions 18 1 ∧
      (TypeRef.parameter 4 18 0 "T").StandsIn Luggage.models.definitions 18 1 ∧
      (∃ files table, parseFiles Luggage.sources = .ok files ∧
        Declaration.collect files = .ok table ∧
        Declaration.IsModel table Luggage.bags.identifier) ∧
      ∃ site, Luggage.sorted.foldlM Site.add Site.start = pure site ∧ site.models = [16, 17, 18] ∧
        site.places.lookup Luggage.bags.identifier = some 18 := by
  obtain ⟨hInside, _, _, _, ⟨files, table, hFiles, hTable, hNames⟩, hKept⟩ :=
    compile_wellFormed (Luggage.compiles.compile {})
  have hReaches : (TypeRef.model ⟨6, .builtin⟩ 14
      [.model ⟨5, .messageTemplate⟩ 17 [.parameter 4 18 0 "T"]]).Reaches
        (.model ⟨5, .messageTemplate⟩ 17 [.parameter 4 18 0 "T"]) :=
    .single (List.mem_singleton_self _)
  have hBags := hInside 18 _ rfl _ (List.mem_singleton_self _)
  have hBag := hBags _ hReaches
  have hParameter := hBags _ (hReaches.tail (List.mem_singleton_self _))
  refine ⟨hBag.2, hParameter.2, ⟨files, table, hFiles, hTable, ?_⟩, ?_⟩
  · exact (hNames Luggage.bags.identifier).1.1 (by decide)
  · obtain ⟨_, _, _, sorted, site, hFiles', hTable', hResolved, hSorted, hSite, hModels, hPlaces⟩ :=
      hKept
    obtain ⟨_, _, hFiles'', hTable'', hResolved'⟩ := Luggage.compiles.resolve
    cases hFiles'.symm.trans hFiles''
    cases hTable'.symm.trans hTable''
    cases hResolved.symm.trans hResolved'
    cases hSorted.symm.trans Luggage.compiles.sort
    exact ⟨site, hSite, hModels, hPlaces Luggage.bags.identifier⟩

end Interchange.Schema

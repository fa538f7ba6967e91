import Interchange.Proofs.Schema.Site

/-!
# A site keeps step with a builder

Declarations are built one after another, in reserved places and without them. Both runs go through
the same declarations in dependency order. At every declaration the site answers for the models that
are built, so that no access fails, and both runs stop with one error or go on in related states.

* `Site.Mirrors`: a site and a builder after the same declarations.
* `Site.Ready`: what is known when a declaration comes next.
* `Site.Ready.add_tracks`: one declaration.
* `guardedBuild_eq`: all declarations.
-/

namespace Interchange.Schema

open Guarded

namespace Site

/-! ## Related states -/

/-- A site and a builder after the declarations `done`. -/
structure Mirrors (done : List Resolved) (site : Site) (builder : Builder) : Prop where
  flagged : ∀ built ∈ builder.built, Flagged built
  slots : site.slots = builder.definitions.map some
  flags : ∀ (place : Nat) (built : Built), builder.built[place]? = some built →
    site.flags.lookup place =
      if built.definition.parameters.isEmpty then none else some built.held
  fresh : ∀ place, builder.built.length ≤ place → site.flags.lookup place = none
  builtins : site.builtins = Builtin.all.zipIdx
  places : ∀ resolved ∈ done, resolved.body.isService = false →
    (builder.find? resolved.identifier).isSome = true ∧
      site.places.lookup resolved.identifier = some (builder.slotOf resolved.identifier)
  known : ∀ name, (site.places.lookup name).isSome = true → Resolved.IsModel done name
  models : site.models = Models.declaredPlaces builder.definitions
  services : site.services = builder.services
  references : site.references = builder.references

theorem mirrors_start : Mirrors [] start Builder.start where
  flagged built hBuilt := by
    obtain ⟨kind, _, rfl⟩ := List.mem_map.1 hBuilt
    exact ⟨rfl, rfl⟩
  slots := rfl
  flags place built hBuilt := by
    obtain ⟨kind, _, rfl⟩ := List.mem_map.1 (List.mem_of_getElem? hBuilt)
    rfl
  fresh _ _ := rfl
  builtins := rfl
  places := by simp
  known := by simp [start]
  models := rfl
  services := rfl
  references := rfl

theorem lookup_builtins (kind : Builtin) : Builtin.all.zipIdx.lookup kind = some kind.index := by
  cases kind <;> rfl

namespace Mirrors

variable {done : List Resolved} {site : Site} {builder : Builder}

theorem length_slots (hMirrors : Mirrors done site builder) :
    site.slots.length = builder.built.length := by
  rw [hMirrors.slots, List.length_map, Builder.definitions, List.length_map]

theorem getElem?_slots (hMirrors : Mirrors done site builder) {place : Nat} {built : Built}
    (hBuilt : builder.built[place]? = some built) :
    site.slots[place]? = some (some built.definition) := by
  rw [hMirrors.slots, List.getElem?_map, Builder.definitions, List.getElem?_map, hBuilt]
  rfl

/-- A site answers for the models that are built. A place that is reserved changes nothing. -/
theorem serves (hMirrors : Mirrors done site builder)
    (hVoid : ∀ name, Resolved.IsModel done name →
      (builder.slotOf name = Builtin.void.index ↔ name = Builtin.void.identifier))
    {later : Site} (hSlots : site.slots <+: later.slots) (hPlaces : later.places = site.places)
    (hFlags : later.flags = site.flags) (hBuiltins : later.builtins = site.builtins) :
    later.Serves builder (Resolved.IsModel done) where
  flagged := hMirrors.flagged
  slots place built hBuilt := by
    obtain ⟨more, hMore⟩ := hSlots
    have hOld := hMirrors.getElem?_slots hBuilt
    rw [← hMore, List.getElem?_append_left (List.getElem?_eq_some_iff.1 hOld).1]
    exact hOld
  flags := by
    rw [hFlags]
    exact hMirrors.flags
  builtins kind := by
    rw [hBuiltins, hMirrors.builtins]
    exact lookup_builtins kind
  places := by
    rintro name ⟨resolved, hMem, rfl, hModel⟩
    rw [hPlaces]
    exact hMirrors.places resolved hMem hModel
  void := hVoid

end Mirrors

end Site

namespace Builder

/-- A definition that is found keeps its place. -/
theorem slotOf_push_of_isSome {builder : Builder} {name : Identifier} (definition : Definition)
    (usages : List Usage) (references : Nat) (hSome : (builder.find? name).isSome = true) :
    (builder.push definition usages references).slotOf name = builder.slotOf name := by
  rw [find?, List.find?_isSome] at hSome
  rw [slotOf, push, List.findIdx_append, if_pos (List.findIdx_lt_length.2 hSome)]
  rfl

/-- A definition with a new name has the last place. -/
theorem slotOf_push_self {builder : Builder} {definition : Definition} (usages : List Usage)
    (references : Nat)
    (hNew : ∀ built ∈ builder.built, built.definition.identifier ≠ definition.identifier) :
    (builder.push definition usages references).slotOf definition.identifier =
      builder.built.length := by
  have hAbsent : builder.built.findIdx
      (fun built => built.definition.identifier == definition.identifier) = builder.built.length :=
    List.findIdx_eq_length.2 fun built hBuilt => by simpa using hNew built hBuilt
  rw [slotOf, push, List.findIdx_append, if_neg (by omega), List.findIdx_singleton]
  simp

/-- Where full names differ, a definition is at the place that its name leads to. -/
theorem slotOf_of_getElem? {builder : Builder}
    (hNames : (builder.definitions.map Definition.identifier).Nodup) {place : Nat}
    {definition : Definition} (hPlace : builder.definitions[place]? = some definition) :
    builder.slotOf definition.identifier = place := by
  obtain ⟨built, hBuilt, rfl⟩ := List.mem_map.1 (List.mem_of_getElem? hPlace)
  have hSome : (builder.find? built.definition.identifier).isSome = true := by
    rw [find?, List.find?_isSome]
    exact ⟨built, hBuilt, by simp⟩
  obtain ⟨found, hFind⟩ := Option.isSome_iff_exists.1 hSome
  have hSlot := getElem?_slotOf hFind
  have hHere : (builder.definitions.map Definition.identifier)[builder.slotOf
      built.definition.identifier]? = some built.definition.identifier := by
    rw [List.getElem?_map, hSlot, ← (find?_eq_some hFind).2]
    rfl
  have hThere : (builder.definitions.map Definition.identifier)[place]? =
      some built.definition.identifier := by
    rw [List.getElem?_map, hPlace]
    rfl
  have hLess := (List.getElem?_eq_some_iff.1 hHere).1
  exact (List.getElem?_inj hLess hNames).1 (hHere.trans hThere.symm)

end Builder

namespace Site

/-- The flags of a new definition stand behind those of the others. -/
theorem Mirrors.flags_push {done : List Resolved} {site : Site} {builder : Builder}
    (hMirrors : Mirrors done site builder) (definition : Definition) (usages : List Usage)
    (references : Nat) :
    let flags := if definition.parameters.isEmpty then site.flags
      else (builder.built.length, builder.heldFlags definition.parameters.length usages) ::
        site.flags
    let later := builder.push definition usages references
    (∀ (place : Nat) (built : Built), later.built[place]? = some built →
      flags.lookup place =
        if built.definition.parameters.isEmpty then none else some built.held) ∧
    ∀ place, later.built.length ≤ place → flags.lookup place = none := by
  intro flags later
  have hCount : later.built.length = builder.built.length + 1 := by simp [later, Builder.push]
  constructor
  · intro place built hBuilt
    rcases getElem?_snoc_cases hBuilt with ⟨hLess, hOld⟩ | ⟨rfl, rfl⟩
    · rw [← hMirrors.flags place built hOld]
      by_cases hPlain : definition.parameters.isEmpty
      · rw [show flags = site.flags from if_pos hPlain]
      · rw [show flags = _ :: site.flags from if_neg hPlain, List.lookup_cons,
          beq_eq_false_iff_ne.2 (by omega)]
    · by_cases hPlain : definition.parameters.isEmpty
      · rw [show flags = site.flags from if_pos hPlain, if_pos hPlain]
        exact hMirrors.fresh _ (Nat.le_refl _)
      · rw [show flags = _ :: site.flags from if_neg hPlain, if_neg hPlain, List.lookup_cons,
          beq_self_eq_true]
  · intro place hPlace
    have hOld := hMirrors.fresh place (by omega)
    by_cases hPlain : definition.parameters.isEmpty
    · rwa [show flags = site.flags from if_pos hPlain]
    · rwa [show flags = _ :: site.flags from if_neg hPlain, List.lookup_cons,
        beq_eq_false_iff_ne.2 (by omega)]

/-- The new definition is found in its place, and the others where they were. -/
theorem Mirrors.places_push {done : List Resolved} {site : Site} {builder : Builder}
    {resolved : Resolved} (hMirrors : Mirrors done site builder) {definition : Definition}
    (usages : List Usage) (references : Nat) (hName : definition.identifier = resolved.identifier)
    (hNew : ∀ built ∈ builder.built, built.definition.identifier ≠ definition.identifier)
    (hFresh : ∀ other ∈ done, other.identifier ≠ resolved.identifier) :
    ∀ other ∈ done ++ [resolved], other.body.isService = false →
      ((builder.push definition usages references).find? other.identifier).isSome = true ∧
        ((definition.identifier, builder.built.length) :: site.places).lookup other.identifier =
          some ((builder.push definition usages references).slotOf other.identifier) := by
  intro other hOther hModel
  rcases List.mem_append.1 hOther with hOld | hOwn
  · obtain ⟨hSome, hPlace⟩ := hMirrors.places other hOld hModel
    obtain ⟨built, hFind⟩ := Option.isSome_iff_exists.1 hSome
    have hDiffer : other.identifier ≠ definition.identifier := hName ▸ hFresh other hOld
    rw [Builder.find?_push_of_some _ _ _ hFind, List.lookup_cons, beq_eq_false_iff_ne.2 hDiffer,
      Builder.slotOf_push_of_isSome _ _ _ hSome]
    exact ⟨rfl, hPlace⟩
  · obtain rfl := List.mem_singleton.1 hOwn
    rw [← hName, Builder.find?_push_self _ _ hNew, Builder.slotOf_push_self _ _ hNew,
      List.lookup_cons, beq_self_eq_true]
    exact ⟨rfl, rfl⟩

theorem isModel_snoc_of_left {done : List Resolved} {name : Identifier}
    (hModel : Resolved.IsModel done name) (resolved : Resolved) :
    Resolved.IsModel (done ++ [resolved]) name := by
  obtain ⟨other, hOther, hName, hBody⟩ := hModel
  exact ⟨other, List.mem_append_left _ hOther, hName, hBody⟩

/-- A place is kept for models only, also with one more of them. -/
theorem Mirrors.known_cons {done : List Resolved} {site : Site} {builder : Builder}
    (hMirrors : Mirrors done site builder) (resolved : Resolved)
    (hModel : resolved.body.isService = false) (place : Nat) :
    ∀ name, (((resolved.identifier, place) :: site.places).lookup name).isSome = true →
      Resolved.IsModel (done ++ [resolved]) name := by
  intro name hSome
  by_cases hName : name = resolved.identifier
  · exact ⟨resolved, by simp, hName.symm, hModel⟩
  · rw [List.lookup_cons, beq_eq_false_iff_ne.2 hName] at hSome
    exact isModel_snoc_of_left (hMirrors.known name hSome) resolved

/-- A declaration that adds no definition. -/
theorem Mirrors.keep {done : List Resolved} {site later : Site} {builder next : Builder}
    {resolved : Resolved} (hMirrors : Mirrors done site builder)
    (hBuilt : next.built = builder.built) (hSlots : later.slots = site.slots)
    (hFlags : later.flags = site.flags) (hBuiltins : later.builtins = site.builtins)
    (hPlaces : ∀ other ∈ done ++ [resolved], other.body.isService = false →
      (builder.find? other.identifier).isSome = true ∧
        later.places.lookup other.identifier = some (builder.slotOf other.identifier))
    (hKnown : ∀ name, (later.places.lookup name).isSome = true →
      Resolved.IsModel (done ++ [resolved]) name) (hModels : later.models = site.models)
    (hServices : later.services = next.services)
    (hReferences : later.references = next.references) :
    Mirrors (done ++ [resolved]) later next := by
  have hFind : ∀ name, next.find? name = builder.find? name := fun name => by
    rw [Builder.find?, Builder.find?, hBuilt]
  have hSlotOf : ∀ name, next.slotOf name = builder.slotOf name := fun name => by
    rw [Builder.slotOf, Builder.slotOf, hBuilt]
  refine ⟨?_, ?_, ?_, ?_, hBuiltins.trans hMirrors.builtins, ?_, hKnown, ?_, hServices, hReferences⟩
  · rw [hBuilt]
    exact hMirrors.flagged
  · rw [hSlots, hMirrors.slots, Builder.definitions, Builder.definitions, hBuilt]
  · rw [hBuilt, hFlags]
    exact hMirrors.flags
  · rw [hBuilt, hFlags]
    exact hMirrors.fresh
  · intro other hOther hModel
    rw [hFind, hSlotOf]
    exact hPlaces other hOther hModel
  · rw [hModels, hMirrors.models, Builder.definitions, Builder.definitions, hBuilt]

/-! ## One declaration -/

/-- What is known of a site when a declaration comes next. -/
structure Ready (done : List Resolved) (resolved : Resolved) (site : Site) (builder : Builder) :
    Prop where
  mirrors : Mirrors done site builder
  names : (builder.definitions.map Definition.identifier).Nodup
  arena : Arena builder.definitions
  inScope : ∀ usage ∈ resolved.body.usages,
    usage.Scoped (Resolved.IsModel done) resolved.body.arity
  fresh : ∀ other ∈ done, other.identifier ≠ resolved.identifier
  absent : resolved.getsDefinition = true →
    ∀ built ∈ builder.built, built.definition.identifier ≠ resolved.identifier
  builtin : ∀ kind, resolved.body = .builtin kind → resolved.identifier = kind.identifier

namespace Ready

variable {done : List Resolved} {site : Site} {builder : Builder}

theorem slotOf_builtin {resolved : Resolved} (hReady : Ready done resolved site builder)
    (kind : Builtin) : builder.slotOf kind.identifier = kind.index :=
  Builder.slotOf_of_getElem? hReady.names (hReady.arena.builtins kind)

theorem void {resolved : Resolved} (hReady : Ready done resolved site builder) :
    ∀ name, Resolved.IsModel done name →
      (builder.slotOf name = Builtin.void.index ↔ name = Builtin.void.identifier) := by
  rintro name ⟨other, hOther, rfl, hModel⟩
  constructor
  · intro hSlot
    -- The definition at the place that a name leads to has this name.
    obtain ⟨built, hFind⟩ :=
      Option.isSome_iff_exists.1 (hReady.mirrors.places other hOther hModel).1
    have hHere := Builder.getElem?_slotOf hFind
    rw [hSlot, hReady.arena.builtins .void] at hHere
    rw [← (Builder.find?_eq_some hFind).2, ← Option.some.inj hHere]
    rfl
  · intro hName
    rw [hName]
    exact hReady.slotOf_builtin .void

theorem serves {resolved : Resolved} (hReady : Ready done resolved site builder) :
    site.Serves builder (Resolved.IsModel done) :=
  hReady.mirrors.serves hReady.void List.prefix_rfl rfl rfl rfl

theorem serves_reserve {resolved : Resolved} (hReady : Ready done resolved site builder) :
    site.reserve.Serves builder (Resolved.IsModel done) :=
  hReady.mirrors.serves hReady.void (List.prefix_append _ _) rfl rfl rfl

/-- Filling the reserved place gives a site for one more declaration. -/
theorem finish_tracks {resolved : Resolved} (hReady : Ready done resolved site builder)
    (hGets : resolved.getsDefinition = true) {definition : Definition}
    (hName : definition.identifier = resolved.identifier) (hPlain : definition.builtin? = none)
    (hArity : definition.parameters.length = resolved.body.arity)
    (hPasses : ∀ usage ∈ resolved.body.usages, builder.Passes resolved.body.arity usage)
    (references : Nat) :
    Tracks (Mirrors (done ++ [resolved]))
      (site.reserve.finish definition resolved.body.usages builder.built.length references)
      (.ok (builder.push definition resolved.body.usages references)) := by
  have hScoped := hReady.inScope
  rw [← hArity] at hScoped hPasses
  have hMirrors := hReady.mirrors
  have hLength := hMirrors.length_slots
  have hFill : site.reserve.fill builder.built.length definition =
      pure { site.reserve with slots := site.slots ++ [some definition] } := by
    rw [fill, if_pos (by simp [reserve, hLength])]
    simp [reserve, ← hLength]
  obtain ⟨hFlags, hFresh⟩ := hMirrors.flags_push definition resolved.body.usages references
  rw [Site.finish, hReady.serves_reserve.mark_eq hScoped hPasses, pure_bind, hFill, pure_bind]
  refine .ok ⟨?_, ?_, hFlags, hFresh, hMirrors.builtins, ?_, ?_, ?_, hMirrors.services, rfl⟩
  · refine List.forall_mem_append.2 ⟨hMirrors.flagged, List.forall_mem_singleton.2 ?_⟩
    rw [Flagged, hPlain]
    simp [Builder.heldFlags]
  · rw [Builder.definitions_push, hMirrors.slots, List.map_append, List.map_singleton]
  · exact hMirrors.places_push _ _ hName (hName ▸ hReady.absent hGets) hReady.fresh
  · rw [hName]
    exact hMirrors.known_cons resolved (Resolved.getsDefinition_iff.1 hGets).1 _
  · rw [Builder.definitions_push, Models.declaredPlaces_snoc _ hPlain, ← hMirrors.models,
      Builder.definitions, List.length_map]
    rfl

variable {identifier : Identifier} {params : List String} {retired : List UInt32}

theorem addMessage_tracks {fields : List (ModelPart Usage)}
    (hReady : Ready done ⟨identifier, .message params fields retired⟩ site builder) :
    Tracks (Mirrors (done ++ [⟨identifier, .message params fields retired⟩]))
      (site.addMessage identifier params fields retired)
      (builder.addMessage identifier params fields retired) := by
  have hOwn := Builder.ownParameters_placeParameters builder.built.length builder.references params
  have hRefer : ∀ field ∈ fields, ∀ next, site.reserve.reference identifier
      (Builder.placeParameters builder.built.length builder.references params) field.content next =
        clean (builder.check identifier params.length field.content >>= fun _ => pure (builder.place
          (Builder.placeParameters builder.built.length builder.references params)
          field.content next)) := fun field hField =>
    hReady.serves_reserve.reference_eq hOwn
      (hReady.inScope field.content (List.mem_map_of_mem hField))
  rw [addMessage, hReady.mirrors.references, hReady.mirrors.length_slots, parts_eq _ _ hRefer,
    ← Builder.placeFields_eq, Builder.addMessage]
  cases hParts : Builder.checkParts identifier (.duplicateFieldId identifier)
      (builder.check identifier params.length) [] fields with
  | error error => exact .error error
  | ok =>
    cases Builder.checkRetired identifier retired (fields.map ModelPart.number) with
    | error error => exact .error error
    | ok =>
      obtain ⟨_, _, _, hChecked⟩ := Builder.checkParts_eq_ok.1 hParts
      exact hReady.finish_tracks rfl rfl rfl (Builder.length_placeParameters _ _ params)
        (List.forall_mem_map.2 fun field hField =>
          Builder.passes_of_check _ (hChecked field hField))
        _

theorem addTag_tracks {variants : List (ModelPart (Option Usage))}
    (hReady : Ready done ⟨identifier, .tag params variants retired⟩ site builder) :
    Tracks (Mirrors (done ++ [⟨identifier, .tag params variants retired⟩]))
      (site.addTag identifier params variants retired)
      (builder.addTag identifier params variants retired) := by
  have hOwn := Builder.ownParameters_placeParameters builder.built.length builder.references params
  have hRefer : ∀ variant ∈ variants, ∀ next, site.reserve.payload identifier
      (Builder.placeParameters builder.built.length builder.references params)
      variant.content next =
        clean (builder.checkPayload identifier params.length variant.content >>= fun _ =>
          pure (builder.placePayload
            (Builder.placeParameters builder.built.length builder.references params)
            variant.content next)) := fun variant hVariant =>
    hReady.serves_reserve.payload_eq hOwn fun usage hUsage =>
      hReady.inScope usage (List.mem_filterMap.2 ⟨variant, hVariant, hUsage⟩)
  rw [addTag, hReady.mirrors.references, hReady.mirrors.length_slots, parts_eq _ _ hRefer,
    ← Builder.placeVariants_eq, Builder.addTag]
  cases hParts : Builder.checkParts identifier (.duplicateTagValue identifier)
      (builder.checkPayload identifier params.length) [] variants with
  | error error => exact .error error
  | ok =>
    cases Builder.checkRetired identifier retired (variants.map ModelPart.number) with
    | error error => exact .error error
    | ok =>
      obtain ⟨_, _, _, hChecked⟩ := Builder.checkParts_eq_ok.1 hParts
      have hPasses : ∀ usage ∈ variants.filterMap ModelPart.content,
          builder.Passes params.length usage := by
        intro usage hUsage
        obtain ⟨variant, hVariant, hContent⟩ := List.mem_filterMap.1 hUsage
        have hCheck := hChecked variant hVariant
        rw [hContent] at hCheck
        exact Builder.passes_of_check usage hCheck
      exact hReady.finish_tracks rfl rfl rfl (Builder.length_placeParameters _ _ params) hPasses _

theorem addService_tracks {input output : Usage} {id : UInt32}
    (hReady : Ready done ⟨identifier, .service input output id⟩ site builder) :
    Tracks (Mirrors (done ++ [⟨identifier, .service input output id⟩]))
      (site.addService identifier input output id)
      (builder.addService identifier input output id) := by
  have hOwn : Builder.OwnParameters 0 0 [] := fun index hIndex =>
    absurd hIndex (Nat.not_lt_zero index)
  have hRefer : ∀ usage ∈ [input, output], ∀ next, site.reference identifier [] usage next =
      clean (builder.check identifier 0 usage >>= fun _ => pure (builder.place [] usage next)) :=
    fun usage hUsage => hReady.serves.reference_eq hOwn (hReady.inScope usage hUsage)
  rw [addService, Builder.addService, hReady.mirrors.services, hReady.mirrors.references]
  by_cases hPositive : id = 0
  · rw [if_pos hPositive, if_pos hPositive]
    exact .error _
  · rw [if_neg hPositive, if_neg hPositive]
    cases builder.services.find? (·.id == id) with
    | some first => exact .error _
    | none =>
      dsimp only
      rw [hRefer input (by simp)]
      cases builder.check identifier 0 input with
      | error error => exact .error error
      | ok =>
        show Tracks _ (site.reference identifier [] output
          (builder.place [] input builder.references).2 >>= _) _
        rw [hRefer output (by simp)]
        cases builder.check identifier 0 output with
        | error error => exact .error error
        | ok =>
          refine .ok (hReady.mirrors.keep rfl rfl rfl rfl ?_ ?_ rfl rfl rfl)
          · intro other hOther hModel
            rcases List.mem_append.1 hOther with hOld | hOwn
            · exact hReady.mirrors.places other hOld hModel
            · obtain rfl := List.mem_singleton.1 hOwn
              cases hModel
          · exact fun name hSome => isModel_snoc_of_left (hReady.mirrors.known name hSome) _

/-- A site and a builder keep step. -/
theorem add_tracks {resolved : Resolved} (hReady : Ready done resolved site builder) :
    Tracks (Mirrors (done ++ [resolved])) (site.add resolved) (builder.add resolved) := by
  obtain ⟨identifier, body⟩ := resolved
  cases body with
  | builtin kind =>
    obtain rfl : identifier = kind.identifier := hReady.builtin kind rfl
    have hPlace : site.builtins.lookup kind = some kind.index := by
      rw [hReady.mirrors.builtins]
      exact lookup_builtins kind
    rw [add]
    dsimp only
    rw [demand_some hPlace, pure_bind]
    have hKnown := hReady.mirrors.known_cons ⟨kind.identifier, .builtin kind⟩ rfl kind.index
    refine .ok (hReady.mirrors.keep rfl rfl rfl rfl ?_ hKnown rfl hReady.mirrors.services
      hReady.mirrors.references)
    intro other hOther hModel
    show _ ∧ List.lookup other.identifier ((kind.identifier, kind.index) :: _) = _
    rcases List.mem_append.1 hOther with hOld | hOwn
    · rw [List.lookup_cons, beq_eq_false_iff_ne.2 (hReady.fresh other hOld)]
      exact hReady.mirrors.places other hOld hModel
    · obtain rfl := List.mem_singleton.1 hOwn
      have hThere := hReady.arena.builtins kind
      obtain ⟨built, hBuilt, hSame⟩ := List.mem_map.1 (List.mem_of_getElem? hThere)
      rw [List.lookup_cons, beq_self_eq_true, hReady.slotOf_builtin kind, Builder.find?,
        List.find?_isSome]
      exact ⟨⟨built, hBuilt, by rw [hSame]; simp [Definition.ofBuiltin]⟩, rfl⟩
  | message params fields retired => exact hReady.addMessage_tracks
  | tag params variants retired => exact hReady.addTag_tracks
  | service input output id => exact hReady.addService_tracks

end Ready

/-! ## All declarations -/

/-- In dependency order a site is ready for every declaration. -/
theorem Mirrors.ready {table done later : List Resolved} {resolved : Resolved} {site : Site}
    {builder : Builder} (hTable : Resolved.Sound table)
    (hPerm : (done ++ resolved :: later).Perm table)
    (hFirst : Resolved.DependenciesFirst (done ++ resolved :: later))
    (hDone : done.foldlM Builder.add Builder.start = .ok builder)
    (hMirrors : Mirrors done site builder) : Ready done resolved site builder := by
  have hSubset : done ++ resolved :: later ⊆ table := hPerm.subset
  have hMem : resolved ∈ table := hSubset (by simp)
  have hInside : done ⊆ table := fun other hOther => hSubset (List.mem_append_left _ hOther)
  have hNames := (hPerm.map Resolved.identifier).nodup_iff.2 hTable.names
  rw [List.map_append, List.map_cons] at hNames
  obtain ⟨hDoneNames, _, hApart⟩ := List.nodup_append.1 hNames
  have hSeated : builder.Seated ([] ++ done) :=
    Builder.foldlM_seated [] Builder.seated_start hDone
  have hArena : Arena builder.definitions :=
    foldlM_invariant (fun builder => Arena builder.definitions) Arena.start
      (fun _ _ _ _ hArena hStep => Builder.add_arena hArena hStep) hDone
  refine ⟨hMirrors, hSeated.names_nodup hTable hInside hDoneNames, hArena, ?_, ?_, ?_,
    hTable.kinds resolved hMem⟩
  · intro usage hUsage
    exact (hTable.usages resolved hMem usage hUsage).mono_targets fun target hTarget =>
      hFirst.isModel hTable hSubset hUsage hTarget
  · intro other hOther
    exact hApart _ (List.mem_map_of_mem hOther) _ List.mem_cons_self
  · intro hDefinition built hBuilt hSame
    -- What is built is built in or declared before, and no full name is declared twice.
    have hThere : resolved.identifier ∈ builder.definitions.map Definition.identifier :=
      hSame ▸ List.mem_map_of_mem (List.mem_map_of_mem hBuilt)
    rw [hSeated.names] at hThere
    rcases List.mem_append.1 hThere with hBuiltin | hDeclared
    · obtain ⟨kind, _, hKind⟩ := List.mem_map.1 hBuiltin
      have hOwn := List.inj_on_of_nodup_map hTable.names (hTable.builtins kind) hMem hKind
      exact (Resolved.getsDefinition_iff.1 hDefinition).2 kind (by rw [← hOwn])
    · obtain ⟨other, hOther, hName⟩ := List.mem_map.1 hDeclared
      exact hApart _ (List.mem_map_of_mem (List.mem_filter.1 hOther).1) _ List.mem_cons_self hName

theorem foldlM_tracks {table : List Resolved} (hTable : Resolved.Sound table)
    (done : List Resolved) {more : List Resolved} {site : Site} {builder : Builder}
    (hPerm : (done ++ more).Perm table) (hFirst : Resolved.DependenciesFirst (done ++ more))
    (hDone : done.foldlM Builder.add Builder.start = .ok builder)
    (hMirrors : Mirrors done site builder) :
    Tracks (Mirrors (done ++ more)) (more.foldlM add site) (more.foldlM Builder.add builder) := by
  induction more generalizing done site builder with
  | nil => exact .ok (by simpa using hMirrors)
  | cons resolved more ih =>
    rw [List.foldlM_cons, List.foldlM_cons]
    refine (hMirrors.ready hTable hPerm hFirst hDone).add_tracks.bind
      fun next later hNext hStep => ?_
    have hLater : (done ++ [resolved]).foldlM Builder.add Builder.start = .ok later := by
      rw [List.foldlM_append, hDone]
      show (builder.add resolved >>= pure) = .ok later
      rw [hStep]
      rfl
    have hRest :=
      ih (done ++ [resolved]) (by simpa using hPerm) (by simpa using hFirst) hLater hNext
    rwa [List.append_assoc, List.singleton_append] at hRest

theorem mapM_id_map_some {α : Type} (xs : List α) : (xs.map some).mapM id = some xs := by
  induction xs with
  | nil => rfl
  | cons x xs ih =>
    rw [List.map_cons, List.mapM_cons, ih]
    rfl

end Site

/-- Building in reserved places gives what building gives, and no access fails. -/
theorem guardedBuild_eq {table sorted : List Resolved} (hTable : Resolved.Sound table)
    (hPerm : sorted.Perm table) (hFirst : Resolved.DependenciesFirst sorted) :
    guardedBuild sorted = clean (Models.build sorted) := by
  have hTracks := Site.foldlM_tracks hTable [] hPerm hFirst rfl Site.mirrors_start
  rw [guardedBuild, Models.build, ← tracks_eq_iff]
  refine hTracks.bind fun site builder hMirrors _ => ?_
  rw [Site.freeze, hMirrors.slots, demand_some (Site.mapM_id_map_some _), pure_bind,
    hMirrors.services, hMirrors.references]
  exact .ok rfl

/-- Out of dependency order there is no place to refer to. -/
example : (guardedBuild [⟨.ofGlobal "Bag", .message []
    [⟨1, "lock", .model (.ofGlobal "Lock") []⟩] []⟩]).run = .error .dependency := rfl

end Interchange.Schema

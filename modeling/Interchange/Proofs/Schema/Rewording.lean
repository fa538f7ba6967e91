import Interchange.Proofs.Schema.ContentHash
import Interchange.Proofs.Schema.Layout
import Interchange.Proofs.Schema.Validity

/-!
# Schemas in other words

A schema can be written in more than one way. Fields, variants and options may stand in another
order, retired ids may be listed in other portions, template parameters may have other names, and a
type may be spelt with an alias, or with more or less of its namespace. All of it is gone once names
are looked up and parts are sorted, so the content hash does not change.

* `UpToOrder`: lists whose entries correspond to one another in some order.
* `Scope.Respelt`: types whose names stand for the same.
* `DeclarationBody.Reworded`, `Reworded`: declarations and tables in other words.
* `Scope.Respelt.usage_eq`, `service_eq`, `bodyOf_alike`: looking up names.
* `LaidOut.form_eq`: what is built of declarations that are alike.
* `compile_reworded`: the whole way.
-/

namespace Interchange

section

variable {α β γ δ ε : Type} {R : α → β → Prop} {xs : List α} {ys : List β}

/-- The entries of two lists correspond to one another, in some order. -/
def UpToOrder (R : α → β → Prop) (xs : List α) (ys : List β) : Prop :=
  ∃ zs, List.Forall₂ R xs zs ∧ zs.Perm ys

namespace UpToOrder

theorem exists_of_mem_left (hPaired : UpToOrder R xs ys) {x : α} (hMem : x ∈ xs) :
    ∃ y ∈ ys, R x y := by
  obtain ⟨zs, hEach, hPerm⟩ := hPaired
  obtain ⟨y, hy, hR⟩ := Interchange.exists_of_mem_left hEach hMem
  exact ⟨y, hPerm.mem_iff.1 hy, hR⟩

theorem exists_of_mem_right (hPaired : UpToOrder R xs ys) {y : β} (hMem : y ∈ ys) :
    ∃ x ∈ xs, R x y := by
  obtain ⟨zs, hEach, hPerm⟩ := hPaired
  exact Interchange.exists_of_mem_right hEach (hPerm.mem_iff.2 hMem)

theorem perm {zs : List α} (hPaired : UpToOrder Eq xs zs) : xs.Perm zs := by
  obtain ⟨_, hEach, hPerm⟩ := hPaired
  rw [List.forall₂_eq_eq_eq] at hEach
  exact hEach ▸ hPerm

/-- What is made of the entries corresponds as they do. -/
theorem mapM {S : γ → δ → Prop} {f : α → Except ε γ} {g : β → Except ε δ}
    {us : List γ} {vs : List δ} (hPaired : UpToOrder R xs ys)
    (hEach : ∀ x y u v, R x y → f x = .ok u → g y = .ok v → S u v)
    (hus : xs.mapM f = .ok us) (hvs : ys.mapM g = .ok vs) : UpToOrder S us vs := by
  obtain ⟨zs, hPairs, hPerm⟩ := hPaired
  obtain ⟨ws, hws, hPerm'⟩ := List.perm_comp_forall₂ hPerm (mapM_eq_ok.1 hvs)
  have hMiddle : List.Forall₂ (fun z u => ∃ x, R x z ∧ f x = .ok u) zs us :=
    forall₂_through hPairs (mapM_eq_ok.1 hus) fun x _ z u hR hu => ⟨x, hR, hu⟩
  refine ⟨ws, forall₂_through hMiddle hws ?_, hPerm'⟩
  rintro z _ u w ⟨x, hR, hu⟩ hw
  exact hEach x z u w hR hu hw

end UpToOrder

end

end Interchange

namespace Interchange.Schema

/-! ## Types, parts and options in another spelling -/

/-- A type in another spelling: every name in it stands for the same, for a parameter at the same
position or for a declaration with the same full name. -/
inductive Scope.Respelt (scope scope' : Scope) : TypeExpr → TypeExpr → Prop
  | parameter {name name' : QualifiedName} {span span' : Span} {index : Nat}
      (hName : scope.parameter? name.identifier = some index)
      (hName' : scope'.parameter? name'.identifier = some index) :
      Respelt scope scope' (.mk name [] span) (.mk name' [] span')
  | model {name name' : QualifiedName} {args args' : List TypeExpr} {span span' : Span}
      {target : Identifier} (hFree : scope.parameter? name.identifier = none)
      (hFree' : scope'.parameter? name'.identifier = none)
      (hTarget : (scope.target? name.identifier).map Declaration.identifier = some target)
      (hTarget' : (scope'.target? name'.identifier).map Declaration.identifier = some target)
      (hArgs : List.Forall₂ (Respelt scope scope') args args') :
      Respelt scope scope' (.mk name args span) (.mk name' args' span')

structure FieldDecl.Respelt (scope scope' : Scope) (field field' : FieldDecl) : Prop where
  id : field.id = field'.id
  name : field.name = field'.name
  type : scope.Respelt scope' field.type field'.type

structure VariantDecl.Respelt (scope scope' : Scope) (variant variant' : VariantDecl) : Prop where
  value : variant.value = variant'.value
  name : variant.name = variant'.name
  payload : Option.Rel (scope.Respelt scope') variant.payload variant'.payload

/-- The same number or numbers, or a type in another spelling. -/
inductive OptionValue.Respelt (scope scope' : Scope) : OptionValue → OptionValue → Prop
  | integer (value : UInt32) : Respelt scope scope' (.integer value) (.integer value)
  | list (values : List UInt32) : Respelt scope scope' (.list values) (.list values)
  | type {type type' : TypeExpr} (hType : scope.Respelt scope' type type') :
      Respelt scope scope' (.type type) (.type type')

structure OptionDecl.Respelt (scope scope' : Scope) (option option' : OptionDecl) : Prop where
  key : option.key = option'.key
  value : option.value.Respelt scope scope' option'.value

/-! ## Declarations in other words -/

/-- The ids in the value of an option. -/
def OptionValue.ids : OptionValue → List UInt32
  | integer value => [value]
  | list values => values
  | type _ => []

/-- An option of a message or a tag lists an id as retired. -/
def ModelDecl.Retires {α : Type} (decl : ModelDecl α) (id : UInt32) : Prop :=
  ∃ option ∈ decl.options, option.key = Scope.retiredKey ∧ id ∈ option.value.ids

/-- A message or a tag in other words: as many parameters, the same parts in another order and
spelling, and the same retired ids, however they are listed. -/
structure ModelDecl.Reworded {α : Type} (part : Scope → Scope → α → α → Prop)
    (table table' : List Declaration) (owner : Identifier) (decl decl' : ModelDecl α) : Prop where
  params : decl.params.length = decl'.params.length
  parts : UpToOrder (part (.inside owner decl.params table) (.inside owner decl'.params table'))
    decl.parts decl'.parts
  retired : ∀ id, decl.Retires id ↔ decl'.Retires id

/-- A declaration in other words. -/
inductive DeclarationBody.Reworded (table table' : List Declaration) (owner : Identifier) :
    DeclarationBody → DeclarationBody → Prop
  | builtin (kind : Builtin) : Reworded table table' owner (.builtin kind) (.builtin kind)
  | message {decl decl' : ModelDecl FieldDecl}
      (hDecl : decl.Reworded FieldDecl.Respelt table table' owner decl') :
      Reworded table table' owner (.message decl) (.message decl')
  | tag {decl decl' : ModelDecl VariantDecl}
      (hDecl : decl.Reworded VariantDecl.Respelt table table' owner decl') :
      Reworded table table' owner (.tag decl) (.tag decl')
  | service {decl decl' : ServiceDecl}
      (hOptions : UpToOrder (OptionDecl.Respelt (.inside owner [] table) (.inside owner [] table'))
        decl.options decl'.options) :
      Reworded table table' owner (.service decl) (.service decl')

/-- Two tables declare the same full names, each in other words. -/
def Reworded (table table' : List Declaration) : Prop :=
  UpToOrder (fun declaration declaration' => declaration.identifier = declaration'.identifier ∧
    declaration.body.Reworded table table' declaration.identifier declaration'.body) table table'

/-! ## Looking up names -/

namespace Scope

variable {scope scope' : Scope}

mutual

/-- A type in another spelling is the same type. -/
theorem Respelt.usage_eq : ∀ {type type' : TypeExpr}, scope.Respelt scope' type type' →
    ∀ {usage usage' : Usage}, scope.usage type = .ok usage → scope'.usage type' = .ok usage' →
      usage = usage'
  | _, _, .parameter hName hName', usage, usage', hUsage, hUsage' => by
    rw [Scope.usage, hName] at hUsage
    rw [Scope.usage, hName'] at hUsage'
    cases hUsage
    cases hUsage'
    rfl
  | _, _, .model hFree hFree' hTarget hTarget' hArgs, usage, usage', hUsage, hUsage' => by
    obtain ⟨declaration, hFound, hName⟩ := Option.map_eq_some_iff.1 hTarget
    obtain ⟨declaration', hFound', hName'⟩ := Option.map_eq_some_iff.1 hTarget'
    simp only [Scope.usage, hFree, hFound] at hUsage
    simp only [Scope.usage, hFree', hFound'] at hUsage'
    split at hUsage
    · cases hUsage
    · split at hUsage'
      · cases hUsage'
      · obtain ⟨usages, hUsages, hUsage⟩ := bind_eq_ok.1 hUsage
        obtain ⟨usages', hUsages', hUsage'⟩ := bind_eq_ok.1 hUsage'
        cases hUsage
        cases hUsage'
        rw [hName, hName', usages_eq hArgs hUsages hUsages']

theorem usages_eq : ∀ {types types' : List TypeExpr},
    List.Forall₂ (scope.Respelt scope') types types' → ∀ {usages usages' : List Usage},
      scope.usages types = .ok usages → scope'.usages types' = .ok usages' → usages = usages'
  | _, _, .nil, usages, usages', hUsages, hUsages' => by
    cases hUsages
    cases hUsages'
    rfl
  | _, _, .cons hFirst hRest, usages, usages', hUsages, hUsages' => by
    obtain ⟨first, hOwn, hUsages⟩ := bind_eq_ok.1 hUsages
    obtain ⟨rest, hOthers, hUsages⟩ := bind_eq_ok.1 hUsages
    obtain ⟨first', hOwn', hUsages'⟩ := bind_eq_ok.1 hUsages'
    obtain ⟨rest', hOthers', hUsages'⟩ := bind_eq_ok.1 hUsages'
    cases hUsages
    cases hUsages'
    rw [hFirst.usage_eq hOwn hOwn', usages_eq hRest hOthers hOthers']

end

/-! ## Reading options -/

theorem retiredIds_eq_ok {option : OptionDecl} {ids : List UInt32}
    (hRun : scope.retiredIds option = .ok ids) :
    option.key = retiredKey ∧ ids = option.value.ids := by
  rw [retiredIds] at hRun
  split at hRun
  next hKey =>
    refine ⟨beq_iff_eq.1 hKey, ?_⟩
    split at hRun
    next hValue =>
      cases hRun
      rw [hValue, OptionValue.ids]
    next hValue =>
      cases hRun
      rw [hValue, OptionValue.ids]
    next => cases hRun
  next => cases hRun

/-- The retired ids of a message or a tag are those that its options list. -/
theorem mem_allRetiredIds {α : Type} {decl : ModelDecl α} {ids : List UInt32}
    (hRun : scope.allRetiredIds decl.options = .ok ids) {id : UInt32} :
    id ∈ ids ↔ decl.Retires id := by
  obtain ⟨lists, hLists, hIds⟩ := bind_eq_ok.1 hRun
  cases hIds
  have hEach := mapM_eq_ok.1 hLists
  rw [List.mem_flatten]
  constructor
  · rintro ⟨ids, hMem, hId⟩
    obtain ⟨option, hOption, hOwn⟩ := exists_of_mem_right hEach hMem
    obtain ⟨hKey, rfl⟩ := retiredIds_eq_ok hOwn
    exact ⟨option, hOption, hKey, hId⟩
  · rintro ⟨option, hOption, _, hId⟩
    obtain ⟨ids, hMem, hOwn⟩ := exists_of_mem_left hEach hOption
    rw [(retiredIds_eq_ok hOwn).2] at hMem
    exact ⟨_, hMem, hId⟩

/-- What an option of a service says is set. -/
inductive Sets (scope : Scope) (settings : ServiceSettings) (option : OptionDecl) : Prop
  | input {type : TypeExpr} {usage : Usage} (hKey : ServiceOption.ofKey? option.key = some .input)
      (hValue : option.value = .type type) (hType : scope.usage type = .ok usage)
      (hSet : settings.input = some usage)
  | output {type : TypeExpr} {usage : Usage} (hKey : ServiceOption.ofKey? option.key = some .output)
      (hValue : option.value = .type type) (hType : scope.usage type = .ok usage)
      (hSet : settings.output = some usage)
  | id {value : UInt32} (hKey : ServiceOption.ofKey? option.key = some .id)
      (hValue : option.value = .integer value) (hSet : settings.id = some value)

/-- What is set stays set. -/
structure ServiceSettings.Extends (settings later : ServiceSettings) : Prop where
  input : ∀ usage, settings.input = some usage → later.input = some usage
  output : ∀ usage, settings.output = some usage → later.output = some usage
  id : ∀ value, settings.id = some value → later.id = some value

theorem Sets.mono {settings later : ServiceSettings} {option : OptionDecl}
    (hSets : scope.Sets settings option) (hExtends : settings.Extends later) :
    scope.Sets later option := by
  cases hSets with
  | input hKey hValue hType hSet => exact .input hKey hValue hType (hExtends.input _ hSet)
  | output hKey hValue hType hSet => exact .output hKey hValue hType (hExtends.output _ hSet)
  | id hKey hValue hSet => exact .id hKey hValue (hExtends.id _ hSet)

/-- What one option of a service does: it sets what its key says, and that has not been set
before. -/
theorem setOption_eq_ok {settings later : ServiceSettings} {option : OptionDecl}
    (hRun : scope.setOption settings option = .ok later) :
    (∃ type usage, ServiceOption.ofKey? option.key = some .input ∧ settings.input = none ∧
      option.value = .type type ∧ scope.usage type = .ok usage ∧
        later = { settings with input := some usage }) ∨
    (∃ type usage, ServiceOption.ofKey? option.key = some .output ∧ settings.output = none ∧
      option.value = .type type ∧ scope.usage type = .ok usage ∧
        later = { settings with output := some usage }) ∨
    ∃ value, ServiceOption.ofKey? option.key = some .id ∧ settings.id = none ∧
      option.value = .integer value ∧ later = { settings with id := some value } := by
  rw [setOption] at hRun
  split at hRun
  · cases hRun
  next known hKey =>
    split at hRun
    · cases hRun
    next hUnset =>
      split at hRun
      next type hValue =>
        obtain ⟨usage, hUsage, hLater⟩ := bind_eq_ok.1 hRun
        cases hLater
        exact Or.inl ⟨type, usage, hKey,
          by simpa [ServiceSettings.has] using hUnset, hValue, hUsage, rfl⟩
      next type hValue =>
        obtain ⟨usage, hUsage, hLater⟩ := bind_eq_ok.1 hRun
        cases hLater
        exact Or.inr
          (Or.inl ⟨type, usage, hKey, by simpa [ServiceSettings.has] using hUnset, hValue,
          hUsage, rfl⟩)
      next value hValue =>
        cases hRun
        exact Or.inr
          (Or.inr ⟨value, hKey, by simpa [ServiceSettings.has] using hUnset, hValue, rfl⟩)
      all_goals cases hRun

/-- One option: it is set, what was set before stays, and no more is set than it says. -/
theorem setOption_sets {settings later : ServiceSettings} {option : OptionDecl}
    (hRun : scope.setOption settings option = .ok later) :
    scope.Sets later option ∧ settings.Extends later ∧ ∀ known, later.has known = true →
      settings.has known = true ∨ ServiceOption.ofKey? option.key = some known := by
  rcases setOption_eq_ok hRun with ⟨type, usage, hKey, hUnset, hValue, hUsage, rfl⟩ |
    ⟨type, usage, hKey, hUnset, hValue, hUsage, rfl⟩ | ⟨value, hKey, hUnset, hValue, rfl⟩
  · refine ⟨.input hKey hValue hUsage rfl,
      ⟨by simp [hUnset], fun _ hSet => hSet, fun _ hSet => hSet⟩, ?_⟩
    intro known hHas
    cases known with
    | input => exact Or.inr hKey
    | output => exact Or.inl hHas
    | id => exact Or.inl hHas
  · refine ⟨.output hKey hValue hUsage rfl,
      ⟨fun _ hSet => hSet, by simp [hUnset], fun _ hSet => hSet⟩, ?_⟩
    intro known hHas
    cases known with
    | input => exact Or.inl hHas
    | output => exact Or.inr hKey
    | id => exact Or.inl hHas
  · refine ⟨.id hKey hValue rfl, ⟨fun _ hSet => hSet, fun _ hSet => hSet, by simp [hUnset]⟩, ?_⟩
    intro known hHas
    cases known with
    | input => exact Or.inl hHas
    | output => exact Or.inl hHas
    | id => exact Or.inr hKey

/-- All options of a service. -/
theorem foldlM_sets {options : List OptionDecl} {settings finish : ServiceSettings}
    (hRun : options.foldlM scope.setOption settings = .ok finish) :
    settings.Extends finish ∧ (∀ option ∈ options, scope.Sets finish option) ∧
      ∀ known, finish.has known = true → settings.has known = true ∨
        ∃ option ∈ options, ServiceOption.ofKey? option.key = some known := by
  induction options generalizing settings with
  | nil =>
    cases hRun
    exact ⟨⟨fun _ hSet => hSet, fun _ hSet => hSet, fun _ hSet => hSet⟩, by simp,
      fun _ hHas => Or.inl hHas⟩
  | cons option rest ih =>
    rw [List.foldlM_cons] at hRun
    obtain ⟨middle, hStep, hRest⟩ := bind_eq_ok.1 hRun
    obtain ⟨hOwn, hKept, hOnly⟩ := setOption_sets hStep
    obtain ⟨hLater, hOthers, hFrom⟩ := ih hRest
    refine ⟨⟨fun _ hSet => hLater.input _ (hKept.input _ hSet),
      fun _ hSet => hLater.output _ (hKept.output _ hSet),
      fun _ hSet => hLater.id _ (hKept.id _ hSet)⟩,
      List.forall_mem_cons.2 ⟨hOwn.mono hLater, hOthers⟩, ?_⟩
    intro known hHas
    rcases hFrom known hHas with hMiddle | ⟨other, hOther, hKey⟩
    · rcases hOnly known hMiddle with hBefore | hKey
      · exact Or.inl hBefore
      · exact Or.inr ⟨option, List.mem_cons_self, hKey⟩
    · exact Or.inr ⟨other, List.mem_cons_of_mem _ hOther, hKey⟩

/-- What a service is taken for is what its options say, and they say all of it. -/
theorem service_eq_ok {options : List OptionDecl} {body : ResolvedBody}
    (hRun : scope.service options = .ok body) : ∃ input output id,
      body = .service input output id ∧
      (∀ option ∈ options, scope.Sets ⟨some input, some output, some id⟩ option) ∧
      ∀ known, ∃ option ∈ options, ServiceOption.ofKey? option.key = some known := by
  obtain ⟨⟨input?, output?, id?⟩, hSettings, hBody⟩ := bind_eq_ok.1 hRun
  cases input? with
  | none => cases hBody
  | some input =>
    cases output? with
    | none => cases hBody
    | some output =>
      cases id? with
      | none => cases hBody
      | some id =>
        cases hBody
        obtain ⟨_, hSets, hFrom⟩ := foldlM_sets hSettings
        refine ⟨input, output, id, rfl, hSets, ?_⟩
        intro known
        rcases hFrom known (by cases known <;> rfl) with hNone | hOption
        · cases known <;> cases hNone
        · exact hOption

/-- Two services have the same in one of their options. -/
def ServiceSettings.AgreeOn (settings settings' : ServiceSettings) : ServiceOption → Prop
  | .input => settings.input = settings'.input
  | .output => settings.output = settings'.output
  | .id => settings.id = settings'.id

/-- Options that are respelt set the same. -/
theorem Sets.agreeOn {settings settings' : ServiceSettings} {option option' : OptionDecl}
    {known : ServiceOption} (hRespelt : option.Respelt scope scope' option')
    (hSets : scope.Sets settings option) (hSets' : scope'.Sets settings' option')
    (hKnown : ServiceOption.ofKey? option.key = some known) : settings.AgreeOn settings' known := by
  have hKnown' : ServiceOption.ofKey? option'.key = some known := hRespelt.key ▸ hKnown
  have hValues := hRespelt.value
  cases hSets with
  | input hKey hValue hType hSet =>
    cases hKey.symm.trans hKnown
    cases hSets' with
    | input _ hValue' hType' hSet' =>
      rw [hValue, hValue'] at hValues
      cases hValues with
      | type hTypes =>
        show settings.input = settings'.input
        rw [hSet, hSet', hTypes.usage_eq hType hType']
    | output hKey' => cases hKey'.symm.trans hKnown'
    | id hKey' => cases hKey'.symm.trans hKnown'
  | output hKey hValue hType hSet =>
    cases hKey.symm.trans hKnown
    cases hSets' with
    | input hKey' => cases hKey'.symm.trans hKnown'
    | output _ hValue' hType' hSet' =>
      rw [hValue, hValue'] at hValues
      cases hValues with
      | type hTypes =>
        show settings.output = settings'.output
        rw [hSet, hSet', hTypes.usage_eq hType hType']
    | id hKey' => cases hKey'.symm.trans hKnown'
  | id hKey hValue hSet =>
    cases hKey.symm.trans hKnown
    cases hSets' with
    | input hKey' => cases hKey'.symm.trans hKnown'
    | output hKey' => cases hKey'.symm.trans hKnown'
    | id _ hValue' hSet' =>
      rw [hValue, hValue'] at hValues
      cases hValues
      show settings.id = settings'.id
      rw [hSet, hSet']

end Scope

/-- A service whose options are respelt, in any order, is the same service. -/
theorem service_eq {scope scope' : Scope} {options options' : List OptionDecl}
    {body body' : ResolvedBody}
    (hOptions : UpToOrder (OptionDecl.Respelt scope scope') options options')
    (hRun : scope.service options = .ok body) (hRun' : scope'.service options' = .ok body') :
    body = body' := by
  obtain ⟨input, output, id, rfl, hSets, hAll⟩ := Scope.service_eq_ok hRun
  obtain ⟨input', output', id', rfl, hSets', _⟩ := Scope.service_eq_ok hRun'
  have hAgree : ∀ known, Scope.ServiceSettings.AgreeOn ⟨some input, some output, some id⟩
      ⟨some input', some output', some id'⟩ known := by
    intro known
    obtain ⟨option, hMem, hKey⟩ := hAll known
    obtain ⟨option', hMem', hRespelt⟩ := hOptions.exists_of_mem_left hMem
    exact (hSets option hMem).agreeOn hRespelt (hSets' option' hMem') hKey
  cases hAgree .input
  cases hAgree .output
  cases hAgree .id
  rfl

/-! ## Declarations that are alike -/

/-- Declarations that say the same: parts in another order, other names of parameters, and retired
ids in another order or more than once. -/
inductive ResolvedBody.Alike : ResolvedBody → ResolvedBody → Prop
  | builtin (kind : Builtin) : Alike (.builtin kind) (.builtin kind)
  | message {params params' : List String} {fields fields' : List (ModelPart Usage)}
      {retired retired' : List UInt32} (hParams : params.length = params'.length)
      (hFields : fields.Perm fields') (hRetired : ∀ id, id ∈ retired ↔ id ∈ retired') :
      Alike (.message params fields retired) (.message params' fields' retired')
  | tag {params params' : List String} {variants variants' : List (ModelPart (Option Usage))}
      {retired retired' : List UInt32} (hParams : params.length = params'.length)
      (hVariants : variants.Perm variants') (hRetired : ∀ id, id ∈ retired ↔ id ∈ retired') :
      Alike (.tag params variants retired) (.tag params' variants' retired')
  | service (input output : Usage) (id : UInt32) :
      Alike (.service input output id) (.service input output id)

structure Resolved.Alike (resolved resolved' : Resolved) : Prop where
  identifier : resolved.identifier = resolved'.identifier
  body : resolved.body.Alike resolved'.body

theorem ResolvedBody.Alike.symm {body body' : ResolvedBody} (hAlike : body.Alike body') :
    body'.Alike body := by
  cases hAlike with
  | builtin kind => exact .builtin kind
  | message hParams hFields hRetired =>
    exact .message hParams.symm hFields.symm fun id => (hRetired id).symm
  | tag hParams hVariants hRetired =>
    exact .tag hParams.symm hVariants.symm fun id => (hRetired id).symm
  | service input output id => exact .service input output id

theorem Resolved.Alike.symm {resolved resolved' : Resolved} (hAlike : resolved.Alike resolved') :
    resolved'.Alike resolved :=
  ⟨hAlike.identifier.symm, hAlike.body.symm⟩

theorem FieldDecl.Respelt.field_eq {scope scope' : Scope} {decl decl' : FieldDecl}
    {field field' : ModelPart Usage} (hRespelt : decl.Respelt scope scope' decl')
    (hRun : scope.field decl = .ok field) (hRun' : scope'.field decl' = .ok field') :
    field = field' := by
  obtain ⟨usage, hUsage, hField⟩ := bind_eq_ok.1 hRun
  obtain ⟨usage', hUsage', hField'⟩ := bind_eq_ok.1 hRun'
  cases hField
  cases hField'
  rw [hRespelt.id, hRespelt.name, hRespelt.type.usage_eq hUsage hUsage']

theorem VariantDecl.Respelt.variant_eq {scope scope' : Scope} {decl decl' : VariantDecl}
    {variant variant' : ModelPart (Option Usage)} (hRespelt : decl.Respelt scope scope' decl')
    (hRun : scope.variant decl = .ok variant) (hRun' : scope'.variant decl' = .ok variant') :
    variant = variant' := by
  have hPayload := hRespelt.payload
  rw [Scope.variant] at hRun hRun'
  generalize decl.payload = payload at hRun hPayload
  generalize decl'.payload = payload' at hRun' hPayload
  cases hPayload with
  | none =>
    cases hRun
    cases hRun'
    rw [hRespelt.value, hRespelt.name]
  | some hType =>
    obtain ⟨usage, hUsage, hVariant⟩ := bind_eq_ok.1 hRun
    obtain ⟨usage', hUsage', hVariant'⟩ := bind_eq_ok.1 hRun'
    cases hVariant
    cases hVariant'
    rw [hRespelt.value, hRespelt.name, hType.usage_eq hUsage hUsage']

/-- The parts of a message or a tag in other words, and its retired ids. -/
theorem ModelDecl.Reworded.alike {α β : Type} {part : Scope → Scope → α → α → Prop}
    {table table' : List Declaration} {owner : Identifier} {decl decl' : ModelDecl α}
    (hDecl : decl.Reworded part table table' owner decl')
    {look look' : α → Except CompileError (ModelPart β)}
    (hPart : ∀ inner inner' found found',
      part (.inside owner decl.params table) (.inside owner decl'.params table') inner inner' →
        look inner = .ok found → look' inner' = .ok found' → found = found')
    {parts parts' : List (ModelPart β)} {retired retired' : List UInt32} {scope scope' : Scope}
    (hParts : decl.parts.mapM look = .ok parts) (hParts' : decl'.parts.mapM look' = .ok parts')
    (hRetired : scope.allRetiredIds decl.options = .ok retired)
    (hRetired' : scope'.allRetiredIds decl'.options = .ok retired') :
    parts.Perm parts' ∧ ∀ id, id ∈ retired ↔ id ∈ retired' := by
  refine ⟨(hDecl.parts.mapM hPart hParts hParts').perm, fun id => ?_⟩
  rw [Scope.mem_allRetiredIds hRetired, Scope.mem_allRetiredIds hRetired']
  exact hDecl.retired id

namespace Resolved

/-- Declarations in other words are alike once their names are looked up. -/
theorem bodyOf_alike {table table' : List Declaration} {owner : Identifier}
    {body body' : DeclarationBody} {found found' : ResolvedBody}
    (hReworded : body.Reworded table table' owner body')
    (hRun : bodyOf table owner body = .ok found) (hRun' : bodyOf table' owner body' = .ok found') :
    found.Alike found' := by
  cases hReworded with
  | builtin kind =>
    cases hRun
    cases hRun'
    exact .builtin kind
  | message hDecl =>
    obtain ⟨fields, hFields, hRun⟩ := bind_eq_ok.1 hRun
    obtain ⟨retired, hRetired, hRun⟩ := bind_eq_ok.1 hRun
    obtain ⟨fields', hFields', hRun'⟩ := bind_eq_ok.1 hRun'
    obtain ⟨retired', hRetired', hRun'⟩ := bind_eq_ok.1 hRun'
    cases hRun
    cases hRun'
    obtain ⟨hPerm, hIds⟩ := hDecl.alike (fun _ _ _ _ hRespelt => hRespelt.field_eq) hFields hFields'
      hRetired hRetired'
    exact .message hDecl.params hPerm hIds
  | tag hDecl =>
    obtain ⟨variants, hVariants, hRun⟩ := bind_eq_ok.1 hRun
    obtain ⟨retired, hRetired, hRun⟩ := bind_eq_ok.1 hRun
    obtain ⟨variants', hVariants', hRun'⟩ := bind_eq_ok.1 hRun'
    obtain ⟨retired', hRetired', hRun'⟩ := bind_eq_ok.1 hRun'
    cases hRun
    cases hRun'
    obtain ⟨hPerm, hIds⟩ := hDecl.alike (fun _ _ _ _ hRespelt => hRespelt.variant_eq) hVariants
      hVariants' hRetired hRetired'
    exact .tag hDecl.params hPerm hIds
  | service hOptions =>
    obtain rfl := service_eq hOptions hRun hRun'
    obtain ⟨input, output, id, rfl, _, _⟩ := Scope.service_eq_ok hRun
    exact .service input output id

/-- The declarations of two tables, one in the words of the other. -/
theorem all_alike {table table' : List Declaration} {found found' : List Resolved}
    (hReworded : Reworded table table') (hRun : all table = .ok found)
    (hRun' : all table' = .ok found') : UpToOrder Resolved.Alike found found' := by
  refine UpToOrder.mapM hReworded ?_ hRun hRun'
  rintro declaration declaration' resolved resolved' ⟨hName, hBody⟩ hOwn hOwn'
  obtain ⟨body, hBodyOf, hResolved⟩ := bind_eq_ok.1 hOwn
  obtain ⟨body', hBodyOf', hResolved'⟩ := bind_eq_ok.1 hOwn'
  cases hResolved
  cases hResolved'
  rw [← hName] at hBodyOf'
  exact ⟨hName, bodyOf_alike hBody hBodyOf hBodyOf'⟩

end Resolved

/-! ## What is built -/

/-- Only one order of a list is ascending. -/
theorem eq_of_ascending {α : Type} (key : α → UInt32) {xs ys : List α} (hPerm : xs.Perm ys)
    (hxs : xs.Pairwise fun x y => key x < key y) (hys : ys.Pairwise fun x y => key x < key y) :
    xs = ys := by
  refine hPerm.eq_of_pairwise ?_ hxs hys
  intro x y _ _ hLess hMore
  exact absurd (UInt32.lt_trans hLess hMore) (UInt32.lt_irrefl _)

/-- Parts that are laid out by number do not show the order in which they are declared. -/
theorem ModelPart.LaidOut.map_eq {α β γ : Type} {read : β → α} {read' : γ → α}
    {declared declared' : List (ModelPart α)} {placed : List (ModelPart β)}
    {placed' : List (ModelPart γ)} (hPlaced : LaidOut read declared placed)
    (hPlaced' : LaidOut read' declared' placed') (hPerm : declared.Perm declared') :
    placed.map (ModelPart.map read) = placed'.map (ModelPart.map read') := by
  apply eq_of_ascending ModelPart.number ((hPlaced.perm.trans hPerm).trans hPlaced'.perm.symm)
  · exact List.pairwise_map.2 (List.pairwise_map.1 hPlaced.ascending)
  · exact List.pairwise_map.2 (List.pairwise_map.1 hPlaced'.ascending)

/-- Retired ids that are kept in order do not show how they are listed. -/
theorem Retains.eq {retired retired' kept kept' : List UInt32} (hKept : Retains retired kept)
    (hKept' : Retains retired' kept') (hRetired : ∀ id, id ∈ retired ↔ id ∈ retired') :
    kept = kept' := by
  have hNodup : kept.Nodup := hKept.ascending.imp UInt32.ne_of_lt
  have hNodup' : kept'.Nodup := hKept'.ascending.imp UInt32.ne_of_lt
  have hPerm : kept.Perm kept' := by
    refine (List.perm_ext_iff_of_nodup hNodup hNodup').2 fun id => ?_
    rw [hKept.mem, hKept'.mem, hRetired]
  exact eq_of_ascending id hPerm hKept.ascending hKept'.ascending

open Canonical

/-- Definitions of declarations that are alike say the same. -/
theorem ResolvedBody.Alike.contents_eq {first second : List Definition}
    {resolved resolved' : ResolvedBody} (hAlike : resolved.Alike resolved')
    {body body' : DefinitionBody} (hBody : resolved.LaidOut first body)
    (hBody' : resolved'.LaidOut second body') :
    Contents.ofBody first body = Contents.ofBody second body' := by
  cases hAlike with
  | builtin kind =>
    cases body <;> cases hBody
    cases body' <;> cases hBody'
    rfl
  | message _ hFields hRetired =>
    cases body with
    | message fields kept =>
      cases body' with
      | message fields' kept' =>
        rw [Contents.ofBody, Contents.ofBody, hBody.1.map_eq hBody'.1 hFields,
          hBody.2.eq hBody'.2 hRetired]
      | _ => cases hBody'
    | _ => cases hBody
  | tag _ hVariants hRetired =>
    cases body with
    | tag variants kept =>
      cases body' with
      | tag variants' kept' =>
        rw [Contents.ofBody, Contents.ofBody, hBody.1.map_eq hBody'.1 hVariants,
          hBody.2.eq hBody'.2 hRetired]
      | _ => cases hBody'
    | _ => cases hBody
  | service => cases body <;> cases hBody

theorem ResolvedBody.Alike.arity_eq {resolved resolved' : ResolvedBody}
    (hAlike : resolved.Alike resolved') : resolved.arity = resolved'.arity := by
  cases hAlike with
  | builtin => rfl
  | message hParams => exact hParams
  | tag hParams => exact hParams
  | service => rfl

theorem Resolved.Alike.form_eq {first second : List Definition} {resolved resolved' : Resolved}
    (hAlike : resolved.Alike resolved') {definition definition' : Definition}
    (hOwn : resolved.LaidOut first definition) (hOwn' : resolved'.LaidOut second definition') :
    ModelForm.ofDefinition first definition = ModelForm.ofDefinition second definition' := by
  rw [ModelForm.ofDefinition, ModelForm.ofDefinition, hOwn.identifier, hOwn'.identifier,
    hAlike.identifier, hOwn.arity, hOwn'.arity, hAlike.body.arity_eq,
    hAlike.body.contents_eq hOwn.body hOwn'.body]

theorem ResolvedBody.Alike.isService_eq {resolved resolved' : ResolvedBody}
    (hAlike : resolved.Alike resolved') : resolved.isService = resolved'.isService := by
  cases hAlike <;> rfl

theorem ResolvedBody.isService_of_laidOut {definitions : List Definition} {resolved : ResolvedBody}
    {body : DefinitionBody} (hBody : resolved.LaidOut definitions body) :
    resolved.isService = false := by
  cases resolved with
  | service => cases body <;> cases hBody
  | _ => rfl

theorem builtin?_eq_none_iff {definitions : List Definition} {definition : Definition} :
    definition.builtin? = none ↔
      (ModelForm.ofDefinition definitions definition).contents ≠ .builtin := by
  obtain ⟨identifier, parameters, body⟩ := definition
  cases body <;> simp [Definition.builtin?, ModelForm.ofDefinition, Contents.ofBody]

namespace Models.LaidOut

variable {first second : Project} {table table' : List Resolved}

/-- What a model says, a model of the other project says too. -/
theorem mem_models (hFirst : first.toModels.LaidOut table)
    (hSecond : second.toModels.LaidOut table')
    (hAlike : ∀ resolved ∈ table, ∃ resolved' ∈ table', resolved.Alike resolved') {form : ModelForm}
    (hForm : form ∈ first.form.models) : form ∈ second.form.models := by
  obtain ⟨⟨slot, definition⟩, hEntry, rfl⟩ := Project.mem_form_models.1 hForm
  obtain ⟨hSlot, hDeclared⟩ := Models.mem_declared.1 hEntry
  obtain ⟨resolved, hResolved, hOwn⟩ := hFirst.definitions definition (List.mem_of_getElem? hSlot)
  obtain ⟨resolved', hResolved', hSame⟩ := hAlike resolved hResolved
  have hModel : resolved'.body.isService = false := by
    rw [← hSame.body.isService_eq]
    exact ResolvedBody.isService_of_laidOut hOwn.body
  obtain ⟨other, hOther, hOwn'⟩ := hSecond.declared resolved' hResolved' hModel
  have hForms := hSame.form_eq hOwn hOwn'
  rw [builtin?_eq_none_iff, hForms, ← builtin?_eq_none_iff] at hDeclared
  obtain ⟨slot', hSlot'⟩ := List.mem_iff_getElem?.1 hOther
  exact Project.mem_form_models.2
    ⟨(slot', other), Models.mem_declared.2 ⟨hSlot', hDeclared⟩, hForms.symm⟩

theorem mem_services (hFirst : first.toModels.LaidOut table)
    (hSecond : second.toModels.LaidOut table')
    (hAlike : ∀ resolved ∈ table, ∃ resolved' ∈ table', resolved.Alike resolved')
    {form : ServiceForm} (hForm : form ∈ first.form.services) : form ∈ second.form.services := by
  obtain ⟨service, hService, rfl⟩ := List.mem_map.1 hForm
  have hResolved :=
    (hFirst.services.mem_iff).1 (List.mem_map_of_mem (List.mem_mergeSort.1 hService))
  obtain ⟨hDeclared, hIs⟩ := List.mem_filter.1 hResolved
  obtain ⟨⟨identifier, body⟩, hDeclared', hName, hBody⟩ := hAlike _ hDeclared
  cases hName
  cases hBody
  obtain ⟨other, hOther, hSame⟩ :=
    List.mem_map.1 (hSecond.services.mem_iff.2 (List.mem_filter.2 ⟨hDeclared', rfl⟩))
  injection hSame with hName hBody
  injection hBody with hInput hOutput hId
  refine List.mem_map.2 ⟨other, List.mem_mergeSort.2 hOther, ?_⟩
  rw [ServiceForm.ofService, ServiceForm.ofService, hName, hId, hInput, hOutput]

/-- Projects of declarations that are alike say the same. -/
theorem form_eq (hFirst : first.toModels.LaidOut table) (hSecond : second.toModels.LaidOut table')
    (hAlike : UpToOrder Resolved.Alike table table') (hDistinct : first.Distinct)
    (hDistinct' : second.Distinct) (hName : first.name = second.name)
    (hVersion : first.version = second.version) : first.form = second.form := by
  have hForward : ∀ resolved ∈ table, ∃ resolved' ∈ table', resolved.Alike resolved' :=
    fun _ => hAlike.exists_of_mem_left
  have hBackward : ∀ resolved' ∈ table', ∃ resolved ∈ table, resolved'.Alike resolved := by
    intro resolved' hMem'
    obtain ⟨resolved, hMem, hSame⟩ := hAlike.exists_of_mem_right hMem'
    exact ⟨resolved, hMem, hSame.symm⟩
  exact Project.form_eq_of_mem hDistinct hDistinct' hName hVersion
    (fun _ => ⟨hFirst.mem_models hSecond hForward, hSecond.mem_models hFirst hBackward⟩)
    fun _ => ⟨hFirst.mem_services hSecond hForward, hSecond.mem_services hFirst hBackward⟩

end Models.LaidOut

/-! ## The whole way -/

/-- The declarations in some texts. -/
def Declares (sources : List Source) (table : List Declaration) : Prop :=
  ∃ files, parseFiles sources = .ok files ∧ Declaration.collect files = .ok table

theorem compile_laidOut {options : Options} {sources : List Source} {table : List Declaration}
    {project : Project} (hTable : Declares sources table)
    (hRun : compile options sources = .ok project) :
    ∃ resolved, Resolved.all table = .ok resolved ∧ project.toModels.LaidOut resolved := by
  obtain ⟨files, hFiles, hCollect⟩ := hTable
  obtain ⟨files', table', resolved, sorted, models, hFiles', hCollect', hResolved,
    hSorted, hBuild, rfl⟩ :=
    compile_eq_ok.1 hRun
  cases hFiles.symm.trans hFiles'
  cases hCollect.symm.trans hCollect'
  have hSound := Resolved.all_sound (Declaration.collect_lawful hCollect) hResolved
  obtain ⟨hPerm, _⟩ := sortDeclarations_ok hSound.closed hSorted
  exact ⟨resolved, hResolved, build_laidOut hSound hPerm hBuild⟩

/-- Texts with the same declarations in other words have one content hash. Parts and options may
stand in another order, retired ids may be listed in other portions and more than once, parameters
may have other names, and types may be spelt in another way as long as their names stand for the
same. -/
theorem compile_reworded {options : Options} {sources sources' : List Source}
    {table table' : List Declaration} {project project' : Project} (hTable : Declares sources table)
    (hTable' : Declares sources' table') (hReworded : Reworded table table')
    (hRun : compile options sources = .ok project)
    (hRun' : compile options sources' = .ok project') :
    project.contentHash = project'.contentHash := by
  obtain ⟨resolved, hResolved, hLaidOut⟩ := compile_laidOut hTable hRun
  obtain ⟨resolved', hResolved', hLaidOut'⟩ := compile_laidOut hTable' hRun'
  have hAlike := Resolved.all_alike hReworded hResolved hResolved'
  have hDistinct := compile_distinct hRun
  have hDistinct' := compile_distinct hRun'
  obtain ⟨_, _, _, _, models, _, _, _, _, _, rfl⟩ := compile_eq_ok.1 hRun
  obtain ⟨_, _, _, _, models', _, _, _, _, _, rfl⟩ := compile_eq_ok.1 hRun'
  have hForms := hLaidOut.form_eq hLaidOut' hAlike hDistinct hDistinct' rfl rfl
  have hCanonical : (models.toProject options).canonical =
      (models'.toProject options).canonical := by
    rw [Project.canonical_eq, Project.canonical_eq, hForms]
  exact congrArg (fun bytes => hexText (Sha256.digest bytes)) hCanonical

/-! ## A shipment

Marked boxes with lids, in two wordings. Their definitions come in another order. -/

namespace Shipment

def sources : List Source :=
  [⟨"box.ks", "namespace app;" ++
      " message template<T> Box { @used_ids = [3, 4]; Lid<T> lid = 1; Mark mark = 2; }" ++
      " tag template<T> Lid { Open = 0; Shut(T) = 1; }"⟩,
    ⟨"pack.ks", "namespace app; message Mark { ks.uint8 code = 1; }" ++
      " service Pack { @id = 7; @input = Box<Mark>; @output = Mark; }"⟩]

def reworded : List Source :=
  [⟨"box.ks", "namespace app;" ++
      " message template<Item> Box \x7b Mark mark = 2; @used_ids = 4;" ++
      " app.Lid<Item> lid = 1; @used_ids = [3, 4]; \x7d" ++
      " tag template<U> Lid { Shut(U) = 1; Open = 0; }"⟩,
    ⟨"pack.ks", "namespace app; message Mark { byte code = 1; }" ++
      " service Pack { @output = app.Mark; @input = app.Box<app.Mark>; @id = 7; }"⟩]

/-- A type that is written at a column of the first line. -/
def written (first : String) (rest : List String) (args : List TypeExpr)
    (column : Nat) : TypeExpr :=
  .mk ⟨first, rest⟩ args ⟨1, column⟩

def box : ModelDecl FieldDecl :=
  ⟨⟨⟨1, 16⟩, ["T"], "Box"⟩, [.option ⟨"used_ids", .list [3, 4], ⟨1, 42⟩⟩,
    .part ⟨written "Lid" [] [written "T" [] [] 66] 62, "lid", 1⟩,
    .part ⟨written "Mark" [] [] 78, "mark", 2⟩]⟩

def box' : ModelDecl FieldDecl :=
  ⟨⟨⟨1, 16⟩, ["Item"], "Box"⟩, [.part ⟨written "Mark" [] [] 45, "mark", 2⟩,
    .option ⟨"used_ids", .integer 4, ⟨1, 60⟩⟩,
    .part ⟨written "app" ["Lid"] [written "Item" [] [] 83] 75, "lid", 1⟩,
    .option ⟨"used_ids", .list [3, 4], ⟨1, 98⟩⟩]⟩

def lid : ModelDecl VariantDecl :=
  ⟨⟨⟨1, 95⟩, ["T"], "Lid"⟩, [.part ⟨"Open", none, 0, ⟨1, 117⟩⟩,
    .part ⟨"Shut", some (written "T" [] [] 132), 1, ⟨1, 127⟩⟩]⟩

def lid' : ModelDecl VariantDecl :=
  ⟨⟨⟨1, 120⟩, ["U"], "Lid"⟩, [.part ⟨"Shut", some (written "U" [] [] 147), 1, ⟨1, 142⟩⟩,
    .part ⟨"Open", none, 0, ⟨1, 155⟩⟩]⟩

def mark : ModelDecl FieldDecl :=
  ⟨⟨⟨1, 16⟩, [], "Mark"⟩, [.part ⟨written "ks" ["uint8"] [] 31, "code", 1⟩]⟩

def mark' : ModelDecl FieldDecl :=
  ⟨⟨⟨1, 16⟩, [], "Mark"⟩, [.part ⟨written "byte" [] [] 31, "code", 1⟩]⟩

def pack : ServiceDecl :=
  ⟨⟨1, 52⟩, "Pack", [⟨"id", .integer 7, ⟨1, 67⟩⟩,
    ⟨"input", .type (written "Box" [] [written "Mark" [] [] 89] 85), ⟨1, 76⟩⟩,
    ⟨"output", .type (written "Mark" [] [] 106), ⟨1, 96⟩⟩]⟩

def pack' : ServiceDecl :=
  ⟨⟨1, 48⟩, "Pack", [⟨"output", .type (written "app" ["Mark"] [] 73), ⟨1, 63⟩⟩,
    ⟨"input", .type (written "app" ["Box"] [written "app" ["Mark"] [] 100] 92), ⟨1, 83⟩⟩,
    ⟨"id", .integer 7, ⟨1, 111⟩⟩]⟩

def declared : List Declaration :=
  Declaration.builtins ++ [⟨⟨"app", "Box"⟩, .message box⟩, ⟨⟨"app", "Lid"⟩, .tag lid⟩,
    ⟨⟨"app", "Mark"⟩, .message mark⟩, ⟨⟨"app", "Pack"⟩, .service pack⟩]

def declared' : List Declaration :=
  Declaration.builtins ++ [⟨⟨"app", "Box"⟩, .message box'⟩, ⟨⟨"app", "Lid"⟩, .tag lid'⟩,
    ⟨⟨"app", "Mark"⟩, .message mark'⟩, ⟨⟨"app", "Pack"⟩, .service pack'⟩]

theorem declares_sources : Declares sources declared := by
  have hTable : ((parseFiles sources).toOption.bind fun files =>
      (Declaration.collect files).toOption) = some declared := by cbv
  obtain ⟨files, hFiles, hTable⟩ := Option.bind_eq_some_iff.1 hTable
  exact ⟨files, toOption_eq_some.1 hFiles, toOption_eq_some.1 hTable⟩

theorem declares_reworded : Declares reworded declared' := by
  have hTable : ((parseFiles reworded).toOption.bind fun files =>
      (Declaration.collect files).toOption) = some declared' := by cbv
  obtain ⟨files, hFiles, hTable⟩ := Option.bind_eq_some_iff.1 hTable
  exact ⟨files, toOption_eq_some.1 hFiles, toOption_eq_some.1 hTable⟩

/-- The full name behind a name in the namespace of the boxes. -/
def target? (table : List Declaration) (name : QualifiedName) : Option Identifier :=
  ((Scope.inside ⟨"app", ""⟩ [] table).target? name.identifier).map Declaration.identifier

/-- What the names stand for in both wordings. -/
theorem target?_names :
    (target? declared ⟨"Lid", []⟩ = some ⟨"app", "Lid"⟩ ∧
      target? declared' ⟨"app", ["Lid"]⟩ = some ⟨"app", "Lid"⟩) ∧
    (target? declared ⟨"Mark", []⟩ = some ⟨"app", "Mark"⟩ ∧
      target? declared' ⟨"Mark", []⟩ = some ⟨"app", "Mark"⟩ ∧
      target? declared' ⟨"app", ["Mark"]⟩ = some ⟨"app", "Mark"⟩) ∧
    (target? declared ⟨"ks", ["uint8"]⟩ = some Builtin.uint8.identifier ∧
      target? declared' ⟨"byte", []⟩ = some Builtin.uint8.identifier) ∧
    (target? declared ⟨"Box", []⟩ = some ⟨"app", "Box"⟩ ∧
      target? declared' ⟨"app", ["Box"]⟩ = some ⟨"app", "Box"⟩) := by
  refine ⟨⟨?_, ?_⟩, ⟨?_, ?_, ?_⟩, ⟨?_, ?_⟩, ?_, ?_⟩ <;> cbv

theorem box_reworded : box.Reworded FieldDecl.Respelt declared declared' ⟨"app", "Box"⟩ box' where
  params := rfl
  parts := by
    obtain ⟨⟨hLid, hLid'⟩, ⟨hMark, hMark', _⟩, _⟩ := target?_names
    refine ⟨box'.parts.reverse, .cons ⟨rfl, rfl, ?_⟩ (.cons ⟨rfl, rfl, ?_⟩ .nil),
      List.reverse_perm _⟩
    · exact .model rfl rfl hLid hLid' (.cons (.parameter rfl rfl) .nil)
    · exact .model rfl rfl hMark hMark' .nil
  retired := by
    intro id
    have hIds : box.Retires id ↔ id = 3 ∨ id = 4 := by
      simp [ModelDecl.Retires, ModelDecl.options, box, OptionValue.ids, Scope.retiredKey]
    have hIds' : box'.Retires id ↔ id = 4 ∨ id = 3 ∨ id = 4 := by
      simp [ModelDecl.Retires, ModelDecl.options, box', OptionValue.ids, Scope.retiredKey]
    rw [hIds, hIds']
    tauto

theorem lid_reworded : lid.Reworded VariantDecl.Respelt declared declared' ⟨"app", "Lid"⟩ lid' where
  params := rfl
  parts := by
    refine ⟨lid'.parts.reverse, .cons ⟨rfl, rfl, .none⟩ (.cons ⟨rfl, rfl, .some ?_⟩ .nil),
      List.reverse_perm _⟩
    exact .parameter rfl rfl
  retired := by
    intro id
    simp [ModelDecl.Retires, ModelDecl.options, lid, lid']

theorem mark_reworded :
    mark.Reworded FieldDecl.Respelt declared declared' ⟨"app", "Mark"⟩ mark' where
  params := rfl
  parts := by
    obtain ⟨_, _, ⟨hByte, hByte'⟩, _⟩ := target?_names
    exact ⟨mark'.parts, .cons ⟨rfl, rfl, .model rfl rfl hByte hByte' .nil⟩ .nil, .refl _⟩
  retired := by
    intro id
    simp [ModelDecl.Retires, ModelDecl.options, mark, mark']

theorem pack_reworded : UpToOrder (OptionDecl.Respelt (.inside ⟨"app", "Pack"⟩ [] declared)
    (.inside ⟨"app", "Pack"⟩ [] declared')) pack.options pack'.options := by
  obtain ⟨_, ⟨hMark, _, hMark'⟩, _, hBox, hBox'⟩ := target?_names
  refine ⟨pack'.options.reverse, .cons ⟨rfl, .integer 7⟩
    (.cons ⟨rfl, .type ?_⟩ (.cons ⟨rfl, .type ?_⟩ .nil)), List.reverse_perm _⟩
  · exact .model rfl rfl hBox hBox' (.cons (.model rfl rfl hMark hMark' .nil) .nil)
  · exact .model rfl rfl hMark hMark' .nil

/-- One wording is the other in other words. -/
theorem declared_reworded : Reworded declared declared' := by
  refine ⟨declared', List.rel_append ?_ ?_, .refl _⟩
  · refine List.forall₂_same.2 fun declaration hMem => ⟨rfl, ?_⟩
    obtain ⟨kind, _, rfl⟩ := List.mem_map.1 hMem
    exact .builtin kind
  · exact .cons ⟨rfl, .message box_reworded⟩ (.cons ⟨rfl, .tag lid_reworded⟩
      (.cons ⟨rfl, .message mark_reworded⟩ (.cons ⟨rfl, .service pack_reworded⟩ .nil)))

/-! The declarations of both wordings with their names looked up. -/

def lidField : ModelPart Usage := ⟨1, "lid", .model ⟨"app", "Lid"⟩ [.parameter 0]⟩

def markField : ModelPart Usage := ⟨2, "mark", .model ⟨"app", "Mark"⟩ []⟩

def boxed : Resolved := ⟨⟨"app", "Box"⟩, .message ["T"] [lidField, markField] [3, 4]⟩

def boxed' : Resolved := ⟨⟨"app", "Box"⟩, .message ["Item"] [markField, lidField] [4, 3, 4]⟩

def lidded : Resolved :=
  ⟨⟨"app", "Lid"⟩, .tag ["T"] [⟨0, "Open", none⟩, ⟨1, "Shut", some (.parameter 0)⟩] []⟩

def lidded' : Resolved :=
  ⟨⟨"app", "Lid"⟩, .tag ["U"] [⟨1, "Shut", some (.parameter 0)⟩, ⟨0, "Open", none⟩] []⟩

def marked : Resolved :=
  ⟨⟨"app", "Mark"⟩, .message [] [⟨1, "code", .model Builtin.uint8.identifier []⟩] []⟩

def packed : Resolved :=
  ⟨⟨"app", "Pack"⟩, .service (.model ⟨"app", "Box"⟩ [.model ⟨"app", "Mark"⟩ []])
    (.model ⟨"app", "Mark"⟩ []) 7⟩

def table : List Resolved := Resolved.tableOf [boxed, lidded, marked, packed]

def table' : List Resolved := Resolved.tableOf [boxed', lidded', marked, packed]

theorem resolve_declared :
    Resolved.all declared = .ok table ∧ Resolved.all declared' = .ok table' := by
  have hTable : (Resolved.all declared).toOption = some table := by cbv
  have hTable' : (Resolved.all declared').toOption = some table' := by cbv
  exact ⟨toOption_eq_some.1 hTable, toOption_eq_some.1 hTable'⟩

/-- The built-in types that no declaration needs. -/
def unused : List Resolved := Resolved.builtins (Builtin.byName.erase .uint8)

def sorted : List Resolved :=
  [lidded, ⟨Builtin.uint8.identifier, .builtin .uint8⟩, marked, boxed, packed] ++ unused

def sorted' : List Resolved :=
  [⟨Builtin.uint8.identifier, .builtin .uint8⟩, marked, lidded', boxed', packed] ++ unused

/-- The full names of the declarations, in both wordings. -/
def names : List Identifier :=
  [⟨"app", "Box"⟩, ⟨"app", "Lid"⟩, ⟨"app", "Mark"⟩, ⟨"app", "Pack"⟩]

def models : Models where
  definitions := Builtin.all.map Definition.ofBuiltin ++
    [⟨⟨"app", "Lid"⟩, [.parameter 0 16 0 "T"], .tag [⟨0, "Open", none⟩,
      ⟨1, "Shut", some (.parameter 0 16 0 "T")⟩] []⟩,
    ⟨⟨"app", "Mark"⟩, [], .message [⟨1, "code", .model ⟨1, .builtin⟩ 5 []⟩] []⟩,
    ⟨⟨"app", "Box"⟩, [.parameter 2 18 0 "T"],
      .message [⟨1, "lid", .model ⟨3, .tagTemplate⟩ 16 [.parameter 2 18 0 "T"]⟩,
        ⟨2, "mark", .model ⟨4, .message⟩ 17 []⟩] [3, 4]⟩]
  services := [⟨⟨"app", "Pack"⟩, 7, .model ⟨6, .messageTemplate⟩ 18 [.model ⟨5, .message⟩ 17 []],
    .model ⟨7, .message⟩ 17 []⟩]
  references := 8

def models' : Models where
  definitions := Builtin.all.map Definition.ofBuiltin ++
    [⟨⟨"app", "Mark"⟩, [], .message [⟨1, "code", .model ⟨0, .builtin⟩ 5 []⟩] []⟩,
    ⟨⟨"app", "Lid"⟩, [.parameter 1 17 0 "U"], .tag [⟨0, "Open", none⟩,
      ⟨1, "Shut", some (.parameter 1 17 0 "U")⟩] []⟩,
    ⟨⟨"app", "Box"⟩, [.parameter 2 18 0 "Item"],
      .message [⟨1, "lid", .model ⟨4, .tagTemplate⟩ 17 [.parameter 2 18 0 "Item"]⟩,
        ⟨2, "mark", .model ⟨3, .message⟩ 16 []⟩] [3, 4]⟩]
  services := [⟨⟨"app", "Pack"⟩, 7, .model ⟨6, .messageTemplate⟩ 18 [.model ⟨5, .message⟩ 16 []],
    .model ⟨7, .message⟩ 16 []⟩]
  references := 8

theorem compiles : Compiles sources table sorted models where
  resolve := by
    obtain ⟨files, hFiles, hTable⟩ := declares_sources
    exact ⟨files, declared, hFiles, hTable, resolve_declared.1⟩
  sort := sortDeclarations_of_names names (.refl _) (by decide +kernel) (by cbv)
  build := by cbv

theorem compiles' : Compiles reworded table' sorted' models' where
  resolve := by
    obtain ⟨files, hFiles, hTable⟩ := declares_reworded
    exact ⟨files, declared', hFiles, hTable, resolve_declared.2⟩
  sort := sortDeclarations_of_names names (.refl _) (by decide +kernel) (by cbv)
  build := by cbv

end Shipment

/-- The shipment has one content hash in both wordings, though its lids have different places. -/
theorem shipment_reworded :
    (compile {} Shipment.sources = .ok (Shipment.models.toProject {}) ∧
      compile {} Shipment.reworded = .ok (Shipment.models'.toProject {})) ∧
    (Shipment.models.slot? ⟨"app", "Lid"⟩ = some 16 ∧
      Shipment.models'.slot? ⟨"app", "Lid"⟩ = some 17) ∧
    (Shipment.models.toProject {}).contentHash = (Shipment.models'.toProject {}).contentHash :=
  ⟨⟨Shipment.compiles.compile {}, Shipment.compiles'.compile {}⟩, by decide,
    compile_reworded Shipment.declares_sources Shipment.declares_reworded Shipment.declared_reworded
      (Shipment.compiles.compile {}) (Shipment.compiles'.compile {})⟩

end Interchange.Schema

import Interchange.Proofs.Schema.Resolution
import Mathlib.Data.List.Forall2

/-!
# Places in the text do not matter

Declarations that differ only in where they are written mean the same. Looking up the names of two
such declarations, in tables whose declarations differ in that way only, gives the same result or
fails for both. An error may say where a name is written, so errors are not compared.

* `Agree`: two runs with one result, or none.
* `Declaration.spanless`: a declaration without places in the text.
* `Scope.Alike`: scopes in which every name stands for the same.
* `usage_agree`, `setOption_agree`, `bodyOf_agree`: types, options, and declarations.
-/

namespace Interchange

/-! ## Runs that agree -/

section

variable {ε α β γ : Type}

/-- Two runs succeed with one result, or both fail. -/
def Agree (x y : Except ε α) : Prop :=
  ∀ a, x = .ok a ↔ y = .ok a

namespace Agree

theorem refl (x : Except ε α) : Agree x x :=
  fun _ => Iff.rfl

theorem errors (e e' : ε) : Agree (.error e : Except ε α) (.error e') := by
  intro a
  simp

theorem bind {x y : Except ε α} {f g : α → Except ε β} (hFirst : Agree x y)
    (hNext : ∀ a, Agree (f a) (g a)) : Agree (x >>= f) (y >>= g) := by
  intro b
  rw [bind_eq_ok, bind_eq_ok]
  exact exists_congr fun a => and_congr (hFirst a) (hNext a b)

theorem mapM {f : α → Except ε γ} {g : β → Except ε γ} {xs : List α} {ys : List β}
    (hAll : List.Forall₂ (fun x y => Agree (f x) (g y)) xs ys) :
    Agree (xs.mapM f) (ys.mapM g) := by
  induction hAll with
  | nil => exact refl _
  | cons hFirst _ ih =>
    rw [List.mapM_cons, List.mapM_cons]
    exact hFirst.bind fun first => ih.bind fun others => refl _

theorem foldlM {f : γ → α → Except ε γ} {g : γ → β → Except ε γ} {xs : List α} {ys : List β}
    (hAll : List.Forall₂ (fun x y => ∀ c, Agree (f c x) (g c y)) xs ys) (c : γ) :
    Agree (xs.foldlM f c) (ys.foldlM g c) := by
  induction hAll generalizing c with
  | nil => exact refl _
  | cons hFirst _ ih =>
    rw [List.foldlM_cons, List.foldlM_cons]
    exact (hFirst c).bind ih

end Agree

theorem forall₂_of_map_eq {f : α → γ} {g : β → γ} {xs : List α} {ys : List β}
    (hMaps : xs.map f = ys.map g) : List.Forall₂ (fun x y => f x = g y) xs ys := by
  rw [← List.forall₂_eq_eq_eq, List.forall₂_map_left_iff, List.forall₂_map_right_iff] at hMaps
  exact hMaps

end

end Interchange

namespace Interchange.Schema

/-! ## Declarations without places -/

mutual

def TypeExpr.spanless : TypeExpr → TypeExpr
  | .mk name args _ => .mk name (TypeExpr.spanlessAll args) .start

def TypeExpr.spanlessAll : List TypeExpr → List TypeExpr
  | [] => []
  | type :: rest => type.spanless :: TypeExpr.spanlessAll rest

end

def OptionValue.spanless : OptionValue → OptionValue
  | .integer value => .integer value
  | .list values => .list values
  | .type inner => .type inner.spanless

def OptionDecl.spanless (option : OptionDecl) : OptionDecl :=
  ⟨option.key, option.value.spanless, .start⟩

def FieldDecl.spanless (field : FieldDecl) : FieldDecl :=
  ⟨field.type.spanless, field.name, field.id⟩

def VariantDecl.spanless (variant : VariantDecl) : VariantDecl :=
  ⟨variant.name, variant.payload.map TypeExpr.spanless, variant.value, .start⟩

/-- The parts of a message or a tag keep their order, and so do its options; how the two are mixed
is left out. -/
def ModelDecl.spanless {α : Type} (part : α → α) (decl : ModelDecl α) : ModelDecl α :=
  ⟨⟨.start, decl.params, decl.name⟩,
    decl.parts.map (fun inner => .part (part inner)) ++
      decl.options.map fun option => .option option.spanless⟩

def ServiceDecl.spanless (decl : ServiceDecl) : ServiceDecl :=
  ⟨.start, decl.name, decl.options.map OptionDecl.spanless⟩

def DeclarationBody.spanless : DeclarationBody → DeclarationBody
  | builtin kind => builtin kind
  | message decl => message (decl.spanless FieldDecl.spanless)
  | tag decl => tag (decl.spanless VariantDecl.spanless)
  | service decl => service decl.spanless

/-- A declaration without places in the text. -/
def Declaration.spanless (declaration : Declaration) : Declaration :=
  ⟨declaration.identifier, declaration.body.spanless⟩

theorem Declaration.identifier_eq {declaration declaration' : Declaration}
    (hSame : declaration.spanless = declaration'.spanless) :
    declaration.identifier = declaration'.identifier := by
  cases declaration
  cases declaration'
  exact (Declaration.mk.inj hSame).1

section

variable {α : Type} {part : α → α} {decl decl' : ModelDecl α}

theorem ModelDecl.parts_spanless : (decl.spanless part).parts = decl.parts.map part := by
  simp [spanless, parts, List.filterMap_append, List.filterMap_map]

theorem ModelDecl.options_spanless :
    (decl.spanless part).options = decl.options.map OptionDecl.spanless := by
  simp [spanless, options, List.filterMap_append, List.filterMap_map]

theorem ModelDecl.params_eq (hSame : decl.spanless part = decl'.spanless part) :
    decl.params = decl'.params :=
  congrArg (fun decl => decl.params) hSame

theorem ModelDecl.parts_alike (hSame : decl.spanless part = decl'.spanless part) :
    List.Forall₂ (fun inner inner' => part inner = part inner') decl.parts decl'.parts := by
  apply forall₂_of_map_eq
  rw [← parts_spanless, ← parts_spanless, hSame]

theorem ModelDecl.options_alike (hSame : decl.spanless part = decl'.spanless part) :
    List.Forall₂ (fun option option' => option.spanless = option'.spanless) decl.options
      decl'.options := by
  apply forall₂_of_map_eq
  rw [← options_spanless, ← options_spanless, hSame]

end

theorem DeclarationBody.isService_spanless (body : DeclarationBody) :
    body.spanless.isService = body.isService := by
  cases body <;> rfl

/-! ## Looking up names -/

/-- Two tables in which every full name stands for declarations that differ only in their places. -/
def Declaration.LookupsAlike (table table' : List Declaration) : Prop :=
  ∀ identifier, (Declaration.find? table identifier).map Declaration.spanless =
    (Declaration.find? table' identifier).map Declaration.spanless

/-- Scopes in which every name stands for the same. -/
structure Scope.Alike (scope scope' : Scope) : Prop where
  params : scope.params = scope'.params
  paths : scope.paths = scope'.paths
  lookups : Declaration.LookupsAlike scope.table scope'.table

namespace Scope.Alike

variable {scope scope' : Scope}

theorem parameter? (hScopes : scope.Alike scope') (reference : Identifier) :
    scope.parameter? reference = scope'.parameter? reference := by
  rw [Scope.parameter?, Scope.parameter?, hScopes.params]

theorem target? (hScopes : scope.Alike scope') (reference : Identifier) :
    (scope.target? reference).map Declaration.spanless =
      (scope'.target? reference).map Declaration.spanless := by
  have hPaths : (scope.paths.findSome? fun path => Declaration.find? scope.table
        ⟨Namespace.join path reference.scope, reference.name⟩).map Declaration.spanless =
      (scope'.paths.findSome? fun path => Declaration.find? scope'.table
        ⟨Namespace.join path reference.scope, reference.name⟩).map Declaration.spanless := by
    rw [List.map_findSome?, List.map_findSome?, hScopes.paths]
    congr 1
    funext path
    exact hScopes.lookups _
  have hBuiltin : (if reference.isGlobal then (Builtin.lookup? reference.name).bind fun kind =>
        Declaration.find? scope.table kind.identifier else none).map Declaration.spanless =
      (if reference.isGlobal then (Builtin.lookup? reference.name).bind fun kind =>
        Declaration.find? scope'.table kind.identifier else none).map Declaration.spanless := by
    split
    · cases Builtin.lookup? reference.name with
      | none => rfl
      | some kind => exact hScopes.lookups _
    · rfl
  simp only [Scope.target?]
  generalize (if reference.isGlobal then (Builtin.lookup? reference.name).bind fun kind =>
    Declaration.find? scope.table kind.identifier else none) = found at hBuiltin ⊢
  generalize (if reference.isGlobal then (Builtin.lookup? reference.name).bind fun kind =>
    Declaration.find? scope'.table kind.identifier else none) = found' at hBuiltin ⊢
  cases found with
  | none =>
    obtain rfl : found' = none := by simpa using hBuiltin.symm
    exact hPaths
  | some declaration =>
    obtain ⟨declaration', rfl, _⟩ := Option.map_eq_some_iff.1 hBuiltin.symm
    exact hBuiltin

/-- A name stands for nothing in both scopes, or for declarations that differ only in their
places. -/
theorem target?_cases (hScopes : scope.Alike scope') (reference : Identifier) :
    (scope.target? reference = none ∧ scope'.target? reference = none) ∨
      ∃ declaration declaration', scope.target? reference = some declaration ∧
        scope'.target? reference = some declaration' ∧
        declaration.identifier = declaration'.identifier ∧
        declaration.body.isService = declaration'.body.isService := by
  have hTargets := hScopes.target? reference
  cases hFound : scope.target? reference with
  | none =>
    rw [hFound] at hTargets
    exact Or.inl ⟨rfl, Option.map_eq_none_iff.1 hTargets.symm⟩
  | some declaration =>
    rw [hFound] at hTargets
    obtain ⟨declaration', hFound', hSame⟩ := Option.map_eq_some_iff.1 hTargets.symm
    refine Or.inr ⟨declaration, declaration', rfl, hFound', ?_, ?_⟩
    · exact Declaration.identifier_eq hSame.symm
    · have hBodies := congrArg (fun found => found.body.isService) hSame
      simpa [Declaration.spanless, DeclarationBody.isService_spanless] using hBodies.symm

end Scope.Alike

namespace Scope

variable {scope scope' : Scope}

theorem isEmpty_of_spanlessAll {types types' : List TypeExpr}
    (hSame : TypeExpr.spanlessAll types = TypeExpr.spanlessAll types') :
    types.isEmpty = types'.isEmpty := by
  cases types <;> cases types' <;> simp_all [TypeExpr.spanlessAll]

mutual

theorem usage_agree (hScopes : scope.Alike scope') : (type type' : TypeExpr) →
    type.spanless = type'.spanless → Agree (scope.usage type) (scope'.usage type')
  | .mk name args span, .mk name' args' span' => by
    intro hSame
    obtain ⟨rfl, hArgs⟩ : name = name' ∧
      TypeExpr.spanlessAll args = TypeExpr.spanlessAll args' := by
      simpa [TypeExpr.spanless] using hSame
    rw [usage, usage, ← hScopes.parameter?]
    cases scope.parameter? name.identifier with
    | some index =>
      simp only [isEmpty_of_spanlessAll hArgs]
      split
      · exact Agree.refl _
      · exact Agree.errors _ _
    | none =>
      rcases hScopes.target?_cases name.identifier with ⟨hNone, hNone'⟩ |
        ⟨declaration, declaration', hFound, hFound', hName, hService⟩
      · rw [hNone, hNone']
        exact Agree.errors _ _
      · rw [hFound, hFound']
        simp only [hService, hName]
        split
        · exact Agree.errors _ _
        · exact (usages_agree hScopes args args' hArgs).bind fun found => Agree.refl _

theorem usages_agree (hScopes : scope.Alike scope') : (types types' : List TypeExpr) →
    TypeExpr.spanlessAll types = TypeExpr.spanlessAll types' →
      Agree (scope.usages types) (scope'.usages types')
  | [], [] => fun _ => Agree.refl _
  | [], type' :: rest' => by simp [TypeExpr.spanlessAll]
  | type :: rest, [] => by simp [TypeExpr.spanlessAll]
  | type :: rest, type' :: rest' => by
    intro hSame
    obtain ⟨hFirst, hRest⟩ : type.spanless = type'.spanless ∧
        TypeExpr.spanlessAll rest = TypeExpr.spanlessAll rest' := by
      simpa [TypeExpr.spanlessAll] using hSame
    rw [usages, usages]
    refine (usage_agree hScopes type type' hFirst).bind fun first => ?_
    exact (usages_agree hScopes rest rest' hRest).bind fun others => Agree.refl _

end

/-! ## Parts and options -/

theorem field_agree (hScopes : scope.Alike scope') {decl decl' : FieldDecl}
    (hSame : decl.spanless = decl'.spanless) : Agree (scope.field decl) (scope'.field decl') := by
  obtain ⟨type, name, id⟩ := decl
  obtain ⟨type', name', id'⟩ := decl'
  obtain ⟨hType, rfl, rfl⟩ : type.spanless = type'.spanless ∧ name = name' ∧ id = id' := by
    simpa [FieldDecl.spanless] using hSame
  exact (usage_agree hScopes type type' hType).bind fun usage => Agree.refl _

theorem variant_agree (hScopes : scope.Alike scope') {decl decl' : VariantDecl}
    (hSame : decl.spanless = decl'.spanless) :
    Agree (scope.variant decl) (scope'.variant decl') := by
  obtain ⟨name, payload, value, span⟩ := decl
  obtain ⟨name', payload', value', span'⟩ := decl'
  obtain ⟨rfl, hPayload, rfl⟩ : name = name' ∧
      payload.map TypeExpr.spanless = payload'.map TypeExpr.spanless ∧ value = value' := by
    simpa [VariantDecl.spanless] using hSame
  cases payload with
  | none =>
    obtain rfl : payload' = none := by simpa using hPayload.symm
    exact Agree.refl _
  | some type =>
    obtain ⟨type', rfl, hType⟩ := Option.map_eq_some_iff.1 hPayload.symm
    exact (usage_agree hScopes type type' hType.symm).bind fun usage => Agree.refl _

theorem retiredIds_agree {option option' : OptionDecl}
    (hSame : option.spanless = option'.spanless) :
    Agree (scope.retiredIds option) (scope'.retiredIds option') := by
  obtain ⟨key, value, span⟩ := option
  obtain ⟨key', value', span'⟩ := option'
  obtain ⟨rfl, hValue⟩ : key = key' ∧ value.spanless = value'.spanless := by
    simpa [OptionDecl.spanless] using hSame
  simp only [retiredIds]
  split
  · cases value <;> cases value' <;> simp only [OptionValue.spanless, reduceCtorEq] at hValue
    case integer.integer =>
      cases hValue
      exact Agree.refl _
    case list.list =>
      cases hValue
      exact Agree.refl _
    case type.type => exact Agree.errors _ _
  · exact Agree.errors _ _

theorem allRetiredIds_agree {options options' : List OptionDecl}
    (hSame : List.Forall₂ (fun option option' => option.spanless = option'.spanless) options
      options') : Agree (scope.allRetiredIds options) (scope'.allRetiredIds options') := by
  rw [allRetiredIds, allRetiredIds]
  refine (Agree.mapM (hSame.imp fun _ _ => retiredIds_agree)).bind fun ids => Agree.refl _

theorem setOption_agree (hScopes : scope.Alike scope') {option option' : OptionDecl}
    (hSame : option.spanless = option'.spanless) (settings : ServiceSettings) :
    Agree (scope.setOption settings option) (scope'.setOption settings option') := by
  obtain ⟨key, value, span⟩ := option
  obtain ⟨key', value', span'⟩ := option'
  obtain ⟨rfl, hValue⟩ : key = key' ∧ value.spanless = value'.spanless := by
    simpa [OptionDecl.spanless] using hSame
  simp only [setOption]
  split
  · exact Agree.errors _ _
  next known _ =>
    split
    · exact Agree.errors _ _
    · cases value <;> cases value' <;> simp only [OptionValue.spanless, reduceCtorEq] at hValue
      case integer.integer =>
        cases hValue
        cases known
        case id => exact Agree.refl _
        all_goals exact Agree.errors _ _
      case list.list => cases known <;> exact Agree.errors _ _
      case type.type type type' =>
        have hUsage := usage_agree hScopes type type' (by simpa using hValue)
        cases known
        case id => exact Agree.errors _ _
        all_goals exact hUsage.bind fun usage => Agree.refl _

end Scope

/-! ## Declarations -/

namespace Resolved

variable {table table' : List Declaration}

theorem inside_alike (hTables : Declaration.LookupsAlike table table') (owner : Identifier)
    (params : List String) :
    (Scope.inside owner params table).Alike (Scope.inside owner params table') :=
  ⟨rfl, rfl, hTables⟩

theorem bodyOf_agree (hTables : Declaration.LookupsAlike table table') (owner : Identifier)
    {body body' : DeclarationBody} (hSame : body.spanless = body'.spanless) :
    Agree (bodyOf table owner body) (bodyOf table' owner body') := by
  cases body <;> cases body' <;> simp only [DeclarationBody.spanless, reduceCtorEq] at hSame
  case builtin.builtin =>
    cases hSame
    exact Agree.refl _
  case message.message decl decl' =>
    have hDecl := DeclarationBody.message.inj hSame
    have hScopes := inside_alike hTables owner decl.params
    rw [bodyOf, bodyOf, ← ModelDecl.params_eq hDecl]
    have hParts := (ModelDecl.parts_alike hDecl).imp fun _ _ => Scope.field_agree hScopes
    refine (Agree.mapM hParts).bind fun fields => ?_
    exact (Scope.allRetiredIds_agree (ModelDecl.options_alike hDecl)).bind fun ids => Agree.refl _
  case tag.tag decl decl' =>
    have hDecl := DeclarationBody.tag.inj hSame
    have hScopes := inside_alike hTables owner decl.params
    rw [bodyOf, bodyOf, ← ModelDecl.params_eq hDecl]
    refine (Agree.mapM ((ModelDecl.parts_alike hDecl).imp fun _ _ =>
      Scope.variant_agree hScopes)).bind fun variants => ?_
    exact (Scope.allRetiredIds_agree (ModelDecl.options_alike hDecl)).bind fun ids => Agree.refl _
  case service.service decl decl' =>
    have hOptions : decl.options.map OptionDecl.spanless = decl'.options.map OptionDecl.spanless :=
      congrArg ServiceDecl.options (DeclarationBody.service.inj hSame)
    have hScopes := inside_alike hTables owner []
    have hSteps := (forall₂_of_map_eq hOptions).imp fun _ _ => Scope.setOption_agree hScopes
    rw [bodyOf, bodyOf, Scope.service, Scope.service]
    refine (Agree.foldlM hSteps _).bind fun settings => ?_
    split
    case h_4 => exact Agree.refl _
    all_goals exact Agree.errors _ _

theorem ofDeclaration_agree (hTables : Declaration.LookupsAlike table table')
    {declaration declaration' : Declaration}
    (hSame : declaration.spanless = declaration'.spanless) :
    Agree (ofDeclaration table declaration) (ofDeclaration table' declaration') := by
  obtain ⟨identifier, body⟩ := declaration
  obtain ⟨identifier', body'⟩ := declaration'
  obtain ⟨rfl, hBody⟩ : identifier = identifier' ∧ body.spanless = body'.spanless := by
    simpa [Declaration.spanless] using hSame
  exact (bodyOf_agree hTables identifier hBody).bind fun found => Agree.refl _

end Resolved

end Interchange.Schema

import Interchange.Proofs.Result
import Interchange.Schema.Usage
import Mathlib.Data.List.Nodup

/-!
# Resolved declarations

What later phases may rely on once the names of all declarations are looked up. Full names differ,
the built-in types are there, and every type names a model of the table or a parameter of the
declaration around it.

* `Declaration.collect_lawful`: the table of a list of files.
* `Scope.usage_scoped`: a type with its names looked up.
* `Resolved.all_sound`: all declarations of a table.
-/

namespace Interchange.Schema

/-! ## Tables of declarations -/

/-- Full names differ, every built-in type is there, and nothing else is built in. -/
structure Declaration.Lawful (table : List Declaration) : Prop where
  names : (table.map Declaration.identifier).Nodup
  builtins : ∀ declaration ∈ Declaration.builtins, declaration ∈ table
  kinds : ∀ declaration ∈ table, ∀ kind, declaration.body = .builtin kind →
    declaration.identifier = kind.identifier

namespace Declaration

theorem find?_eq_some {table : List Declaration} {identifier : Identifier}
    {declaration : Declaration} (hFind : find? table identifier = some declaration) :
    declaration ∈ table ∧ declaration.identifier = identifier := by
  have hName := List.find?_some hFind
  exact ⟨List.mem_of_find?_eq_some hFind, by simpa using hName⟩

theorem find?_eq_none {table : List Declaration} {identifier : Identifier}
    (hFind : find? table identifier = none) : identifier ∉ table.map Declaration.identifier := by
  intro hMem
  obtain ⟨declaration, hDeclaration, rfl⟩ := List.mem_map.1 hMem
  have hOther := List.find?_eq_none.1 hFind declaration hDeclaration
  simp at hOther

theorem builtins_lawful : Lawful builtins where
  names := by decide
  builtins _ hMem := hMem
  kinds declaration hMem kind hKind := by
    obtain ⟨other, _, rfl⟩ := List.mem_map.1 hMem
    cases hKind
    rfl

/-- No declaration of a file is a built-in type. -/
theorem entries_not_builtin (scope : String) (statements : List Statement) :
    ∀ declaration, Entry.declared declaration ∈ entries scope statements →
      ∀ kind, declaration.body ≠ .builtin kind := by
  induction scope, statements using entries.induct with
  | case1 scope => simp [entries]
  | case2 scope name span rest inner ih =>
    intro declaration hMem
    rw [entries] at hMem
    rcases List.mem_cons.1 hMem with hEq | hMem
    · cases hEq
    · exact ih declaration hMem
  | case3 scope name body span rest inner ihBody ihRest =>
    intro declaration hMem
    rw [entries] at hMem
    rcases List.mem_cons.1 hMem with hEq | hMem
    · cases hEq
    · rcases List.mem_append.1 hMem with hMem | hMem
      · exact ihBody declaration hMem
      · exact ihRest declaration hMem
  | case4 scope decl rest ih | case5 scope decl rest ih | case6 scope decl rest ih =>
    intro declaration hMem kind
    rw [entries] at hMem
    rcases List.mem_cons.1 hMem with hEq | hMem
    · cases hEq
      simp
    · exact ih declaration hMem kind

theorem register_lawful {table later : List Declaration} {entry : Entry} (hTable : Lawful table)
    (hEntry : ∀ declaration, entry = .declared declaration →
      ∀ kind, declaration.body ≠ .builtin kind)
    (hRun : register table entry = .ok later) : Lawful later := by
  cases entry with
  | entered path =>
    rw [register] at hRun
    split at hRun
    · cases hRun
    · cases hRun
      exact hTable
  | declared declaration =>
    rw [register] at hRun
    split at hRun
    · cases hRun
    next hFind =>
      cases hRun
      refine ⟨?_, ?_, ?_⟩
      · rw [List.map_append, List.map_singleton]
        refine List.nodup_append.2 ⟨hTable.names, by simp, ?_⟩
        intro name hName other hOther hEq
        obtain rfl := List.mem_singleton.1 hOther
        exact find?_eq_none hFind (hEq ▸ hName)
      · intro builtin hBuiltin
        exact List.mem_append_left _ (hTable.builtins builtin hBuiltin)
      · intro other hOther kind hKind
        rcases List.mem_append.1 hOther with hOther | hOther
        · exact hTable.kinds other hOther kind hKind
        · obtain rfl := List.mem_singleton.1 hOther
          exact absurd hKind (hEntry other rfl kind)

/-- The table of a list of files. -/
theorem collect_lawful {files : List SourceFile} {table : List Declaration}
    (hRun : collect files = .ok table) : Lawful table := by
  refine foldlM_invariant Lawful builtins_lawful ?_ hRun
  intro earlier entry hEntry later hEarlier hStep
  obtain ⟨file, _, hEntry⟩ := List.mem_flatMap.1 hEntry
  refine register_lawful hEarlier ?_ hStep
  rintro declaration rfl
  exact entries_not_builtin "" file.statements declaration hEntry

end Declaration

/-! ## Types in scope -/

/-- Every name of a type stands for something known, and every parameter is below `arity`. -/
inductive Usage.Scoped (known : Identifier → Prop) (arity : Nat) : Usage → Prop
  | parameter {index : Nat} (hIndex : index < arity) : Scoped known arity (.parameter index)
  | model {target : Identifier} {args : List Usage} (hTarget : known target)
      (hArgs : ∀ arg ∈ args, Scoped known arity arg) : Scoped known arity (.model target args)

theorem Usage.Scoped.mono {known known' : Identifier → Prop} {arity : Nat} {usage : Usage}
    (hUsage : usage.Scoped known arity) (hKnown : ∀ target, known target → known' target) :
    usage.Scoped known' arity := by
  induction hUsage with
  | parameter hIndex => exact .parameter hIndex
  | model hTarget _ ih => exact .model (hKnown _ hTarget) ih

/-- A full name that a declaration other than a service has. -/
def Declaration.IsModel (table : List Declaration) (name : Identifier) : Prop :=
  ∃ declaration ∈ table, declaration.identifier = name ∧ declaration.body.isService = false

namespace Scope

theorem target?_mem {scope : Scope} {reference : Identifier} {declaration : Declaration}
    (hTarget : scope.target? reference = some declaration) : declaration ∈ scope.table := by
  simp only [target?] at hTarget
  split at hTarget
  next found hBuiltin =>
    cases hTarget
    split at hBuiltin
    · obtain ⟨kind, _, hFind⟩ := Option.bind_eq_some_iff.1 hBuiltin
      exact (Declaration.find?_eq_some hFind).1
    · cases hBuiltin
  next =>
    obtain ⟨path, _, hFind⟩ := List.exists_of_findSome?_eq_some hTarget
    exact (Declaration.find?_eq_some hFind).1

theorem parameter?_lt {scope : Scope} {reference : Identifier} {index : Nat}
    (hParameter : scope.parameter? reference = some index) : index < scope.params.length := by
  rw [parameter?] at hParameter
  split at hParameter
  · exact (List.findIdx?_eq_some_iff_getElem.1 hParameter).1
  · cases hParameter

mutual

/-- A type with its names looked up. -/
theorem usage_scoped (scope : Scope) :
    (type : TypeExpr) → ∀ usage, scope.usage type = .ok usage →
      usage.Scoped (Declaration.IsModel scope.table) scope.params.length
  | .mk name args span => by
    intro usage hRun
    rw [Scope.usage] at hRun
    split at hRun
    next index hIndex =>
      split at hRun
      · cases hRun
        exact .parameter (parameter?_lt hIndex)
      · cases hRun
    next =>
      split at hRun
      · cases hRun
      next declaration hTarget =>
        split at hRun
        · cases hRun
        next hService =>
          obtain ⟨found, hArgs, hUsage⟩ := bind_eq_ok.1 hRun
          cases hUsage
          refine .model ⟨declaration, target?_mem hTarget, rfl, by simpa using hService⟩ ?_
          exact usages_scoped scope args found hArgs

theorem usages_scoped (scope : Scope) :
    (types : List TypeExpr) → ∀ usages, scope.usages types = .ok usages → ∀ usage ∈ usages,
      usage.Scoped (Declaration.IsModel scope.table) scope.params.length
  | [] => by
    intro usages hRun
    cases hRun
    simp
  | type :: rest => by
    intro usages hRun
    rw [Scope.usages] at hRun
    obtain ⟨first, hFirst, hRun⟩ := bind_eq_ok.1 hRun
    obtain ⟨others, hOthers, hUsages⟩ := bind_eq_ok.1 hRun
    cases hUsages
    refine List.forall_mem_cons.2 ⟨usage_scoped scope type first hFirst, ?_⟩
    exact usages_scoped scope rest others hOthers

end

/-- What the options of a service have set so far is in scope. -/
def ServiceSettings.Scoped (table : List Declaration) (settings : ServiceSettings) : Prop :=
  ∀ usage, settings.input = some usage ∨ settings.output = some usage →
    usage.Scoped (Declaration.IsModel table) 0

theorem setOption_scoped {scope : Scope} {settings later : ServiceSettings} {option : OptionDecl}
    (hParams : scope.params = []) (hSettings : settings.Scoped scope.table)
    (hRun : scope.setOption settings option = .ok later) : later.Scoped scope.table := by
  have hScoped : ∀ type usage, scope.usage type = .ok usage →
      usage.Scoped (Declaration.IsModel scope.table) 0 := by
    intro type usage hUsage
    simpa [hParams] using usage_scoped scope type usage hUsage
  rw [setOption] at hRun
  split at hRun
  · cases hRun
  · split at hRun
    · cases hRun
    · split at hRun
      next =>
        obtain ⟨usage, hUsage, hLater⟩ := bind_eq_ok.1 hRun
        cases hLater
        rintro other (hOther | hOther)
        · cases hOther
          exact hScoped _ _ hUsage
        · exact hSettings other (Or.inr hOther)
      next =>
        obtain ⟨usage, hUsage, hLater⟩ := bind_eq_ok.1 hRun
        cases hLater
        rintro other (hOther | hOther)
        · exact hSettings other (Or.inl hOther)
        · cases hOther
          exact hScoped _ _ hUsage
      next =>
        cases hRun
        exact hSettings
      all_goals cases hRun

end Scope

/-! ## Resolved declarations -/

namespace ResolvedBody

/-- The number of type arguments that a declaration takes. -/
def arity : ResolvedBody → Nat
  | builtin kind => kind.arity
  | message params _ _ => params.length
  | tag params _ _ => params.length
  | service _ _ _ => 0

def isService : ResolvedBody → Bool
  | service _ _ _ => true
  | _ => false

end ResolvedBody

namespace Resolved

/-- A full name that a declaration other than a service has. -/
def IsModel (table : List Resolved) (name : Identifier) : Prop :=
  ∃ resolved ∈ table, resolved.identifier = name ∧ resolved.body.isService = false

/-- Full names differ, the built-in types are there and nothing else is built in, and every type is
in scope. -/
structure Sound (table : List Resolved) : Prop where
  names : (table.map Resolved.identifier).Nodup
  builtins : ∀ kind : Builtin, ⟨kind.identifier, .builtin kind⟩ ∈ table
  kinds : ∀ resolved ∈ table, ∀ kind, resolved.body = .builtin kind →
    resolved.identifier = kind.identifier
  usages : ∀ resolved ∈ table, ∀ usage ∈ resolved.body.usages,
    usage.Scoped (IsModel table) resolved.body.arity

theorem find?_eq_some {table : List Resolved} {identifier : Identifier} {resolved : Resolved}
    (hFind : find? table identifier = some resolved) :
    resolved ∈ table ∧ resolved.identifier = identifier := by
  have hName := List.find?_some hFind
  exact ⟨List.mem_of_find?_eq_some hFind, by simpa using hName⟩

/-- Where full names differ, a declaration is found under its own. -/
theorem find?_identifier {table : List Resolved} (hNames : (table.map Resolved.identifier).Nodup)
    {resolved : Resolved} (hMem : resolved ∈ table) :
    find? table resolved.identifier = some resolved := by
  cases hFind : find? table resolved.identifier with
  | none =>
    have hOther := List.find?_eq_none.1 hFind resolved hMem
    simp at hOther
  | some other =>
    obtain ⟨hOther, hName⟩ := find?_eq_some hFind
    rw [List.inj_on_of_nodup_map hNames hOther hMem hName]

/-- What a declaration's own phase gives: the kind stays, and every type is in scope. -/
structure Reflects (table : List Declaration) (body : DeclarationBody) (found : ResolvedBody) :
    Prop where
  service : found.isService = body.isService
  builtin : ∀ kind, found = .builtin kind ↔ body = .builtin kind
  usages : ∀ usage ∈ found.usages, usage.Scoped (Declaration.IsModel table) found.arity

theorem field_scoped {scope : Scope} {decls : List FieldDecl} {fields : List (ModelPart Usage)}
    (hRun : decls.mapM scope.field = .ok fields) : ∀ usage ∈ fields.map ModelPart.content,
      usage.Scoped (Declaration.IsModel scope.table) scope.params.length := by
  have hFields := mapM_eq_ok.1 hRun
  clear hRun
  induction hFields with
  | nil => simp
  | cons hFirst _ ih =>
    obtain ⟨usage, hUsage, hField⟩ := bind_eq_ok.1 hFirst
    cases hField
    exact List.forall_mem_cons.2 ⟨Scope.usage_scoped scope _ usage hUsage, ih⟩

theorem variant_scoped {scope : Scope} {decls : List VariantDecl}
    {variants : List (ModelPart (Option Usage))}
    (hRun : decls.mapM scope.variant = .ok variants) :
    ∀ usage ∈ variants.filterMap ModelPart.content,
      usage.Scoped (Declaration.IsModel scope.table) scope.params.length := by
  have hVariants := mapM_eq_ok.1 hRun
  clear hRun
  induction hVariants with
  | nil => simp
  | cons hFirst _ ih =>
    rw [Scope.variant] at hFirst
    split at hFirst
    · cases hFirst
      simpa using ih
    · obtain ⟨usage, hUsage, hVariant⟩ := bind_eq_ok.1 hFirst
      cases hVariant
      show ∀ other ∈ usage :: _, _
      exact List.forall_mem_cons.2 ⟨Scope.usage_scoped scope _ usage hUsage, ih⟩

theorem bodyOf_reflects {table : List Declaration} {owner : Identifier} {body : DeclarationBody}
    {found : ResolvedBody} (hRun : bodyOf table owner body = .ok found) :
    Reflects table body found := by
  cases body with
  | builtin kind =>
    cases hRun
    exact ⟨rfl, by simp, by simp [ResolvedBody.usages]⟩
  | message decl =>
    obtain ⟨fields, hFields, hRun⟩ := bind_eq_ok.1 hRun
    obtain ⟨retired, _, hFound⟩ := bind_eq_ok.1 hRun
    cases hFound
    exact ⟨rfl, by simp, field_scoped hFields⟩
  | tag decl =>
    obtain ⟨variants, hVariants, hRun⟩ := bind_eq_ok.1 hRun
    obtain ⟨retired, _, hFound⟩ := bind_eq_ok.1 hRun
    cases hFound
    exact ⟨rfl, by simp, variant_scoped hVariants⟩
  | service decl =>
    obtain ⟨settings, hSettings, hRun⟩ := bind_eq_ok.1 hRun
    have hScoped : settings.Scoped table := by
      refine foldlM_invariant (Scope.ServiceSettings.Scoped table) ?_ ?_ hSettings
      · rintro usage (hUsage | hUsage) <;> cases hUsage
      · intro earlier option _ later hEarlier hStep
        exact Scope.setOption_scoped rfl hEarlier hStep
    split at hRun
    all_goals cases hRun
    next input output id hInput hOutput hId =>
      refine ⟨rfl, by simp, ?_⟩
      simp only [ResolvedBody.usages, List.forall_mem_cons, List.not_mem_nil, false_implies,
        implies_true, and_true]
      exact ⟨hScoped input (Or.inl hInput), hScoped output (Or.inr hOutput)⟩

/-- The declarations of a table, one after the other. -/
theorem all_reflects {table : List Declaration} {found : List Resolved}
    (hRun : all table = .ok found) :
    List.Forall₂ (fun declaration resolved => resolved.identifier = declaration.identifier ∧
      Reflects table declaration.body resolved.body) table found := by
  refine (mapM_eq_ok.1 hRun).imp ?_
  intro declaration resolved hOne
  obtain ⟨body, hBody, hResolved⟩ := bind_eq_ok.1 hOne
  cases hResolved
  exact ⟨rfl, bodyOf_reflects hBody⟩

/-- All declarations of a table. -/
theorem all_sound {table : List Declaration} {found : List Resolved}
    (hTable : Declaration.Lawful table) (hRun : all table = .ok found) : Sound found := by
  have hAll := all_reflects hRun
  have hNames := map_eq_map_of_forall₂ hAll fun _ _ _ hPair => hPair.1
  have hKnown : ∀ name, Declaration.IsModel table name → IsModel found name := by
    rintro name ⟨declaration, hMem, rfl, hService⟩
    obtain ⟨resolved, hFound, hName, hBody⟩ := exists_of_mem_left hAll hMem
    exact ⟨resolved, hFound, hName, hBody.service.trans hService⟩
  refine ⟨hNames ▸ hTable.names, ?_, ?_, ?_⟩
  · intro kind
    have hMem := hTable.builtins ⟨kind.identifier, .builtin kind⟩
      (List.mem_map.2 ⟨kind, kind.mem_all, rfl⟩)
    obtain ⟨⟨name, body⟩, hFound, rfl, hBody⟩ := exists_of_mem_left hAll hMem
    obtain rfl : body = .builtin kind := (hBody.builtin kind).2 rfl
    exact hFound
  · intro resolved hMem kind hKind
    obtain ⟨declaration, hDeclared, hName, hBody⟩ := exists_of_mem_right hAll hMem
    rw [hName]
    exact hTable.kinds declaration hDeclared kind ((hBody.builtin kind).1 hKind)
  · intro resolved hMem usage hUsage
    obtain ⟨declaration, _, _, hBody⟩ := exists_of_mem_right hAll hMem
    exact (hBody.usages usage hUsage).mono hKnown

end Resolved

end Interchange.Schema

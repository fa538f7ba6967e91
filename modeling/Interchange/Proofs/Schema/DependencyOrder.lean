import Interchange.Proofs.Graph.Order
import Interchange.Proofs.Schema.Resolution
import Interchange.Schema.Compile

/-!
# The order of declarations

Declarations are put into an order in which each stands behind the models it names. That fails
exactly if some declaration needs itself, and then the error shows how.

* `Identifier.sort_eq`: full names can be sorted in one way only.
* `sortDeclarations_ok`: what a successful run returns.
* `sortDeclarations_error`: what a failing run returns.
* `sortDeclarations_complete`: both together, and when which of them happens.
-/

namespace Interchange.Schema

/-! ## The order of full names -/

namespace Identifier

theorem le_iff {a b : Identifier} :
    le a b = true ↔ a.scope < b.scope ∨ a.scope = b.scope ∧ a.name ≤ b.name := by
  simp [le]

theorem le_trans {a b c : Identifier} (hab : le a b = true) (hbc : le b c = true) :
    le a c = true := by
  rw [le_iff] at *
  rcases hab with hab | ⟨hab, hNames⟩
  · rcases hbc with hbc | ⟨hbc, _⟩
    · exact Or.inl (String.lt_trans hab hbc)
    · exact Or.inl (hbc ▸ hab)
  · rcases hbc with hbc | ⟨hbc, hOthers⟩
    · exact Or.inl (hab ▸ hbc)
    · exact Or.inr ⟨hab.trans hbc, String.le_trans hNames hOthers⟩

theorem le_total (a b : Identifier) : (le a b || le b a) = true := by
  rw [Bool.or_eq_true, le_iff, le_iff]
  by_cases hab : a.scope < b.scope
  · exact Or.inl (Or.inl hab)
  · by_cases hba : b.scope < a.scope
    · exact Or.inr (Or.inl hba)
    · have hEq : a.scope = b.scope := String.le_antisymm (String.not_lt.1 hba) (String.not_lt.1 hab)
      rcases String.le_total a.name b.name with hNames | hNames
      · exact Or.inl (Or.inr ⟨hEq, hNames⟩)
      · exact Or.inr (Or.inr ⟨hEq.symm, hNames⟩)

theorem le_antisymm {a b : Identifier} (hab : le a b = true) (hba : le b a = true) : a = b := by
  rw [le_iff] at *
  rcases hab with hab | ⟨hab, hNames⟩
  · rcases hba with hba | ⟨hba, _⟩
    · exact absurd hba (String.lt_asymm hab)
    · exact absurd (hba ▸ hab) (String.lt_irrefl _)
  · rcases hba with hba | ⟨_, hOthers⟩
    · exact absurd (hab ▸ hba) (String.lt_irrefl _)
    · cases a
      cases b
      cases hab
      cases String.le_antisymm hNames hOthers
      rfl

theorem sort_pairwise (ids : List Identifier) : (sort ids).Pairwise fun a b => le a b = true := by
  apply List.pairwise_mergeSort
  · intro a b c
    exact le_trans
  · exact le_total

/-- Full names can be sorted in one way only. -/
theorem sort_eq {ids sorted : List Identifier} (hPerm : ids.Perm sorted)
    (hSorted : sorted.Pairwise fun a b => le a b = true) : sort ids = sorted := by
  refine ((List.mergeSort_perm ids le).trans hPerm).eq_of_pairwise ?_ (sort_pairwise ids) hSorted
  intro a b _ _
  exact le_antisymm

theorem sort_perm {ids ids' : List Identifier} (hPerm : ids.Perm ids') : sort ids = sort ids' :=
  sort_eq (hPerm.trans (List.mergeSort_perm ids' le).symm) (sort_pairwise ids')

end Identifier

/-! ## Dependencies -/

theorem Usage.mem_targetsOfAll {target : Identifier} {usages : List Usage} :
    target ∈ Usage.targetsOfAll usages ↔ ∃ usage ∈ usages, target ∈ usage.targets := by
  induction usages with
  | nil => simp [Usage.targetsOfAll]
  | cons usage rest ih => simp [Usage.targetsOfAll, ih]

/-- Types in scope name known models only. -/
theorem Usage.Scoped.mem_targets {known : Identifier → Prop} {arity : Nat} {usage : Usage}
    (hUsage : usage.Scoped known arity) : ∀ target ∈ usage.targets, known target := by
  induction hUsage with
  | parameter => simp [Usage.targets]
  | model hTarget _ ih =>
    intro target hMem
    rw [Usage.targets] at hMem
    rcases List.mem_cons.1 hMem with rfl | hMem
    · exact hTarget
    · obtain ⟨arg, hArg, hMem⟩ := Usage.mem_targetsOfAll.1 hMem
      exact ih arg hArg target hMem

namespace Resolved

/-- Full names differ, and every model that a type names is declared. -/
structure Closed (table : List Resolved) : Prop where
  names : (table.map Resolved.identifier).Nodup
  targets : ∀ resolved ∈ table, ∀ target ∈ resolved.dependencies,
    target ∈ table.map Resolved.identifier

/-- The declaration with one full name names the other. -/
def DependsOn (table : List Resolved) (name target : Identifier) : Prop :=
  ∃ resolved ∈ table, resolved.identifier = name ∧ target ∈ resolved.dependencies

/-- Every declaration stands behind the models that it names. -/
def DependenciesFirst (sorted : List Resolved) : Prop :=
  ∀ before resolved after, sorted = before ++ resolved :: after →
    ∀ target ∈ resolved.dependencies, ∃ earlier ∈ before, earlier.identifier = target

/-- A way from a declaration back to itself, along which each names the next and no other full name
comes twice. -/
def CyclicPath (table : List Resolved) (path : List Identifier) : Prop :=
  ∃ name inner, path = name :: inner ++ [name] ∧ (name :: inner).Nodup ∧
    path.IsChain (DependsOn table)

theorem mem_needs {table : List Resolved} (hNames : (table.map Resolved.identifier).Nodup)
    {name target : Identifier} : target ∈ needs table name ↔ DependsOn table name target := by
  rw [needs]
  constructor
  · intro hTarget
    split at hTarget
    next resolved hFind =>
      obtain ⟨hMem, hName⟩ := find?_eq_some hFind
      exact ⟨resolved, hMem, hName, hTarget⟩
    next => simp at hTarget
  · rintro ⟨resolved, hMem, rfl, hTarget⟩
    rw [find?_identifier hNames hMem]
    exact hTarget

theorem Sound.closed {table : List Resolved} (hTable : Sound table) : Closed table where
  names := hTable.names
  targets resolved hMem target hTarget := by
    obtain ⟨usage, hUsage, hTarget⟩ := List.mem_flatMap.1 hTarget
    obtain ⟨other, hOther, rfl, _⟩ :=
      (hTable.usages resolved hMem usage hUsage).mem_targets target hTarget
    exact List.mem_map_of_mem hOther

end Resolved

open Resolved

/-- The full names in order are the full names of the table. -/
theorem order_perm {table : List Resolved} {order : List Identifier}
    (hNames : (table.map Resolved.identifier).Nodup)
    (hOrdered : Graph.Ordered (Identifier.sort (table.map Resolved.identifier)) (needs table) order)
    (hAll : ∀ name ∈ Identifier.sort (table.map Resolved.identifier), name ∈ order) :
    order.Perm (table.map Resolved.identifier) := by
  have hSort : (Identifier.sort (table.map Resolved.identifier)).Perm
      (table.map Resolved.identifier) := List.mergeSort_perm _ _
  refine (List.perm_ext_iff_of_nodup hOrdered.nodup hNames).2 ?_
  intro name
  constructor
  · intro hName
    exact hSort.mem_iff.1 (hOrdered.known name hName)
  · intro hName
    exact hAll name (hSort.mem_iff.2 hName)

/-- Looking up the full names of a table gives the table back. -/
theorem filterMap_find?_names {table : List Resolved}
    (hNames : (table.map Resolved.identifier).Nodup) :
    (table.map Resolved.identifier).filterMap (Resolved.find? table) = table := by
  rw [List.filterMap_map]
  have hSome : ∀ resolved ∈ table,
      (Resolved.find? table ∘ Resolved.identifier) resolved = some resolved :=
    fun resolved hMem => find?_identifier hNames hMem
  rw [List.filterMap_congr hSome, List.filterMap_some]

/-- Every full name of a table is looked up successfully. -/
theorem map_identifier_filterMap_find? {table : List Resolved} {order : List Identifier}
    (hNames : (table.map Resolved.identifier).Nodup)
    (hKnown : ∀ name ∈ order, name ∈ table.map Resolved.identifier) :
    (order.filterMap (Resolved.find? table)).map Resolved.identifier = order := by
  induction order with
  | nil => rfl
  | cons name rest ih =>
    obtain ⟨⟨resolved, hMem, rfl⟩, hRest⟩ :=
      (List.forall_mem_cons.1 hKnown).imp_left List.mem_map.1
    rw [List.filterMap_cons_some (find?_identifier hNames hMem), List.map_cons, ih hRest]

/-! ## The two results -/

/-- A successful run looks up full names that stand in dependency order. -/
theorem sortDeclarations_eq_ok {table sorted : List Resolved}
    (hRun : sortDeclarations table = .ok sorted) :
    ∃ order, sorted = order.filterMap (Resolved.find? table) ∧
      Graph.Ordered (Identifier.sort (table.map Resolved.identifier)) (needs table) order ∧
      ∀ name ∈ Identifier.sort (table.map Resolved.identifier), name ∈ order := by
  have hOutcome := Graph.order_outcome (Identifier.sort (table.map Resolved.identifier))
    (needs table)
  simp only [sortDeclarations] at hRun
  split at hRun
  next order hOrder =>
    cases hRun
    rw [hOrder] at hOutcome
    obtain ⟨⟨hOrdered, _, _⟩, hAll⟩ := hOutcome
    exact ⟨order, rfl, hOrdered, fun name hName => hAll name hName hName⟩
  next => cases hRun

/-- A successful run returns every declaration once, each behind the models it names. -/
theorem sortDeclarations_ok {table sorted : List Resolved} (hTable : Closed table)
    (hRun : sortDeclarations table = .ok sorted) :
    sorted.Perm table ∧ DependenciesFirst sorted := by
  obtain ⟨order, rfl, hOrdered, hAll⟩ := sortDeclarations_eq_ok hRun
  have hPerm := order_perm hTable.names hOrdered hAll
  have hFound := hPerm.filterMap (Resolved.find? table)
  rw [filterMap_find?_names hTable.names] at hFound
  refine ⟨hFound, ?_⟩
  intro before resolved after hSplit target hTarget
  have hMem : resolved ∈ table := by
    apply hFound.mem_iff.1
    simp [hSplit]
  -- The full names of the result are the order itself, so the split carries over to it.
  have hNames : order = before.map Resolved.identifier ++
      resolved.identifier :: after.map Resolved.identifier := by
    rw [← List.map_cons, ← List.map_append, ← hSplit]
    exact (map_identifier_filterMap_find? hTable.names fun name => hPerm.mem_iff.1).symm
  have hEarlier := hOrdered.settled _ _ _ hNames target
    ((mem_needs hTable.names).2 ⟨resolved, hMem, rfl, hTarget⟩)
    ((List.mergeSort_perm _ _).mem_iff.2 (hTable.targets resolved hMem target hTarget))
  exact List.mem_map.1 hEarlier

/-- Where a run succeeds no declaration needs itself. -/
theorem acyclic_of_sortDeclarations {table sorted : List Resolved} (hTable : Closed table)
    (hRun : sortDeclarations table = .ok sorted) (name : Identifier) :
    ¬ Relation.TransGen (DependsOn table) name name := by
  obtain ⟨order, _, hOrdered, hAll⟩ := sortDeclarations_eq_ok hRun
  intro hCycle
  refine hOrdered.acyclic hAll ?_ name
    (Relation.TransGen.mono (fun _ _ => (mem_needs hTable.names).2) _ _ hCycle)
  intro source target hNeeded
  obtain ⟨resolved, hMem, rfl, hTarget⟩ := (mem_needs hTable.names).1 hNeeded
  have hSort := List.mergeSort_perm (table.map Resolved.identifier) Identifier.le
  exact ⟨hSort.mem_iff.2 (List.mem_map_of_mem hMem),
    hSort.mem_iff.2 (hTable.targets resolved hMem target hTarget)⟩

/-- A failing run returns a way from a declaration back to itself. -/
theorem sortDeclarations_error {table : List Resolved} {error : CompileError}
    (hTable : Closed table) (hRun : sortDeclarations table = .error error) :
    ∃ path, error = .circularDependency path ∧ CyclicPath table path := by
  have hOutcome := Graph.order_outcome (Identifier.sort (table.map Resolved.identifier))
    (needs table)
  simp only [sortDeclarations] at hRun
  split at hRun
  next => cases hRun
  next path hOrder =>
    cases hRun
    rw [hOrder] at hOutcome
    obtain ⟨name, inner, hPath, hNodup, hChain⟩ := hOutcome
    refine ⟨path, rfl, name, inner, hPath, hNodup, ?_⟩
    exact hChain.imp fun _ _ => (mem_needs hTable.names).1

/-- A cyclic path leads from its first declaration back to it. -/
theorem Resolved.CyclicPath.transGen {table : List Resolved} {path : List Identifier}
    (hTable : Closed table) (hPath : CyclicPath table path) :
    ∃ name, Relation.TransGen (DependsOn table) name name := by
  obtain ⟨name, inner, rfl, hNodup, hChain⟩ := hPath
  have hCycle : Graph.IsCycle (needs table) (name :: inner ++ [name]) :=
    ⟨name, inner, rfl, hNodup, hChain.imp fun _ _ => (mem_needs hTable.names).2⟩
  obtain ⟨other, hOther⟩ := hCycle.transGen
  exact ⟨other, Relation.TransGen.mono (fun _ _ => (mem_needs hTable.names).1) _ _ hOther⟩

/-- Where every declaration ranks above the models that it names, the run succeeds. -/
theorem sortDeclarations_of_rank {table : List Resolved} (hTable : Closed table)
    (rank : Identifier → Nat)
    (hRank : ∀ resolved ∈ table, ∀ target ∈ resolved.dependencies,
      rank target < rank resolved.identifier) : ∃ sorted, sortDeclarations table = .ok sorted := by
  have hDecreases : ∀ {name target}, Relation.TransGen (DependsOn table) name target →
      rank target < rank name := by
    intro name target hPath
    induction hPath with
    | single hStep =>
      obtain ⟨resolved, hMem, rfl, hTarget⟩ := hStep
      exact hRank resolved hMem _ hTarget
    | tail _ hStep ih =>
      obtain ⟨resolved, hMem, rfl, hTarget⟩ := hStep
      exact (hRank resolved hMem _ hTarget).trans ih
  cases hRun : sortDeclarations table with
  | ok sorted => exact ⟨sorted, rfl⟩
  | error error =>
    obtain ⟨path, _, hPath⟩ := sortDeclarations_error hTable hRun
    obtain ⟨name, hCycle⟩ := hPath.transGen hTable
    exact absurd (hDecreases hCycle) (Nat.lt_irrefl _)

/-- Declarations are put into dependency order, each of them once, or the error shows how one of
them needs itself; and the error comes exactly if one of them does. -/
theorem sortDeclarations_complete {table : List Resolved} (hTable : Closed table) :
    ((∃ sorted, sortDeclarations table = .ok sorted ∧ sorted.Perm table ∧
        DependenciesFirst sorted) ∨
      ∃ path, sortDeclarations table = .error (.circularDependency path) ∧
        CyclicPath table path) ∧
    ((∃ error, sortDeclarations table = .error error) ↔
      ∃ name, Relation.TransGen (DependsOn table) name name) := by
  cases hRun : sortDeclarations table with
  | ok sorted =>
    obtain ⟨hPerm, hFirst⟩ := sortDeclarations_ok hTable hRun
    refine ⟨Or.inl ⟨sorted, rfl, hPerm, hFirst⟩, ?_⟩
    constructor
    · rintro ⟨error, hError⟩
      cases hError
    · rintro ⟨name, hCycle⟩
      exact absurd hCycle (acyclic_of_sortDeclarations hTable hRun name)
  | error error =>
    obtain ⟨path, rfl, hPath⟩ := sortDeclarations_error hTable hRun
    refine ⟨Or.inr ⟨path, rfl, hPath⟩, ?_⟩
    constructor
    · rintro _
      exact hPath.transGen hTable
    · rintro _
      exact ⟨_, rfl⟩

/-- Two messages that hold each other. -/
def entangled : List Resolved :=
  [⟨⟨"app", "Left"⟩, .message [] [⟨1, "right", .model ⟨"app", "Right"⟩ []⟩] []⟩,
    ⟨⟨"app", "Right"⟩, .message [] [⟨1, "left", .model ⟨"app", "Left"⟩ []⟩] []⟩]

theorem sortDeclarations_entangled :
    Closed entangled ∧ ∃ error, sortDeclarations entangled = .error error := by
  have hClosed : Closed entangled := ⟨by decide, by decide⟩
  have hThere : DependsOn entangled ⟨"app", "Left"⟩ ⟨"app", "Right"⟩ :=
    ⟨_, List.mem_cons_self, rfl, by decide⟩
  have hBack : DependsOn entangled ⟨"app", "Right"⟩ ⟨"app", "Left"⟩ :=
    ⟨_, List.mem_cons_of_mem _ List.mem_cons_self, rfl, by decide⟩
  exact ⟨hClosed, (sortDeclarations_complete hClosed).2.2 ⟨_, .tail (.single hThere) hBack⟩⟩

end Interchange.Schema

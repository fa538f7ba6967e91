import Interchange.Proofs.Result
import Interchange.Proofs.Source.Paths
import Interchange.Source.Load

/-!
# The schema files below a root

Loading walks the tree below a root and sorts what it finds by names. The names that lead to the
files of a tree differ, so the sorted list is strictly ascending, and it is the only one with these
members. Which order the directories list their entries in makes no difference for the names that
lead to a file. So it makes none for what is loaded.

* `isSchemaName_iff`: the names of schema files.
* `namesLe_iff`, `sortFound_ascending`: the order of the files.
* `Relists`: a directory lists its entries in another order.
* `Accessible`, `mem_schemaFiles`: the walk finds the schema files.
* `nodup_schemaFiles`: it finds each of them once.
* `loadSources_listing`: the sources that are loaded.
-/

namespace Interchange.Source

/-! ## Names of schema files -/

theorem splitExtension?_eq_none {chars : List Char} (hDot : '.' ∉ chars) :
    splitExtension? chars = none := by
  induction chars with
  | nil => rfl
  | cons c rest ih =>
    rw [List.mem_cons, not_or] at hDot
    rw [splitExtension?, ih hDot.2, if_neg fun hSame => hDot.1 hSame.symm]

theorem splitExtension?_append {extension : List Char} (hDot : '.' ∉ extension) (stem : List Char) :
    splitExtension? (stem ++ '.' :: extension) = some (stem, extension) := by
  induction stem with
  | nil => rw [List.nil_append, splitExtension?, splitExtension?_eq_none hDot, if_pos rfl]
  | cons c stem ih => rw [List.cons_append, splitExtension?, ih]

theorem append_of_splitExtension? {chars stem extension : List Char}
    (hSplit : splitExtension? chars = some (stem, extension)) :
    chars = stem ++ '.' :: extension := by
  induction chars generalizing stem with
  | nil => cases hSplit
  | cons c rest ih =>
    rw [splitExtension?] at hSplit
    split at hSplit
    next before after hRest =>
      cases hSplit
      rw [List.cons_append, ← ih hRest]
    next =>
      split at hSplit
      next hDot =>
        cases hSplit
        rw [hDot, List.nil_append]
      · cases hSplit

/-- The name of a schema file: something, and then `.ks`. -/
def SchemaNamed (name : String) : Prop :=
  ∃ stem, stem ≠ "" ∧ name = stem ++ ".ks"

theorem isSchemaName_iff {name : String} : isSchemaName name = true ↔ SchemaNamed name := by
  rw [isSchemaName, beq_iff_eq, extension?]
  constructor
  · intro hExtension
    split at hExtension
    next c stem extension hSplit =>
      have hText := append_of_splitExtension? hSplit
      rw [Option.some_inj, ← String.toList_inj, String.toList_ofList] at hExtension
      refine ⟨String.ofList (c :: stem), by simp [← String.toList_inj], ?_⟩
      rw [← String.toList_inj, hText, hExtension, String.toList_append, String.toList_ofList]
      rfl
    next => cases hExtension
  · rintro ⟨stem, hStem, rfl⟩
    have hSplit : splitExtension? (stem ++ ".ks").toList = some (stem.toList, ['k', 's']) := by
      rw [String.toList_append]
      exact splitExtension?_append (by decide) stem.toList
    rw [hSplit]
    cases hChars : stem.toList with
    | nil => exact absurd (by simpa using hChars) hStem
    | cons c chars => rfl

/-! ## The order of files -/

theorem namesLe_iff {names others : List String} :
    namesLe names others = true ↔ names ≤ others := by
  induction names generalizing others with
  | nil =>
    cases others with
    | nil => exact ⟨fun _ => le_refl _, fun _ => rfl⟩
    | cons other others => exact ⟨fun _ => le_of_lt (List.nil_lt_cons other others), fun _ => rfl⟩
  | cons name names ih =>
    cases others with
    | nil => exact iff_of_false Bool.false_ne_true (not_le_of_gt (List.nil_lt_cons name names))
    | cons other others =>
      rw [namesLe, Bool.or_eq_true, Bool.and_eq_true, decide_eq_true_iff, beq_iff_eq, ih,
        le_iff_lt_or_eq, le_iff_lt_or_eq, List.cons_lt_cons_iff, List.cons_eq_cons]
      tauto

/-- What is found, in the order of the names. -/
def sortFound (found : List Found) : List Found :=
  found.mergeSort fun a b => namesLe a.names b.names

theorem sortFound_perm (found : List Found) : (sortFound found).Perm found :=
  List.mergeSort_perm _ _

/-- Where names differ, they are strictly ascending once they are sorted. -/
theorem sortFound_ascending {found : List Found} (hNames : (found.map Found.names).Nodup) :
    (sortFound found).Pairwise fun a b => a.names < b.names := by
  have hSorted : (sortFound found).Pairwise fun a b => namesLe a.names b.names = true := by
    apply List.pairwise_mergeSort
    · intro a b c hab hbc
      rw [namesLe_iff] at *
      exact le_trans hab hbc
    · intro a b
      rw [Bool.or_eq_true, namesLe_iff, namesLe_iff]
      exact le_total a.names b.names
  have hDiffer := List.pairwise_map.1 (((sortFound_perm found).map Found.names).nodup_iff.2 hNames)
  refine hSorted.imp₂ ?_ hDiffer
  intro a b hLe hNe
  exact lt_of_le_of_ne (namesLe_iff.1 hLe) hNe

/-- Ascending lists with the same members are equal. -/
theorem eq_of_ascending {α : Type} (key : α → List String) {xs ys : List α}
    (hxs : xs.Pairwise fun a b => key a < key b) (hys : ys.Pairwise fun a b => key a < key b)
    (hMem : ∀ x, x ∈ xs ↔ x ∈ ys) : xs = ys := by
  have hNodup : ∀ {zs : List α}, (zs.Pairwise fun a b => key a < key b) → zs.Nodup := by
    intro zs hzs
    refine hzs.imp ?_
    rintro a _ hLt rfl
    exact lt_irrefl _ hLt
  have hPerm := (List.perm_ext_iff_of_nodup (hNodup hxs) (hNodup hys)).2 hMem
  refine hPerm.eq_of_pairwise ?_ hxs hys
  intro a b _ _ hab hba
  exact absurd hba (lt_asymm hab)

/-! ## Other orders of listing -/

namespace Node

/-- One directory of a tree lists its entries in another order. -/
inductive Relists : Node → Node → Prop
  | here {entries others : List (String × Node)} (hPerm : entries.Perm others) :
      Relists (.directory entries) (.directory others)
  | inside {before after : List (String × Node)} {name : String} {child other : Node}
      (hChild : Relists child other) :
      Relists (.directory (before ++ (name, child) :: after))
        (.directory (before ++ (name, other) :: after))

/-- The directories of a tree list their entries in other orders. -/
def Relisted : Node → Node → Prop :=
  Relation.ReflTransGen Relists

theorem Relists.symm {node other : Node} (hRelists : Relists node other) : Relists other node := by
  induction hRelists with
  | here hPerm => exact .here hPerm.symm
  | inside _ ih => exact .inside ih

/-- The same names lead to the same node, or to one of whose directories one lists in another
order. -/
theorem Relists.leads {node other found : Node} {names : List String}
    (hRelists : Relists node other) (hLeads : node.Leads names found) :
    other.Leads names found ∨ ∃ change, other.Leads names change ∧ Relists found change := by
  induction hRelists generalizing names with
  | @here entries others hPerm =>
    cases hLeads with
    | here => exact Or.inr ⟨_, .here _, .here hPerm⟩
    | entry hEntry hBelow => exact Or.inl (.entry (hPerm.mem_iff.1 hEntry) hBelow)
  | @inside before after name child other hChild ih =>
    cases hLeads with
    | here => exact Or.inr ⟨_, .here _, .inside hChild⟩
    | @entry _ entryName entry _ names hEntry hBelow =>
      have hNew : (name, other) ∈ before ++ (name, other) :: after :=
        List.mem_append_right _ List.mem_cons_self
      -- The way leads through the entry that is listed anew, or through one beside it.
      rcases List.mem_append.1 hEntry with hBefore | hRest
      · exact Or.inl (.entry (List.mem_append_left _ hBefore) hBelow)
      · rcases List.mem_cons.1 hRest with hSame | hAfter
        · cases hSame
          rcases ih hBelow with hFound | ⟨change, hFound, hChange⟩
          · exact Or.inl (.entry hNew hFound)
          · exact Or.inr ⟨change, .entry hNew hFound, hChange⟩
        · exact Or.inl (.entry (List.mem_append_right _ (List.mem_cons_of_mem _ hAfter)) hBelow)

theorem Relists.wellNamed {node other : Node} (hRelists : Relists node other)
    (hNode : node.WellNamed) :
    other.WellNamed := by
  induction hRelists with
  | here hPerm =>
    cases hNode with
    | directory hDistinct hNames hBelow =>
      refine .directory ((hPerm.map Prod.fst).nodup_iff.1 hDistinct) ?_ ?_
      · exact fun entry hEntry => hNames entry (hPerm.mem_iff.2 hEntry)
      · exact fun entry hEntry => hBelow entry (hPerm.mem_iff.2 hEntry)
  | @inside before after name child other _ ih =>
    cases hNode with
    | directory hDistinct hNames hBelow =>
      rw [List.map_append, List.map_cons] at hDistinct
      rw [List.forall_mem_append, List.forall_mem_cons] at hNames hBelow
      refine .directory ?_ ?_ ?_
      · rw [List.map_append, List.map_cons]
        exact hDistinct
      · exact List.forall_mem_append.2 ⟨hNames.1, List.forall_mem_cons.2 hNames.2⟩
      · exact List.forall_mem_append.2
          ⟨hBelow.1, List.forall_mem_cons.2 ⟨ih hBelow.2.1, hBelow.2.2⟩⟩

namespace Relisted

variable {node other : Node}

theorem symm (hRelisted : Relisted node other) : Relisted other node := by
  induction hRelisted with
  | refl => exact .refl
  | tail _ hLast ih => exact ih.head hLast.symm

theorem wellNamed (hRelisted : Relisted node other) (hNode : node.WellNamed) : other.WellNamed := by
  induction hRelisted with
  | refl => exact hNode
  | tail _ hLast ih => exact hLast.wellNamed ih

theorem leads_file (hRelisted : Relisted node other) {names : List String} {content : Bytes}
    (hLeads : node.Leads names (.file content)) : other.Leads names (.file content) := by
  induction hRelisted with
  | refl => exact hLeads
  | tail _ hLast ih =>
    rcases hLast.leads ih with hFound | ⟨change, _, hChange⟩
    · exact hFound
    · cases hChange

theorem leads_directory (hRelisted : Relisted node other) {names : List String}
    {entries : List (String × Node)} (hLeads : node.Leads names (.directory entries)) :
    ∃ others, other.Leads names (.directory others) := by
  induction hRelisted with
  | refl => exact ⟨entries, hLeads⟩
  | tail _ hLast ih =>
    obtain ⟨others, hOthers⟩ := ih
    rcases hLast.leads hOthers with hFound | ⟨change, hFound, hChange⟩
    · exact ⟨others, hFound⟩
    · cases hChange with
      | here => exact ⟨_, hFound⟩
      | inside => exact ⟨_, hFound⟩

end Relisted

end Node

/-! ## The walk -/

theorem schemaFiles_eq_flatMap (directory : String) (entries : List (String × Node)) :
    schemaFiles directory entries =
      entries.flatMap fun entry => nodeFiles (joinPath directory entry.1) entry.1 entry.2 := by
  induction entries with
  | nil => rw [schemaFiles, List.flatMap_nil]
  | cons entry rest ih => rw [schemaFiles, ih, List.flatMap_cons, entryFiles]

/-- No directory at or below a path has a path that is too long, and no schema file has. -/
structure Accessible (path name : String) (node : Node) : Prop where
  directories : ∀ (names : List String) (entries : List (String × Node)),
    node.Leads names (.directory entries) → isTooLong (names.foldl joinPath path) = false
  files : ∀ (names : List String) (content : Bytes), node.Leads names (.file content) →
    isSchemaName (names.getLastD name) = true → isTooLong (names.foldl joinPath path) = false

theorem Accessible.entry {path name : String} {entries : List (String × Node)}
    (hAccessible : Accessible path name (.directory entries)) {entry : String × Node}
    (hEntry : entry ∈ entries) : Accessible (joinPath path entry.1) entry.1 entry.2 where
  directories names inner hLeads :=
    hAccessible.directories (entry.1 :: names) inner (.entry hEntry hLeads)
  files names content hLeads hName := by
    refine hAccessible.files (entry.1 :: names) content (.entry hEntry hLeads) ?_
    rwa [List.getLastD_cons]

/-- A schema file at or below a node with this name: the names that lead to it, and its content. -/
def Node.HasSchema (node : Node) (name : String) (found : Found) : Prop :=
  ∃ names content, node.Leads names (.file content) ∧ isSchemaName (names.getLastD name) = true ∧
    found = ⟨name :: names, .ok content⟩

theorem hasSchema_file {content : Bytes} {name : String} {found : Found} :
    (Node.file content).HasSchema name found ↔
      isSchemaName name = true ∧ found = ⟨[name], .ok content⟩ := by
  constructor
  · rintro ⟨names, other, hLeads, hName, rfl⟩
    cases hLeads
    exact ⟨hName, rfl⟩
  · rintro ⟨hName, rfl⟩
    exact ⟨[], content, .here _, hName, rfl⟩

theorem hasSchema_directory {entries : List (String × Node)} {name : String} {found : Found} :
    (Node.directory entries).HasSchema name found ↔
      ∃ entry ∈ entries, ∃ inner, entry.2.HasSchema entry.1 inner ∧
        found = { inner with names := name :: inner.names } := by
  constructor
  · rintro ⟨_, content, hLeads, hName, rfl⟩
    cases hLeads with
    | @entry _ entryName child _ names hEntry hBelow =>
      rw [List.getLastD_cons] at hName
      exact ⟨(entryName, child), hEntry, _, ⟨names, content, hBelow, hName, rfl⟩, rfl⟩
  · rintro ⟨entry, hEntry, _, ⟨names, content, hLeads, hName, rfl⟩, rfl⟩
    refine ⟨entry.1 :: names, content, .entry hEntry hLeads, ?_, rfl⟩
    rwa [List.getLastD_cons]

/-- The walk finds the schema files. -/
theorem mem_nodeFiles {node : Node} (hNode : node.WellNamed) {path name : String}
    (hAccessible : Accessible path name node) {found : Found} :
    found ∈ nodeFiles path name node ↔ node.HasSchema name found := by
  induction hNode generalizing path name found with
  | file content =>
    rw [hasSchema_file, nodeFiles]
    by_cases hName : isSchemaName name = true
    · have hShort := hAccessible.files [] content (.here _) hName
      rw [List.foldl_nil] at hShort
      simp [hName, hShort]
    · simp [hName]
  | @directory entries _ _ _ ih =>
    have hShort := hAccessible.directories [] entries (.here _)
    rw [List.foldl_nil] at hShort
    rw [hasSchema_directory, nodeFiles, hShort, if_neg Bool.false_ne_true, schemaFiles_eq_flatMap,
      List.mem_map]
    constructor
    · rintro ⟨inner, hInner, rfl⟩
      obtain ⟨entry, hEntry, hInner⟩ := List.mem_flatMap.1 hInner
      exact ⟨entry, hEntry, inner, (ih entry hEntry (hAccessible.entry hEntry)).1 hInner, rfl⟩
    · rintro ⟨entry, hEntry, inner, hInner, rfl⟩
      have hFound := (ih entry hEntry (hAccessible.entry hEntry)).2 hInner
      exact ⟨inner, List.mem_flatMap.2 ⟨entry, hEntry, hFound⟩, rfl⟩

theorem mem_schemaFiles {root name : String} {entries : List (String × Node)}
    (hNode : (Node.directory entries).WellNamed)
    (hAccessible : Accessible root name (.directory entries)) {found : Found} :
    found ∈ schemaFiles root entries ↔ ∃ entry ∈ entries, entry.2.HasSchema entry.1 found := by
  cases hNode with
  | directory _ _ hBelow =>
    rw [schemaFiles_eq_flatMap, List.mem_flatMap]
    refine exists_congr fun entry => and_congr_right fun hEntry => ?_
    exact mem_nodeFiles (hBelow entry hEntry) (hAccessible.entry hEntry)

theorem names_of_mem_nodeFiles {path name : String} {node : Node} {found : Found}
    (hFound : found ∈ nodeFiles path name node) : ∃ rest, found.names = name :: rest := by
  cases node with
  | file content =>
    rw [nodeFiles] at hFound
    split at hFound
    · obtain rfl := List.mem_singleton.1 hFound
      exact ⟨[], rfl⟩
    · cases hFound
  | directory entries =>
    rw [nodeFiles] at hFound
    split at hFound
    · split at hFound
      · obtain rfl := List.mem_singleton.1 hFound
        exact ⟨[], rfl⟩
      · cases hFound
    · obtain ⟨inner, _, rfl⟩ := List.mem_map.1 hFound
      exact ⟨inner.names, rfl⟩

/-- Entries with different names have no file in common. -/
theorem nodup_names_flatMap {directory : String} {entries : List (String × Node)}
    (hDistinct : (entries.map Prod.fst).Nodup)
    (hEach : ∀ entry ∈ entries,
      ((nodeFiles (joinPath directory entry.1) entry.1 entry.2).map Found.names).Nodup) :
    ((schemaFiles directory entries).map Found.names).Nodup := by
  rw [schemaFiles_eq_flatMap, List.map_flatMap, List.nodup_flatMap]
  refine ⟨hEach, (List.pairwise_map.1 hDistinct).imp ?_⟩
  -- The first name is that of the entry.
  intro entry other hDiffer names hNames hOther
  obtain ⟨found, hFound, rfl⟩ := List.mem_map.1 hNames
  obtain ⟨otherFound, hOtherFound, hSame⟩ := List.mem_map.1 hOther
  obtain ⟨rest, hRest⟩ := names_of_mem_nodeFiles hFound
  obtain ⟨otherRest, hOtherRest⟩ := names_of_mem_nodeFiles hOtherFound
  rw [hRest, hOtherRest] at hSame
  exact hDiffer (List.cons.inj hSame).1.symm

theorem nodup_nodeFiles {node : Node} (hNode : node.WellNamed) (path name : String) :
    ((nodeFiles path name node).map Found.names).Nodup := by
  induction hNode generalizing path name with
  | file content =>
    rw [nodeFiles]
    split
    · exact List.nodup_singleton _
    · exact List.nodup_nil
  | @directory entries hDistinct _ _ ih =>
    rw [nodeFiles]
    split
    · split
      · exact List.nodup_singleton _
      · exact List.nodup_nil
    · have hInner := nodup_names_flatMap hDistinct fun entry hEntry =>
        ih entry hEntry (joinPath path entry.1) entry.1
      rw [List.map_map]
      have hCons := hInner.map (List.cons_injective (a := name))
      rwa [List.map_map] at hCons

/-- The walk finds no file twice. -/
theorem nodup_schemaFiles {entries : List (String × Node)}
    (hNode : (Node.directory entries).WellNamed) (root : String) :
    ((schemaFiles root entries).map Found.names).Nodup := by
  cases hNode with
  | directory hDistinct _ hBelow =>
    exact nodup_names_flatMap hDistinct fun entry hEntry =>
      nodup_nodeFiles (hBelow entry hEntry) _ _

/-! ## Reading -/

theorem listDirectory_eq_ok {files : Files} {path : String} {entries : List (String × Node)} :
    listDirectory files path = .ok entries ↔ files path = .ok (.directory entries) := by
  rw [listDirectory]
  split
  next fault hFault => simp [hFault]
  next content hFile => simp [hFile]
  next inner hDirectory => simp [hDirectory]

theorem decodeSource_eq_ok_iff {path : String} {content : Bytes} {source : Schema.Source} :
    decodeSource path content = .ok source ↔
      source.path = path ∧ Text.decodeText? content = some source.text := by
  obtain ⟨sourcePath, text⟩ := source
  rw [decodeSource]
  cases Text.decodeText? content with
  | none => simp
  | some other => simp [eq_comm]

theorem readSource_eq_ok {files : Files} {path : String} {source : Schema.Source} :
    readSource files path = .ok source ↔
      ∃ content, files path = .ok (.file content) ∧ decodeSource path content = .ok source := by
  rw [readSource, readFile]
  cases files path with
  | error fault => simp
  | ok node => cases node <;> simp

theorem not_isTooLong_of_find {system : FileSystem} {path : String} {node : Node}
    (hFind : system.find path = .ok node) : isTooLong path = false := by
  obtain ⟨hFault, _⟩ := FileSystem.find_eq_ok.1 hFind
  rw [pathFault?] at hFault
  split at hFault
  · cases hFault
  · split at hFault
    · cases hFault
    · split at hFault
      · cases hFault
      next hLong => exact Bool.eq_false_iff.2 hLong

/-- Every directory below the root can be listed, and every schema file there can be read and holds
a text. -/
structure Loadable (files : Files) (root : String) (entries : List (String × Node)) : Prop where
  listable : ∀ (names : List String) (inner : List (String × Node)),
    (Node.directory entries).Leads names (.directory inner) →
      ∃ listing, listDirectory files (names.foldl joinPath root) = .ok listing
  readable : ∀ (names : List String) (name : String) (content : Bytes),
    (Node.directory entries).Leads (names ++ [name]) (.file content) → SchemaNamed name →
      ∃ source, readSource files ((names ++ [name]).foldl joinPath root) = .ok source

/-- A schema file below a directory: the names that lead to it, and its content. -/
def Found.Below (entries : List (String × Node)) (found : Found) : Prop :=
  ∃ names name content, (Node.directory entries).Leads (names ++ [name]) (.file content) ∧
    SchemaNamed name ∧ found = ⟨names ++ [name], .ok content⟩

theorem below_iff {entries : List (String × Node)} {found : Found} :
    found.Below entries ↔ ∃ entry ∈ entries, entry.2.HasSchema entry.1 found := by
  constructor
  · rintro ⟨names, name, content, hLeads, hName, rfl⟩
    rw [← isSchemaName_iff] at hName
    have hLast : (names ++ [name]).getLastD "" = name := List.getLastD_concat
    generalize names ++ [name] = all at hLeads hLast
    cases hLeads with
    | @entry _ entryName child _ rest hEntry hBelow =>
      rw [List.getLastD_cons] at hLast
      refine ⟨(entryName, child), hEntry, rest, content, hBelow, ?_, rfl⟩
      rwa [hLast]
  · rintro ⟨entry, hEntry, names, content, hLeads, hName, rfl⟩
    have hSplit := List.dropLast_concat_getLast (List.cons_ne_nil entry.1 names)
    rw [List.getLast_eq_getLastD] at hSplit
    refine ⟨(entry.1 :: names).dropLast, _, content, ?_, isSchemaName_iff.1 hName, ?_⟩
    · rw [hSplit]
      exact .entry hEntry hLeads
    · rw [hSplit]

/-- What the walk finds in the end. -/
theorem mem_sortFound {root name : String} {entries : List (String × Node)}
    (hNode : (Node.directory entries).WellNamed)
    (hAccessible : Accessible root name (.directory entries)) {found : Found} :
    found ∈ sortFound (schemaFiles root entries) ↔ found.Below entries :=
  (sortFound_perm _).mem_iff.trans ((mem_schemaFiles hNode hAccessible).trans below_iff.symm)

theorem Accessible.relisted {path name : String} {node other : Node}
    (hAccessible : Accessible path name node) (hRelisted : node.Relisted other) :
    Accessible path name other where
  directories names entries hLeads := by
    obtain ⟨others, hOthers⟩ := hRelisted.symm.leads_directory hLeads
    exact hAccessible.directories names others hOthers
  files names content hLeads := hAccessible.files names content (hRelisted.symm.leads_file hLeads)

theorem Found.Below.relisted {entries others : List (String × Node)} {found : Found}
    (hBelow : found.Below entries)
    (hRelisted : (Node.directory entries).Relisted (.directory others)) :
    found.Below others := by
  obtain ⟨names, name, content, hLeads, hName, rfl⟩ := hBelow
  exact ⟨names, name, content, hRelisted.leads_file hLeads, hName, rfl⟩

/-- Every order of listing gives the same list in the end. -/
theorem sortFound_relisted {root name : String} {entries others : List (String × Node)}
    (hNode : (Node.directory entries).WellNamed)
    (hAccessible : Accessible root name (.directory entries))
    (hRelisted : (Node.directory entries).Relisted (.directory others)) :
    sortFound (schemaFiles root others) = sortFound (schemaFiles root entries) := by
  have hOther := hRelisted.wellNamed hNode
  apply eq_of_ascending Found.names
  · exact sortFound_ascending (nodup_schemaFiles hOther root)
  · exact sortFound_ascending (nodup_schemaFiles hNode root)
  · intro found
    rw [mem_sortFound hOther (hAccessible.relisted hRelisted), mem_sortFound hNode hAccessible]
    exact ⟨fun hBelow => hBelow.relisted hRelisted.symm, fun hBelow => hBelow.relisted hRelisted⟩

theorem Loadable.accessible {system : FileSystem} {root : String} {entries : List (String × Node)}
    (hLoadable : Loadable system.find root entries) : Accessible root "" (.directory entries) where
  directories names inner hLeads := by
    obtain ⟨listing, hListing⟩ := hLoadable.listable names inner hLeads
    exact not_isTooLong_of_find (listDirectory_eq_ok.1 hListing)
  files names content hLeads hName := by
    cases names using List.reverseRecOn with
    | nil => cases hLeads
    | append_singleton before name =>
      rw [List.getLastD_concat, isSchemaName_iff] at hName
      obtain ⟨source, hSource⟩ := hLoadable.readable before name content hLeads hName
      obtain ⟨_, hFile, _⟩ := readSource_eq_ok.1 hSource
      exact not_isTooLong_of_find hFile

/-- What is found below the root is the content that is read there. -/
theorem Loadable.exists_source {system : FileSystem} {root : String}
    {entries : List (String × Node)} (hRoot : system.find root = .ok (.directory entries))
    (hNode : (Node.directory entries).WellNamed) (hLoadable : Loadable system.find root entries)
    {found : Found} (hBelow : found.Below entries) :
    ∃ source, found.source root = .ok source := by
  obtain ⟨names, name, content, hLeads, hName, rfl⟩ := hBelow
  obtain ⟨source, hSource⟩ := hLoadable.readable names name content hLeads hName
  obtain ⟨other, hFile, hDecoded⟩ := readSource_eq_ok.1 hSource
  -- The path leads to the file that the walk came across.
  have hFound := FileSystem.find_foldl hRoot hNode hLeads (FileSystem.find_eq_ok.1 hFile).1
  cases hFile.symm.trans hFound
  exact ⟨source, hDecoded⟩

/-! ## Loading -/

/-- Sources at their paths, in the order of the names that led to them. -/
theorem ascending_of_forall₂ {root : String} {found : List Found} {sources : List Schema.Source}
    {entries : List (String × Node)} (hNode : (Node.directory entries).WellNamed)
    (hBelow : ∀ file ∈ found, file.Below entries)
    (hFound : found.Pairwise fun a b => a.names < b.names)
    (hAll : List.Forall₂ (fun file source => Found.source root file = .ok source) found sources) :
    sources.Pairwise fun a b => pathNames a.path < pathNames b.path := by
  have hPaths : sources.map (fun source => pathNames source.path) =
      found.map fun file => slashParts root.toList ++ file.names := by
    refine map_eq_map_of_forall₂ hAll ?_
    intro file hFile source hSource
    obtain ⟨names, name, content, hLeads, _, rfl⟩ := hBelow file hFile
    obtain ⟨hNames, hName⟩ := List.forall_mem_append.1 (hLeads.isName hNode)
    rw [(decodeSource_eq_ok_iff.1 hSource).1]
    exact pathNames_foldl hNames (List.forall_mem_singleton.1 hName) root
  apply List.pairwise_map.1
  rw [hPaths, List.pairwise_map]
  exact hFound.imp fun hLt => List.append_left_lt hLt

/-- The sources below a root whose directories can be listed and whose schema files can be read:

* they are the files to which the names below the root lead and whose last name is something and
  then `.ks`, each of them with its path and its text;
* their paths are strictly ascending, name by name, so that none of them is there twice;
* they are the same for every order in which the directories list their entries. -/
theorem loadSources_listing {system : FileSystem} {root : String} {entries : List (String × Node)}
    (hRoot : listDirectory system.find root = .ok entries)
    (hNode : (Node.directory entries).WellNamed) (hLoadable : Loadable system.find root entries) :
    ∃ sources, loadSources system.find root = .ok sources ∧
      (∀ source, source ∈ sources ↔ ∃ names name content,
        (Node.directory entries).Leads (names ++ [name]) (.file content) ∧ SchemaNamed name ∧
          source.path = (names ++ [name]).foldl joinPath root ∧
          Text.decodeText? content = some source.text) ∧
      (sources.Pairwise fun a b => pathNames a.path < pathNames b.path) ∧
      ∀ (files : Files) (others : List (String × Node)), listDirectory files root = .ok others →
        (Node.directory entries).Relisted (.directory others) →
          loadSources files root = .ok sources := by
  have hAccessible := hLoadable.accessible
  have hMem : ∀ file, file ∈ sortFound (schemaFiles root entries) ↔ file.Below entries :=
    fun file => mem_sortFound hNode hAccessible
  have hEach : ∀ file ∈ sortFound (schemaFiles root entries), ∃ source,
      file.source root = .ok source :=
    fun file hFile => hLoadable.exists_source (listDirectory_eq_ok.1 hRoot) hNode
      ((hMem file).1 hFile)
  obtain ⟨sources, hAll⟩ := exists_forall₂ hEach
  have hLoad : ∀ (files : Files) (others : List (String × Node)),
      listDirectory files root = .ok others →
        (Node.directory entries).Relisted (.directory others) →
        loadSources files root = .ok sources := by
    intro files others hOthers hRelisted
    rw [← sortFound_relisted hNode hAccessible hRelisted] at hAll
    rw [loadSources, hOthers]
    exact mapM_eq_ok.2 hAll
  refine ⟨sources, hLoad _ _ hRoot .refl, fun source => ⟨?_, ?_⟩, ?_, hLoad⟩
  · intro hSource
    obtain ⟨file, hFile, hRead⟩ := exists_of_mem_right hAll hSource
    obtain ⟨names, name, content, hLeads, hName, rfl⟩ := (hMem file).1 hFile
    obtain ⟨hPath, hText⟩ := decodeSource_eq_ok_iff.1 hRead
    exact ⟨names, name, content, hLeads, hName, hPath, hText⟩
  · rintro ⟨names, name, content, hLeads, hName, hPath, hText⟩
    have hFile := (hMem ⟨names ++ [name], .ok content⟩).2 ⟨names, name, content, hLeads, hName, rfl⟩
    obtain ⟨other, hOther, hRead⟩ := exists_of_mem_left hAll hFile
    cases hRead.symm.trans (decodeSource_eq_ok_iff.2 ⟨hPath, hText⟩)
    exact hOther
  · exact ascending_of_forall₂ hNode (fun file hFile => (hMem file).1 hFile)
      (sortFound_ascending (nodup_schemaFiles hNode root)) hAll

/-! ## A tree

By characters `a-x.ks` comes before `a/b.ks`, and name by name it comes behind. One directory is
named like a schema file, and one file has nothing before its `.ks`. -/

namespace Shelf

def entries : List (String × Node) :=
  [("x.ks", .directory [("b.ks", .file [0x58])]), (".ks", .file [0xff]), ("a-x.ks", .file [0x41]),
    ("a", .directory [("notes.txt", .file []), ("b.ks", .file [0x42])])]

/-- The same tree with all entries the other way round. -/
def turned : List (String × Node) :=
  [("a", .directory [("b.ks", .file [0x42]), ("notes.txt", .file [])]), ("a-x.ks", .file [0x41]),
    (".ks", .file [0xff]), ("x.ks", .directory [("b.ks", .file [0x58])])]

def system (entries : List (String × Node)) : FileSystem where
  root := .directory [("root", .directory entries)]
  working := []

theorem wellNamed : (Node.directory entries).WellNamed := by
  have hFiles : ∀ files : List (String × Bytes), (files.map Prod.fst).Nodup →
      (∀ file ∈ files, IsName file.1) →
        (Node.directory (files.map fun file => (file.1, .file file.2))).WellNamed := by
    intro files hDistinct hNames
    refine .directory (by rwa [List.map_map]) (List.forall_mem_map.2 hNames) ?_
    exact List.forall_mem_map.2 fun file _ => .file file.2
  refine .directory (by decide) (by decide) ?_
  simp only [entries, List.forall_mem_cons]
  exact ⟨hFiles [("b.ks", [0x58])] (by decide) (by decide), .file _, .file _,
    hFiles [("notes.txt", []), ("b.ks", [0x42])] (by decide) (by decide), List.forall_mem_nil _⟩

theorem relisted : (Node.directory entries).Relisted (.directory turned) := by
  have hInner : Node.Relists (.directory [("notes.txt", .file []), ("b.ks", .file [0x42])])
      (.directory [("b.ks", .file [0x42]), ("notes.txt", .file [])]) :=
    .here (.swap _ _ _)
  have hFirst : Node.Relists
      (.directory
        (entries.take 3 ++ [("a", .directory [("notes.txt", .file []), ("b.ks", .file [0x42])])]))
      (.directory turned.reverse) :=
    .inside hInner
  exact .tail (.single hFirst) (.here (List.reverse_perm _))

/-- All files, with the names that lead to them. -/
def files : List (List String × Bytes) :=
  [(["x.ks", "b.ks"], [0x58]), ([".ks"], [0xff]), (["a-x.ks"], [0x41]), (["a", "notes.txt"], []),
    (["a", "b.ks"], [0x42])]

def directories : List (List String) := [[], ["x.ks"], ["a"]]

/-- What is loaded. -/
def sources : List Schema.Source :=
  [⟨"root/a/b.ks", "B"⟩, ⟨"root/a-x.ks", "A"⟩, ⟨"root/x.ks/b.ks", "X"⟩]

theorem leads_file {names : List String} {content : Bytes}
    (hLeads : (Node.directory entries).Leads names (.file content)) : (names, content) ∈ files := by
  simp only [entries, Node.leads_directory_iff, Node.leads_file_iff, Node.file.injEq, reduceCtorEq,
    and_false, false_or, true_and, List.mem_cons, List.not_mem_nil, or_false, exists_eq_or_imp,
    exists_eq_left, ↓existsAndEq] at hLeads
  rcases hLeads with ⟨rfl, rfl⟩ | ⟨rfl, rfl⟩ | ⟨rfl, rfl⟩ | ⟨rest, rfl, ⟨rfl, rfl⟩ | ⟨rfl, rfl⟩⟩
  all_goals decide

theorem leads_directory {names : List String} {inner : List (String × Node)}
    (hLeads : (Node.directory entries).Leads names (.directory inner)) : names ∈ directories := by
  simp only [entries, Node.leads_directory_iff, Node.leads_file_iff,
    Node.directory.injEq, reduceCtorEq, and_false, false_or, true_and, List.mem_cons,
    List.not_mem_nil, or_false, or_self, exists_const, exists_eq_or_imp, exists_eq_left,
    ↓existsAndEq] at hLeads
  rcases hLeads with ⟨rfl, _⟩ | ⟨rfl, _⟩ | ⟨rfl, _⟩
  all_goals decide

theorem find_root (entries : List (String × Node)) :
    (system entries).find "root" = .ok (.directory entries) := by
  have hFault : pathFault? "root" = none := by decide +kernel
  have hNames : (system entries).names "root" = ["root"] := by
    have hRelative : "root".startsWith "/" = false := by decide +kernel
    have hParts : pathNames "root" = ["root"] := by decide +kernel
    rw [FileSystem.names, hRelative, hParts]
    rfl
  rw [FileSystem.find_eq_ok, hNames]
  exact ⟨hFault, by simp [system, Node.follow]⟩

theorem pathFault?_eq_none :
    ∀ names ∈ files.map Prod.fst ++ directories,
      pathFault? (names.foldl joinPath "root") = none := by
  decide +kernel

theorem find_below {names : List String} {found : Node}
    (hLeads : (Node.directory entries).Leads names found)
    (hNames : names ∈ files.map Prod.fst ++ directories) :
    (system entries).find (names.foldl joinPath "root") = .ok found :=
  FileSystem.find_foldl (find_root entries) wellNamed hLeads (pathFault?_eq_none names hNames)

theorem exists_source : ∀ file ∈ files, isSchemaName (file.1.getLastD "") = true →
    ∃ source ∈ sources, source.path = file.1.foldl joinPath "root" ∧
      Text.decodeText? file.2 = some source.text := by
  decide +kernel

theorem exists_source_of_leads {names : List String} {name : String} {content : Bytes}
    (hLeads : (Node.directory entries).Leads (names ++ [name]) (.file content))
    (hName : SchemaNamed name) :
    ∃ source ∈ sources, source.path = (names ++ [name]).foldl joinPath "root" ∧
      Text.decodeText? content = some source.text := by
  have hLast : (names ++ [name]).getLastD "" = name := List.getLastD_concat
  rw [← isSchemaName_iff, ← hLast] at hName
  exact exists_source _ (leads_file hLeads) hName

theorem loadable : Loadable (system entries).find "root" entries where
  listable names inner hLeads := by
    have hNames := List.mem_append_right (files.map Prod.fst) (leads_directory hLeads)
    exact ⟨inner, listDirectory_eq_ok.2 (find_below hLeads hNames)⟩
  readable names name content hLeads hName := by
    have hNames : names ++ [name] ∈ files.map Prod.fst := List.mem_map_of_mem (leads_file hLeads)
    obtain ⟨source, _, hPath, hText⟩ := exists_source_of_leads hLeads hName
    refine ⟨source,
      readSource_eq_ok.2 ⟨content, find_below hLeads (List.mem_append_left _ hNames), ?_⟩⟩
    exact decodeSource_eq_ok_iff.2 ⟨hPath, hText⟩

end Shelf

/-- The files of the tree are loaded name by name, whichever way round it is listed. -/
theorem loadSources_shelf :
    loadSources (Shelf.system Shelf.entries).find "root" = .ok Shelf.sources ∧
      loadSources (Shelf.system Shelf.turned).find "root" = .ok Shelf.sources := by
  have hRoot := fun entries => listDirectory_eq_ok.2 (Shelf.find_root entries)
  obtain ⟨sources, hLoad, hMem, hAscending, hOrders⟩ :=
    loadSources_listing (hRoot Shelf.entries) Shelf.wellNamed Shelf.loadable
  have hSources : sources = Shelf.sources := by
    refine eq_of_ascending (fun source => pathNames source.path) hAscending (by decide +kernel) ?_
    intro source
    rw [hMem]
    constructor
    · rintro ⟨names, name, content, hLeads, hName, hPath, hText⟩
      obtain ⟨other, hOther, hOtherPath, hOtherText⟩ := Shelf.exists_source_of_leads hLeads hName
      have hSame : other.text = source.text := Option.some.inj (hOtherText.symm.trans hText)
      obtain ⟨path, text⟩ := source
      cases hPath.trans hOtherPath.symm
      cases hSame
      exact hOther
    · intro hSource
      simp only [Shelf.sources, List.mem_cons, List.not_mem_nil, or_false] at hSource
      rcases hSource with rfl | rfl | rfl
      · exact ⟨["a"], "b.ks", [0x42], .entry (.tail _ (.tail _ (.tail _ (.head _))))
          (.entry (.tail _ (.head _)) (.here _)), ⟨"b", by decide, by decide⟩, by decide +kernel,
          by decide +kernel⟩
      · exact ⟨[], "a-x.ks", [0x41], .entry (.tail _ (.tail _ (.head _))) (.here _),
          ⟨"a-x", by decide, by decide⟩, by decide +kernel, by decide +kernel⟩
      · exact ⟨["x.ks"], "b.ks", [0x58], .entry (.head _) (.entry (.head _) (.here _)),
          ⟨"b", by decide, by decide⟩, by decide +kernel, by decide +kernel⟩
  rw [← hSources]
  exact ⟨hLoad, hOrders _ _ (hRoot Shelf.turned) Shelf.relisted⟩

end Interchange.Source

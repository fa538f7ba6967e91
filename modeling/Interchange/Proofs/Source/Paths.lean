import Interchange.Source.Tree
import Mathlib.Data.List.Induction
import Mathlib.Data.List.Nodup
import Mathlib.Data.String.Basic

/-!
# Paths into a tree

A directory is found under its path, and what is below it under the path with the names behind it,
one after the other. Names are parted by slashes, so the names of such a path are those of the
directory's path and then its own, whether or not the directory's path ends with a slash.

* `IsName`: what may be the name of an entry.
* `slashParts`: the names between the slashes of a path.
* `Node.WellNamed`, `Node.Leads`: trees as a file system has them, and the names that lead through
  them.
* `pathNames_foldl`: the names of a path below a directory.
* `Leads.follow`, `FileSystem.find_foldl`: what stands there.
-/

namespace Interchange.Source

/-! ## Names -/

/-- The name may be that of an entry. -/
structure IsName (name : String) : Prop where
  nonempty : name ≠ ""
  slash : '/' ∉ name.toList
  here : name ≠ "."
  above : name ≠ ".."

instance (name : String) : Decidable (IsName name) :=
  decidable_of_iff (name ≠ "" ∧ '/' ∉ name.toList ∧ name ≠ "." ∧ name ≠ "..")
    ⟨fun ⟨hFull, hSlash, hHere, hAbove⟩ => ⟨hFull, hSlash, hHere, hAbove⟩,
      fun hName => ⟨hName.nonempty, hName.slash, hName.here, hName.above⟩⟩

theorem endsWith_slash_iff {path : String} : path.endsWith "/" = true ↔ ['/'] <:+ path.toList := by
  simp [← String.endsWith_toSlice]

/-- The names between the slashes of a path. -/
def slashParts (path : List Char) : List String :=
  ((path.splitOn '/').map String.ofList).filter fun name => !name.isEmpty

theorem slashParts_nil : slashParts [] = [] := rfl

theorem slashParts_append_slash (before after : List Char) :
    slashParts (before ++ '/' :: after) = slashParts before ++ slashParts after := by
  rw [slashParts, List.splitOn_append_cons_self, List.map_append, List.filter_append]
  rfl

theorem IsName.slashParts {name : String} (hName : IsName name) :
    slashParts name.toList = [name] := by
  have hFull : name.isEmpty = false := by simpa using hName.nonempty
  rw [Source.slashParts, List.splitOn_eq_singleton hName.slash, List.map_singleton,
    String.ofList_toList, List.filter_singleton, hFull]
  rfl

/-- The dot that a slash at the end stands for. -/
def endDot (path : String) : List String :=
  if path.endsWith "/" then ["."] else []

theorem pathNames_eq (path : String) : pathNames path = slashParts path.toList ++ endDot path := by
  rw [pathNames, endDot]
  split
  · rfl
  · exact (List.append_nil _).symm

/-! ## Joined paths -/

theorem IsName.endDot_append {name : String} (hName : IsName name) (path : String) :
    endDot (path ++ name) = [] := by
  refine if_neg fun hEnd => ?_
  obtain ⟨before, hBefore⟩ := endsWith_slash_iff.1 hEnd
  rw [String.toList_append] at hBefore
  have hChars : name.toList ≠ [] := by simpa using hName.nonempty
  have hLast := congrArg List.getLast? hBefore
  rw [List.getLast?_append_of_ne_nil _ hChars, List.getLast?_concat] at hLast
  exact hName.slash (List.mem_of_getLast? hLast.symm)

/-- A joined path has one more name. -/
theorem slashParts_joinPath {name : String} (hName : IsName name) (path : String) :
    slashParts (joinPath path name).toList = slashParts path.toList ++ [name] := by
  rw [joinPath]
  split
  next hPlain =>
    rw [String.toList_append]
    rw [Bool.or_eq_true, String.isEmpty_iff, endsWith_slash_iff] at hPlain
    rcases hPlain with rfl | ⟨before, hBefore⟩
    · exact hName.slashParts
    · rw [← hBefore, List.append_assoc, List.singleton_append, slashParts_append_slash,
        slashParts_append_slash, slashParts_nil, List.append_nil, hName.slashParts]
  next =>
    rw [String.toList_append, String.toList_append, List.append_assoc]
    exact (slashParts_append_slash _ _).trans (congrArg (_ ++ ·) hName.slashParts)

theorem endDot_joinPath {name : String} (hName : IsName name) (path : String) :
    endDot (joinPath path name) = [] := by
  rw [joinPath]
  split
  · exact hName.endDot_append _
  · exact hName.endDot_append _

theorem slashParts_foldl {names : List String} (hNames : ∀ name ∈ names, IsName name)
    (path : String) :
    slashParts (names.foldl joinPath path).toList = slashParts path.toList ++ names := by
  induction names generalizing path with
  | nil => exact (List.append_nil _).symm
  | cons name rest ih =>
    rw [List.forall_mem_cons] at hNames
    rw [List.foldl_cons, ih hNames.2, slashParts_joinPath hNames.1, List.append_assoc,
      List.singleton_append]

/-- The names of a path below a directory are those of the directory and then the names that lead
on. -/
theorem pathNames_foldl {names : List String} (hNames : ∀ name ∈ names, IsName name) {name : String}
    (hName : IsName name) (path : String) :
    pathNames ((names ++ [name]).foldl joinPath path) =
      slashParts path.toList ++ (names ++ [name]) := by
  have hAll : ∀ other ∈ names ++ [name], IsName other :=
    List.forall_mem_append.2 ⟨hNames, List.forall_mem_singleton.2 hName⟩
  rw [pathNames_eq, slashParts_foldl hAll, List.foldl_concat, endDot_joinPath hName,
    List.append_nil]

theorem exists_append_joinPath (path name : String) :
    ∃ rest, joinPath path name = path ++ rest := by
  rw [joinPath]
  split
  · exact ⟨name, rfl⟩
  · exact ⟨"/" ++ name, String.append_assoc⟩

theorem exists_append_foldl (names : List String) (path : String) :
    ∃ rest, names.foldl joinPath path = path ++ rest := by
  induction names generalizing path with
  | nil => exact ⟨"", String.append_empty.symm⟩
  | cons name names ih =>
    obtain ⟨first, hFirst⟩ := exists_append_joinPath path name
    obtain ⟨rest, hRest⟩ := ih (joinPath path name)
    refine ⟨first ++ rest, ?_⟩
    rw [List.foldl_cons, hRest, hFirst, String.append_assoc]

/-- A path below a directory starts at the root if that of the directory does. -/
theorem startsWith_foldl {path : String} (hPath : path ≠ "") (names : List String) :
    (names.foldl joinPath path).startsWith "/" = path.startsWith "/" := by
  obtain ⟨rest, hRest⟩ := exists_append_foldl names path
  rw [Bool.eq_iff_iff, String.startsWith_string_iff, String.startsWith_string_iff, hRest,
    String.toList_append]
  cases hChars : path.toList with
  | nil => exact absurd (by simpa using hChars) hPath
  | cons c chars => simp

/-! ## Trees -/

namespace Node

/-- A tree as a file system has it: the entries of a directory have different names. -/
inductive WellNamed : Node → Prop
  | file (content : Bytes) : WellNamed (.file content)
  | directory {entries : List (String × Node)} (hDistinct : (entries.map Prod.fst).Nodup)
      (hNames : ∀ entry ∈ entries, IsName entry.1) (hBelow : ∀ entry ∈ entries, WellNamed entry.2) :
      WellNamed (.directory entries)

/-- The names lead from a node down to another one. -/
inductive Leads : Node → List String → Node → Prop
  | here (node : Node) : Leads node [] node
  | entry {entries : List (String × Node)} {name : String} {child found : Node}
      {names : List String} (hEntry : (name, child) ∈ entries) (hBelow : Leads child names found) :
      Leads (.directory entries) (name :: names) found

theorem leads_file_iff {content : Bytes} {names : List String} {found : Node} :
    (Node.file content).Leads names found ↔ names = [] ∧ found = .file content := by
  constructor
  · intro hLeads
    cases hLeads
    exact ⟨rfl, rfl⟩
  · rintro ⟨rfl, rfl⟩
    exact .here _

theorem leads_directory_iff {entries : List (String × Node)} {names : List String} {found : Node} :
    (Node.directory entries).Leads names found ↔
      names = [] ∧ found = .directory entries ∨
        ∃ entry ∈ entries, ∃ rest, names = entry.1 :: rest ∧ entry.2.Leads rest found := by
  constructor
  · intro hLeads
    cases hLeads with
    | here => exact Or.inl ⟨rfl, rfl⟩
    | entry hEntry hBelow => exact Or.inr ⟨_, hEntry, _, rfl, hBelow⟩
  · rintro (⟨rfl, rfl⟩ | ⟨entry, hEntry, rest, rfl, hBelow⟩)
    · exact .here _
    · exact .entry hEntry hBelow

theorem Leads.isName {node found : Node} {names : List String} (hLeads : node.Leads names found)
    (hNode : node.WellNamed) : ∀ name ∈ names, IsName name := by
  induction hLeads with
  | here => exact List.forall_mem_nil _
  | entry hEntry _ ih =>
    cases hNode with
    | directory _ hNames hBelow =>
      exact List.forall_mem_cons.2 ⟨hNames _ hEntry, ih (hBelow _ hEntry)⟩

/-! ## Following names -/

section

variable {entries : List (String × Node)} (above : List Node) {name : String} (rest : List String)

theorem follow_dot :
    follow above (.directory entries) ("." :: rest) = follow above (.directory entries) rest := by
  cases above <;> rfl

theorem follow_entry (hDot : ¬ (name == ".") = true) (hUp : ¬ (name == "..") = true)
    {found : String × Node} (hFind : (entries.find? fun entry => entry.1 == name) = some found) :
    follow above (.directory entries) (name :: rest) =
      follow (.directory entries :: above) found.2 rest := by
  cases above <;> rw [follow, if_neg hDot, if_neg hUp, hFind]

theorem follow_missing (hDot : ¬ (name == ".") = true) (hUp : ¬ (name == "..") = true)
    (hNone : (entries.find? fun entry => entry.1 == name) = none) :
    follow above (.directory entries) (name :: rest) =
      .error (if maxNameSize < name.utf8ByteSize then .tooLong else .notFound) := by
  cases above <;> rw [follow, if_neg hDot, if_neg hUp, hNone]

end

/-- Names are followed one after the other: the first ones lead to a fault, or to a node from which
the others are followed. -/
theorem follow_append (above : List Node) (here : Node) (names others : List String) :
    (∃ fault, follow above here names = .error fault ∧
      follow above here (names ++ others) = .error fault) ∨
    ∃ higher found, follow above here names = .ok found ∧
      follow above here (names ++ others) = follow higher found others := by
  -- The cases of the search: the end, a file, a dot, two dots at and below the top, and an entry or
  -- none.
  fun_induction follow above here names with
  | case1 above here => exact Or.inr ⟨above, here, rfl, rfl⟩
  | case2 above name rest content => exact Or.inl ⟨_, rfl, rfl⟩
  | case3 above name rest entries hDot ih =>
    rw [List.cons_append, eq_of_beq hDot, follow_dot]
    exact ih
  | case4 name rest entries hDot hUp ih =>
    rw [List.cons_append, follow, if_neg hDot, if_pos hUp]
    exact ih
  | case5 name rest entries hDot hUp parent higher ih =>
    rw [List.cons_append, follow, if_neg hDot, if_pos hUp]
    exact ih
  | case6 above name rest entries hDot hUp hNone =>
    rw [List.cons_append, follow_missing above _ hDot hUp hNone]
    exact Or.inl ⟨_, rfl, rfl⟩
  | case7 above name rest entries hDot hUp entryName child hFind ih =>
    rw [List.cons_append, follow_entry above _ hDot hUp hFind]
    exact ih

/-- A dot at the end changes nothing but that it asks for a directory. -/
theorem follow_of_concat_dot {above : List Node} {here found : Node} {names : List String}
    (hFollow : follow above here (names ++ ["."]) = .ok found) :
    follow above here names = .ok found := by
  rcases follow_append above here names ["."] with ⟨fault, _, hAll⟩ | ⟨higher, middle, hFirst, hAll⟩
  · cases hAll.symm.trans hFollow
  · rw [hAll] at hFollow
    cases middle with
    | file content => cases hFollow
    | directory entries =>
      rw [follow_dot, follow] at hFollow
      cases hFollow
      exact hFirst

/-- Where names differ, an entry is found under its own. -/
theorem find?_of_mem {entries : List (String × Node)} (hDistinct : (entries.map Prod.fst).Nodup)
    {entry : String × Node} (hEntry : entry ∈ entries) :
    (entries.find? fun other => other.1 == entry.1) = some entry := by
  cases hFind : entries.find? fun other => other.1 == entry.1 with
  | none => exact absurd BEq.rfl (List.find?_eq_none.1 hFind entry hEntry)
  | some other =>
    have hName := List.find?_some hFind
    rw [beq_iff_eq] at hName
    rw [List.inj_on_of_nodup_map hDistinct (List.mem_of_find?_eq_some hFind) hEntry hName]

/-- The names that lead to a node are followed to it. -/
theorem Leads.follow {node found : Node} {names : List String} (hLeads : node.Leads names found)
    (hNode : node.WellNamed) (above : List Node) : follow above node names = .ok found := by
  induction hLeads generalizing above with
  | here => rw [Node.follow]
  | @entry entries name child found names hEntry _ ih =>
    cases hNode with
    | directory hDistinct hNames hBelow =>
      have hName := hNames _ hEntry
      rw [follow_entry above names (by simpa using hName.here) (by simpa using hName.above)
        (find?_of_mem hDistinct hEntry)]
      exact ih (hBelow _ hEntry) _

end Node

/-! ## File systems -/

namespace FileSystem

theorem find_eq_ok {system : FileSystem} {path : String} {node : Node} :
    system.find path = .ok node ↔
      pathFault? path = none ∧ system.root.follow [] (system.names path) = .ok node := by
  rw [find]
  cases pathFault? path with
  | none => simp
  | some fault => simp

/-- The names that lead to a path from the root, without the dot for a slash at the end. -/
def base (system : FileSystem) (path : String) : List String :=
  (if path.startsWith "/" then [] else system.working) ++ slashParts path.toList

theorem names_eq (system : FileSystem) (path : String) :
    system.names path = system.base path ++ endDot path := by
  rw [names, base, pathNames_eq]
  split
  · rw [List.nil_append]
  · rw [List.append_assoc]

theorem names_foldl (system : FileSystem) {root : String} (hRoot : root ≠ "") {names : List String}
    (hNames : ∀ name ∈ names, IsName name) {name : String} (hName : IsName name) :
    system.names ((names ++ [name]).foldl joinPath root) =
      system.base root ++ (names ++ [name]) := by
  rw [FileSystem.names, startsWith_foldl hRoot, pathNames_foldl hNames hName, base]
  split
  · rfl
  · rw [List.append_assoc]

theorem follow_base {system : FileSystem} {path : String} {node : Node}
    (hFollow : system.root.follow [] (system.names path) = .ok node) :
    system.root.follow [] (system.base path) = .ok node := by
  rw [names_eq, endDot] at hFollow
  split at hFollow
  · exact Node.follow_of_concat_dot hFollow
  · rwa [List.append_nil] at hFollow

/-- What stands below a directory is found under the names that lead there, if the path may be
taken. -/
theorem find_foldl {system : FileSystem} {root : String} {node found : Node} {names : List String}
    (hRoot : system.find root = .ok node) (hNode : node.WellNamed) (hLeads : node.Leads names found)
    (hPath : pathFault? (names.foldl joinPath root) = none) :
    system.find (names.foldl joinPath root) = .ok found := by
  obtain ⟨hFault, hFollow⟩ := find_eq_ok.1 hRoot
  have hFull : root ≠ "" := by
    rintro rfl
    cases hFault
  cases names using List.reverseRecOn with
  | nil =>
    cases hLeads
    exact hRoot
  | append_singleton before name =>
    obtain ⟨hBefore, hName⟩ := List.forall_mem_append.1 (hLeads.isName hNode)
    rw [List.forall_mem_singleton] at hName
    refine find_eq_ok.2 ⟨hPath, ?_⟩
    rw [names_foldl system hFull hBefore hName]
    -- The names of the root lead to the node, and the others lead on from there without going up.
    have hBase := follow_base hFollow
    rcases system.root.follow_append [] (system.base root) (before ++ [name]) with
      ⟨fault, hFirst, _⟩ | ⟨higher, middle, hFirst, hAll⟩
    · cases hFirst.symm.trans hBase
    · cases hFirst.symm.trans hBase
      rw [hAll]
      exact hLeads.follow hNode higher

end FileSystem

end Interchange.Source

import Interchange.Proofs.Schema.Layout

/-!
# Names from the inside outward

A name in a declaration is looked up in the namespace of the declaration and then in every namespace
around it. The walk cuts a path of text at its last dot and joins what is left with the written
name. Read as lists of segments, the namespaces on the way are the beginnings of the path, the
longest one first. So of all declarations that the name may stand for the innermost one is taken.

* `Namespace.segments`: the segments of a path.
* `segments_join`, `mem_enclosing_iff`, `enclosing_shrinking`: joining paths and walking outward.
* `Denotes`: what a name stands for.
* `denotes_parameter_iff`, `denotes_declared_iff`: looking up finds what a name stands for.
* `usage_innermost`: written types of collected declarations.
-/

namespace Interchange.Schema

/-! ## Segments -/

theorem splitLastDot?_eq_none {text : List Char} (hSplit : splitLastDot? text = none) :
    '.' ∉ text := by
  induction text with
  | nil => simp
  | cons c rest ih =>
    rw [splitLastDot?] at hSplit
    split at hSplit
    · cases hSplit
    next hRest =>
      split at hSplit
      · cases hSplit
      next hDot =>
        rw [List.mem_cons, not_or]
        exact ⟨fun hSame => hDot hSame.symm, ih hRest⟩

theorem splitLastDot?_eq_some {text before after : List Char}
    (hSplit : splitLastDot? text = some (before, after)) :
    text = before ++ '.' :: after ∧ '.' ∉ after := by
  induction text generalizing before with
  | nil => cases hSplit
  | cons c rest ih =>
    rw [splitLastDot?] at hSplit
    split at hSplit
    next inner later hRest =>
      cases hSplit
      obtain ⟨hText, hAfter⟩ := ih hRest
      exact ⟨by rw [hText, List.cons_append], hAfter⟩
    next hRest =>
      split at hSplit
      next hDot =>
        cases hSplit
        exact ⟨by rw [hDot, List.nil_append], splitLastDot?_eq_none hRest⟩
      next => cases hSplit

namespace Namespace

/-- The segments of a path. The global namespace has none. -/
def segments (path : String) : List String :=
  if path.isEmpty then [] else (path.toList.splitOn '.').map String.ofList

@[simp] theorem segments_empty : segments "" = [] := rfl

theorem segments_of_ne {path : String} (hPath : path ≠ "") :
    segments path = (path.toList.splitOn '.').map String.ofList := by
  rw [segments, if_neg]
  rwa [String.isEmpty_iff]

/-- The text of a path is its segments with dots between them. -/
theorem intercalate_segments (path : String) :
    ['.'].intercalate ((segments path).map String.toList) = path.toList := by
  by_cases hPath : path = ""
  · subst hPath
    rfl
  · rw [segments_of_ne hPath, List.map_map]
    have hSame : String.toList ∘ String.ofList = id := by
      funext text
      exact String.toList_ofList
    rw [hSame, List.map_id, List.intercalate_splitOn]

theorem segments_injective {path other : String} (hSame : segments path = segments other) :
    path = other := by
  rw [← String.toList_inj, ← intercalate_segments, hSame, intercalate_segments]

theorem eq_empty_of_segments {path : String} (hSegments : segments path = []) : path = "" :=
  segments_injective (hSegments.trans segments_empty.symm)

/-- No path has an empty segment and no other one. -/
theorem segments_ne_blank (path : String) : segments path ≠ [""] := by
  intro hBlank
  have hText := intercalate_segments path
  rw [hBlank] at hText
  have hPath : path = "" := String.toList_inj.1 hText.symm
  rw [hPath] at hBlank
  cases hBlank

theorem segments_ofList_append_dot (before after : List Char) :
    segments (String.ofList (before ++ '.' :: after)) =
      (before.splitOn '.').map String.ofList ++ (after.splitOn '.').map String.ofList := by
  rw [segments_of_ne (by simp [← String.toList_inj]), String.toList_ofList,
    List.splitOn_append_cons_self, List.map_append]

/-- A path inside a path has the segments of both. -/
theorem segments_join (outer inner : String) :
    segments (join outer inner) = segments outer ++ segments inner := by
  rw [join]
  split
  next hOuter =>
    rw [String.isEmpty_iff.1 hOuter, segments_empty, List.nil_append]
  next hOuter =>
    split
    next hInner =>
      rw [String.isEmpty_iff.1 hInner, segments_empty, List.append_nil]
    next hInner =>
      rw [String.isEmpty_iff] at hOuter hInner
      have hText : outer ++ "." ++ inner = String.ofList (outer.toList ++ '.' :: inner.toList) := by
        rw [← String.toList_inj]
        simp
      rw [hText, segments_ofList_append_dot, segments_of_ne hOuter, segments_of_ne hInner]

/-! ## Walking outward -/

theorem parent?_eq_none {path : String} : parent? path = none ↔ path = "" := by
  rw [parent?]
  split
  next hEmpty => simp [String.isEmpty_iff.1 hEmpty]
  next hEmpty =>
    rw [String.isEmpty_iff] at hEmpty
    split <;> simp [hEmpty]

/-- What begins a path is the path itself or begins its parent. -/
theorem begins_parent_iff {path outer : String} (hParent : parent? path = some outer)
    (other : String) :
    segments other <+: segments path ↔ other = path ∨ segments other <+: segments outer := by
  have hSelf : ∀ {last : List String}, segments path = last →
      (segments other = last ↔ other = path) := by
    rintro _ rfl
    exact ⟨segments_injective, fun hSame => hSame ▸ rfl⟩
  rw [parent?] at hParent
  split at hParent
  next => cases hParent
  next hEmpty =>
    rw [String.isEmpty_iff] at hEmpty
    split at hParent
    next before after hSplit =>
      cases hParent
      obtain ⟨hText, hDot⟩ := splitLastDot?_eq_some hSplit
      have hPath : segments path =
          (before.splitOn '.').map String.ofList ++ [String.ofList after] := by
        rw [← String.ofList_toList (s := path), hText, segments_ofList_append_dot,
          List.splitOn_eq_singleton hDot, List.map_singleton]
      rw [hPath, List.prefix_concat_iff, hSelf hPath]
      refine or_congr_right ?_
      by_cases hBefore : before = []
      · -- The path starts with a dot. Its first segment is empty, and no path has just this one.
        subst hBefore
        have hBlank : ([].splitOn '.').map String.ofList = [] ++ [""] := rfl
        rw [hBlank, List.prefix_concat_iff]
        exact or_iff_right (segments_ne_blank other)
      · have hOuter : String.ofList before ≠ "" := by
          intro hOuter
          have hNone := congrArg String.toList hOuter
          rw [String.toList_ofList] at hNone
          exact hBefore hNone
        rw [segments_of_ne hOuter, String.toList_ofList]
    next hSplit =>
      cases hParent
      have hDot := splitLastDot?_eq_none hSplit
      have hPath : segments path = [] ++ [path] := by
        rw [segments_of_ne hEmpty, List.splitOn_eq_singleton hDot, List.map_singleton,
          String.ofList_toList, List.nil_append]
      rw [hPath, List.prefix_concat_iff, hSelf hPath, segments_empty]

theorem segments_parent_lt {path outer : String} (hParent : parent? path = some outer) :
    (segments outer).length < (segments path).length := by
  have hBegins : segments outer <+: segments path :=
    (begins_parent_iff hParent outer).2 (Or.inr (List.prefix_refl _))
  refine Nat.lt_of_le_of_ne hBegins.length_le fun hLength => ?_
  have hLess := parent?_length hParent
  rw [segments_injective (hBegins.eq_of_length hLength)] at hLess
  exact Nat.lt_irrefl _ hLess

/-- The walk ends: no path has parents without end. -/
theorem parent_wellFounded : WellFounded fun outer path => parent? path = some outer :=
  Subrelation.wf parent?_length (measure String.length).wf

theorem enclosing_of_parent {path outer : String} (hParent : parent? path = some outer) :
    enclosing path = path :: enclosing outer := by
  rw [enclosing]
  split
  next other hOther => rw [Option.some.inj (hOther.symm.trans hParent)]
  next hNone => cases hNone.symm.trans hParent

theorem enclosing_empty : enclosing "" = [""] := by
  rw [enclosing]
  split
  next other hOther => cases hOther
  next => rfl

/-- The namespaces on the way outward are the beginnings of the path. -/
theorem mem_enclosing_iff {path other : String} :
    other ∈ enclosing path ↔ segments other <+: segments path := by
  induction path using parent_wellFounded.induction with
  | _ path ih =>
    cases hParent : parent? path with
    | none =>
      rw [parent?_eq_none.1 hParent, enclosing_empty, List.mem_singleton, segments_empty,
        List.prefix_nil]
      exact ⟨fun hSame => hSame ▸ rfl, eq_empty_of_segments⟩
    | some outer =>
      rw [enclosing_of_parent hParent, List.mem_cons, begins_parent_iff hParent, ih outer hParent]

/-- They become shorter on the way. -/
theorem enclosing_shrinking (path : String) : (enclosing path).Pairwise
    fun inner outer => (segments outer).length < (segments inner).length := by
  induction path using parent_wellFounded.induction with
  | _ path ih =>
    cases hParent : parent? path with
    | none =>
      rw [parent?_eq_none.1 hParent, enclosing_empty]
      exact List.pairwise_singleton _ _
    | some outer =>
      rw [enclosing_of_parent hParent, List.pairwise_cons]
      refine ⟨fun other hOther => ?_, ih outer hParent⟩
      have hLe := (mem_enclosing_iff.1 hOther).length_le
      exact Nat.lt_of_le_of_lt hLe (segments_parent_lt hParent)

end Namespace

/-! ## What names stand for -/

/-- The text is the name of a built-in type or its second name. -/
def Builtin.Named (text : String) (kind : Builtin) : Prop :=
  text = kind.name ∨ (text, kind) ∈ Builtin.aliases

theorem Builtin.lookup?_eq_some {text : String} {kind : Builtin} :
    Builtin.lookup? text = some kind ↔ Builtin.Named text kind := by
  constructor
  · intro hLookup
    rw [lookup?] at hLookup
    split at hLookup
    next found hFind =>
      cases hLookup
      have hName := List.find?_some hFind
      exact Or.inl (beq_iff_eq.1 hName).symm
    next =>
      obtain ⟨⟨other, _⟩, hFind, rfl⟩ := Option.map_eq_some_iff.1 hLookup
      have hName := List.find?_some hFind
      rw [← beq_iff_eq.1 hName]
      exact Or.inr (List.mem_of_find?_eq_some hFind)
  · have hNames : ∀ kind : Builtin, lookup? kind.name = some kind := by
      intro kind
      cases kind <;> decide
    have hAliases : ∀ entry ∈ aliases, lookup? entry.1 = some entry.2 := by decide
    rintro (rfl | hAlias)
    · exact hNames kind
    · exact hAliases _ hAlias

/-- A full name that is a written name behind the segments of a path. -/
def Identifier.IsInside (full reference : Identifier) (path : String) : Prop :=
  Namespace.segments full.scope = Namespace.segments path ++ Namespace.segments reference.scope ∧
    full.name = reference.name

instance (full reference : Identifier) (path : String) : Decidable (full.IsInside reference path) :=
  inferInstanceAs (Decidable (_ ∧ _))

theorem Identifier.isInside_iff {full reference : Identifier} {path : String} :
    full.IsInside reference path ↔
      full = ⟨Namespace.join path reference.scope, reference.name⟩ := by
  rw [IsInside, ← Namespace.segments_join]
  constructor
  · rintro ⟨hScope, hName⟩
    obtain ⟨scope, name⟩ := full
    rw [Identifier.mk.injEq]
    exact ⟨Namespace.segments_injective hScope, hName⟩
  · rintro rfl
    exact ⟨rfl, rfl⟩

/-- What a name may stand for. -/
inductive Meaning where
  | parameter (index : Nat)
  | declared (declaration : Declaration)

/-- What a name stands for inside a declaration: without a dot a template parameter, or else a
built-in type. Every other name stands for the declaration that has it behind a beginning of the
namespace, and of these for the one with the longest beginning. -/
inductive Denotes (owner : Identifier) (params : List String) (table : List Declaration)
    (reference : Identifier) : Meaning → Prop
  | parameter {index : Nat} (hPlain : reference.scope = "")
      (hAt : params[index]? = some reference.name) (hFirst : reference.name ∉ params.take index) :
      Denotes owner params table reference (.parameter index)
  | builtin {kind : Builtin} (hPlain : reference.scope = "") (hParams : reference.name ∉ params)
      (hKind : Builtin.Named reference.name kind) :
      Denotes owner params table reference (.declared ⟨kind.identifier, .builtin kind⟩)
  | innermost {path : String} {declaration : Declaration}
      (hOther : reference.scope = "" →
        reference.name ∉ params ∧ ∀ kind, ¬ Builtin.Named reference.name kind)
      (hPath : Namespace.segments path <+: Namespace.segments owner.scope)
      (hMem : declaration ∈ table) (hName : declaration.identifier.IsInside reference path)
      (hLongest : ∀ longer, Namespace.segments longer <+: Namespace.segments owner.scope →
        (Namespace.segments path).length < (Namespace.segments longer).length →
        ∀ other ∈ table, ¬ other.identifier.IsInside reference longer) :
      Denotes owner params table reference (.declared declaration)

/-! ## Looking up -/

theorem Declaration.find?_eq_some_iff {table : List Declaration} (hTable : Lawful table)
    {identifier : Identifier} {declaration : Declaration} :
    find? table identifier = some declaration ↔
      declaration ∈ table ∧ declaration.identifier = identifier := by
  constructor
  · exact find?_eq_some
  · rintro ⟨hMem, rfl⟩
    exact find?_identifier hTable.names hMem

theorem Declaration.find?_eq_none_iff {table : List Declaration} {identifier : Identifier} :
    find? table identifier = none ↔ ∀ other ∈ table, other.identifier ≠ identifier := by
  simp [find?]

section

variable {owner reference : Identifier} {params : List String} {table : List Declaration}

theorem Scope.parameter?_eq_none : (Scope.inside owner params table).parameter? reference = none ↔
    (reference.scope = "" → reference.name ∉ params) := by
  rw [parameter?, inside, Identifier.isGlobal]
  split
  next hPlain =>
    rw [List.findIdx?_eq_none_iff]
    rw [String.isEmpty_iff] at hPlain
    constructor
    · intro hNone _ hMem
      simpa using hNone _ hMem
    · intro hOther name hName
      refine beq_false_of_ne ?_
      rintro rfl
      exact hOther hPlain hName
  next hPlain =>
    rw [String.isEmpty_iff] at hPlain
    exact ⟨fun _ hScope => absurd hScope hPlain, fun _ => rfl⟩

theorem denotes_parameter_iff {index : Nat} :
    Denotes owner params table reference (.parameter index) ↔
      (Scope.inside owner params table).parameter? reference = some index := by
  rw [Scope.parameter?, Scope.inside, Identifier.isGlobal]
  constructor
  · rintro ⟨hPlain, hAt, hFirst⟩
    obtain ⟨hLess, hName⟩ := List.getElem?_eq_some_iff.1 hAt
    rw [if_pos (String.isEmpty_iff.2 hPlain), List.findIdx?_eq_some_iff_getElem]
    refine ⟨hLess, by simp [hName], fun earlier hEarlier hSame => ?_⟩
    refine hFirst (List.mem_take_iff_getElem.2 ⟨earlier, by omega, ?_⟩)
    simpa using hSame
  · intro hFind
    split at hFind
    next hPlain =>
      obtain ⟨hLess, hName, hEarlier⟩ := List.findIdx?_eq_some_iff_getElem.1 hFind
      rw [beq_iff_eq] at hName
      refine .parameter (String.isEmpty_iff.1 hPlain)
        (List.getElem?_eq_some_iff.2 ⟨hLess, hName⟩) ?_
      intro hMem
      obtain ⟨earlier, hIndex, hSame⟩ := List.mem_take_iff_getElem.1 hMem
      exact hEarlier earlier (by omega) (beq_iff_eq.2 hSame)
    next => cases hFind

/-- A built-in type is found under its names wherever they are written. -/
theorem Scope.target?_builtin {kind : Builtin} (hPlain : reference.scope = "")
    (hKind : Builtin.Named reference.name kind) (hTable : Declaration.Lawful table) :
    (Scope.inside owner params table).target? reference =
      some ⟨kind.identifier, .builtin kind⟩ := by
  have hBuiltin : Declaration.find? table kind.identifier = some ⟨kind.identifier, .builtin kind⟩ :=
    (Declaration.find?_eq_some_iff hTable).2
      ⟨hTable.builtins _ (List.mem_map.2 ⟨kind, kind.mem_all, rfl⟩), rfl⟩
  have hGlobal : reference.isGlobal = true := String.isEmpty_iff.2 hPlain
  simp only [target?, inside, hGlobal, if_true, Builtin.lookup?_eq_some.2 hKind, Option.bind_some,
    hBuiltin]

/-- Every other name is looked up on the way outward. -/
theorem Scope.target?_outward
    (hOther : reference.scope = "" → ∀ kind, ¬ Builtin.Named reference.name kind) :
    (Scope.inside owner params table).target? reference =
      (Namespace.enclosing owner.scope).findSome? fun path =>
        Declaration.find? table ⟨Namespace.join path reference.scope, reference.name⟩ := by
  have hBuiltin : (if reference.isGlobal then (Builtin.lookup? reference.name).bind fun kind =>
      Declaration.find? table kind.identifier else none) = none := by
    split
    next hPlain =>
      cases hLookup : Builtin.lookup? reference.name with
      | none => rfl
      | some kind =>
        exact absurd (Builtin.lookup?_eq_some.1 hLookup) (hOther (String.isEmpty_iff.1 hPlain) kind)
    next => rfl
  simp only [target?, inside, hBuiltin]

/-- The first hit on the way outward is the one under the longest beginning. -/
theorem findSome?_enclosing_iff (hTable : Declaration.Lawful table) {declaration : Declaration} :
    ((Namespace.enclosing owner.scope).findSome? fun path =>
        Declaration.find? table ⟨Namespace.join path reference.scope, reference.name⟩) =
          some declaration ↔
      ∃ path, Namespace.segments path <+: Namespace.segments owner.scope ∧ declaration ∈ table ∧
        declaration.identifier.IsInside reference path ∧
        ∀ longer, Namespace.segments longer <+: Namespace.segments owner.scope →
          (Namespace.segments path).length < (Namespace.segments longer).length →
          ∀ other ∈ table, ¬ other.identifier.IsInside reference longer := by
  have hShrinking := Namespace.enclosing_shrinking owner.scope
  rw [List.findSome?_eq_some_iff]
  constructor
  · rintro ⟨inner, path, outer, hPaths, hFind, hNone⟩
    obtain ⟨hMem, hName⟩ := Declaration.find?_eq_some hFind
    have hPath : path ∈ Namespace.enclosing owner.scope := by simp [hPaths]
    refine ⟨path, Namespace.mem_enclosing_iff.1 hPath, hMem, Identifier.isInside_iff.2 hName, ?_⟩
    intro longer hLonger hLess other hOther hInside
    -- A longer beginning comes before the path.
    have hBefore : longer ∈ inner := by
      have hMember := Namespace.mem_enclosing_iff.2 hLonger
      rw [hPaths] at hMember hShrinking
      obtain ⟨_, hLater, _⟩ := List.pairwise_append.1 hShrinking
      rcases List.mem_append.1 hMember with hInner | hMember
      · exact hInner
      · rcases List.mem_cons.1 hMember with rfl | hOuter
        · omega
        · have hShorter := (List.pairwise_cons.1 hLater).1 longer hOuter
          omega
    exact Declaration.find?_eq_none_iff.1 (hNone longer hBefore) other hOther
      (Identifier.isInside_iff.1 hInside)
  · rintro ⟨path, hPath, hMem, hInside, hLongest⟩
    obtain ⟨inner, outer, hPaths⟩ := List.append_of_mem (Namespace.mem_enclosing_iff.2 hPath)
    refine ⟨inner, path, outer, hPaths, ?_, fun longer hLonger => ?_⟩
    · exact (Declaration.find?_eq_some_iff hTable).2 ⟨hMem, Identifier.isInside_iff.1 hInside⟩
    · have hMember : longer ∈ Namespace.enclosing owner.scope := by simp [hPaths, hLonger]
      rw [hPaths] at hShrinking
      have hLess := (List.pairwise_append.1 hShrinking).2.2 longer hLonger path List.mem_cons_self
      refine Declaration.find?_eq_none_iff.2 fun other hOther hName => ?_
      exact hLongest longer (Namespace.mem_enclosing_iff.1 hMember) hLess other hOther
        (Identifier.isInside_iff.2 hName)

theorem denotes_declared_iff (hTable : Declaration.Lawful table) {declaration : Declaration} :
    Denotes owner params table reference (.declared declaration) ↔
      (Scope.inside owner params table).parameter? reference = none ∧
        (Scope.inside owner params table).target? reference = some declaration := by
  rw [Scope.parameter?_eq_none]
  constructor
  · intro hDenotes
    cases hDenotes with
    | builtin hPlain hParams hKind =>
      exact ⟨fun _ => hParams, Scope.target?_builtin hPlain hKind hTable⟩
    | innermost hOther hPath hMem hName hLongest =>
      refine ⟨fun hPlain => (hOther hPlain).1, ?_⟩
      rw [Scope.target?_outward fun hPlain => (hOther hPlain).2]
      exact (findSome?_enclosing_iff hTable).2 ⟨_, hPath, hMem, hName, hLongest⟩
  · rintro ⟨hParams, hTarget⟩
    by_cases hBuiltin : reference.scope = "" ∧ ∃ kind, Builtin.Named reference.name kind
    · obtain ⟨hPlain, kind, hKind⟩ := hBuiltin
      rw [Scope.target?_builtin hPlain hKind hTable] at hTarget
      cases hTarget
      exact .builtin hPlain (hParams hPlain) hKind
    · have hOther : reference.scope = "" → ∀ kind, ¬ Builtin.Named reference.name kind :=
        fun hPlain kind hKind => hBuiltin ⟨hPlain, kind, hKind⟩
      rw [Scope.target?_outward hOther] at hTarget
      obtain ⟨path, hPath, hMem, hName, hLongest⟩ := (findSome?_enclosing_iff hTable).1 hTarget
      exact .innermost (fun hPlain => ⟨hParams hPlain, hOther hPlain⟩) hPath hMem hName hLongest

end

/-! ## Written types -/

/-- A written type by what its name stands for. -/
def Scope.usageOf (scope : Scope) (name : QualifiedName) (args : List TypeExpr) (span : Span) :
    Option Meaning → Except CompileError Usage
  | none => .error (.unresolvedReference name.text scope.owner span)
  | some (.parameter index) =>
    if args.isEmpty then .ok (.parameter index)
    else .error (.arityMismatch scope.owner name.identifier 0 args.length)
  | some (.declared declaration) =>
    if declaration.body.isService then
      .error (.notAModel name.text scope.owner declaration.identifier)
    else (scope.usages args).map (.model declaration.identifier)

/-- A name stands for one thing at most, and that is what it is taken for. -/
theorem exists_meaning {table : List Declaration} (hTable : Declaration.Lawful table)
    (owner : Identifier) (params : List String) (name : QualifiedName) :
    ∃ meaning : Option Meaning,
      (∀ found, Denotes owner params table name.identifier found ↔ meaning = some found) ∧
      ∀ args span, (Scope.inside owner params table).usage (.mk name args span) =
        (Scope.inside owner params table).usageOf name args span meaning := by
  cases hParameter : (Scope.inside owner params table).parameter? name.identifier with
  | some index =>
    refine ⟨some (.parameter index), fun found => ?_, fun args span => ?_⟩
    · cases found with
      | parameter other =>
        rw [denotes_parameter_iff, hParameter]
        simp
      | declared declaration =>
        rw [denotes_declared_iff hTable, hParameter]
        simp
    · rw [Scope.usage, hParameter, Scope.usageOf]
  | none =>
    have hNoParameter : ∀ index,
        ¬ Denotes owner params table name.identifier (.parameter index) := by
      intro index hDenotes
      cases hParameter.symm.trans (denotes_parameter_iff.1 hDenotes)
    cases hTarget : (Scope.inside owner params table).target? name.identifier with
    | none =>
      refine ⟨none, fun found => ?_, fun args span => ?_⟩
      · cases found with
        | parameter other => simp [hNoParameter]
        | declared declaration => simp [denotes_declared_iff hTable, hTarget]
      · rw [Scope.usage, hParameter, hTarget, Scope.usageOf]
    | some declaration =>
      refine ⟨some (.declared declaration), fun found => ?_, fun args span => ?_⟩
      · cases found with
        | parameter other => simp [hNoParameter]
        | declared other => simp [denotes_declared_iff hTable, hParameter, hTarget]
      · rw [Scope.usage, hParameter, hTarget, Scope.usageOf]
        dsimp only
        split
        · rfl
        · cases (Scope.inside owner params table).usages args <;> rfl

/-! The text of a name and its parts. -/

theorem splitLastDot?_of_not_mem {text : List Char} (hText : '.' ∉ text) :
    splitLastDot? text = none := by
  cases hSplit : splitLastDot? text with
  | none => rfl
  | some parts =>
    rw [(splitLastDot?_eq_some hSplit).1] at hText
    simp at hText

theorem splitLastDot?_append (before : List Char) {after : List Char} (hAfter : '.' ∉ after) :
    splitLastDot? (before ++ '.' :: after) = some (before, after) := by
  induction before with
  | nil =>
    rw [List.nil_append, splitLastDot?, splitLastDot?_of_not_mem hAfter]
    rfl
  | cons c rest ih => rw [List.cons_append, splitLastDot?, ih]

/-- The parts of a name are its text before and behind the last dot. -/
theorem QualifiedName.parse_text {name : QualifiedName}
    (hDots : ∀ segment ∈ name.segments, '.' ∉ segment.toList) :
    Identifier.parse name.text = name.identifier := by
  obtain ⟨outer, last, hSegments, hIdentifier⟩ : ∃ outer last, name.segments = outer ++ [last] ∧
      name.identifier = ⟨String.intercalate "." outer, last⟩ :=
    ⟨_, _, (List.dropLast_concat_getLast (List.cons_ne_nil _ _)).symm, rfl⟩
  have hLast := hDots last (by simp [hSegments])
  rw [Identifier.parse, text, hSegments, hIdentifier]
  by_cases hOuter : outer = []
  · subst hOuter
    rw [List.nil_append, String.intercalate_singleton, splitLastDot?_of_not_mem hLast,
      String.intercalate_nil]
    rfl
  · have hText : (String.intercalate "." (outer ++ [last])).toList =
        (String.intercalate "." outer).toList ++ '.' :: last.toList := by
      rw [String.intercalate_append_of_ne_nil hOuter (by simp), String.intercalate_singleton,
        String.toList_append, String.toList_append, List.append_assoc]
      rfl
    rw [hText, splitLastDot?_append _ hLast]
    dsimp only
    rw [String.ofList_toList, String.ofList_toList]

/-- Names in a declaration are taken for what they stand for, the innermost declaration first. Where
a name stands for nothing, and where it stands for a service, it is refused; arguments are looked up
behind it. The walk outward meets the beginnings of the namespace and ends. -/
theorem usage_innermost {files : List SourceFile} {table : List Declaration}
    (hCollect : Declaration.collect files = .ok table) (owner : Identifier) (params : List String)
    (name : QualifiedName) :
    (∃ meaning : Option Meaning,
      (∀ found, Denotes owner params table name.identifier found ↔ meaning = some found) ∧
      ∀ args span, (Scope.inside owner params table).usage (.mk name args span) =
        (Scope.inside owner params table).usageOf name args span meaning) ∧
    (∀ args span used, (Scope.inside owner params table).usages args = .ok used →
      ((∃ text context place, (Scope.inside owner params table).usage (.mk name args span) =
          .error (.unresolvedReference text context place)) ↔
        ¬ ∃ found, Denotes owner params table name.identifier found) ∧
      ((∃ text context service, (Scope.inside owner params table).usage (.mk name args span) =
          .error (.notAModel text context service)) ↔
        ∃ declaration, Denotes owner params table name.identifier (.declared declaration) ∧
          declaration.body.isService = true)) ∧
    ((∀ segment ∈ name.segments, '.' ∉ segment.toList) →
      Identifier.parse name.text = name.identifier) ∧
    (∀ path, path ∈ Namespace.enclosing owner.scope ↔
      Namespace.segments path <+: Namespace.segments owner.scope) ∧
    WellFounded fun outer path => Namespace.parent? path = some outer := by
  have hTable := Declaration.collect_lawful hCollect
  obtain ⟨meaning, hMeaning, hUsage⟩ := exists_meaning hTable owner params name
  refine ⟨⟨meaning, hMeaning, hUsage⟩, fun args span used hArgs => ?_, QualifiedName.parse_text,
    fun path => Namespace.mem_enclosing_iff, Namespace.parent_wellFounded⟩
  simp only [hMeaning, hUsage]
  cases meaning with
  | none => simp [Scope.usageOf]
  | some found =>
    cases found with
    | parameter index =>
      rw [Scope.usageOf]
      split <;> simp
    | declared declaration =>
      rw [Scope.usageOf, hArgs]
      split
      next hService => simp [hService]
      next hService => simp [hService, Except.map]

/-! ## A harbor

Crates are declared in the port and outside of it, and the port has a radio. -/

namespace Harbor

def crate : ModelDecl FieldDecl := ⟨⟨.start, [], "Crate"⟩, []⟩

def radio : ServiceDecl := ⟨.start, "Radio", []⟩

def files : List SourceFile :=
  [⟨"harbor.ks", [.message crate, .block ⟨"port", []⟩ [.message crate, .service radio] .start]⟩]

def table : List Declaration :=
  Declaration.builtins ++ [⟨⟨"", "Crate"⟩, .message crate⟩, ⟨⟨"port", "Crate"⟩, .message crate⟩,
    ⟨⟨"port", "Radio"⟩, .service radio⟩]

theorem collect_files : Declaration.collect files = .ok table := by
  have hTable : (Declaration.collect files).toOption = some table := by cbv
  exact toOption_eq_some.1 hTable

/-- A ship at the east of the dock. -/
def ship : Identifier := ⟨"port.dock.east", "Ship"⟩

theorem segments_ship : Namespace.segments ship.scope = ["port", "dock", "east"] := by
  decide

/-- What nothing deeper is called like is the innermost declaration. -/
theorem denotes_of_deepest {reference : Identifier} (path : String) {declaration : Declaration}
    (hOther : reference.scope = "" →
      reference.name ∉ ["T"] ∧ Builtin.lookup? reference.name = none)
    (hPath : Namespace.segments path <+: ["port", "dock", "east"]) (hMem : declaration ∈ table)
    (hName : declaration.identifier.IsInside reference path)
    (hDeepest : ∀ other ∈ table, other.identifier.name = reference.name →
      (Namespace.segments other.identifier.scope).length ≤
        (Namespace.segments path).length + (Namespace.segments reference.scope).length) :
    Denotes ship ["T"] table reference (.declared declaration) := by
  refine .innermost (fun hPlain => ⟨(hOther hPlain).1, fun kind hKind => ?_⟩) ?_ hMem hName ?_
  · cases (hOther hPlain).2.symm.trans (Builtin.lookup?_eq_some.2 hKind)
  · rwa [segments_ship]
  · rintro longer _ hLess other hTable ⟨hScope, hSame⟩
    have hBound := hDeepest other hTable hSame
    rw [hScope, List.length_append] at hBound
    omega

/-- The crate of the port hides the one outside, and it is also found from outside by its full name.
The radio is no type, and nothing is known of whales. -/
theorem usage_harbor :
    (Scope.inside ship ["T"] table).usage (.mk ⟨"Crate", []⟩ [] .start) =
        .ok (.model ⟨"port", "Crate"⟩ []) ∧
      (Scope.inside ship ["T"] table).usage (.mk ⟨"port", ["Crate"]⟩ [] .start) =
        .ok (.model ⟨"port", "Crate"⟩ []) ∧
      (Scope.inside ship ["T"] table).usage (.mk ⟨"Radio", []⟩ [] .start) =
        .error (.notAModel "Radio" ship ⟨"port", "Radio"⟩) ∧
      (Scope.inside ship ["T"] table).usage (.mk ⟨"Whale", []⟩ [] .start) =
        .error (.unresolvedReference "Whale" ship .start) := by
  have hDeclared : ∀ (name : QualifiedName) (declaration : Declaration),
      Denotes ship ["T"] table name.identifier (.declared declaration) →
      (Scope.inside ship ["T"] table).usage (.mk name [] .start) =
        (Scope.inside ship ["T"] table).usageOf name [] .start (some (.declared declaration)) := by
    intro name declaration hDenotes
    obtain ⟨⟨meaning, hMeaning, hUsage⟩, _⟩ := usage_innermost collect_files ship ["T"] name
    rw [hUsage, (hMeaning _).1 hDenotes]
  have hCrate : (⟨⟨"port", "Crate"⟩, .message crate⟩ : Declaration) ∈ table := by simp [table]
  have hRadio : (⟨⟨"port", "Radio"⟩, .service radio⟩ : Declaration) ∈ table := by simp [table]
  refine ⟨?_, ?_, ?_, ?_⟩
  · exact hDeclared ⟨"Crate", []⟩ _
      (denotes_of_deepest "port" (by decide) (by decide) hCrate (by decide) (by decide))
  · exact hDeclared ⟨"port", ["Crate"]⟩ _
      (denotes_of_deepest "" (by decide) (by decide) hCrate (by decide) (by decide))
  · exact hDeclared ⟨"Radio", []⟩ _
      (denotes_of_deepest "port" (by decide) (by decide) hRadio (by decide) (by decide))
  · obtain ⟨⟨meaning, hMeaning, hUsage⟩, _⟩ :=
      usage_innermost collect_files ship ["T"] ⟨"Whale", []⟩
    rw [hUsage]
    cases meaning with
    | none => rfl
    | some found =>
      have hUnknown : ∀ other ∈ table, other.identifier.name ≠ "Whale" := by decide
      cases (hMeaning found).2 rfl with
      | parameter _ hAt _ => exact absurd (List.mem_of_getElem? hAt) (by decide)
      | @builtin kind _ _ hKind =>
        have hNone : Builtin.lookup? "Whale" = none := by decide
        cases hNone.symm.trans (Builtin.lookup?_eq_some.2 hKind)
      | innermost _ _ hMem hName _ => exact absurd hName.2 (hUnknown _ hMem)

end Harbor

end Interchange.Schema

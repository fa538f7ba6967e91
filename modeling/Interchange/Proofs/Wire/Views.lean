import Interchange.Proofs.Schema.ContentHash
import Interchange.Proofs.Schema.Naming
import Interchange.Proofs.Wire.Transparency
import Interchange.Proofs.Wire.Written

/-!
# Views of a type

A type without parameters can be looked at in three ways: by its shape, which leaves out the number
of the use; by its text; and by its bytes in the canonical form. All three say the same, and a
closed type is one with its text as well. That the text is enough rests on the full names: no
character of a name is one of the brackets and commas between the arguments.

* `TypeRef.sameShape_iff`, `TypeRef.sameShape_equivalence`: shapes.
* `Models.Holds`, `TypeRef.Concrete`: the references of a project, and those without parameters.
* `Proper.describe_inj`: a closed type can be read off its text.
* `describe_eq_and_usage_eq`: a reference without parameters is a closed type.
* `compile_views`: the references and the closed types of a project.
-/

namespace Interchange.Schema

/-! ## Shapes -/

namespace TypeRef

mutual

/-- A reference without its number and without the names of parameters. -/
def shape : TypeRef → TypeRef
  | .parameter _ owner index _ => .parameter 0 owner index ""
  | .model site target args => .model ⟨0, site.kind⟩ target (shapes args)

def shapes : List TypeRef → List TypeRef
  | [] => []
  | reference :: rest => shape reference :: shapes rest

end

theorem shapes_eq_map (references : List TypeRef) : shapes references = references.map shape := by
  induction references with
  | nil => rfl
  | cons reference rest ih => rw [shapes, ih, List.map_cons]

mutual

theorem sameShape_iff : (a b : TypeRef) → (a.sameShape b = true ↔ a.shape = b.shape)
  | .parameter _ _ _ _, .parameter _ _ _ _ => by simp [sameShape, shape]
  | .model _ _ args, .model _ _ args' => by
    simp [sameShape, shape, sameShapes_iff args args', and_assoc]
  | .parameter _ _ _ _, .model _ _ _ => by simp [sameShape, shape]
  | .model _ _ _, .parameter _ _ _ _ => by simp [sameShape, shape]

theorem sameShapes_iff : (as bs : List TypeRef) → (sameShapes as bs = true ↔ shapes as = shapes bs)
  | [], [] => by simp [sameShapes, shapes]
  | a :: as, b :: bs => by simp [sameShapes, shapes, sameShape_iff a b, sameShapes_iff as bs]
  | [], _ :: _ => by simp [sameShapes, shapes]
  | _ :: _, [] => by simp [sameShapes, shapes]

end

theorem sameShape_equivalence : Equivalence fun a b : TypeRef => a.sameShape b = true where
  refl a := (sameShape_iff a a).2 rfl
  symm {a b} hSame := (sameShape_iff b a).2 ((sameShape_iff a b).1 hSame).symm
  trans {a b c} hFirst hSecond :=
    (sameShape_iff a c).2 (((sameShape_iff a b).1 hFirst).trans ((sameShape_iff b c).1 hSecond))

open Wire in
mutual

/-- What a reference is closed to does not depend on its numbers. -/
theorem close_shape (bindings : List ClosedType) :
    (reference : TypeRef) → reference.shape.close bindings = reference.close bindings
  | .parameter _ _ _ _ => rfl
  | .model _ _ args => by rw [shape, close, close, closeAll_shapes bindings args]

theorem closeAll_shapes (bindings : List ClosedType) :
    (references : List TypeRef) →
      closeAll bindings (shapes references) = closeAll bindings references
  | [] => rfl
  | reference :: rest => by
    rw [shapes, closeAll, closeAll, close_shape bindings reference, closeAll_shapes bindings rest]

end

/-! ## References without parameters -/

/-- No parameter is met inside a reference. -/
def Concrete (reference : TypeRef) : Prop :=
  ∀ inner, reference.Reaches inner → inner.isParameter = false

theorem Concrete.arg {reference arg : TypeRef} (hConcrete : reference.Concrete)
    (hArg : arg ∈ reference.args) : arg.Concrete :=
  fun inner hReaches => hConcrete inner (.head hArg hReaches)

/-- A reference without parameters needs no owner. -/
theorem Fits.concrete {definitions : List Definition} {owner arity : Nat} {reference : TypeRef}
    (hFits : reference.Fits definitions owner arity) (hConcrete : reference.Concrete) :
    reference.Fits definitions 0 0 := by
  induction hFits with
  | parameter _ => cases hConcrete _ .refl
  | model hTarget hKind hArity _ ih =>
    exact .model hTarget hKind hArity fun arg hArg => ih arg hArg (hConcrete.arg hArg)

end TypeRef

/-- A reference that a definition or a service leads to. -/
def Models.Holds (models : Models) (reference : TypeRef) : Prop :=
  (∃ definition ∈ models.definitions, ∃ root ∈ definition.parameters ++ definition.references,
    root.Reaches reference) ∨
  ∃ service ∈ models.services, ∃ root ∈ [service.input, service.output], root.Reaches reference

theorem Models.Seated.fits_of_holds {models : Models} {table : List Resolved}
    (hSeated : models.Seated table) (hArena : Arena models.definitions) {reference : TypeRef}
    (hHolds : models.Holds reference) :
    ∃ owner arity, reference.Fits models.definitions owner arity := by
  rcases hHolds with ⟨definition, hDefinition, root, hRoot, hReaches⟩ |
    ⟨service, hService, root, hRoot, hReaches⟩
  · obtain ⟨slot, hSlot⟩ := List.mem_iff_getElem?.1 hDefinition
    rcases List.mem_append.1 hRoot with hRoot | hRoot
    · obtain ⟨index, hIndex⟩ := List.mem_iff_getElem?.1 hRoot
      obtain ⟨number, name, rfl⟩ := hSeated.parameters slot definition hSlot index root hIndex
      exact ⟨slot, index + 1, TypeRef.Fits.reaches (.parameter (Nat.lt_succ_self index)) hReaches⟩
    · have hFits := (hArena.references slot definition hSlot root hRoot).append
        (models.definitions.drop slot)
      rw [List.take_append_drop] at hFits
      exact ⟨slot, definition.arity, hFits.reaches hReaches⟩
  · exact ⟨0, 0, (hSeated.services service hService root hRoot).2.reaches hReaches⟩

/-- Under different names, a full name leads to one place. -/
theorem slot_inj {definitions : List Definition}
    (hNames : (definitions.map Definition.identifier).Nodup) {slot slot' : Nat}
    {definition definition' : Definition} (hSlot : definitions[slot]? = some definition)
    (hSlot' : definitions[slot']? = some definition')
    (hName : definition.identifier = definition'.identifier) : slot = slot' := by
  have hLess : slot < (definitions.map Definition.identifier).length := by
    rw [List.length_map]
    exact (List.getElem?_eq_some_iff.1 hSlot).1
  apply (List.getElem?_inj hLess hNames).1
  rw [List.getElem?_map, List.getElem?_map, hSlot, hSlot', Option.map_some, Option.map_some, hName]

/-- A reference without parameters has the shape that its written form gives it. -/
theorem TypeRef.Fits.shape_eq_of_usage_eq {definitions : List Definition}
    (hNames : (definitions.map Definition.identifier).Nodup) {a b : TypeRef}
    (hA : a.Fits definitions 0 0) (hB : b.Fits definitions 0 0)
    (hUsages : a.usage definitions = b.usage definitions) : a.shape = b.shape := by
  induction hA generalizing b with
  | parameter hIndex => omega
  | @model site target args definition hTarget hKind _ _ ih =>
    cases hB with
    | parameter hIndex => omega
    | @model site' target' args' definition' hTarget' hKind' _ hArgs' =>
      rw [usage, usage, identifierAt_of_getElem? hTarget, identifierAt_of_getElem? hTarget',
        usages_eq_map, usages_eq_map] at hUsages
      injection hUsages with hName hArgs
      obtain rfl := slot_inj hNames hTarget hTarget' hName
      cases hTarget.symm.trans hTarget'
      have hShapes : args'.map shape = args.map shape :=
        map_eq_map_of_forall₂ (forall₂_imp_of_mem (forall₂_of_map_eq hArgs)
          fun arg hArg arg' hArg' hUsage => ih arg hArg (hArgs' arg' hArg') hUsage)
          fun _ _ _ hShape => hShape.symm
      rw [shape, shape, hKind, hKind', shapes_eq_map, shapes_eq_map, hShapes]

/-! ## Texts -/

/-- The texts behind the first. -/
def listed (texts : List String) : List Char :=
  texts.flatMap fun text => ',' :: ' ' :: text.toList

theorem listed_cons (first : String) (rest : List String) :
    listed (first :: rest) = ',' :: ' ' :: (first.toList ++ listed rest) := by
  rw [listed, List.flatMap_cons]
  rfl

/-- The arguments in their brackets. -/
def bracketed : List String → List Char
  | [] => []
  | first :: rest => '<' :: (first.toList ++ (listed rest ++ ['>']))

theorem toList_intercalate (first : String) (rest : List String) :
    (String.intercalate ", " (first :: rest)).toList = first.toList ++ listed rest := by
  induction rest generalizing first with
  | nil =>
    rw [String.intercalate_singleton]
    exact (List.append_nil _).symm
  | cons second others ih =>
    rw [String.intercalate_cons_cons, String.toList_append, String.toList_append, ih, listed_cons,
      List.append_assoc]
    rfl

theorem toList_applied (identifier : Identifier) (args : List String) :
    (applied identifier args).toList = identifier.text.toList ++ bracketed args := by
  cases args with
  | nil => exact (List.append_nil _).symm
  | cons first rest =>
    rw [applied, if_neg (by simp), bracketed]
    simp only [String.toList_append, toList_intercalate, List.append_assoc]
    rfl

/-- What follows a text and does not go on with it. -/
def Closing (rest : List Char) : Prop :=
  EndsRun (fun c => isPathPart c || c == '<') rest

theorem closing_nil : Closing [] := by
  intro c hc
  cases hc

theorem closing_comma (rest : List Char) : Closing (',' :: rest) := by
  intro c hc
  cases hc
  decide

theorem closing_bracket (rest : List Char) : Closing ('>' :: rest) := by
  intro c hc
  cases hc
  decide

theorem Closing.endsRun {args : List String} {rest : List Char} (hRest : Closing rest) :
    EndsRun isPathPart (bracketed args ++ rest) := by
  cases args with
  | nil =>
    intro c hc
    exact (Bool.or_eq_false_iff.1 (hRest c hc)).1
  | cons first others =>
    intro c hc
    cases hc
    decide

/-- Paths end where other characters begin. -/
theorem isPath_append_inj {path path' : String} {rest rest' : List Char} (hPath : IsPath path)
    (hPath' : IsPath path') (hRest : EndsRun isPathPart rest) (hRest' : EndsRun isPathPart rest')
    (hEq : path.toList ++ rest = path'.toList ++ rest') : path = path' ∧ rest = rest' := by
  have hFronts := congrArg (List.takeWhile isPathPart) hEq
  rw [takeWhile_run hPath hRest, takeWhile_run hPath' hRest'] at hFronts
  have hTails := congrArg (List.dropWhile isPathPart) hEq
  rw [dropWhile_run hPath hRest, dropWhile_run hPath' hRest'] at hTails
  exact ⟨String.toList_inj.1 hFronts, hTails⟩

end Interchange.Schema

namespace Interchange.Wire

open Schema

namespace ClosedType

theorem describeAll_eq_map (definitions : List Definition) (types : List ClosedType) :
    describeAll definitions types = types.map (describe definitions) := by
  induction types with
  | nil => rfl
  | cons type rest ih => rw [describeAll, ih, List.map_cons]

/-- In front of what does not go on with it, the text of a type is not that of another. -/
def Legible (definitions : List Definition) (type : ClosedType) : Prop :=
  ∀ other rest rest', other.Proper definitions → Closing rest → Closing rest' →
    (type.describe definitions).toList ++ rest = (other.describe definitions).toList ++ rest' →
      type = other ∧ rest = rest'

variable {definitions : List Definition}

theorem closing_listed (types : List ClosedType) (rest : List Char) :
    Closing (listed (types.map (describe definitions)) ++ '>' :: rest) := by
  cases types with
  | nil => exact closing_bracket rest
  | cons type others => exact closing_comma _

/-- The arguments behind the first, up to the bracket. -/
theorem listed_inj {types others : List ClosedType} {rest rest' : List Char}
    (hTypes : ∀ type ∈ types, type.Legible definitions)
    (hOthers : ∀ other ∈ others, other.Proper definitions)
    (hEq : listed (types.map (describe definitions)) ++ '>' :: rest =
      listed (others.map (describe definitions)) ++ '>' :: rest') :
    types = others ∧ rest = rest' := by
  induction types generalizing others with
  | nil =>
    cases others with
    | nil => exact ⟨rfl, List.tail_eq_of_cons_eq hEq⟩
    | cons other others => simp [listed] at hEq
  | cons type types ih =>
    cases others with
    | nil => simp [listed] at hEq
    | cons other others =>
      simp only [List.map_cons, listed_cons, List.cons_append, List.append_assoc, List.cons.injEq,
        true_and] at hEq
      obtain ⟨rfl, hRest⟩ := hTypes type List.mem_cons_self other _ _
        (hOthers other List.mem_cons_self) (closing_listed types rest)
          (closing_listed others rest') hEq
      obtain ⟨rfl, rfl⟩ := ih (fun type hType => hTypes type (List.mem_cons_of_mem _ hType))
        (fun other hOther => hOthers other (List.mem_cons_of_mem _ hOther)) hRest
      exact ⟨rfl, rfl⟩

theorem bracketed_inj {types others : List ClosedType} {rest rest' : List Char}
    (hTypes : ∀ type ∈ types, type.Legible definitions)
    (hOthers : ∀ other ∈ others, other.Proper definitions) (hRest : Closing rest)
    (hRest' : Closing rest')
    (hEq : bracketed (types.map (describe definitions)) ++ rest =
      bracketed (others.map (describe definitions)) ++ rest') :
    types = others ∧ rest = rest' := by
  -- What follows a type without arguments does not open a bracket.
  have hOpen : ∀ {tail : List Char}, ¬ Closing ('<' :: tail) := by
    intro tail hClosing
    cases hClosing '<' rfl
  cases types with
  | nil =>
    cases others with
    | nil => exact ⟨rfl, hEq⟩
    | cons other others =>
      subst hEq
      exact absurd hRest hOpen
  | cons type types =>
    cases others with
    | nil =>
      subst hEq
      exact absurd hRest' hOpen
    | cons other others =>
      simp only [List.map_cons, bracketed, List.cons_append, List.append_assoc, List.nil_append,
        List.cons.injEq, true_and] at hEq
      obtain ⟨rfl, hMore⟩ := hTypes type List.mem_cons_self other _ _
        (hOthers other List.mem_cons_self) (closing_listed types rest)
          (closing_listed others rest') hEq
      obtain ⟨rfl, rfl⟩ := listed_inj (fun type hType => hTypes type (List.mem_cons_of_mem _ hType))
        (fun other hOther => hOthers other (List.mem_cons_of_mem _ hOther)) hMore
      exact ⟨rfl, rfl⟩

theorem toList_describe {slot : Nat} {args : List ClosedType} {definition : Definition}
    (hSlot : definitions[slot]? = some definition) :
    ((mk slot args).describe definitions).toList =
      definition.identifier.text.toList ++ bracketed (args.map (describe definitions)) := by
  rw [describe, identifierAt_of_getElem? hSlot, toList_applied, describeAll_eq_map]

theorem Proper.legible (hNames : (definitions.map Definition.identifier).Nodup)
    (hPlain : ∀ definition ∈ definitions, definition.identifier.Plain) {type : ClosedType}
    (hType : type.Proper definitions) : type.Legible definitions := by
  induction hType with
  | @mk slot args definition hSlot _ _ ih =>
    intro other rest rest' hOther hRest hRest' hEq
    cases hOther with
    | @mk slot' args' definition' hSlot' _ hArgs' =>
      rw [toList_describe hSlot, toList_describe hSlot', List.append_assoc,
        List.append_assoc] at hEq
      have hOwn := hPlain definition (List.mem_of_getElem? hSlot)
      have hOwn' := hPlain definition' (List.mem_of_getElem? hSlot')
      obtain ⟨hTexts, hArgs⟩ :=
        isPath_append_inj hOwn.isPath_text hOwn'.isPath_text hRest.endsRun hRest'.endsRun hEq
      obtain rfl := slot_inj hNames hSlot hSlot' (hOwn.text_inj hOwn' hTexts)
      obtain ⟨rfl, rfl⟩ := bracketed_inj ih hArgs' hRest hRest' hArgs
      exact ⟨rfl, rfl⟩

/-- A closed type can be read off its text. -/
theorem Proper.describe_inj (hNames : (definitions.map Definition.identifier).Nodup)
    (hPlain : ∀ definition ∈ definitions, definition.identifier.Plain) {type other : ClosedType}
    (hType : type.Proper definitions) (hOther : other.Proper definitions)
    (hTexts : type.describe definitions = other.describe definitions) : type = other :=
  (hType.legible hNames hPlain other [] [] hOther closing_nil closing_nil (by rw [hTexts])).1

end ClosedType

/-! ## References as closed types -/

theorem describeAll_eq_map (definitions : List Definition) (references : List TypeRef) :
    TypeRef.describeAll definitions references = references.map (TypeRef.describe definitions) := by
  induction references with
  | nil => rfl
  | cons reference rest ih => rw [TypeRef.describeAll, ih, List.map_cons]

/-- A reference without parameters has the text and the written form of its closed type. -/
theorem describe_eq_and_usage_eq {definitions : List Definition} {reference : TypeRef}
    (hFits : reference.Fits definitions 0 0) {type : ClosedType}
    (hClose : reference.close [] = some type) :
    reference.describe definitions = type.describe definitions ∧
      reference.usage definitions = type.usage definitions := by
  induction hFits generalizing type with
  | parameter hIndex => omega
  | @model site target args definition _ _ _ _ ih =>
    rw [TypeRef.close] at hClose
    split at hClose
    next closed hClosed =>
      cases hClose
      have hArgs := closeAll_eq_some.1 hClosed
      have hTexts : closed.map (ClosedType.describe definitions) =
          args.map (TypeRef.describe definitions) :=
        map_eq_map_of_forall₂ hArgs fun arg hArg type hType => (ih arg hArg hType).1.symm
      have hUsages : closed.map (ClosedType.usage definitions) =
          args.map (TypeRef.usage definitions) :=
        map_eq_map_of_forall₂ hArgs fun arg hArg type hType => (ih arg hArg hType).2.symm
      refine ⟨?_, ?_⟩
      · rw [TypeRef.describe, ClosedType.describe, describeAll_eq_map,
          ClosedType.describeAll_eq_map, hTexts]
      · rw [TypeRef.usage, ClosedType.usage_mk, TypeRef.usages_eq_map, hUsages]
    next => cases hClose

/-- References without parameters have one shape exactly if they have one text and one written
form. -/
theorem sameShape_iff_describe_eq {definitions : List Definition}
    (hNames : (definitions.map Definition.identifier).Nodup)
    (hPlain : ∀ definition ∈ definitions, definition.identifier.Plain) {a b : TypeRef}
    (hA : a.Fits definitions 0 0) (hB : b.Fits definitions 0 0) :
    (a.sameShape b = true ↔ a.describe definitions = b.describe definitions) ∧
      (a.sameShape b = true ↔ a.usage definitions = b.usage definitions) := by
  obtain ⟨type, hType, hProper⟩ : ∃ type, a.close [] = some type ∧ type.Proper definitions :=
    close_proper (fun _ _ hSlot => hSlot) (by simp) hA
  obtain ⟨other, hOther, hProper'⟩ : ∃ other, b.close [] = some other ∧ other.Proper definitions :=
    close_proper (fun _ _ hSlot => hSlot) (by simp) hB
  obtain ⟨hText, hUsage⟩ := describe_eq_and_usage_eq hA hType
  obtain ⟨hText', hUsage'⟩ := describe_eq_and_usage_eq hB hOther
  have hTypes : a.shape = b.shape → type = other := by
    intro hShapes
    have hCloses := congrArg (TypeRef.close []) hShapes
    rw [TypeRef.close_shape, TypeRef.close_shape, hType, hOther] at hCloses
    exact Option.some.inj hCloses
  have hShapes : a.usage definitions = b.usage definitions → a.shape = b.shape :=
    hA.shape_eq_of_usage_eq hNames hB
  rw [TypeRef.sameShape_iff, hText, hText']
  refine ⟨⟨?_, ?_⟩, ⟨?_, hShapes⟩⟩
  · intro hShape
    rw [hTypes hShape]
  · intro hTexts
    apply hShapes
    rw [hUsage, hUsage', hProper.describe_inj hNames hPlain hProper' hTexts]
  · intro hShape
    rw [hUsage, hUsage', hTypes hShape]

/-- In a project, references without parameters have the same shape exactly if they have the same
text, and exactly if they have the same bytes in the canonical form, as long as the lengths of names
and of argument lists fit into eight bytes. Closed types are equal exactly if their texts are. To
have the same shape is an equivalence, also where there are parameters. -/
theorem compile_views {options : Schema.Options} {sources : List Schema.Source} {project : Project}
    (hCompile : compile options sources = .ok project) :
    (∀ a b : TypeRef, project.Holds a → project.Holds b → a.Concrete → b.Concrete →
      (a.sameShape b = true ↔ project.describe a = project.describe b) ∧
      (a.sameShape b = true →
        Canonical.reference project.definitions a = Canonical.reference project.definitions b) ∧
      ((∀ definition ∈ project.definitions, Canonical.ShortName definition.identifier) →
        (∀ definition ∈ project.definitions, definition.arity < 2 ^ 64) →
        Canonical.reference project.definitions a = Canonical.reference project.definitions b →
          a.sameShape b = true)) ∧
    (∀ type other : ClosedType, type.Proper project.definitions → other.Proper project.definitions →
      (type = other ↔ type.describe project.definitions = other.describe project.definitions)) ∧
    Equivalence fun a b : TypeRef => a.sameShape b = true := by
  have hPlain := compile_plain hCompile
  have hArena := compile_arena hCompile
  obtain ⟨_, _, table, _, _, _, hSeated⟩ := compile_seated hCompile
  refine ⟨?_, ?_, TypeRef.sameShape_equivalence⟩
  · intro a b hHolds hHolds' hConcrete hConcrete'
    obtain ⟨_, _, hFits⟩ := hSeated.fits_of_holds hArena hHolds
    obtain ⟨_, _, hFits'⟩ := hSeated.fits_of_holds hArena hHolds'
    have hA := hFits.concrete hConcrete
    have hB := hFits'.concrete hConcrete'
    obtain ⟨hTexts, hUsages⟩ := sameShape_iff_describe_eq hSeated.names hPlain hA hB
    rw [Canonical.reference_eq, Canonical.reference_eq]
    refine ⟨hTexts, ?_, ?_⟩
    · intro hShape
      rw [hUsages.1 hShape]
    · intro hShort hArities hBytes
      have hSized := hA.sized (fun _ _ hSlot => hSlot) hShort hArities (by decide)
      have hSized' := hB.sized (fun _ _ hSlot => hSlot) hShort hArities (by decide)
      exact hUsages.2 (Canonical.delimited_usage hSized _ [] [] hSized' (by rw [hBytes])).1
  · intro type other hType hOther
    exact ⟨fun hEq => by rw [hEq], hType.describe_inj hSeated.names hPlain hOther⟩

section

open Schema.Crate (models)

/-- The use of a byte in the lid of a crate. -/
def lidByte : TypeRef :=
  .model ⟨0, .builtin⟩ 5 []

/-- The use of a byte in the content of a crate, as an argument. -/
def contentByte : TypeRef :=
  .model ⟨2, .builtin⟩ 5 []

def lidUse : TypeRef :=
  .model ⟨1, .tag⟩ 16 []

/-- The array of bytes in a crate. -/
def contentUse : TypeRef :=
  .model ⟨3, .builtin⟩ 14 [contentByte]

/-- The array of bytes on a pallet. -/
def codeUse : TypeRef :=
  .model ⟨5, .builtin⟩ 14 [.model ⟨4, .builtin⟩ 5 []]

/-- The stacks of crates on a pallet, by name. -/
def cratesUse : TypeRef :=
  .model ⟨9, .builtin⟩ 15
    [.model ⟨6, .builtin⟩ 11 [], .model ⟨8, .builtin⟩ 14 [.model ⟨7, .message⟩ 17 []]]

/-- The stacks of lids, which differ from those of crates in the innermost argument only. -/
def lidsUse : TypeRef :=
  .model ⟨13, .builtin⟩ 15
    [.model ⟨10, .builtin⟩ 11 [], .model ⟨12, .builtin⟩ 14 [.model ⟨11, .tag⟩ 16 []]]

/-- What is met inside a type of a definition is held. -/
theorem holds_of_reaches {slot : Nat} {definition : Definition} {inner : TypeRef}
    (hSlot : models.definitions[slot]? = some definition) (outer : TypeRef)
    (hOuter : outer ∈ definition.references) (hReaches : outer.Reaches inner) :
    models.Holds inner :=
  Or.inl ⟨definition, List.mem_of_getElem? hSlot, outer, List.mem_append_right _ hOuter, hReaches⟩

theorem holds_uses :
    (models.Holds lidByte ∧ models.Holds contentByte ∧ models.Holds lidUse) ∧
      models.Holds contentUse ∧ models.Holds codeUse ∧ models.Holds cratesUse ∧
      models.Holds lidsUse := by
  have hLid : models.definitions[16]? = some _ := rfl
  have hCrate : models.definitions[17]? = some _ := rfl
  have hPallet : models.definitions[18]? = some _ := rfl
  refine ⟨⟨?_, ?_, ?_⟩, ?_, ?_, ?_, ?_⟩
  · exact holds_of_reaches hLid lidByte List.mem_cons_self .refl
  · exact holds_of_reaches hCrate contentUse List.mem_cons_self
      (.single (List.mem_singleton.2 rfl))
  · exact holds_of_reaches hCrate lidUse (by simp [Definition.references, lidUse]) .refl
  · exact holds_of_reaches hCrate contentUse List.mem_cons_self .refl
  · exact holds_of_reaches hPallet codeUse List.mem_cons_self .refl
  · exact holds_of_reaches hPallet cratesUse (by simp [Definition.references, cratesUse]) .refl
  · exact holds_of_reaches hPallet lidsUse (by simp [Definition.references, lidsUse]) .refl

theorem concrete_model {site : UseSite} {target : Nat} {args : List TypeRef}
    (hArgs : ∀ arg ∈ args, arg.Concrete) : (TypeRef.model site target args).Concrete := by
  intro inner hReaches
  rcases Relation.ReflTransGen.cases_head hReaches with rfl | ⟨arg, hArg, hInner⟩
  · rfl
  · exact hArgs arg hArg inner hInner

/-- The two bytes of a crate are one type in all views, and the lid is another one. So are the
arrays of bytes in a crate and on a pallet, and the stacks of crates and of lids differ. -/
theorem views_crate :
    (models.Holds lidByte ∧ models.Holds contentByte ∧ models.Holds lidUse) ∧
    (models.describe lidByte = models.describe contentByte ∧
      Canonical.reference models.definitions lidByte =
        Canonical.reference models.definitions contentByte) ∧
    (models.describe lidByte ≠ models.describe lidUse ∧
      Canonical.reference models.definitions lidByte ≠
        Canonical.reference models.definitions lidUse) ∧
    (models.Holds contentUse ∧ models.Holds codeUse ∧ models.Holds cratesUse ∧
      models.Holds lidsUse) ∧
    (models.describe contentUse = models.describe codeUse ∧
      Canonical.reference models.definitions contentUse =
        Canonical.reference models.definitions codeUse) ∧
    models.describe cratesUse ≠ models.describe lidsUse ∧
      Canonical.reference models.definitions cratesUse ≠
        Canonical.reference models.definitions lidsUse := by
  obtain ⟨hViews, _, _⟩ := compile_views (Schema.Crate.compiles.compile {})
  obtain ⟨⟨hLidByte, hContentByte, hLidUse⟩, hContent, hCode, hCrates, hLids⟩ := holds_uses
  have hPlain : ∀ {site : UseSite} {target : Nat}, (TypeRef.model site target []).Concrete :=
    concrete_model (by simp)
  have hArray : ∀ {site inner : UseSite} {target : Nat},
      (TypeRef.model site 14 [.model inner target []]).Concrete :=
    concrete_model (by simp [hPlain])
  have hStacks : ∀ {site key array inner : UseSite} {target : Nat}, (TypeRef.model site 15
      [.model key 11 [], .model array 14 [.model inner target []]]).Concrete :=
    concrete_model (by simp [hPlain, hArray])
  have hShort : ∀ definition ∈ models.definitions, Canonical.ShortName definition.identifier := by
    decide
  have hArities : ∀ definition ∈ models.definitions, definition.arity < 2 ^ 64 := by decide
  obtain ⟨hText, hBytes, _⟩ := hViews lidByte contentByte hLidByte hContentByte hPlain hPlain
  obtain ⟨hText', _, hBytes'⟩ := hViews lidByte lidUse hLidByte hLidUse hPlain hPlain
  obtain ⟨hTexts, hUses, _⟩ := hViews contentUse codeUse hContent hCode hArray hArray
  obtain ⟨hTexts', _, hUses'⟩ := hViews cratesUse lidsUse hCrates hLids hStacks hStacks
  have hApart : ¬ lidByte.sameShape lidUse = true := by decide
  have hStacksApart : ¬ cratesUse.sameShape lidsUse = true := by decide
  exact ⟨⟨hLidByte, hContentByte, hLidUse⟩, ⟨hText.1 rfl, hBytes rfl⟩,
    ⟨fun hEq => hApart (hText'.2 hEq), fun hEq => hApart (hBytes' hShort hArities hEq)⟩,
    ⟨hContent, hCode, hCrates, hLids⟩, ⟨hTexts.1 rfl, hUses rfl⟩,
    fun hEq => hStacksApart (hTexts'.2 hEq), fun hEq => hStacksApart (hUses' hShort hArities hEq)⟩

end

end Interchange.Wire

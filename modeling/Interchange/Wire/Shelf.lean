import Interchange.Wire.TypeCodec

/-!
# Codecs put aside

The definitions of a project may refer to one another so often that a type written out in full is
far larger than the project. A shelf holds the codec of every type that was met, so that it is put
together once.

* `shelvedCodecOf`: the codec of a closed type, put together with a shelf.
* `shelvedCodecOf_eq`: it is the codec of the type.
-/

namespace Interchange.Wire

open Schema

/-- Codecs that were put together, by their types. -/
abbrev Shelf := List (ClosedType × Codec)

/-- A step that may fail and that may use a shelf. -/
abbrev Shelving := StateT Shelf Option

/-- Takes a codec from the shelf, or puts it there. -/
def keepOnShelf (type : ClosedType) (build : Shelving Codec) : Shelving Codec := fun shelf =>
  match shelf.lookup type with
  | some codec => some (codec, shelf)
  | none =>
    match build shelf with
    | some (codec, later) => some (codec, (type, codec) :: later)
    | none => none

/-- The codec of a closed type, where the codec of a type is put together once. -/
def shelvedCodecOf (definitions : List Definition) (type : ClosedType) : Option Codec :=
  ((typeCodec keepOnShelf definitions type).run []).map Prod.fst

/-! ## Agreement -/

/-- Every codec on the shelf is the codec of its type. -/
def Shelf.Faithful (definitions : List Definition) (shelf : Shelf) : Prop :=
  ∀ entry ∈ shelf, codecOf definitions entry.1 = some entry.2

/-- The codec of an instance is the codec of its type. -/
def Instance.Faithful (definitions : List Definition) (found : Instance) : Prop :=
  codecOf definitions found.type = some found.codec

/-- A step with a faithful shelf gives what the step without one gives, and leaves a faithful shelf.
Its result has a property. -/
structure Agrees (definitions : List Definition) {α : Type} (property : α → Prop) (plain : Option α)
    (shelving : Shelving α) : Prop where
  result : ∀ a, plain = some a → property a
  run : ∀ shelf : Shelf, shelf.Faithful definitions →
    ∃ later : Shelf, later.Faithful definitions ∧ shelving shelf = plain.map (·, later)

namespace Agrees

variable {definitions : List Definition} {α β : Type} {property : α → Prop} {goal : β → Prop}

theorem pure {a : α} (hResult : property a) :
    Agrees definitions property (Pure.pure a) (Pure.pure a) where
  result b hb := by
    obtain rfl := Option.some.inj hb
    exact hResult
  run shelf hShelf := ⟨shelf, hShelf, rfl⟩

theorem bind {plain : Option α} {shelving : Shelving α} {f : α → Option β} {g : α → Shelving β}
    (hFirst : Agrees definitions property plain shelving)
    (hNext : ∀ a, property a → Agrees definitions goal (f a) (g a)) :
    Agrees definitions goal (plain >>= f) (shelving >>= g) where
  result b hb := by
    obtain ⟨a, hPlain, hf⟩ := Option.bind_eq_some_iff.1 hb
    exact (hNext a (hFirst.result a hPlain)).result b hf
  run shelf hShelf := by
    obtain ⟨later, hLater, hRun⟩ := hFirst.run shelf hShelf
    cases plain with
    | none =>
      refine ⟨shelf, hShelf, ?_⟩
      show (shelving shelf).bind _ = _
      rw [hRun]
      rfl
    | some a =>
      obtain ⟨last, hLast, hSecond⟩ := (hNext a (hFirst.result a rfl)).run later hLater
      refine ⟨last, hLast, ?_⟩
      show (shelving shelf).bind _ = _
      rw [hRun]
      exact hSecond

theorem lift {found : Option α} (hResult : ∀ a, found = some a → property a) :
    Agrees definitions property (liftM found) (liftM found) where
  result := hResult
  run shelf hShelf := ⟨shelf, hShelf, by cases found <;> rfl⟩

/-- A step with a result of which nothing more is known. -/
theorem weaken {plain : Option α} {shelving : Shelving α}
    (hStep : Agrees definitions property plain shelving) :
    Agrees definitions (fun _ => True) plain shelving where
  result _ _ := trivial
  run := hStep.run

theorem partsWith {γ : Type} {content : γ → Option α} {content' : γ → Shelving α}
    (hContent : ∀ c, Agrees definitions (fun _ => True) (content c) (content' c)) :
    (parts : List (ModelPart γ)) →
    Agrees definitions (fun _ => True) (Wire.partsWith content parts)
      (Wire.partsWith content' parts)
  | [] => pure trivial
  | part :: rest =>
    (hContent part.content).bind fun _ _ =>
      (partsWith hContent rest).bind fun _ _ => pure trivial

end Agrees

/-! ## Codecs that do not depend on the way -/

/-- A definition below the bound has the same codec for every bound. -/
theorem codecAt_eq {definitions : List Definition} {slot : Nat} (args : List Instance) :
    (bound : Nat) → slot < bound →
    codecAt keepNothing definitions bound slot args =
      codecAt keepNothing definitions (slot + 1) slot args
  | bound + 1, hSlot => by
    by_cases hEq : slot = bound
    · subst hEq
      rfl
    · rw [codecAt, if_neg hEq]
      exact codecAt_eq args bound (by omega)

/-- Faithful instances are those of their types. -/
theorem typeInstances_map {definitions : List Definition} :
    (instances : List Instance) → (∀ found ∈ instances, found.Faithful definitions) →
    typeInstances keepNothing definitions (instances.map Instance.type) = some instances
  | [], _ => rfl
  | first :: rest, hFaithful => by
    have hFirst : typeCodec keepNothing definitions first.type = some first.codec :=
      hFaithful first List.mem_cons_self
    have hRest := typeInstances_map rest fun found hFound =>
      hFaithful found (List.mem_cons_of_mem _ hFound)
    simp only [List.map_cons, typeInstances, hFirst, hRest, Option.bind_eq_bind, Option.bind_some,
      Option.pure_def]

/-- The codec of a type whose arguments have faithful instances. -/
theorem codecOf_mk {definitions : List Definition} {slot : Nat} {args : List Instance}
    (hArgs : ∀ found ∈ args, found.Faithful definitions) :
    codecOf definitions (.mk slot (args.map Instance.type)) =
      codecAt keepNothing definitions definitions.length slot args := by
  simp only [codecOf, typeCodec, typeInstances_map args hArgs, Option.bind_eq_bind,
    Option.bind_some]

/-! ## Agreement of the steps -/

/-- Building agrees on definitions with faithful arguments, and gives the codecs of types. -/
def BuildAgrees (definitions : List Definition) (plain : Nat → List Instance → Option Codec)
    (shelving : Nat → List Instance → Shelving Codec) : Prop :=
  ∀ slot args, (∀ found ∈ args, found.Faithful definitions) →
    Agrees definitions
      (fun codec => codecOf definitions (.mk slot (args.map Instance.type)) = some codec)
      (plain slot args) (shelving slot args)

mutual

theorem agrees_instanceOf {definitions : List Definition}
    {plain : Nat → List Instance → Option Codec} {shelving : Nat → List Instance → Shelving Codec}
    {args : List Instance} (hBuild : BuildAgrees definitions plain shelving)
    (hArgs : ∀ found ∈ args, found.Faithful definitions) :
    (reference : TypeRef) → Agrees definitions (Instance.Faithful definitions)
      (instanceOf plain args reference) (instanceOf shelving args reference)
  | .parameter _ _ _ _ => Agrees.lift fun _ hFound => hArgs _ (List.mem_of_getElem? hFound)
  | .model _ target inner =>
    (agrees_instancesOf hBuild hArgs inner).bind fun instances hInstances =>
      (hBuild target instances hInstances).bind fun _ hCodec => Agrees.pure hCodec

theorem agrees_instancesOf {definitions : List Definition}
    {plain : Nat → List Instance → Option Codec}
    {shelving : Nat → List Instance → Shelving Codec} {args : List Instance}
    (hBuild : BuildAgrees definitions plain shelving)
    (hArgs : ∀ found ∈ args, found.Faithful definitions) :
    (references : List TypeRef) →
    Agrees definitions (fun found => ∀ one ∈ found, Instance.Faithful definitions one)
      (instancesOf plain args references) (instancesOf shelving args references)
  | [] => Agrees.pure (by simp)
  | reference :: rest =>
    (agrees_instanceOf hBuild hArgs reference).bind fun _ hFirst =>
      (agrees_instancesOf hBuild hArgs rest).bind fun _ hOthers =>
        Agrees.pure (List.forall_mem_cons.2 ⟨hFirst, hOthers⟩)

end

theorem agrees_bodyCodec {definitions : List Definition}
    {plain : Nat → List Instance → Option Codec} {shelving : Nat → List Instance → Shelving Codec}
    {args : List Instance} (hBuild : BuildAgrees definitions plain shelving)
    (hArgs : ∀ found ∈ args, found.Faithful definitions) (definition : Definition)
    (type : ClosedType) :
    Agrees definitions (fun _ => True) (bodyCodec plain definitions definition type args)
      (bodyCodec shelving definitions definition type args) := by
  have hReference (reference : TypeRef) : Agrees definitions (fun _ => True)
      (referenceCodec plain args reference) (referenceCodec shelving args reference) :=
    (agrees_instanceOf hBuild hArgs reference).bind fun _ _ => Agrees.pure trivial
  have hPayload (payload : Option TypeRef) : Agrees definitions (fun _ => True)
      (payloadCodec plain args payload) (payloadCodec shelving args payload) := by
    cases payload with
    | none => exact Agrees.pure trivial
    | some reference => exact (hReference reference).bind fun _ _ => Agrees.pure trivial
  unfold bodyCodec
  split
  · exact Agrees.lift fun _ _ => trivial
  · exact (Agrees.partsWith hReference _).bind fun _ _ => Agrees.pure trivial
  · exact (Agrees.partsWith hPayload _).bind fun _ _ => Agrees.pure trivial

/-- What is taken from a faithful shelf, or put there, is what is put together without a shelf. -/
theorem agrees_keepOnShelf {definitions : List Definition} {type : ClosedType}
    {plain : Option Codec} {shelving : Shelving Codec}
    (hType : codecOf definitions type = plain)
    (hStep : Agrees definitions (fun _ => True) plain shelving) :
    Agrees definitions (fun codec => codecOf definitions type = some codec) plain
      (keepOnShelf type shelving) where
  result codec hCodec := hType.trans hCodec
  run shelf hShelf := by
    unfold keepOnShelf
    split
    next codec hLookup =>
      obtain ⟨before, after, hSplit, _⟩ := List.lookup_eq_some_iff.1 hLookup
      have hEntry : codecOf definitions type = some codec :=
        hShelf (type, codec) (by simp [hSplit])
      refine ⟨shelf, hShelf, ?_⟩
      rw [← hType, hEntry]
      rfl
    next hLookup =>
      obtain ⟨later, hLater, hRun⟩ := hStep.run shelf hShelf
      cases plain with
      | none => exact ⟨shelf, hShelf, by rw [hRun]; rfl⟩
      | some codec =>
        refine ⟨(type, codec) :: later, List.forall_mem_cons.2 ⟨hType, hLater⟩, ?_⟩
        rw [hRun]
        rfl

theorem agrees_codecAt {definitions : List Definition} :
    (bound : Nat) → bound ≤ definitions.length →
    BuildAgrees definitions (codecAt keepNothing definitions bound)
      (codecAt keepOnShelf definitions bound)
  | 0, _ => fun _ _ _ => Agrees.lift (fun _ hNone => nomatch hNone)
  | bound + 1, hBound => fun slot args hArgs => by
    have hInner : BuildAgrees definitions _ _ := agrees_codecAt bound (Nat.le_of_succ_le hBound)
    by_cases hSlot : slot = bound
    · subst hSlot
      have hType : codecOf definitions (.mk slot (args.map Instance.type)) =
          codecAt keepNothing definitions (slot + 1) slot args :=
        (codecOf_mk hArgs).trans (codecAt_eq args _ hBound)
      rw [codecAt, if_pos rfl] at hType ⊢
      rw [codecAt, if_pos rfl]
      cases hFind : definitions[slot]? with
      | none => exact Agrees.lift (fun _ hNone => nomatch hNone)
      | some definition =>
        rw [hFind] at hType
        exact agrees_keepOnShelf hType (agrees_bodyCodec hInner hArgs definition _)
    · rw [codecAt, if_neg hSlot, codecAt, if_neg hSlot]
      exact hInner slot args hArgs

mutual

theorem agrees_typeCodec {definitions : List Definition} :
    (type : ClosedType) → Agrees definitions (fun codec => codecOf definitions type = some codec)
      (typeCodec keepNothing definitions type) (typeCodec keepOnShelf definitions type)
  | .mk slot args => {
      result := fun _ hCodec => hCodec
      run := ((agrees_typeInstances args).bind fun instances hInstances =>
        (agrees_codecAt definitions.length (Nat.le_refl _) slot instances hInstances).weaken).run }

theorem agrees_typeInstances {definitions : List Definition} :
    (types : List ClosedType) →
    Agrees definitions (fun found => ∀ one ∈ found, Instance.Faithful definitions one)
      (typeInstances keepNothing definitions types) (typeInstances keepOnShelf definitions types)
  | [] => Agrees.pure (by simp)
  | type :: rest =>
    (agrees_typeCodec type).bind fun _ hFirst =>
      (agrees_typeInstances rest).bind fun _ hOthers =>
        Agrees.pure (List.forall_mem_cons.2 ⟨hFirst, hOthers⟩)

end

/-- Putting codecs aside does not change them. -/
theorem shelvedCodecOf_eq (definitions : List Definition) (type : ClosedType) :
    shelvedCodecOf definitions type = codecOf definitions type := by
  have hEmpty : Shelf.Faithful definitions [] := fun _ hEntry => nomatch hEntry
  obtain ⟨later, _, hRun⟩ := (agrees_typeCodec type).run [] hEmpty
  have hShelved : (typeCodec keepOnShelf definitions type).run [] =
      (codecOf definitions type).map (·, later) := hRun
  rw [shelvedCodecOf, hShelved]
  cases codecOf definitions type <;> rfl

end Interchange.Wire

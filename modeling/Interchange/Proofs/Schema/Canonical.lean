import Interchange.Proofs.Schema.Records
import Interchange.Schema.Canonical
import Mathlib.Algebra.Group.Nat.Defs

/-!
# Encodings that end by themselves

The canonical form of a project is put together from encodings that end by themselves: lists are
counted, texts have their lengths in front, and every other choice is written down before what
depends on it. What such an encoding holds can be read off it, whatever follows.

* `Canonical.Delimited`: an encoding that ends by itself.
* `delimited_number`, `delimited_text`, `delimited_counted`: the building blocks.
* `reference_eq`, `delimited_usage`: references are encoded by the types that they stand for.
* `ModelForm.Sized.delimited`, `ServiceForm.Sized.delimited`: what models and services say.
* `hexText_injective`: hexadecimal text.
-/

namespace Interchange

theorem utf8_injective {s t : String} (hBytes : utf8 s = utf8 t) : s = t := by
  have hTexts := congrArg utf8? hBytes
  rw [utf8?_utf8, utf8?_utf8] at hTexts
  exact Option.some.inj hTexts

/-! ## Hexadecimal text -/

theorem hexDigit_inj : ∀ m < 16, ∀ n < 16, hexDigit m = hexDigit n → m = n := by
  decide

/-- A byte string can be read off its hexadecimal text. -/
theorem hexText_injective {first second : Bytes} (hTexts : hexText first = hexText second) :
    first = second := by
  have hDigits := String.ofList_injective hTexts
  induction first generalizing second with
  | nil =>
    cases second with
    | nil => rfl
    | cons byte rest => simp at hDigits
  | cons byte rest ih =>
    cases second with
    | nil => simp at hDigits
    | cons byte' rest' =>
      simp only [List.flatMap_cons, List.cons_append, List.nil_append, List.cons.injEq] at hDigits
      obtain ⟨hHigh, hLow, hRest⟩ := hDigits
      have hLess := byte.toNat_lt
      have hLess' := byte'.toNat_lt
      have hQuotient := hexDigit_inj _ (by omega) _ (by omega) hHigh
      have hRemainder := hexDigit_inj _ (by omega) _ (by omega) hLow
      have hByte : byte = byte' := UInt8.toNat_inj.1 (by omega)
      rw [hByte, ih (congrArg String.ofList hRest) hRest]

end Interchange

namespace Interchange.Schema

namespace Canonical

/-! ## Encodings that end by themselves -/

section

variable {α : Type}

/-- At the front of a byte string, the encoding of `a` cannot be confused with that of another
value. -/
def Delimited (encode : α → Bytes) (Sized : α → Prop) (a : α) : Prop :=
  ∀ b rest rest', Sized b → encode a ++ rest = encode b ++ rest' → a = b ∧ rest = rest'

theorem delimited_number {n : Nat} (hn : n < 2 ^ 64) : Delimited number (· < 2 ^ 64) n := by
  intro m rest rest' hm hEq
  obtain ⟨hWords, hRest⟩ := List.append_inj hEq (by simp [number])
  have hValues := congrArg leValue hWords
  have hWidth : Nat.pow 256 8 = 2 ^ 64 := by decide
  rw [number, number, leValue_leBytes, leValue_leBytes, hWidth, Nat.mod_eq_of_lt hn,
    Nat.mod_eq_of_lt hm] at hValues
  exact ⟨hValues, hRest⟩

theorem delimited_id (id : UInt32) :
    Delimited (fun id : UInt32 => number id.toNat) (fun _ => True) id := by
  intro other rest rest' _ hEq
  have hLess := id.toNat_lt
  have hLess' := other.toNat_lt
  obtain ⟨hIds, hRest⟩ := delimited_number (by omega) _ _ _ (by omega) hEq
  exact ⟨UInt32.toNat_inj.1 hIds, hRest⟩

/-- The length of a text fits into a number. -/
def Short (s : String) : Prop :=
  (utf8 s).length < 2 ^ 64

instance (s : String) : Decidable (Short s) :=
  inferInstanceAs (Decidable (_ < _))

theorem delimited_text {s : String} (hs : Short s) : Delimited text Short s := by
  intro t rest rest' ht hEq
  simp only [text, List.append_assoc] at hEq
  obtain ⟨hLength, hEq⟩ := delimited_number hs _ _ _ ht hEq
  obtain ⟨hBytes, hRest⟩ := List.append_inj hEq hLength
  exact ⟨utf8_injective hBytes, hRest⟩

/-- The texts of a full name are short. -/
def ShortName (id : Identifier) : Prop :=
  Short id.scope ∧ Short id.name

instance (id : Identifier) : Decidable (ShortName id) :=
  inferInstanceAs (Decidable (_ ∧ _))

theorem delimited_identifier {id : Identifier} (hId : ShortName id) :
    Delimited identifier ShortName id := by
  obtain ⟨scope, name⟩ := id
  intro ⟨scope', name'⟩ rest rest' hOther hEq
  simp only [identifier, List.append_assoc] at hEq
  obtain ⟨rfl, hNames⟩ := delimited_text hId.1 _ _ _ hOther.1 hEq
  obtain ⟨rfl, hRest⟩ := delimited_text hId.2 _ _ _ hOther.2 hNames
  exact ⟨rfl, hRest⟩

/-- Items one after the other, if it is known how many there are. -/
theorem flatMap_inj {item : α → Bytes} {Sized : α → Prop} {xs ys : List α} {rest rest' : Bytes}
    (hItems : ∀ x ∈ xs, Delimited item Sized x) (hSized : ∀ y ∈ ys, Sized y)
    (hLength : xs.length = ys.length) (hEq : xs.flatMap item ++ rest = ys.flatMap item ++ rest') :
    xs = ys ∧ rest = rest' := by
  induction xs generalizing ys with
  | nil =>
    obtain rfl := List.length_eq_zero_iff.1 hLength.symm
    exact ⟨rfl, hEq⟩
  | cons x xs ih =>
    cases ys with
    | nil => simp at hLength
    | cons y ys =>
      simp only [List.flatMap_cons, List.append_assoc] at hEq
      obtain ⟨hFirst, hOthers⟩ := List.forall_mem_cons.1 hItems
      obtain ⟨hy, hys⟩ := List.forall_mem_cons.1 hSized
      obtain ⟨rfl, hTails⟩ := hFirst y _ _ hy hEq
      obtain ⟨rfl, hRest⟩ := ih hOthers hys (by simpa using hLength) hTails
      exact ⟨rfl, hRest⟩

/-- A list that can be counted, all of whose items are sized. -/
structure SizedList (Sized : α → Prop) (xs : List α) : Prop where
  length : xs.length < 2 ^ 64
  items : ∀ x ∈ xs, Sized x

theorem delimited_counted {item : α → Bytes} {Sized : α → Prop} {xs : List α}
    (hLength : xs.length < 2 ^ 64) (hItems : ∀ x ∈ xs, Delimited item Sized x) :
    Delimited (counted item) (SizedList Sized) xs := by
  intro ys rest rest' hys hEq
  simp only [counted, List.append_assoc] at hEq
  obtain ⟨hLengths, hEq⟩ := delimited_number hLength _ _ _ hys.length hEq
  exact flatMap_inj hItems hys.items hLengths hEq

theorem counted_map {β : Type} (item : α → Bytes) (f : β → α) (xs : List β) :
    counted item (xs.map f) = counted (fun x => item (f x)) xs := by
  rw [counted, counted, List.length_map, List.flatMap_map]

/-! ## Types -/

mutual

/-- The encoding of a type. -/
def usage : Usage → Bytes
  | .parameter index => text "parameter" ++ number index
  | .model target args =>
    text "model" ++ identifier target ++ number args.length ++ usages args

def usages : List Usage → Bytes
  | [] => []
  | first :: rest => usage first ++ usages rest

end

theorem usages_eq_flatMap (types : List Usage) : usages types = types.flatMap usage := by
  induction types with
  | nil => rfl
  | cons first rest ih => rw [usages, ih, List.flatMap_cons]

theorem usage_model (target : Identifier) (args : List Usage) :
    usage (.model target args) = text "model" ++ (identifier target ++ counted usage args) := by
  rw [usage, usages_eq_flatMap, counted, List.append_assoc, List.append_assoc]

mutual

/-- The encoding of a reference is that of the type it stands for. -/
theorem reference_eq (definitions : List Definition) : ∀ reference : TypeRef,
    Canonical.reference definitions reference = usage (reference.usage definitions)
  | .parameter _ _ _ _ => rfl
  | .model _ target args => by
    rw [Canonical.reference, TypeRef.usage, usage, references_eq definitions args,
      TypeRef.usages_eq_map, List.length_map]

theorem references_eq (definitions : List Definition) : ∀ references : List TypeRef,
    Canonical.references definitions references = usages (TypeRef.usages definitions references)
  | [] => rfl
  | first :: rest => by
    rw [Canonical.references, TypeRef.usages, usages, reference_eq definitions first,
      references_eq definitions rest]

end

/-- All lengths in a type are below 2^64, and so are the positions of parameters. -/
inductive SizedUsage : Usage → Prop
  | parameter {index : Nat} (hIndex : index < 2 ^ 64) : SizedUsage (.parameter index)
  | model {target : Identifier} {args : List Usage} (hTarget : ShortName target)
      (hLength : args.length < 2 ^ 64) (hArgs : ∀ arg ∈ args, SizedUsage arg) :
      SizedUsage (.model target args)

theorem parameter_ne_model {rest rest' : Bytes} :
    text "parameter" ++ rest ≠ text "model" ++ rest' := by
  intro hEq
  have hWords := delimited_text (s := "parameter") (by decide) "model" _ _ (by decide) hEq
  exact absurd hWords.1 (by decide)

theorem delimited_usage {type : Usage} (hType : SizedUsage type) :
    Delimited usage SizedUsage type := by
  induction hType with
  | parameter hIndex =>
    intro other rest rest' hOther hEq
    cases hOther with
    | parameter hIndex' =>
      rw [usage, usage, List.append_assoc, List.append_assoc, List.append_cancel_left_eq] at hEq
      obtain ⟨rfl, hRest⟩ := delimited_number hIndex _ _ _ hIndex' hEq
      exact ⟨rfl, hRest⟩
    | model =>
      rw [usage_model, usage, List.append_assoc, List.append_assoc] at hEq
      exact absurd hEq parameter_ne_model
  | model hTarget hLength _ ih =>
    intro other rest rest' hOther hEq
    cases hOther with
    | parameter =>
      rw [usage_model, usage, List.append_assoc, List.append_assoc] at hEq
      exact absurd hEq.symm parameter_ne_model
    | model hTarget' hLength' hArgs' =>
      simp only [usage_model, List.append_assoc, List.append_cancel_left_eq] at hEq
      obtain ⟨rfl, hLists⟩ := delimited_identifier hTarget _ _ _ hTarget' hEq
      obtain ⟨rfl, hRest⟩ := delimited_counted hLength ih _ _ _ ⟨hLength', hArgs'⟩ hLists
      exact ⟨rfl, hRest⟩

/-! ## Parts -/

/-- The encoding of a field or a variant. -/
def part (content : α → Bytes) (part : ModelPart α) : Bytes :=
  number part.number.toNat ++ text part.name ++ content part.content

/-- The encoding of a payload that may be missing. -/
def flagged (content : α → Bytes) : Option α → Bytes
  | some a => number 1 ++ content a
  | none => number 0

structure SizedPart (Sized : α → Prop) (part : ModelPart α) : Prop where
  name : Short part.name
  content : Sized part.content

theorem delimited_part {content : α → Bytes} {Sized : α → Prop} {part : ModelPart α}
    (hName : Short part.name) (hContent : Delimited content Sized part.content) :
    Delimited (Canonical.part content) (SizedPart Sized) part := by
  obtain ⟨id, name, inner⟩ := part
  intro ⟨id', name', inner'⟩ rest rest' hOther hEq
  simp only [Canonical.part, List.append_assoc] at hEq
  obtain ⟨rfl, hNames⟩ := delimited_id id id' _ _ trivial hEq
  obtain ⟨rfl, hContents⟩ := delimited_text hName _ _ _ hOther.name hNames
  obtain ⟨rfl, hRest⟩ := hContent _ _ _ hOther.content hContents
  exact ⟨rfl, hRest⟩

/-- The payload, if there is one, is sized. -/
def SizedPayload (Sized : α → Prop) (payload : Option α) : Prop :=
  ∀ a ∈ payload, Sized a

theorem delimited_flagged {content : α → Bytes} {Sized : α → Prop} {payload : Option α}
    (hContent : ∀ a ∈ payload, Delimited content Sized a) :
    Delimited (flagged content) (SizedPayload Sized) payload := by
  have hFlags : ∀ rest rest' : Bytes, number 1 ++ rest ≠ number 0 ++ rest' := by
    intro rest rest' hEq
    have hNumbers := delimited_number (by decide) _ _ _ (by decide) hEq
    exact absurd hNumbers.1 (by decide)
  intro other rest rest' hOther hEq
  cases payload with
  | none =>
    cases other with
    | none => exact ⟨rfl, List.append_cancel_left hEq⟩
    | some b =>
      rw [flagged, flagged, List.append_assoc] at hEq
      exact absurd hEq.symm (hFlags _ _)
  | some a =>
    cases other with
    | none =>
      rw [flagged, flagged, List.append_assoc] at hEq
      exact absurd hEq (hFlags _ _)
    | some b =>
      rw [flagged, flagged, List.append_assoc, List.append_assoc,
        List.append_cancel_left_eq] at hEq
      obtain ⟨rfl, hRest⟩ := hContent a rfl b _ _ (hOther b rfl) hEq
      exact ⟨rfl, hRest⟩

end

/-! ## Models and services -/

/-- What a body says: references stand for types, and numbers of references and names of parameters
are left out. -/
inductive Contents where
  | builtin
  | message (fields : List (ModelPart Usage)) (retired : List UInt32)
  | tag (variants : List (ModelPart (Option Usage))) (retired : List UInt32)

/-- What a definition says. -/
structure ModelForm where
  identifier : Identifier
  arity : Nat
  contents : Contents

/-- What a service says. -/
structure ServiceForm where
  identifier : Identifier
  id : UInt32
  input : Usage
  output : Usage

def Contents.bytes : Contents → Bytes
  | builtin => []
  | message fields ids => counted (part usage) fields ++ retired ids
  | tag variants ids => counted (part (flagged usage)) variants ++ retired ids

namespace ModelForm

def kind (form : ModelForm) : DefinitionKind :=
  match form.contents with
  | .builtin => .builtin
  | .message _ _ => if form.arity = 0 then .message else .messageTemplate
  | .tag _ _ => if form.arity = 0 then .tag else .tagTemplate

def bytes (form : ModelForm) : Bytes :=
  text form.kind.text ++ Canonical.identifier form.identifier ++ number form.arity
    ++ form.contents.bytes

end ModelForm

def ServiceForm.bytes (form : ServiceForm) : Bytes :=
  Canonical.identifier form.identifier ++ number form.id.toNat ++ usage form.input
    ++ usage form.output

/-- All lengths in a body are below 2^64. -/
def Contents.Sized : Contents → Prop
  | builtin => True
  | message fields ids => SizedList (SizedPart SizedUsage) fields ∧ ids.length < 2 ^ 64
  | tag variants ids =>
    SizedList (SizedPart (SizedPayload SizedUsage)) variants ∧ ids.length < 2 ^ 64

structure ModelForm.Sized (form : ModelForm) : Prop where
  identifier : ShortName form.identifier
  arity : form.arity < 2 ^ 64
  contents : form.contents.Sized

structure ServiceForm.Sized (form : ServiceForm) : Prop where
  identifier : ShortName form.identifier
  input : SizedUsage form.input
  output : SizedUsage form.output

theorem delimited_retired {ids : List UInt32} (hLength : ids.length < 2 ^ 64) :
    Delimited retired (SizedList fun _ => True) ids :=
  delimited_counted hLength fun id _ => delimited_id id

/-- Parts behind their count, with the retired ids behind them. -/
theorem parts_inj {α : Type} {content : α → Bytes} {Sized : α → Prop}
    (hContent : ∀ a, Sized a → Delimited content Sized a) {parts parts' : List (ModelPart α)}
    {ids ids' : List UInt32} {rest rest' : Bytes}
    (hParts : SizedList (SizedPart Sized) parts ∧ ids.length < 2 ^ 64)
    (hParts' : SizedList (SizedPart Sized) parts' ∧ ids'.length < 2 ^ 64)
    (hEq : counted (part content) parts ++ retired ids ++ rest =
      counted (part content) parts' ++ retired ids' ++ rest') :
    parts = parts' ∧ ids = ids' ∧ rest = rest' := by
  have hItems : ∀ item ∈ parts, Delimited (part content) (SizedPart Sized) item := by
    intro item hItem
    have hSized := hParts.1.items item hItem
    exact delimited_part hSized.name (hContent _ hSized.content)
  rw [List.append_assoc, List.append_assoc] at hEq
  obtain ⟨hSame, hEq⟩ := delimited_counted hParts.1.length hItems _ _ _ hParts'.1 hEq
  exact ⟨hSame, delimited_retired hParts.2 _ _ _ ⟨hParts'.2, fun _ _ => trivial⟩ hEq⟩

theorem text_kind_inj {kind kind' : DefinitionKind} {rest rest' : Bytes}
    (hEq : text kind.text ++ rest = text kind'.text ++ rest') : kind = kind' ∧ rest = rest' := by
  have hShort : ∀ kind : DefinitionKind, Short kind.text := by
    intro kind
    cases kind <;> decide
  obtain ⟨hTexts, hRest⟩ := delimited_text (hShort kind) _ _ _ (hShort kind') hEq
  refine ⟨?_, hRest⟩
  cases kind <;> cases kind' <;> first | rfl | exact absurd hTexts (by decide)

/-- The kind tells how to read the contents. -/
theorem ModelForm.kind_cases {name : Identifier} {arity : Nat} {contents contents' : Contents}
    (hKind : kind ⟨name, arity, contents⟩ = kind ⟨name, arity, contents'⟩) :
    (contents = .builtin ∧ contents' = .builtin) ∨
      (∃ fields ids fields' ids', contents = .message fields ids ∧
        contents' = .message fields' ids') ∨
      ∃ variants ids variants' ids', contents = .tag variants ids ∧
        contents' = .tag variants' ids' := by
  cases contents <;> cases contents' <;> simp only [kind] at hKind
  case builtin.builtin => exact Or.inl ⟨rfl, rfl⟩
  case message.message => exact Or.inr (Or.inl ⟨_, _, _, _, rfl, rfl⟩)
  case tag.tag => exact Or.inr (Or.inr ⟨_, _, _, _, rfl, rfl⟩)
  all_goals split at hKind <;> cases hKind

theorem ModelForm.Sized.delimited {form : ModelForm} (hForm : form.Sized) :
    Delimited bytes Sized form := by
  have hPayload : ∀ payload, SizedPayload SizedUsage payload →
      Delimited (flagged usage) (SizedPayload SizedUsage) payload := fun payload hSized =>
    delimited_flagged fun type hType => delimited_usage (hSized type hType)
  obtain ⟨name, arity, contents⟩ := form
  intro ⟨name', arity', contents'⟩ rest rest' hOther hEq
  simp only [bytes, List.append_assoc] at hEq
  obtain ⟨hKind, hNames⟩ := text_kind_inj hEq
  obtain ⟨rfl, hArities⟩ := delimited_identifier hForm.identifier _ _ _ hOther.identifier hNames
  obtain ⟨rfl, hContents⟩ := delimited_number hForm.arity _ _ _ hOther.arity hArities
  have hSized := hForm.contents
  have hSized' := hOther.contents
  rcases kind_cases hKind with ⟨rfl, rfl⟩ | ⟨fields, ids, fields', ids', rfl, rfl⟩ |
    ⟨variants, ids, variants', ids', rfl, rfl⟩
  · exact ⟨rfl, hContents⟩
  · obtain ⟨rfl, rfl, hRest⟩ := parts_inj (fun _ => delimited_usage) hSized hSized' hContents
    exact ⟨rfl, hRest⟩
  · obtain ⟨rfl, rfl, hRest⟩ := parts_inj hPayload hSized hSized' hContents
    exact ⟨rfl, hRest⟩

theorem ServiceForm.Sized.delimited {form : ServiceForm} (hForm : form.Sized) :
    Delimited bytes Sized form := by
  obtain ⟨name, id, input, output⟩ := form
  intro ⟨name', id', input', output'⟩ rest rest' hOther hEq
  simp only [bytes, List.append_assoc] at hEq
  obtain ⟨rfl, hIds⟩ := delimited_identifier hForm.identifier _ _ _ hOther.identifier hEq
  obtain ⟨rfl, hInputs⟩ := delimited_id id id' _ _ trivial hIds
  obtain ⟨rfl, hOutputs⟩ := delimited_usage hForm.input _ _ _ hOther.input hInputs
  obtain ⟨rfl, hRest⟩ := delimited_usage hForm.output _ _ _ hOther.output hOutputs
  exact ⟨rfl, hRest⟩

end Canonical

end Interchange.Schema

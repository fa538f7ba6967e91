import Interchange.Proofs.Wire.Decoded

/-!
# Which values are written

The codec of a type writes the values of the type and no others. A value that it does not write
leaves no trace: composite values are put together aside, so a writing that fails does so before its
first piece, however deep the cause lies.

That a field is equal to its default, and that a message or a tag is, cuts the writing short, and
then the value is not looked at any more. This lets nothing else through, because defaults are
values of their types.

* `Writing.Succeeds`, `Writing.Whole`: writings that do not fail, and those that fail at once or not
  at all.
* `Codec.encode_whole`: no codec fails after its first piece.
* `Value.Sorted`: the messages in a value are sorted.
* `hasType_iff_makes`: the values of a type by its shape.
* `codecOf_accepts`: the codec of a type writes exactly the values of the type.
* `encode_onto`: writing to a byte string.
-/

namespace Interchange.Wire

open Schema (Arena Builtin Definition ModelPart Models Project)

/-! ## Writings that do not fail -/

namespace Writing

/-- The writing does not fail. -/
def Succeeds (writing : Writing) : Prop :=
  ∃ bytes, writing.toBytes = .ok bytes

@[simp] theorem succeeds_done : done.Succeeds :=
  ⟨[], rfl⟩

@[simp] theorem succeeds_fail (error : WireError) : ¬ (fail error).Succeeds := by
  rintro ⟨bytes, hBytes⟩
  cases hBytes

@[simp] theorem succeeds_put {bytes : Bytes} {next : Writing} :
    (put bytes next).Succeeds ↔ next.Succeeds := by
  constructor
  · rintro ⟨all, hAll⟩
    rw [toBytes] at hAll
    split at hAll
    next rest hNext => exact ⟨rest, hNext⟩
    next => cases hAll
  · rintro ⟨rest, hNext⟩
    exact ⟨bytes ++ rest, by rw [toBytes, hNext]⟩

@[simp] theorem succeeds_piece (bytes : Bytes) : (piece bytes).Succeeds :=
  succeeds_put.2 succeeds_done

@[simp] theorem succeeds_andThen {first second : Writing} :
    (first.andThen second).Succeeds ↔ first.Succeeds ∧ second.Succeeds := by
  induction first with
  | done => simp [andThen]
  | fail error => simp [andThen]
  | put bytes next ih => rw [andThen, succeeds_put, succeeds_put, ih]

/-- The writing fails before its first piece or not at all. -/
def Whole (writing : Writing) : Prop :=
  (∃ error, writing = .fail error) ∨ writing.Succeeds

theorem onto_eq_ok {writing : Writing} {bytes : Bytes} (hBytes : writing.toBytes = .ok bytes)
    (sink : Bytes) : writing.onto sink = (.ok (), sink ++ bytes) := by
  induction writing generalizing bytes sink with
  | done =>
    cases hBytes
    rw [List.append_nil]
    rfl
  | fail error => cases hBytes
  | put piece next ih =>
    rw [toBytes] at hBytes
    split at hBytes
    next rest hNext =>
      cases hBytes
      rw [← List.append_assoc]
      exact ih hNext (sink ++ piece)
    next => cases hBytes

/-- Such a writing adds all of its bytes to a byte string, or none. -/
theorem Whole.onto {writing : Writing} (hWhole : writing.Whole) (sink : Bytes) :
    (∃ bytes, writing.toBytes = .ok bytes ∧ writing.onto sink = (.ok (), sink ++ bytes)) ∨
      ∃ error, writing.toBytes = .error error ∧ writing.onto sink = (.error error, sink) := by
  rcases hWhole with ⟨error, rfl⟩ | ⟨bytes, hBytes⟩
  · exact Or.inr ⟨error, rfl, rfl⟩
  · exact Or.inl ⟨bytes, hBytes, onto_eq_ok hBytes sink⟩

end Writing

/-! ## What codecs write -/

namespace Codec

open Writing (Succeeds)

@[simp] theorem succeeds_empty : empty.Succeeds :=
  Writing.succeeds_piece _

theorem framed_whole (content : Writing) : (framed content).Whole := by
  rw [framed]
  split
  next => exact Or.inr (by simp)
  next error _ => exact Or.inl ⟨error, rfl⟩

@[simp] theorem succeeds_framed {content : Writing} : (framed content).Succeeds ↔
  content.Succeeds := by
  rw [framed]
  split
  next bytes hBytes => simp [Succeeds, hBytes, Writing.toBytes, Writing.piece]
  next error hError => simp [Succeeds, hError, Writing.toBytes]

@[simp] theorem succeeds_write (scalar : Scalar) : scalar.write.Succeeds :=
  ⟨scalar.encode, toBytes_write scalar⟩

theorem encodeVariant_whole (name : String) (variants : List (ModelPart (Option Codec)))
    (number : UInt32) (payload : Option Value) :
    (encodeVariant name variants number payload).Whole := by
  rw [encodeVariant_eq]
  split
  next => exact Or.inl ⟨_, rfl⟩
  next =>
    split
    next => exact Or.inl ⟨_, rfl⟩
    next =>
      split
      · exact Or.inr succeeds_empty
      · exact framed_whole _
  next =>
    split
    · exact Or.inr succeeds_empty
    · exact framed_whole _

/-- No codec fails after its first piece. -/
theorem encode_whole (codec : Codec) (value : Value) : (codec.encode value).Whole := by
  unfold encode
  split
  next kind _ =>
    split
    next scalar =>
      split
      · exact Or.inr (succeeds_write scalar)
      · exact Or.inl ⟨_, rfl⟩
    next => exact Or.inl ⟨_, rfl⟩
  next =>
    split
    next => exact framed_whole _
    next => exact Or.inl ⟨_, rfl⟩
  next =>
    split
    next => exact framed_whole _
    next => exact Or.inl ⟨_, rfl⟩
  next =>
    split
    next => exact framed_whole _
    next => exact Or.inl ⟨_, rfl⟩
  next =>
    split
    next => exact framed_whole _
    next => exact Or.inl ⟨_, rfl⟩
  next =>
    split
    next =>
      split
      next => exact Or.inl ⟨_, rfl⟩
      next =>
        split
        · exact Or.inr succeeds_empty
        · exact framed_whole _
    next => exact Or.inl ⟨_, rfl⟩
  next =>
    split
    next =>
      split
      · exact Or.inr succeeds_empty
      · exact encodeVariant_whole _ _ _ _
    next => exact Or.inl ⟨_, rfl⟩

theorem succeeds_encodeItems {encode : Value → Writing} {items : List Value} :
    (encodeItems encode items).Succeeds ↔ ∀ item ∈ items, (encode item).Succeeds := by
  induction items with
  | nil => simp [encodeItems]
  | cons item rest ih => simp [encodeItems, ih]

theorem succeeds_encodeEntries {encodeKey encodeValue : Value → Writing}
    {entries : List (Value × Value)} :
    (encodeEntries encodeKey encodeValue entries).Succeeds ↔
      ∀ entry ∈ entries, (encodeKey entry.1).Succeeds ∧ (encodeValue entry.2).Succeeds := by
  induction entries with
  | nil => simp [encodeEntries]
  | cons entry rest ih =>
    rw [encodeEntries, Writing.succeeds_andThen, Writing.succeeds_andThen, ih, List.forall_mem_cons]

theorem undeclared?_eq_none_iff {parts : List (ModelPart Codec)} {fields : List (UInt32 × Value)} :
    undeclared? parts fields = none ↔ ∀ field ∈ fields, ∃ part ∈ parts, part.number = field.1 := by
  refine ⟨fun hNone field hField => ?_, undeclared?_eq_none⟩
  rw [undeclared?, Option.map_eq_none_iff, List.find?_eq_none] at hNone
  have hFind : ModelPart.find? parts field.1 ≠ none := by simpa using hNone field hField
  obtain ⟨part, hFind⟩ := Option.ne_none_iff_exists'.1 hFind
  exact ⟨part, ModelPart.find?_eq_some hFind⟩

/-- Of a message, the fields are written that are there and not equal to their default. -/
theorem succeeds_encodeFields {parts : List (ModelPart Codec)} {fields : List (UInt32 × Value)} :
    (encodeFields parts fields).Succeeds ↔ ∀ part ∈ parts, ∀ value,
      written? fields part = some value → (part.content.encode value).Succeeds := by
  induction parts with
  | nil => simp [encodeFields]
  | cons part rest ih =>
    rw [encodeFields_cons, List.forall_mem_cons, ← ih]
    cases written? fields part with
    | none => simp
    | some value => simp

/-- A variant is written if it is declared, and its payload, or the default in its place, is. -/
theorem succeeds_encodeVariant {name : String} {variants : List (ModelPart (Option Codec))}
    {number : UInt32} {payload : Option Value} :
    (encodeVariant name variants number payload).Succeeds ↔
      ∃ variant, ModelPart.find? variants number = some variant ∧
        (variant.content = none ∧ payload = none ∨ ∃ codec, variant.content = some codec ∧
          (number = 0 ∧ payload.getD codec.default = codec.default ∨
            (codec.encode (payload.getD codec.default)).Succeeds)) := by
  rw [encodeVariant_eq]
  split
  next hFind => simp [hFind]
  next hFind =>
    rw [hFind]
    cases payload with
    | none => by_cases hZero : number = 0 <;> simp [hZero]
    | some value => simp
  next codec hFind =>
    rw [hFind]
    split
    next hDefault =>
      obtain ⟨rfl, hDefault⟩ := hDefault
      simp [hDefault]
    next hDefault => simp [hDefault]

section

variable {element keys values : Codec} {kind : Builtin} {name : String} {default value : Value}
  {parts : List (ModelPart Codec)} {variants : List (ModelPart (Option Codec))}

theorem succeeds_encode_scalar : ((scalar kind default).encode value).Succeeds ↔
    ∃ scalar : Scalar, value = .scalar scalar ∧ scalar.kind = kind := by
  cases value with
  | scalar scalar => by_cases hKind : scalar.kind = kind <;> simp [encode, hKind]
  | _ => simp [encode]

theorem succeeds_encode_string :
    ((string default).encode value).Succeeds ↔ ∃ text, value = .string text := by
  cases value <;> simp [encode]

theorem succeeds_encode_bytes :
    ((bytes default).encode value).Succeeds ↔ ∃ content, value = .bytes content := by
  cases value <;> simp [encode]

theorem succeeds_encode_array : ((array element default).encode value).Succeeds ↔
    ∃ items, value = .array items ∧ ∀ item ∈ items, (element.encode item).Succeeds := by
  cases value <;> simp [encode, succeeds_encodeItems]

theorem succeeds_encode_map : ((map keys values default).encode value).Succeeds ↔
    ∃ entries, value = .map entries ∧
      ∀ entry ∈ entries, (keys.encode entry.1).Succeeds ∧ (values.encode entry.2).Succeeds := by
  cases value <;> simp [encode, succeeds_encodeEntries]

theorem succeeds_encode_record : ((record name parts default).encode value).Succeeds ↔
    ∃ fields, value = .message fields ∧ undeclared? parts fields = none ∧
      (value = default ∨ ∀ part ∈ parts, ∀ value, written? fields part = some value →
        (part.content.encode value).Succeeds) := by
  cases value with
  | message fields =>
    cases hDeclared : undeclared? parts fields with
    | some id => simp [encode, hDeclared]
    | none =>
      by_cases hDefault : Value.message fields = default
      · subst hDefault
        simp [encode, hDeclared]
      · simp [encode, hDeclared, hDefault, succeeds_encodeFields]
  | _ => simp [encode]

theorem succeeds_encode_union : ((union name variants default).encode value).Succeeds ↔
    ∃ number payload, value = .tag number payload ∧
      (value = default ∨ (encodeVariant name variants number payload).Succeeds) := by
  cases value with
  | tag number payload =>
    by_cases hDefault : Value.tag number payload = default
    · subst hDefault
      simp [encode]
    · simp [encode, hDefault]
  | _ => simp [encode]

end

end Codec

/-! ## Values whose messages are sorted -/

/-- The fields of every message in the value are sorted by id, each id once. -/
inductive Value.Sorted : Value → Prop
  | scalar (scalar : Scalar) : Sorted (.scalar scalar)
  | string (text : String) : Sorted (.string text)
  | bytes (bytes : Bytes) : Sorted (.bytes bytes)
  | array {items : List Value} (hItems : ∀ item ∈ items, Sorted item) : Sorted (.array items)
  | map {entries : List (Value × Value)} (hKeys : ∀ entry ∈ entries, Sorted entry.1)
      (hValues : ∀ entry ∈ entries, Sorted entry.2) : Sorted (.map entries)
  | message {fields : List (UInt32 × Value)} (hAscending : Fields.Ascending fields)
      (hFields : ∀ field ∈ fields, Sorted field.2) : Sorted (.message fields)
  | tag {number : UInt32} {payload : Option Value}
      (hPayload : ∀ value, payload = some value → Sorted value) : Sorted (.tag number payload)

section

variable {definitions : List Definition} {type : ClosedType} {presence : Presence} {value : Value}

theorem HasType.sorted (hTyped : HasType definitions presence type value) : value.Sorted := by
  induction hTyped with
  | scalar scalar _ => exact .scalar scalar
  | string text _ => exact .string text
  | bytes bytes _ => exact .bytes bytes
  | array _ _ ih => exact .array ih
  | map _ _ _ ihKeys ihValues => exact .map ihKeys ihValues
  | message _ hAscending hDeclared _ _ ih =>
    refine .message hAscending fun field hField => ?_
    obtain ⟨part, hPart, hNumber⟩ := hDeclared field hField
    exact ih field hField part hPart hNumber
  | bare => exact .tag (by simp)
  | payload _ _ _ ih =>
    refine .tag ?_
    rintro _ ⟨⟩
    exact ih
  | missing => exact .tag (by simp)
  | undeclared => exact .tag (by simp)

/-- Where parts may be missing, they may also be there. -/
theorem HasType.optional (hTyped : HasType definitions presence type value) :
    HasType definitions .optional type value := by
  induction hTyped with
  | scalar scalar hShape => exact .scalar scalar hShape
  | string text hShape => exact .string text hShape
  | bytes bytes hShape => exact .bytes bytes hShape
  | array hShape _ ih => exact .array hShape ih
  | map hShape _ _ ihKeys ihValues => exact .map hShape ihKeys ihValues
  | message hShape hAscending hDeclared _ _ ih =>
    exact .message hShape hAscending hDeclared ih fun hPresence => by cases hPresence
  | bare hShape hVariant => exact .bare hShape hVariant
  | payload hShape hVariant _ ih => exact .payload hShape hVariant ih
  | missing hShape hVariant _ => exact .missing hShape hVariant rfl
  | undeclared hShape hVariants => exact .undeclared hShape hVariants

end

/-! ## Typed values are written, and no others -/

/-- What a value of a shape is made of. -/
def Shape.Makes (definitions : List Definition) : Shape → Value → Prop
  | scalar kind, value => ∃ scalar : Scalar, value = .scalar scalar ∧ scalar.kind = kind
  | string, value => ∃ text, value = .string text
  | bytes, value => ∃ content, value = .bytes content
  | array element, value => ∃ items, value = .array items ∧
      ∀ item ∈ items, HasType definitions .optional element item
  | map keyType valueType, value => ∃ entries, value = .map entries ∧
      ∀ entry ∈ entries, HasType definitions .optional keyType entry.1 ∧
        HasType definitions .optional valueType entry.2
  | message parts, value => ∃ fields, value = .message fields ∧ Fields.Ascending fields ∧
      (∀ field ∈ fields, ∃ part ∈ parts, part.number = field.1) ∧
      ∀ field ∈ fields, ∀ part ∈ parts, part.number = field.1 →
        HasType definitions .optional part.content field.2
  | tag variants, value => ∃ number payload, value = .tag number payload ∧
      ((number = 0 ∧ payload = none ∧ ∀ variant ∈ variants, variant.number ≠ 0) ∨
        ∃ variant ∈ variants, variant.number = number ∧ ∀ value, payload = some value →
          ∃ inner, variant.content = some inner ∧ HasType definitions .optional inner value)

section

variable {definitions : List Definition} {type : ClosedType}

theorem hasType_iff_makes {shape : Shape} (hShape : type.shape? definitions = some shape)
    {value : Value} : HasType definitions .optional type value ↔ shape.Makes definitions value := by
  constructor
  · intro hTyped
    cases hTyped with
    | scalar scalar hOther =>
      cases hShape.symm.trans hOther
      exact ⟨scalar, rfl, rfl⟩
    | string text hOther =>
      cases hShape.symm.trans hOther
      exact ⟨text, rfl⟩
    | bytes bytes hOther =>
      cases hShape.symm.trans hOther
      exact ⟨bytes, rfl⟩
    | array hOther hItems =>
      cases hShape.symm.trans hOther
      exact ⟨_, rfl, hItems⟩
    | map hOther hKeys hValues =>
      cases hShape.symm.trans hOther
      exact ⟨_, rfl, fun entry hEntry => ⟨hKeys entry hEntry, hValues entry hEntry⟩⟩
    | message hOther hAscending hDeclared hFields _ =>
      cases hShape.symm.trans hOther
      exact ⟨_, rfl, hAscending, hDeclared, hFields⟩
    | bare hOther hVariant =>
      cases hShape.symm.trans hOther
      exact ⟨_, _, rfl, Or.inr ⟨_, hVariant, rfl, by simp⟩⟩
    | payload hOther hVariant hPayload =>
      cases hShape.symm.trans hOther
      refine ⟨_, _, rfl, Or.inr ⟨_, hVariant, rfl, ?_⟩⟩
      rintro _ ⟨⟩
      exact ⟨_, rfl, hPayload⟩
    | missing hOther hVariant _ =>
      cases hShape.symm.trans hOther
      exact ⟨_, _, rfl, Or.inr ⟨_, hVariant, rfl, by simp⟩⟩
    | undeclared hOther hVariants =>
      cases hShape.symm.trans hOther
      exact ⟨_, _, rfl, Or.inl ⟨rfl, rfl, hVariants⟩⟩
  · intro hMakes
    cases shape with
    | scalar kind =>
      obtain ⟨scalar, rfl, rfl⟩ := hMakes
      exact .scalar scalar hShape
    | string =>
      obtain ⟨text, rfl⟩ := hMakes
      exact .string text hShape
    | bytes =>
      obtain ⟨content, rfl⟩ := hMakes
      exact .bytes content hShape
    | array =>
      obtain ⟨items, rfl, hItems⟩ := hMakes
      exact .array hShape hItems
    | map =>
      obtain ⟨entries, rfl, hEntries⟩ := hMakes
      exact .map hShape (fun entry hEntry => (hEntries entry hEntry).1)
        fun entry hEntry => (hEntries entry hEntry).2
    | message =>
      obtain ⟨fields, rfl, hAscending, hDeclared, hFields⟩ := hMakes
      exact .message hShape hAscending hDeclared hFields (by simp)
    | tag =>
      obtain ⟨number, payload, rfl, ⟨rfl, rfl, hVariants⟩ | ⟨variant, hVariant, rfl, hPayload⟩⟩ :=
        hMakes
      · exact .undeclared hShape hVariants
      · obtain ⟨number, name, content⟩ := variant
        cases payload with
        | some value =>
          obtain ⟨inner, rfl, hTyped⟩ := hPayload value rfl
          exact .payload hShape hVariant hTyped
        | none =>
          cases content with
          | none => exact .bare hShape hVariant
          | some inner => exact .missing hShape hVariant rfl

/-- The codec writes exactly the values of the type. -/
def Accepts (definitions : List Definition) (type : ClosedType) (codec : Codec) : Prop :=
  ∀ value : Value, value.Sorted →
    ((codec.encode value).Succeeds ↔ HasType definitions .optional type value)

/-- Typed values are sorted, so a codec writes them. -/
theorem Accepts.succeeds {presence : Presence} {codec : Codec} {value : Value}
    (hAccepts : Accepts definitions type codec)
    (hTyped : HasType definitions presence type value) : (codec.encode value).Succeeds :=
  (hAccepts value hTyped.sorted).2 hTyped.optional

theorem accepts_message {fields : List (ModelPart ClosedType)} {parts : List (ModelPart Codec)}
    (name : String) (hShape : type.shape? definitions = some (.message fields))
    (hDefault : HasType definitions .required type (messageCodec name parts).default)
    (hParts : List.Forall₂ (ModelPart.Related fun inner codec =>
      HasType definitions .required inner codec.default ∧ Accepts definitions inner codec)
      fields parts) :
    Accepts definitions type (messageCodec name parts) := by
  intro value hSorted
  apply Codec.succeeds_encode_record.trans
  constructor
  · rintro ⟨entries, rfl, hDeclared, hEqual | hWritten⟩
    · rw [hEqual]
      exact hDefault.optional
    rcases hSorted with _ | _ | _ | _ | _ | ⟨hAscending, hSorted⟩
    rw [Codec.undeclared?_eq_none_iff] at hDeclared
    refine .message hShape hAscending ?_ ?_ (by simp)
    · intro entry hEntry
      obtain ⟨part, hPart, hNumber⟩ := hDeclared entry hEntry
      obtain ⟨field, hField, hRelated⟩ := exists_of_mem_right hParts hPart
      exact ⟨field, hField, hRelated.number.symm.trans hNumber⟩
    · rintro ⟨number, value⟩ hEntry field hField rfl
      obtain ⟨part, hPart, hRelated⟩ := exists_of_mem_left hParts hField
      obtain ⟨hTyped, hAccepts⟩ := hRelated.content
      -- A field that is equal to its default is not looked at, but the default has the type.
      by_cases hDefault : value = part.content.default
      · rw [hDefault]
        exact hTyped.optional
      · apply (hAccepts value (hSorted _ hEntry)).1
        apply hWritten part hPart value
        rw [Codec.written?_eq_some, hRelated.number, Fields.get?_eq_some_iff hAscending.nodup]
        exact ⟨hEntry, hDefault⟩
  · intro hTyped
    obtain ⟨entries, rfl, _, hDeclared, hFields⟩ := (hasType_iff_makes hShape).1 hTyped
    refine ⟨entries, rfl, ?_, Or.inr ?_⟩
    · apply Codec.undeclared?_eq_none
      intro entry hEntry
      obtain ⟨field, hField, hNumber⟩ := hDeclared entry hEntry
      obtain ⟨part, hPart, hRelated⟩ := exists_of_mem_left hParts hField
      exact ⟨part, hPart, hRelated.number.trans hNumber⟩
    · intro part hPart value hWritten
      obtain ⟨hGet, _⟩ := Codec.written?_eq_some.1 hWritten
      obtain ⟨field, hField, hRelated⟩ := exists_of_mem_right hParts hPart
      apply hRelated.content.2.succeeds
      exact hFields _ (Fields.mem_of_get? hGet) field hField hRelated.number.symm

theorem accepts_tag (hArena : Arena definitions) {variants : List (ModelPart (Option ClosedType))}
    {parts : List (ModelPart (Option Codec))} (name : String)
    (hShape : type.shape? definitions = some (.tag variants))
    (hDefault : HasType definitions .required type (tagCodec name parts).default)
    (hParts : List.Forall₂ (ModelPart.Related (Option.Rel fun inner codec =>
      HasType definitions .required inner codec.default ∧ Accepts definitions inner codec))
      variants parts) :
    Accepts definitions type (tagCodec name parts) := by
  have hNumbers : parts.map ModelPart.number = variants.map ModelPart.number :=
    map_eq_map_of_forall₂ hParts fun _ _ _ hRelated => hRelated.number
  have hNodup : (parts.map ModelPart.number).Nodup := by
    rw [hNumbers]
    exact ClosedType.shape?_nodup hArena hShape
  intro value hSorted
  apply Codec.succeeds_encode_union.trans
  constructor
  · rintro ⟨number, payload, rfl, hEqual | hVariant⟩
    · rw [hEqual]
      exact hDefault.optional
    rcases hSorted with _ | _ | _ | _ | _ | _ | hSorted
    obtain ⟨part, hFind, hCases⟩ := Codec.succeeds_encodeVariant.1 hVariant
    obtain ⟨hPart, rfl⟩ := ModelPart.find?_eq_some hFind
    obtain ⟨variant, hVariant, hRelated⟩ := exists_of_mem_right hParts hPart
    rw [hasType_iff_makes hShape]
    refine ⟨_, payload, rfl, Or.inr ⟨variant, hVariant, hRelated.number.symm, ?_⟩⟩
    rintro value rfl
    rcases hCases with ⟨_, hNone⟩ | ⟨codec, hContent, hWritten⟩
    · cases hNone
    have hInner := hRelated.content
    rw [hContent] at hInner
    generalize variant.content = content at hInner
    cases hInner with
    | @some inner _ hBoth =>
      refine ⟨inner, rfl, ?_⟩
      rcases hWritten with ⟨_, hEqual⟩ | hWritten
      · rw [Option.getD_some] at hEqual
        rw [hEqual]
        exact hBoth.1.optional
      · exact (hBoth.2 value (hSorted value rfl)).1 hWritten
  · intro hTyped
    obtain ⟨number, payload, rfl, hCases⟩ := (hasType_iff_makes hShape).1 hTyped
    refine ⟨number, payload, rfl, ?_⟩
    rcases hCases with ⟨rfl, rfl, hVariants⟩ | ⟨variant, hVariant, rfl, hPayload⟩
    · left
      have hFind : ModelPart.find? parts 0 = none := by
        rw [ModelPart.find?_eq_none]
        intro part hPart
        obtain ⟨variant, hVariant, hRelated⟩ := exists_of_mem_right hParts hPart
        rw [hRelated.number]
        exact hVariants variant hVariant
      show Value.tag 0 none = Codec.tagDefault parts
      simp [Codec.tagDefault, hFind]
    · right
      obtain ⟨part, hPart, hRelated⟩ := exists_of_mem_left hParts hVariant
      rw [Codec.succeeds_encodeVariant, ← hRelated.number]
      refine ⟨part, ModelPart.find?_of_mem hNodup hPart, ?_⟩
      have hInner := hRelated.content
      generalize variant.content = content at hInner hPayload
      generalize part.content = found at hInner
      cases hInner with
      | none =>
        refine Or.inl ⟨rfl, ?_⟩
        cases payload with
        | none => rfl
        | some value =>
          obtain ⟨_, hContent, _⟩ := hPayload value rfl
          cases hContent
      | @some inner codec hBoth =>
        refine Or.inr ⟨codec, rfl, Or.inr ?_⟩
        cases payload with
        | none => exact hBoth.2.succeeds hBoth.1
        | some value =>
          obtain ⟨_, hContent, hTyped⟩ := hPayload value rfl
          cases hContent
          exact hBoth.2.succeeds hTyped

end

/-- The codec of a type writes exactly the values of the type. -/
theorem codecOf_accepts {definitions : List Definition} (hArena : Arena definitions) {codec : Codec}
    {type : ClosedType} (hType : type.Proper definitions)
    (hCodec : codecOf definitions type = some codec) : Accepts definitions type codec := by
  refine (codec_induction (P := Accepts definitions) hArena ?scalar ?string ?bytes ?array ?map
    ?message ?tag hType hCodec).2
  case scalar =>
    intro type kind hShape value _
    rw [hasType_iff_makes hShape]
    exact Codec.succeeds_encode_scalar
  case string =>
    intro type hShape value _
    rw [hasType_iff_makes hShape]
    exact Codec.succeeds_encode_string
  case bytes =>
    intro type hShape value _
    rw [hasType_iff_makes hShape]
    exact Codec.succeeds_encode_bytes
  case array =>
    intro type element codec hShape hElement value hSorted
    rw [hasType_iff_makes hShape, Codec.succeeds_encode_array]
    apply exists_congr
    rintro items
    apply and_congr_right
    rintro rfl
    rcases hSorted with _ | _ | _ | hSorted
    exact forall₂_congr fun item hItem => hElement item (hSorted item hItem)
  case map =>
    intro type key value keys values hShape hKey hValue value hSorted
    rw [hasType_iff_makes hShape, Codec.succeeds_encode_map]
    apply exists_congr
    rintro entries
    apply and_congr_right
    rintro rfl
    rcases hSorted with _ | _ | _ | _ | ⟨hKeys, hValues⟩
    exact forall₂_congr fun entry hEntry =>
      and_congr (hKey entry.1 (hKeys entry hEntry)) (hValue entry.2 (hValues entry hEntry))
  case message =>
    intro type fields parts name hShape hDefault hParts
    exact accepts_message name hShape hDefault hParts
  case tag =>
    intro type variants parts name hShape hDefault hParts
    exact accepts_tag hArena name hShape hDefault hParts

/-- Writing a value to a byte string. It succeeds for the values of the type and for no others; what
is added are the bytes of the value, and where it fails, nothing is added. -/
theorem encode_onto {options : Schema.Options} {sources : List Schema.Source} {project : Project}
    (hCompile : Schema.compile options sources = .ok project) {type : ClosedType} {value : Value}
    (hType : type.Proper project.definitions) (hSorted : value.Sorted) (sink : Bytes) :
    (((encode project.toModels type value).onto sink).1 = .ok () ↔
        HasType project.definitions .optional type value) ∧
      ((∃ bytes, toBytes project.toModels type value = .ok bytes ∧
          (encode project.toModels type value).onto sink = (.ok (), sink ++ bytes)) ∨
        ∃ error, toBytes project.toModels type value = .error error ∧
          (encode project.toModels type value).onto sink = (.error error, sink)) := by
  have hArena := Schema.compile_arena hCompile
  obtain ⟨_, codec, _, _, hCodec⟩ := hType.codec hArena
  have hEncode : encode project.toModels type value = codec.encode value := by
    rw [encode, shelvedCodecOf_eq, hCodec]
  have hAccepts := codecOf_accepts hArena hType hCodec value hSorted
  have hCases := (codec.encode_whole value).onto sink
  rw [toBytes, hEncode]
  refine ⟨?_, hCases⟩
  rw [← hAccepts]
  rcases hCases with ⟨bytes, hBytes, hOnto⟩ | ⟨error, hError, hOnto⟩
  · rw [hOnto]
    exact ⟨fun _ => ⟨bytes, hBytes⟩, fun _ => rfl⟩
  · rw [hOnto]
    constructor
    · intro hOk
      cases hOk
    · rintro ⟨bytes, hBytes⟩
      cases hError.symm.trans hBytes

section

open Schema.Luggage (models)

/-- Two bags. An item of the second is not a string. -/
def mixedUp : Value :=
  .message [(1, .array [.message [(1, .array [.string "hat"])],
    .message [(1, .array [.string "map", .scalar (.bool true)]), (2, .tag 1 none)]])]

theorem mixedUp_sorted : mixedUp.Sorted := by
  have hFirst : Value.Sorted (.message [(1, .array [.string "hat"])]) := by
    refine .message (by decide) (List.forall_mem_singleton.2 (.array ?_))
    exact List.forall_mem_singleton.2 (.string _)
  have hSecond : Value.Sorted
      (.message [(1, .array [.string "map", .scalar (.bool true)]), (2, .tag 1 none)]) := by
    refine .message (by decide) (List.forall_mem_cons.2 ⟨.array ?_, List.forall_mem_singleton.2 ?_⟩)
    · exact List.forall_mem_cons.2 ⟨.string _, List.forall_mem_singleton.2 (.scalar _)⟩
    · exact .tag (by simp)
  refine .message (by decide) (List.forall_mem_singleton.2 (.array ?_))
  exact List.forall_mem_cons.2 ⟨hFirst, List.forall_mem_singleton.2 hSecond⟩

/-- The bags of which one lacks its fields are written behind what is there, and of the bags that
are mixed up not even the first is. -/
theorem encode_onto_bags :
    (∃ bytes, toBytes models stringBags packed = .ok bytes ∧
      (encode models stringBags packed).onto [0xff] = (.ok (), 0xff :: bytes)) ∧
    ¬ HasType models.definitions .optional stringBags mixedUp ∧
      (encode models stringBags mixedUp).onto [0xff] =
        (.error (.typeMismatch "string" "bool"), [0xff]) := by
  have hCompile := Schema.Luggage.compiles.compile {}
  obtain ⟨hPacked, hCases⟩ := encode_onto hCompile stringBags_proper packed_hasType.sorted [0xff]
  obtain ⟨hMixedUp, hOthers⟩ := encode_onto hCompile stringBags_proper mixedUp_sorted [0xff]
  have hError : toBytes models stringBags mixedUp = .error (.typeMismatch "string" "bool") := by cbv
  constructor
  · rcases hCases with hWritten | ⟨error, _, hOnto⟩
    · exact hWritten
    · have hOk := hPacked.2 packed_hasType
      rw [hOnto] at hOk
      cases hOk
  · rcases hOthers with ⟨bytes, hBytes, _⟩ | ⟨error, hSame, hOnto⟩
    · cases hError.symm.trans hBytes
    · cases hError.symm.trans hSame
      refine ⟨fun hTyped => ?_, hOnto⟩
      have hOk := hMixedUp.2 hTyped
      rw [hOnto] at hOk
      cases hOk

end

end Interchange.Wire

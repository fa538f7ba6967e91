import Interchange.Proofs.Schema.Spans
import Interchange.Proofs.Wire.Descent
import Interchange.Proofs.Wire.Elision
import Interchange.Proofs.Wire.Lockstep
import Interchange.Proofs.Wire.Versions

/-!
# Types by what they unfold to

A type can be written out in full: templates are replaced by what they stand for, until only
built-in types and numbers of fields and variants are left. Names go away, and so does the split
into a template and its arguments. Values on the wire do not depend on more than that. Names are
used in errors only.

* `Skeleton`, `ClosedType.UnfoldsTo`: what is left of a type.
* `UnfoldsTo.unique`, `Proper.exists_unfoldsTo`: every type unfolds in one way.
* `Codec.Follows`: a codec does all that another one does.
* `Codec.follows_message`, `Codec.follows_tag`: models whose parts follow each other.
* `UnfoldsTo.codecFollows`: the codecs of types with one skeleton.
* `transfer_transparent`: the types of compiled projects.
-/

namespace Interchange.Schema.ModelPart

variable {α β : Type} {R : α → β → Prop} {parts : List (ModelPart α)} {others : List (ModelPart β)}

/-- One number and related contents. Names do not matter. -/
structure Alike (R : α → β → Prop) (part : ModelPart α) (other : ModelPart β) : Prop where
  number : part.number = other.number
  content : R part.content other.content

/-- Looking up a number among alike parts. -/
theorem find?_alike (hParts : List.Forall₂ (Alike R) parts others) (p : UInt32 → Bool) :
    Option.Rel (Alike R) (parts.find? fun part => p part.number)
      (others.find? fun part => p part.number) := by
  induction hParts with
  | nil => exact .none
  | cons hAlike _ ih =>
    rw [List.find?_cons, List.find?_cons, hAlike.number]
    split
    · exact .some hAlike
    · exact ih

end Interchange.Schema.ModelPart

namespace Interchange.Wire

open Schema (Arena Builtin Definition ModelPart Models Project)

/-! ## Skeletons -/

/-- A type written out in full, without names. -/
inductive Skeleton where
  | builtin (kind : Builtin) (args : List Skeleton)
  | message (fields : List (UInt32 × Skeleton))
  | tag (variants : List (UInt32 × Option Skeleton))

/-- The built-in type at the top. -/
def Skeleton.builtin? : Skeleton → Option Builtin
  | builtin kind _ => some kind
  | message _ => none
  | tag _ => none

namespace ClosedType

/-- What a type is once it is written out in full, where `unfold` says the same of the types inside
it: a built-in type with its arguments, or the numbers of the fields and variants with their
contents. -/
inductive UnfoldsTo (definitions : List Definition) : ClosedType → Skeleton → Prop
  | builtin {type : ClosedType} {kind : Builtin} (unfold : ClosedType → Skeleton)
      (hKind : type.builtin? definitions = some kind)
      (hArgs : ∀ arg ∈ type.args, UnfoldsTo definitions arg (unfold arg)) :
      UnfoldsTo definitions type (.builtin kind (type.args.map unfold))
  | message {type : ClosedType} {parts : List (ModelPart ClosedType)}
      (unfold : ClosedType → Skeleton) (hShape : type.shape? definitions = some (.message parts))
      (hContents : ∀ part ∈ parts, UnfoldsTo definitions part.content (unfold part.content)) :
      UnfoldsTo definitions type
        (.message (parts.map fun part => (part.number, unfold part.content)))
  | tag {type : ClosedType} {parts : List (ModelPart (Option ClosedType))}
      (unfold : ClosedType → Skeleton) (hShape : type.shape? definitions = some (.tag parts))
      (hPayloads : ∀ part ∈ parts, ∀ inner ∈ part.content,
        UnfoldsTo definitions inner (unfold inner)) :
      UnfoldsTo definitions type
        (.tag (parts.map fun part => (part.number, part.content.map unfold)))

section

variable {definitions : List Definition} {type : ClosedType} {skeleton other : Skeleton}

theorem UnfoldsTo.builtin?_eq (hUnfolds : type.UnfoldsTo definitions skeleton) :
    type.builtin? definitions = skeleton.builtin? := by
  cases hUnfolds with
  | builtin _ hKind => exact hKind
  | message _ hShape => exact builtin?_eq_none hShape (Or.inl ⟨_, rfl⟩)
  | tag _ hShape => exact builtin?_eq_none hShape (Or.inr ⟨_, rfl⟩)

theorem UnfoldsTo.args {kind : Builtin} {args : List Skeleton}
    (hUnfolds : type.UnfoldsTo definitions (.builtin kind args)) :
    type.builtin? definitions = some kind ∧
      List.Forall₂ (UnfoldsTo definitions) type.args args := by
  generalize hSkeleton : Skeleton.builtin kind args = skeleton at hUnfolds
  cases hUnfolds with
  | builtin unfold hKind hArgs =>
    cases hSkeleton
    refine ⟨hKind, ?_⟩
    rw [List.forall₂_map_right_iff, List.forall₂_same]
    exact hArgs
  | message => cases hSkeleton
  | tag => cases hSkeleton

theorem UnfoldsTo.fields {fields : List (UInt32 × Skeleton)}
    (hUnfolds : type.UnfoldsTo definitions (.message fields)) :
    ∃ parts, type.shape? definitions = some (.message parts) ∧
      List.Forall₂ (fun part field => part.number = field.1 ∧
        part.content.UnfoldsTo definitions field.2) parts fields := by
  generalize hSkeleton : Skeleton.message fields = skeleton at hUnfolds
  cases hUnfolds with
  | builtin => cases hSkeleton
  | @message _ parts unfold hShape hContents =>
    cases hSkeleton
    refine ⟨parts, hShape, ?_⟩
    rw [List.forall₂_map_right_iff, List.forall₂_same]
    exact fun part hPart => ⟨rfl, hContents part hPart⟩
  | tag => cases hSkeleton

theorem UnfoldsTo.variants {variants : List (UInt32 × Option Skeleton)}
    (hUnfolds : type.UnfoldsTo definitions (.tag variants)) :
    ∃ parts, type.shape? definitions = some (.tag parts) ∧
      List.Forall₂ (fun part variant => part.number = variant.1 ∧
        Option.Rel (UnfoldsTo definitions) part.content variant.2) parts variants := by
  generalize hSkeleton : Skeleton.tag variants = skeleton at hUnfolds
  cases hUnfolds with
  | builtin => cases hSkeleton
  | message => cases hSkeleton
  | @tag _ parts unfold hShape hPayloads =>
    cases hSkeleton
    refine ⟨parts, hShape, ?_⟩
    rw [List.forall₂_map_right_iff, List.forall₂_same]
    intro part hPart
    have hPayload := hPayloads part hPart
    refine ⟨rfl, ?_⟩
    dsimp only
    cases hContent : part.content with
    | none => exact .none
    | some inner => exact .some (hPayload inner hContent)

/-- A type unfolds in one way. -/
theorem UnfoldsTo.unique (hUnfolds : type.UnfoldsTo definitions skeleton)
    (hOther : type.UnfoldsTo definitions other) : skeleton = other := by
  induction hUnfolds generalizing other with
  | builtin unfold hKind hArgs ih =>
    have hSame := hKind.symm.trans hOther.builtin?_eq
    cases hOther with
    | builtin unfold' hKind' hArgs' =>
      cases hSame
      rw [List.map_congr_left fun arg hArg => ih arg hArg (hArgs' arg hArg)]
    | message => cases hSame
    | tag => cases hSame
  | message unfold hShape hContents ih =>
    have hSame := (builtin?_eq_none hShape (Or.inl ⟨_, rfl⟩)).symm.trans hOther.builtin?_eq
    cases hOther with
    | builtin => cases hSame
    | message unfold' hShape' hContents' =>
      cases hShape.symm.trans hShape'
      congr 1
      apply List.map_congr_left
      intro part hPart
      rw [ih part hPart (hContents' part hPart)]
    | tag _ hShape' => cases hShape.symm.trans hShape'
  | tag unfold hShape hPayloads ih =>
    have hSame := (builtin?_eq_none hShape (Or.inr ⟨_, rfl⟩)).symm.trans hOther.builtin?_eq
    cases hOther with
    | builtin => cases hSame
    | message _ hShape' => cases hShape.symm.trans hShape'
    | tag unfold' hShape' hPayloads' =>
      cases hShape.symm.trans hShape'
      congr 1
      apply List.map_congr_left
      intro part hPart
      rw [Option.map_congr fun inner hInner =>
        ih part hPart inner hInner (hPayloads' part hPart inner hInner)]

/-- Every proper type can be written out in full. -/
theorem Proper.exists_unfoldsTo (hArena : Arena definitions) (hType : type.Proper definitions) :
    ∃ skeleton, type.UnfoldsTo definitions skeleton := by
  induction type using (wellFounded_part hArena).induction with
  | _ type ih =>
    have hEach : ∀ inner, ∃ skeleton, Part definitions type inner →
        inner.UnfoldsTo definitions skeleton := by
      intro inner
      by_cases hPart : Part definitions type inner
      · obtain ⟨skeleton, hUnfolds⟩ := ih inner hPart (hType.part hArena hPart)
        exact ⟨skeleton, fun _ => hUnfolds⟩
      · exact ⟨.message [], fun hOther => absurd hOther hPart⟩
    choose unfold hUnfold using hEach
    obtain ⟨shape, _, hShape, _⟩ := hType.codec hArena
    cases hKind : type.builtin? definitions with
    | some kind =>
      refine ⟨_, .builtin unfold hKind fun arg hArg => hUnfold arg ?_⟩
      obtain ⟨slot, args⟩ := type
      exact .argument hArg
    | none =>
      cases shape with
      | message parts =>
        refine ⟨_, .message unfold hShape fun part hPart => hUnfold _ ?_⟩
        exact part_of_mem_parts hShape (List.mem_map_of_mem hPart)
      | tag parts =>
        refine ⟨_, .tag unfold hShape fun part hPart inner hInner => hUnfold _ ?_⟩
        exact part_of_mem_parts hShape (List.mem_filterMap.2 ⟨part, hPart, hInner⟩)
      | _ =>
        obtain ⟨kind, hBuiltin, _⟩ := exists_builtin hShape (by simp) (by simp)
        cases hKind.symm.trans hBuiltin

end

end ClosedType

/-! ## Codecs that follow each other -/

namespace Writing

/-- Where the other writing succeeds, this one writes the same bytes. -/
def Repeats (writing other : Writing) : Prop :=
  ∀ bytes, other.toBytes = .ok bytes → writing.toBytes = .ok bytes

variable {first second first' second' : Writing}

theorem repeats_refl (writing : Writing) : writing.Repeats writing :=
  fun _ hBytes => hBytes

theorem repeats_fail (writing : Writing) (error : WireError) : writing.Repeats (fail error) := by
  intro bytes hBytes
  cases hBytes

theorem Repeats.andThen (hFirst : first.Repeats first') (hSecond : second.Repeats second') :
    (first.andThen second).Repeats (first'.andThen second') := by
  intro bytes hBytes
  obtain ⟨⟨before, hBefore⟩, after, hAfter⟩ := succeeds_andThen.1 ⟨bytes, hBytes⟩
  rw [toBytes_andThen hBefore hAfter] at hBytes
  cases hBytes
  exact toBytes_andThen (hFirst before hBefore) (hSecond after hAfter)

theorem Repeats.framed (hContent : first.Repeats first') :
    (Codec.framed first).Repeats (Codec.framed first') := by
  intro bytes hBytes
  obtain ⟨content, hInner⟩ := Codec.succeeds_framed.1 ⟨bytes, hBytes⟩
  rw [Codec.toBytes_framed hInner] at hBytes
  cases hBytes
  exact Codec.toBytes_framed (hContent content hInner)

end Writing

namespace Reading

variable {α β γ : Type} {item other : Reading α} {S : β → γ → Prop}

/-- After readings with one value, readings that follow each other. -/
theorem Follows.bind_eq (hFirst : item.Follows other Eq) {next : α → Reading β}
    {following : α → Reading γ} (hNext : ∀ a, (following a).Follows (next a) S) :
    (item >>= following).Follows (other >>= next) S := by
  refine hFirst.bind ?_
  rintro a _ rfl
  exact hNext a

theorem Follows.elements (hItem : item.Follows other Eq) (region : Bytes) :
    (ofExcept (elements item region)).Follows (ofExcept (elements other region)) Eq := by
  apply follows_ofExcept
  intro values hValues
  obtain ⟨others, hOthers, hSame⟩ := elements_follows hItem hValues
  rw [List.forall₂_eq_eq_eq] at hSame
  exact ⟨others, hOthers, hSame⟩

end Reading

namespace Codec

open Reading

/-- The codec writes what the other one writes and reads what the other one reads. -/
structure Follows (follower leader : Codec) : Prop where
  default : follower.default = leader.default
  layout : follower.layout = leader.layout
  encode : ∀ value, (follower.encode value).Repeats (leader.encode value)
  decode : follower.decode.Follows leader.decode Eq

theorem follows_self (codec : Codec) : codec.Follows codec :=
  ⟨rfl, rfl, fun _ => Writing.repeats_refl _, follows_refl _⟩

/-! Arrays and maps. -/

section

variable {follower leader keys keys' : Codec}

theorem Follows.array (hElement : follower.Follows leader) (default : Value) :
    (Codec.array follower default).Follows (.array leader default) where
  default := rfl
  layout := rfl
  encode value := by
    cases value with
    | array items =>
      rw [Codec.encode, Codec.encode]
      apply Writing.Repeats.framed
      induction items with
      | nil => exact Writing.repeats_refl _
      | cons item rest ih => exact (hElement.encode item).andThen ih
    | _ => exact Writing.repeats_fail _ _
  decode := follows_bind fun region =>
    (hElement.decode.elements region).bind_eq fun _ => follows_refl _

theorem Follows.map (hKeys : keys.Follows keys') (hValues : follower.Follows leader)
    (default : Value) :
    (Codec.map keys follower default).Follows (.map keys' leader default) where
  default := rfl
  layout := rfl
  encode value := by
    cases value with
    | map entries =>
      rw [Codec.encode, Codec.encode]
      apply Writing.Repeats.framed
      induction entries with
      | nil => exact Writing.repeats_refl _
      | cons entry rest ih =>
        exact ((hKeys.encode entry.1).andThen (hValues.encode entry.2)).andThen ih
    | _ => exact Writing.repeats_fail _ _
  decode := by
    have hEntry : (entry keys.decode follower.decode).Follows
        (entry keys'.decode leader.decode) Eq :=
      hKeys.decode.bind_eq fun _ => hValues.decode.bind_eq fun _ => follows_refl _
    exact follows_bind fun region => (hEntry.elements region).bind_eq fun _ => follows_refl _

end

/-! Messages. -/

section

variable {followers leaders : List (ModelPart Codec)}

theorem undeclared?_eq (hParts : List.Forall₂ (ModelPart.Alike Follows) followers leaders)
    (fields : List (UInt32 × Value)) :
    undeclared? followers fields = undeclared? leaders fields := by
  have hSame : ∀ number,
      (ModelPart.find? followers number).isNone = (ModelPart.find? leaders number).isNone := by
    intro number
    have hFind := ModelPart.find?_alike hParts (· == number)
    rw [← ModelPart.find?, ← ModelPart.find?] at hFind
    generalize ModelPart.find? followers number = found at hFind
    generalize ModelPart.find? leaders number = found' at hFind
    cases hFind <;> rfl
  simp only [undeclared?, hSame]

theorem repeats_fieldWriting {follower leader : ModelPart Codec}
    (hPart : ModelPart.Alike Follows follower leader) (fields : List (UInt32 × Value)) :
    (fieldWriting fields follower).Repeats (fieldWriting fields leader) := by
  have hWritten : written? fields follower = written? fields leader := by
    rw [written?, written?, hPart.number, hPart.content.default]
  rw [fieldWriting, fieldWriting, hWritten, hPart.number, hPart.content.layout]
  cases written? fields leader with
  | none => exact Writing.repeats_refl _
  | some value => exact (Writing.repeats_refl _).andThen (hPart.content.encode value)

theorem repeats_encodeFields (hParts : List.Forall₂ (ModelPart.Alike Follows) followers leaders)
    (fields : List (UInt32 × Value)) :
    (encodeFields followers fields).Repeats (encodeFields leaders fields) := by
  induction hParts with
  | nil => exact Writing.repeats_refl _
  | cons hPart _ ih =>
    rw [encodeFields_eq_andThen, encodeFields_eq_andThen]
    exact (repeats_fieldWriting hPart fields).andThen ih

theorem follows_fieldEntry (name name' : String)
    (hParts : List.Forall₂ (ModelPart.Alike Follows) followers leaders) :
    (fieldEntry name (fieldReaders followers)).Follows
      (fieldEntry name' (fieldReaders leaders)) Eq := by
  have hReaders : List.Forall₂ (ModelPart.Alike fun reader reader' : Layout × Reading Value =>
      reader.1 = reader'.1 ∧ reader.2.Follows reader'.2 Eq) (fieldReaders followers)
      (fieldReaders leaders) := by
    rw [fieldReaders_eq_map, fieldReaders_eq_map, List.forall₂_map_left_iff,
      List.forall₂_map_right_iff]
    exact hParts.imp fun _ _ hPart =>
      ⟨hPart.number, hPart.content.layout, hPart.content.decode⟩
  refine follows_bind fun tag => follows_bind ?_
  rintro ⟨id, layout⟩
  have hFind := ModelPart.find?_alike hReaders fun number => number.toNat == id
  dsimp only
  generalize (fieldReaders followers).find? (fun part => part.number.toNat == id) = found at hFind
  generalize (fieldReaders leaders).find? (fun part => part.number.toNat == id) = found' at hFind
  cases hFind with
  | none => exact follows_refl _
  | @some follower leader hPart =>
    obtain ⟨number, label, expected, reading⟩ := follower
    obtain ⟨number', label', expected', reading'⟩ := leader
    obtain ⟨rfl, rfl, hReading⟩ := hPart
    dsimp only at hReading ⊢
    split
    · exact hReading.bind_eq fun _ => follows_refl _
    · exact follows_fail _ _

/-- Messages whose fields follow each other, under any names. -/
theorem follows_message (name name' : String)
    (hParts : List.Forall₂ (ModelPart.Alike Follows) followers leaders) :
    (messageCodec name followers).Follows (messageCodec name' leaders) := by
  have hDefaults : (leaders.map fun field => (field.number, field.content.default)) =
      followers.map fun field => (field.number, field.content.default) :=
    map_eq_map_of_forall₂ hParts fun _ _ _ hPart =>
      Prod.ext hPart.number.symm hPart.content.default.symm
  refine ⟨?_, rfl, ?_, ?_⟩
  · show Value.message _ = Value.message _
    rw [hDefaults]
  · intro value
    rw [messageCodec, messageCodec, hDefaults]
    cases value with
    | message fields =>
      rw [encode, encode, undeclared?_eq hParts]
      cases undeclared? leaders fields with
      | some id => exact Writing.repeats_fail _ _
      | none =>
        dsimp only
        split
        · exact Writing.repeats_refl _
        · exact (repeats_encodeFields hParts fields).framed
    | _ => exact Writing.repeats_fail _ _
  · rw [messageCodec, messageCodec, hDefaults]
    refine follows_bind fun region => follows_ofExcept fun value hValue => ?_
    obtain ⟨entries, hEntries, hMessage⟩ := bind_eq_ok.1 hValue
    obtain ⟨others, hOthers, hSame⟩ :=
      elements_follows (follows_fieldEntry name name' hParts) hEntries
    rw [List.forall₂_eq_eq_eq] at hSame
    subst hSame
    exact ⟨value, bind_eq_ok.2 ⟨entries, hOthers, hMessage⟩, rfl⟩

end

/-! Tags. -/

section

variable {followers leaders : List (ModelPart (Option Codec))}

theorem find?_follows
    (hParts : List.Forall₂ (ModelPart.Alike (Option.Rel Follows)) followers leaders)
    (number : UInt32) : Option.Rel (ModelPart.Alike (Option.Rel Follows))
      (ModelPart.find? followers number) (ModelPart.find? leaders number) :=
  ModelPart.find?_alike hParts (· == number)

theorem tagDefault_eq
    (hParts : List.Forall₂ (ModelPart.Alike (Option.Rel Follows)) followers leaders) :
    tagDefault followers = tagDefault leaders := by
  have hFind := find?_follows hParts 0
  rw [tagDefault, tagDefault]
  generalize ModelPart.find? followers 0 = found at hFind
  generalize ModelPart.find? leaders 0 = found' at hFind
  cases hFind with
  | none => rfl
  | @some follower leader hPart =>
    obtain ⟨_, _, payload⟩ := follower
    obtain ⟨_, _, payload'⟩ := leader
    obtain ⟨_, hPayload⟩ := hPart
    dsimp only at hPayload ⊢
    cases hPayload with
    | none => rfl
    | some hFollows =>
      show Value.tag 0 (some _) = Value.tag 0 (some _)
      rw [hFollows.default]

theorem repeats_encodeVariant (name name' : String)
    (hParts : List.Forall₂ (ModelPart.Alike (Option.Rel Follows)) followers leaders)
    (number : UInt32) (payload : Option Value) :
    (encodeVariant name followers number payload).Repeats
      (encodeVariant name' leaders number payload) := by
  have hFind := find?_follows hParts number
  rw [encodeVariant_eq, encodeVariant_eq]
  generalize ModelPart.find? followers number = found at hFind
  generalize ModelPart.find? leaders number = found' at hFind
  cases hFind with
  | none => exact Writing.repeats_fail _ _
  | @some follower leader hPart =>
    obtain ⟨_, _, content⟩ := follower
    obtain ⟨_, _, content'⟩ := leader
    obtain ⟨_, hContent⟩ := hPart
    dsimp only at hContent ⊢
    cases hContent with
    | none =>
      cases payload with
      | some value => exact Writing.repeats_fail _ _
      | none => exact Writing.repeats_refl _
    | some hFollows =>
      dsimp only
      rw [hFollows.default]
      split
      · exact Writing.repeats_refl _
      · exact ((Writing.repeats_refl _).andThen (hFollows.encode _)).framed

theorem payloadOf_eq {missing value : Value} {reading reading' : Reading Value}
    (hReading : reading.Follows reading' Eq) {rest : Bytes}
    (hPayload : payloadOf missing reading' rest = .ok value) :
    payloadOf missing reading rest = .ok value := by
  rw [payloadOf] at hPayload ⊢
  by_cases hEmpty : rest.isEmpty
  · rw [if_pos hEmpty] at hPayload ⊢
    exact hPayload
  · rw [if_neg hEmpty] at hPayload ⊢
    obtain ⟨_, hRun, rfl⟩ := hReading rest value _ (Prod.ext hPayload rfl)
    rw [hRun]

theorem tagOf_eq (name name' : String) {default value : Value}
    (hParts : List.Forall₂ (ModelPart.Alike (Option.Rel Follows)) followers leaders)
    {region : Bytes} (hTag : tagOf name' default (variantReaders leaders) region = .ok value) :
    tagOf name default (variantReaders followers) region = .ok value := by
  have hReaders : List.Forall₂ (ModelPart.Alike (Option.Rel
      fun reader reader' : Value × Reading Value =>
        reader.1 = reader'.1 ∧ reader.2.Follows reader'.2 Eq)) (variantReaders followers)
      (variantReaders leaders) := by
    rw [variantReaders_eq_map, variantReaders_eq_map, List.forall₂_map_left_iff,
      List.forall₂_map_right_iff]
    refine hParts.imp fun follower leader hPart => ⟨hPart.number, ?_⟩
    obtain ⟨_, _, content⟩ := follower
    obtain ⟨_, _, content'⟩ := leader
    have hContent : Option.Rel Follows content content' := hPart.content
    cases hContent with
    | none => exact .none
    | some hFollows => exact .some ⟨hFollows.default, hFollows.decode⟩
  rw [tagOf] at hTag ⊢
  by_cases hEmpty : region.isEmpty
  · rw [if_pos hEmpty] at hTag ⊢
    exact hTag
  rw [if_neg hEmpty] at hTag ⊢
  generalize Varint.read.run region = outcome at hTag ⊢
  obtain ⟨result, rest⟩ := outcome
  cases result with
  | error error => cases hTag
  | ok number =>
    have hFind := ModelPart.find?_alike hReaders fun declared => declared.toNat == number
    dsimp only at hTag ⊢
    generalize (variantReaders followers).find? (fun part => part.number.toNat == number) = found
      at hFind
    generalize (variantReaders leaders).find? (fun part => part.number.toNat == number) = found'
      at hFind hTag
    cases hFind with
    | none =>
      dsimp only at hTag ⊢
      by_cases hZero : number = 0
      · rw [if_pos hZero] at hTag ⊢
        exact hTag
      · rw [if_neg hZero] at hTag
        cases hTag
    | @some follower leader hPart =>
      obtain ⟨declared, _, content⟩ := follower
      obtain ⟨_, _, content'⟩ := leader
      obtain ⟨rfl, hContent⟩ := hPart
      dsimp only at hContent hTag ⊢
      cases hContent with
      | none => exact hTag
      | @some reader reader' hReader =>
        obtain ⟨missing, reading⟩ := reader
        obtain ⟨_, reading'⟩ := reader'
        obtain ⟨rfl, hReading⟩ := hReader
        obtain ⟨payload, hPayload, hValue⟩ := bind_eq_ok.1 hTag
        exact bind_eq_ok.2 ⟨payload, payloadOf_eq hReading hPayload, hValue⟩

/-- Tags whose payloads follow each other, under any names. -/
theorem follows_tag (name name' : String)
    (hParts : List.Forall₂ (ModelPart.Alike (Option.Rel Follows)) followers leaders) :
    (tagCodec name followers).Follows (tagCodec name' leaders) := by
  refine ⟨tagDefault_eq hParts, rfl, ?_, ?_⟩
  · intro value
    cases value with
    | tag number payload =>
      rw [tagCodec, tagCodec, encode, encode, ← tagDefault, ← tagDefault, tagDefault_eq hParts]
      split
      · exact Writing.repeats_refl _
      · exact repeats_encodeVariant name name' hParts number payload
    | _ => exact Writing.repeats_fail _ _
  · rw [tagCodec, tagCodec, ← tagDefault, ← tagDefault, tagDefault_eq hParts]
    refine follows_bind fun region => follows_ofExcept fun value hValue => ?_
    exact ⟨value, tagOf_eq name name' hParts hValue, rfl⟩

end

end Codec

/-! ## Types with one skeleton -/

/-- Both types are built in alike, and the codec of the second follows that of the first. -/
structure CodecFollows (definitions others : List Definition) (type other : ClosedType) : Prop where
  builtin : type.builtin? definitions = other.builtin? others
  codec : ∀ leader follower, codecOf definitions type = some leader →
    codecOf others other = some follower → follower.Follows leader

section

variable {definitions others : List Definition} {type other : ClosedType} {skeleton : Skeleton}

/-- Contents of alike parts, one by one. -/
theorem partsWith_alike {α β γ δ : Type} {R : α → β → Prop} {S : δ → γ → Prop}
    {content : α → Option γ} {content' : β → Option δ} {parts : List (ModelPart α)}
    {parts' : List (ModelPart β)} {leaders : List (ModelPart γ)} {followers : List (ModelPart δ)}
    (hParts : List.Forall₂ (ModelPart.Alike R) parts parts')
    (hLeaders : partsWith content parts = some leaders)
    (hFollowers : partsWith content' parts' = some followers)
    (hContent : ∀ a b c d, R a b → content a = some c → content' b = some d → S d c) :
    List.Forall₂ (ModelPart.Alike S) followers leaders := by
  have hBoth : List.Forall₂ (ModelPart.Alike fun b c => ∀ d, content' b = some d → S d c) parts'
      leaders := by
    refine forall₂_through hParts (partsWith_eq_some.1 hLeaders) ?_
    intro part _ part' leader hAlike hLeader
    refine ⟨hAlike.number.symm.trans hLeader.number.symm, fun d hFollower => ?_⟩
    exact hContent _ _ _ d hAlike.content hLeader.content hFollower
  refine forall₂_through (partsWith_eq_some.1 hFollowers) hBoth ?_
  intro part _ follower leader hFollower hLeader
  exact ⟨hFollower.number.trans hLeader.number, hLeader.content _ hFollower.content⟩

theorem payloadCodec?_follows {payload payload' : Option ClosedType}
    {leader follower : Option Codec}
    (hPayloads : Option.Rel (CodecFollows definitions others) payload payload')
    (hLeader : Shape.payloadCodec? (codecOf definitions) payload = some leader)
    (hFollower : Shape.payloadCodec? (codecOf others) payload' = some follower) :
    Option.Rel Codec.Follows follower leader := by
  rw [Shape.payloadCodec?_eq_some] at hLeader hFollower
  cases hPayloads with
  | none =>
    cases hLeader
    cases hFollower
    exact .none
  | some hFollows =>
    cases hLeader with
    | some hInner =>
      cases hFollower with
      | some hInner' => exact .some (hFollows.codec _ _ hInner hInner')

section

variable (hArena : Arena definitions) (hOthers : Arena others) (hType : type.Proper definitions)
  (hOther : other.Proper others)

include hArena hOthers hType hOther

/-- Built-in types whose arguments follow each other. -/
theorem codecFollows_builtin {kind : Builtin} (hKind : type.builtin? definitions = some kind)
    (hKind' : other.builtin? others = some kind)
    (hArgs : List.Forall₂ (CodecFollows definitions others) type.args other.args) :
    CodecFollows definitions others type other := by
  refine ⟨hKind.trans hKind'.symm, fun leader follower hLeader hFollower => ?_⟩
  obtain ⟨hLength, hPairs⟩ := List.forall₂_iff_zip.1 hArgs
  obtain ⟨shape, own, hShape, hOwn, hSame⟩ := hType.codec hArena
  cases hSame.symm.trans hLeader
  have hBuiltin := hShape
  rw [ClosedType.shape?_of_builtin? hKind] at hBuiltin
  obtain ⟨shape', hShape', hMatches⟩ := ClosedType.ofBuiltin?_matches
    (fun _ _ hFollows => CodecFollows.builtin hFollows) hLength
      (fun _ hPair => hPairs hPair) hBuiltin
  rw [← ClosedType.shape?_of_builtin? hKind'] at hShape'
  rw [hOther.codecOf_eq hOthers hShape'] at hFollower
  cases hMatches with
  | scalar kind =>
    cases hOwn
    cases hFollower
    exact Codec.follows_self _
  | string =>
    cases hOwn
    cases hFollower
    exact Codec.follows_self _
  | bytes =>
    cases hOwn
    cases hFollower
    exact Codec.follows_self _
  | array hElement =>
    obtain ⟨inner, hInner, rfl⟩ := Option.map_eq_some_iff.1 hOwn
    obtain ⟨inner', hInner', rfl⟩ := Option.map_eq_some_iff.1 hFollower
    exact (hElement.codec _ _ hInner hInner').array _
  | map hKey hValue =>
    obtain ⟨keys, hKeys, hOwn⟩ := Option.bind_eq_some_iff.1 hOwn
    obtain ⟨values, hValues, rfl⟩ := Option.map_eq_some_iff.1 hOwn
    obtain ⟨keys', hKeys', hFollower⟩ := Option.bind_eq_some_iff.1 hFollower
    obtain ⟨values', hValues', rfl⟩ := Option.map_eq_some_iff.1 hFollower
    exact (hKey.codec _ _ hKeys hKeys').map (hValue.codec _ _ hValues hValues') _
  | message =>
    rw [ClosedType.builtin?_eq_none hShape (Or.inl ⟨_, rfl⟩)] at hKind
    cases hKind
  | tag =>
    rw [ClosedType.builtin?_eq_none hShape (Or.inr ⟨_, rfl⟩)] at hKind
    cases hKind

theorem codecFollows_message {parts parts' : List (ModelPart ClosedType)}
    (hShape : type.shape? definitions = some (.message parts))
    (hShape' : other.shape? others = some (.message parts'))
    (hParts : List.Forall₂ (ModelPart.Alike (CodecFollows definitions others)) parts parts') :
    CodecFollows definitions others type other := by
  refine ⟨?_, fun leader follower hLeader hFollower => ?_⟩
  · rw [ClosedType.builtin?_eq_none hShape (Or.inl ⟨_, rfl⟩),
      ClosedType.builtin?_eq_none hShape' (Or.inl ⟨_, rfl⟩)]
  · rw [hType.codecOf_eq hArena hShape] at hLeader
    rw [hOther.codecOf_eq hOthers hShape'] at hFollower
    obtain ⟨leaders, hLeaders, rfl⟩ := Option.map_eq_some_iff.1 hLeader
    obtain ⟨followers, hFollowers, rfl⟩ := Option.map_eq_some_iff.1 hFollower
    apply Codec.follows_message
    refine partsWith_alike hParts hLeaders hFollowers ?_
    intro inner inner' leader follower hFollows
    exact hFollows.codec leader follower

theorem codecFollows_tag {parts parts' : List (ModelPart (Option ClosedType))}
    (hShape : type.shape? definitions = some (.tag parts))
    (hShape' : other.shape? others = some (.tag parts'))
    (hParts : List.Forall₂ (ModelPart.Alike (Option.Rel (CodecFollows definitions others))) parts
      parts') : CodecFollows definitions others type other := by
  refine ⟨?_, fun leader follower hLeader hFollower => ?_⟩
  · rw [ClosedType.builtin?_eq_none hShape (Or.inr ⟨_, rfl⟩),
      ClosedType.builtin?_eq_none hShape' (Or.inr ⟨_, rfl⟩)]
  · rw [hType.codecOf_eq hArena hShape] at hLeader
    rw [hOther.codecOf_eq hOthers hShape'] at hFollower
    obtain ⟨leaders, hLeaders, rfl⟩ := Option.map_eq_some_iff.1 hLeader
    obtain ⟨followers, hFollowers, rfl⟩ := Option.map_eq_some_iff.1 hFollower
    apply Codec.follows_tag
    refine partsWith_alike hParts hLeaders hFollowers ?_
    intro payload payload' leader follower hPayloads
    exact payloadCodec?_follows hPayloads

end

/-- The codecs of types with one skeleton follow each other. -/
theorem ClosedType.UnfoldsTo.codecFollows (hArena : Arena definitions) (hOthers : Arena others)
    (hUnfolds : type.UnfoldsTo definitions skeleton) (hOther : other.UnfoldsTo others skeleton)
    (hType : type.Proper definitions) (hProper : other.Proper others) :
    CodecFollows definitions others type other := by
  induction hUnfolds generalizing other with
  | @builtin type kind unfold hKind _ ih =>
    obtain ⟨hKind', hArgs⟩ := hOther.args
    rw [List.forall₂_map_right_iff] at hArgs
    refine codecFollows_builtin hArena hOthers hType hProper hKind hKind' ?_
    refine (forall₂_imp_of_mem hArgs fun arg' hArg' arg hArg hUnfolds => ?_).flip
    obtain ⟨slot, args⟩ := type
    obtain ⟨slot', args'⟩ := other
    exact ih arg hArg hUnfolds (hType.part hArena (.argument hArg))
      (hProper.part hOthers (.argument hArg'))
  | @message type parts unfold hShape _ ih =>
    obtain ⟨parts', hShape', hParts⟩ := hOther.fields
    rw [List.forall₂_map_right_iff] at hParts
    refine codecFollows_message hArena hOthers hType hProper hShape hShape' ?_
    refine (forall₂_imp_of_mem hParts fun part' hPart' part hPart hUnfolds => ?_).flip
    refine ⟨hUnfolds.1.symm, ih part hPart hUnfolds.2 ?_ ?_⟩
    · exact hType.of_mem_parts hArena hShape (List.mem_map_of_mem hPart)
    · exact hProper.of_mem_parts hOthers hShape' (List.mem_map_of_mem hPart')
  | @tag type parts unfold hShape _ ih =>
    obtain ⟨parts', hShape', hParts⟩ := hOther.variants
    rw [List.forall₂_map_right_iff] at hParts
    refine codecFollows_tag hArena hOthers hType hProper hShape hShape' ?_
    refine (forall₂_imp_of_mem hParts fun part' hPart' part hPart hUnfolds => ?_).flip
    obtain ⟨number, label, content⟩ := part
    obtain ⟨number', label', content'⟩ := part'
    obtain ⟨hNumber, hContents⟩ := hUnfolds
    refine ⟨hNumber.symm, ?_⟩
    dsimp only at hContents ⊢
    cases content with
    | none =>
      cases hContents
      exact .none
    | some inner =>
      cases hContents with
      | some hUnfolds =>
        refine .some (ih _ hPart inner rfl hUnfolds ?_ ?_)
        · exact hType.of_mem_parts hArena hShape (List.mem_filterMap.2 ⟨_, hPart, rfl⟩)
        · exact hProper.of_mem_parts hOthers hShape' (List.mem_filterMap.2 ⟨_, hPart', rfl⟩)

end

/-! ## Types of compiled projects -/

/-- Templates do not show on the wire. Every type of a project unfolds to one skeleton. Types of two
projects that unfold to the same one have the same default, write every value as the same bytes or
both fail, and read every byte string as the same value, up to the same place, or both fail. -/
theorem transfer_transparent {options options' : Schema.Options}
    {sources sources' : List Schema.Source} {project project' : Project}
    (hCompile : Schema.compile options sources = .ok project)
    (hCompile' : Schema.compile options' sources' = .ok project') {type other : ClosedType}
    (hType : type.Proper project.definitions) (hOther : other.Proper project'.definitions) :
    (∃! skeleton, type.UnfoldsTo project.definitions skeleton) ∧
    ∀ skeleton, type.UnfoldsTo project.definitions skeleton →
      other.UnfoldsTo project'.definitions skeleton →
      (∃ default, defaultOf project.toModels type = .ok default ∧
        defaultOf project'.toModels other = .ok default) ∧
      (∀ value, Agree (toBytes project.toModels type value)
        (toBytes project'.toModels other value)) ∧
      ∀ bytes value rest, (decode project.toModels type).run bytes = (.ok value, rest) ↔
        (decode project'.toModels other).run bytes = (.ok value, rest) := by
  have hArena := Schema.compile_arena hCompile
  have hArena' := Schema.compile_arena hCompile'
  constructor
  · obtain ⟨skeleton, hUnfolds⟩ := hType.exists_unfoldsTo hArena
    exact ⟨skeleton, hUnfolds, fun _ hSame => hSame.unique hUnfolds⟩
  intro skeleton hUnfolds hUnfolds'
  obtain ⟨_, leader, _, _, hLeader⟩ := hType.codec hArena
  obtain ⟨_, follower, _, _, hFollower⟩ := hOther.codec hArena'
  have hThere :=
    (hUnfolds.codecFollows hArena hArena' hUnfolds' hType hOther).codec _ _ hLeader hFollower
  have hBack :=
    (hUnfolds'.codecFollows hArena' hArena hUnfolds hOther hType).codec _ _ hFollower hLeader
  refine ⟨⟨leader.default, ?_, ?_⟩, fun value bytes => ?_, fun bytes value rest => ?_⟩
  · rw [defaultOf, shelvedCodecOf_eq, hLeader]
  · rw [defaultOf, shelvedCodecOf_eq, hFollower, ← hThere.default]
  · rw [toBytes, toBytes, encode, encode, shelvedCodecOf_eq, shelvedCodecOf_eq, hLeader, hFollower]
    exact ⟨hThere.encode value bytes, hBack.encode value bytes⟩
  · rw [decode, decode, shelvedCodecOf_eq, shelvedCodecOf_eq, hLeader, hFollower]
    constructor
    · intro hRun
      obtain ⟨_, hOwn, rfl⟩ := hThere.decode bytes value rest hRun
      exact hOwn
    · intro hRun
      obtain ⟨_, hOwn, rfl⟩ := hBack.decode bytes value rest hRun
      exact hOwn

end Interchange.Wire

/-! ## A bag of bytes, written out

A crate is what a bag of bytes is without the templates, under other names and with its parts in
another order. Crates and spare lids are stacked on pallets. -/

namespace Interchange.Schema.Crate

def sources : List Source :=
  [⟨"crate.ks", "namespace depot; message Crate { Lid lid = 2; array<byte> content = 1; }" ++
    " tag Lid { Tight(ks.uint8) = 1; Off = 0; }"⟩,
    ⟨"pallet.ks", "namespace depot; message Pallet \x7b array<byte> code = 1;" ++
      " map<string, array<Crate>> crates = 2; map<string, array<Lid>> lids = 3; \x7d"⟩]

def lid : Resolved :=
  ⟨⟨"depot", "Lid"⟩, .tag [] [⟨1, "Tight", some (.model Builtin.uint8.identifier [])⟩,
    ⟨0, "Off", none⟩] []⟩

def crate : Resolved :=
  ⟨⟨"depot", "Crate"⟩, .message [] [⟨2, "lid", .model lid.identifier []⟩,
    ⟨1, "content", .model Builtin.array.identifier [.model Builtin.uint8.identifier []]⟩] []⟩

/-- The use of a model in arrays under texts. -/
def stacked (target : Identifier) : Usage :=
  .model Builtin.map.identifier
    [.model Builtin.string.identifier [], .model Builtin.array.identifier [.model target []]]

def pallet : Resolved :=
  ⟨⟨"depot", "Pallet"⟩, .message []
    [⟨1, "code", .model Builtin.array.identifier [.model Builtin.uint8.identifier []]⟩,
      ⟨2, "crates", stacked crate.identifier⟩, ⟨3, "lids", stacked lid.identifier⟩] []⟩

def table : List Resolved :=
  Resolved.tableOf [crate, lid, pallet]

def sorted : List Resolved :=
  [⟨Builtin.uint8.identifier, .builtin .uint8⟩, lid, ⟨Builtin.array.identifier, .builtin .array⟩,
    crate, ⟨Builtin.map.identifier, .builtin .map⟩, ⟨Builtin.string.identifier, .builtin .string⟩,
    pallet] ++ Resolved.builtins (Builtin.byName.diff [.uint8, .array, .map, .string])

def models : Models where
  definitions := Builtin.all.map Definition.ofBuiltin ++
    [⟨lid.identifier, [], .tag [⟨0, "Off", none⟩,
      ⟨1, "Tight", some (.model ⟨0, .builtin⟩ 5 [])⟩] []⟩,
    ⟨crate.identifier, [], .message [⟨1, "content", .model ⟨3, .builtin⟩ 14
      [.model ⟨2, .builtin⟩ 5 []]⟩, ⟨2, "lid", .model ⟨1, .tag⟩ 16 []⟩] []⟩,
    ⟨pallet.identifier, [], .message
      [⟨1, "code", .model ⟨5, .builtin⟩ 14 [.model ⟨4, .builtin⟩ 5 []]⟩,
        ⟨2, "crates", .model ⟨9, .builtin⟩ 15 [.model ⟨6, .builtin⟩ 11 [],
          .model ⟨8, .builtin⟩ 14 [.model ⟨7, .message⟩ 17 []]]⟩,
        ⟨3, "lids", .model ⟨13, .builtin⟩ 15 [.model ⟨10, .builtin⟩ 11 [],
          .model ⟨12, .builtin⟩ 14 [.model ⟨11, .tag⟩ 16 []]]⟩] []⟩]
  services := []
  references := 14

theorem compiles : Compiles sources table sorted models where
  resolve := resolve_of_toOption (by cbv)
  sort := sortDeclarations_of_names [crate.identifier, lid.identifier, pallet.identifier]
    (by decide) (by decide +kernel) (by cbv)
  build := by cbv

end Interchange.Schema.Crate

namespace Interchange.Wire

open Schema

/-- A bag of bytes. -/
def byteBag : ClosedType :=
  .mk 17 [.mk 5 []]

def crate : ClosedType :=
  .mk 17 []

/-- What a bag of bytes and a crate unfold to, and what stands inside them. Both are at the same
place in their projects, and so are a lock and a lid. -/
def emptied : ClosedType → Skeleton
  | .mk 5 _ => .builtin .uint8 []
  | .mk 14 _ => .builtin .array [.builtin .uint8 []]
  | .mk 16 _ => .tag [(0, none), (1, some (.builtin .uint8 []))]
  | .mk _ _ => .message [(1, .builtin .array [.builtin .uint8 []]),
      (2, .tag [(0, none), (1, some (.builtin .uint8 []))])]

theorem byteBag_unfoldsTo : byteBag.UnfoldsTo Luggage.models.definitions (emptied byteBag) := by
  have hByte : (ClosedType.mk 5 []).UnfoldsTo Luggage.models.definitions (emptied (.mk 5 [])) :=
    .builtin emptied rfl (by simp [ClosedType.args])
  have hItems : (ClosedType.mk 14 [.mk 5 []]).UnfoldsTo Luggage.models.definitions
      (emptied (.mk 14 [.mk 5 []])) :=
    .builtin emptied rfl (by simp [ClosedType.args, hByte])
  have hVariants : (ClosedType.mk 16 [.mk 5 []]).shape? Luggage.models.definitions =
      some (.tag [⟨0, "Open", none⟩, ⟨1, "Closed", some (.mk 5 [])⟩]) := rfl
  have hLock : (ClosedType.mk 16 [.mk 5 []]).UnfoldsTo Luggage.models.definitions
      (emptied (.mk 16 [.mk 5 []])) :=
    .tag emptied hVariants (by simp [hByte])
  have hFields : byteBag.shape? Luggage.models.definitions = some (.message
      [⟨1, "items", .mk 14 [.mk 5 []]⟩, ⟨2, "lock", .mk 16 [.mk 5 []]⟩]) := rfl
  exact .message emptied hFields (by simp [hItems, hLock])

theorem crate_unfoldsTo : crate.UnfoldsTo Crate.models.definitions (emptied crate) := by
  have hByte : (ClosedType.mk 5 []).UnfoldsTo Crate.models.definitions (emptied (.mk 5 [])) :=
    .builtin emptied rfl (by simp [ClosedType.args])
  have hContent : (ClosedType.mk 14 [.mk 5 []]).UnfoldsTo Crate.models.definitions
      (emptied (.mk 14 [.mk 5 []])) :=
    .builtin emptied rfl (by simp [ClosedType.args, hByte])
  have hVariants : (ClosedType.mk 16 []).shape? Crate.models.definitions =
      some (.tag [⟨0, "Off", none⟩, ⟨1, "Tight", some (.mk 5 [])⟩]) := rfl
  have hLid : (ClosedType.mk 16 []).UnfoldsTo Crate.models.definitions (emptied (.mk 16 [])) :=
    .tag emptied hVariants (by simp [hByte])
  have hFields : crate.shape? Crate.models.definitions = some (.message
      [⟨1, "content", .mk 14 [.mk 5 []]⟩, ⟨2, "lid", .mk 16 []⟩]) := rfl
  exact .message emptied hFields (by simp [hContent, hLid])

/-- A bag of bytes and a crate are the same on the wire. -/
theorem transfer_crate :
    (byteBag.UnfoldsTo Luggage.models.definitions (emptied crate) ∧
      crate.UnfoldsTo Crate.models.definitions (emptied crate)) ∧
    (∃ default, defaultOf Luggage.models byteBag = .ok default ∧
      defaultOf Crate.models crate = .ok default) ∧
    (∀ value, Agree (toBytes Luggage.models byteBag value) (toBytes Crate.models crate value)) ∧
    ∀ bytes value rest, (decode Luggage.models byteBag).run bytes = (.ok value, rest) ↔
      (decode Crate.models crate).run bytes = (.ok value, rest) := by
  have hByte : (ClosedType.mk 5 []).Proper Luggage.models.definitions := .mk rfl rfl (by simp)
  have hBag : byteBag.Proper Luggage.models.definitions := .mk rfl rfl (by simp [hByte])
  have hCrate : crate.Proper Crate.models.definitions := .mk rfl rfl (by simp)
  obtain ⟨_, hSame⟩ :=
    transfer_transparent (Luggage.compiles.compile {}) (Crate.compiles.compile {})
    hBag hCrate
  exact ⟨⟨byteBag_unfoldsTo, crate_unfoldsTo⟩, hSame _ byteBag_unfoldsTo crate_unfoldsTo⟩

end Interchange.Wire

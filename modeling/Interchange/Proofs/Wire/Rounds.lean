import Interchange.Proofs.Wire.Entries

/-!
# Loops over regions

Items of an array, entries of a map and fields of a message are read in a loop, until their region
is used up. Bytes may come from anywhere, so nothing but the loop itself can see to it that it ends.
In arrays and maps a round that took no byte is an error. In messages there is no such check, and
none is needed: every entry starts with a tag, and a tag has a byte at least.

So a loop has no more rounds than its region has bytes, and what is read from a region has no more
elements than the region has bytes, however the types of elements are nested and even if they take
no bytes at all. This does not hold of defaults, which stand where the bytes leave something out and
are as long as they are.

* `Loop.round`, `Loop.Ends`: a loop as it runs, round by round, which may or may not end.
* `Loop.Lawful`, `Loop.lawful`: loops whose rounds advance come to an end.
* `elements_pieces`: the pieces of a region behind the elements.
* `Metered`: what was read, with the bytes that every part was read from.
* `Metered.of_reads`: what codecs read is metered.
* `decode_metered`: loops end, and what is read is metered.
-/

namespace Interchange.Wire

open Schema (Builtin ModelPart)
open Reading

/-! ## Bytes that a reading takes -/

namespace Reading

variable {α β : Type}

/-- The bytes that a reading took were taken whatever follows them. -/
theorem exists_reads {reading : Reading α} {bytes rest : Bytes} {value : α}
    (hRun : reading.run bytes = (.ok value, rest)) :
    ∃ taken, bytes = taken ++ rest ∧ reading.Reads taken value := by
  induction reading generalizing bytes with
  | done result =>
    cases hRun
    exact ⟨[], rfl, reads_pure value⟩
  | fail error => cases hRun
  | take n next ih =>
    simp only [run, runWith, serveBytes] at hRun
    cases hSplit : split? n bytes with
    | none =>
      rw [hSplit] at hRun
      cases hRun
    | some pair =>
      obtain ⟨block, after⟩ := pair
      rw [hSplit] at hRun
      obtain ⟨taken, rfl, hReads⟩ := ih block hRun
      refine ⟨block.val ++ taken, by rw [split?_eq_some hSplit, List.append_assoc], fun more => ?_⟩
      have hAgain : split? n (block.val ++ (taken ++ more)) = some (block, taken ++ more) :=
        split?_append n block (taken ++ more)
      rw [List.append_assoc]
      simp only [run, runWith, serveBytes, hAgain]
      exact hReads more

/-- Bytes that are taken in two steps. -/
theorem Reads.of_bind {reading : Reading α} {f : α → Reading β} {bytes : Bytes} {b : β}
    (hReads : (reading >>= f).Reads bytes b) :
    ∃ first second a, bytes = first ++ second ∧ reading.Reads first a ∧ (f a).Reads second b := by
  have hRun := hReads []
  rw [List.append_nil, run_bind] at hRun
  split at hRun
  next a after hFirst =>
    obtain ⟨first, rfl, hTaken⟩ := exists_reads hFirst
    exact ⟨first, after, a, rfl, hTaken, .of_run hRun⟩
  next => cases hRun

theorem Reads.of_pure {a b : α} {bytes : Bytes} (hReads : (pure a : Reading α).Reads bytes b) :
    bytes = [] ∧ a = b := by
  have hRun := hReads []
  rw [List.append_nil] at hRun
  cases hRun
  exact ⟨rfl, rfl⟩

theorem not_reads_fail {error : WireError} {bytes : Bytes} {b : β} :
    ¬ (fail error : Reading β).Reads bytes b := by
  intro hReads
  have hRun := hReads []
  cases hRun

theorem Reads.of_ofExcept {result : Except WireError α} {bytes : Bytes} {a : α}
    (hReads : (ofExcept result).Reads bytes a) : bytes = [] ∧ result = .ok a := by
  cases result with
  | error error => exact absurd hReads not_reads_fail
  | ok value =>
    obtain ⟨rfl, rfl⟩ := hReads.of_pure
    exact ⟨rfl, rfl⟩

/-- A reading that takes a byte at least, if it succeeds. -/
def Moves (reading : Reading α) : Prop :=
  ∀ bytes value rest, reading.run bytes = (.ok value, rest) → rest.length < bytes.length

theorem moves_byte : Reading.byte.Moves := by
  intro bytes value rest hRun
  cases bytes with
  | nil => cases hRun
  | cons byte bytes =>
    have hByte : Reading.byte.run (byte :: bytes) = (.ok byte, bytes) := reads_byte byte bytes
    cases hByte.symm.trans hRun
    exact Nat.lt_succ_self _

theorem Moves.bind {reading : Reading α} (hMoves : reading.Moves) (f : α → Reading β) :
    (reading >>= f).Moves := by
  intro bytes value rest hRun
  rw [run_bind] at hRun
  split at hRun
  next a after hFirst =>
    have hRest := run_length_le (f a) after
    rw [hRun] at hRest
    exact Nat.lt_of_le_of_lt hRest (hMoves bytes a after hFirst)
  next => cases hRun

end Reading

theorem Varint.moves_read : Varint.read.Moves :=
  moves_byte.bind _

/-- The tag of an entry has a byte at least. -/
theorem Codec.moves_fieldEntry (name : String)
    (readers : List (ModelPart (Layout × Reading Value))) :
    (Codec.fieldEntry name readers).Moves :=
  Varint.moves_read.bind _

/-! ## Loops -/

theorem Region.hasMore_of_rest {region : Region} (hSome : ¬ region.rest.isEmpty = true) :
    region.hasMore = true := by
  simpa [hasMore] using hSome

/-- A loop over a region: what each round reads, and whether a round has to take a byte. -/
structure Loop (α : Type) where
  item : Reading α
  checked : Bool

namespace Loop

/-- The loop of an array. -/
def items (element : Codec) : Loop Value :=
  ⟨element.decode, true⟩

/-- The loop of a map. -/
def entries (keys values : Codec) : Loop (Value × Value) :=
  ⟨Codec.entry keys.decode values.decode, true⟩

/-- The loop of a message. -/
def fields (name : String) (parts : List (ModelPart Codec)) : Loop (Option (UInt32 × Value)) :=
  ⟨Codec.fieldEntry name (Codec.fieldReaders parts), false⟩

variable {α : Type}

/-- One round. -/
def round (loop : Loop α) (region : Region) : Except WireError (α × Region) :=
  match loop.item.runWith id Region.serve region with
  | (.error error, _) => .error error
  | (.ok value, after) =>
    if loop.checked && after.position == region.position then .error (.emptyElement after.remaining)
    else .ok (value, after)

/-- The loop comes to an end on a region, after some rounds and with a result. Nothing here says
that a round takes a byte, so a loop need not come to an end. -/
inductive Ends (loop : Loop α) : Region → Nat → Except WireError (List α) → Prop
  | finished {region : Region} (hMore : region.hasMore = false) : Ends loop region 0 (.ok [])
  | failed {region : Region} {error : WireError} (hMore : region.hasMore = true)
      (hRound : loop.round region = .error error) : Ends loop region 1 (.error error)
  | again {region after : Region} {value : α} {rounds : Nat} {result : Except WireError (List α)}
      (hMore : region.hasMore = true) (hRound : loop.round region = .ok (value, after))
      (hRest : Ends loop after rounds result) :
      Ends loop region (rounds + 1) (result.map (value :: ·))

/-- A round fails or advances, and the loop comes to an end. It has no more rounds than its region
has bytes, and its result is what `elements` gives. -/
structure Lawful (loop : Loop α) : Prop where
  advances : ∀ region value after, loop.round region = .ok (value, after) →
    region.position < after.position
  ends : ∀ region, ∃ rounds, loop.Ends region rounds (elements loop.item region.rest)
  bounded : ∀ region rounds result, loop.Ends region rounds result →
    rounds ≤ region.remaining ∧ result = elements loop.item region.rest

/-- A round that goes on, by the bytes that are left. -/
theorem round_eq_ok {loop : Loop α} {region after : Region} {value : α} :
    loop.round region = .ok (value, after) ↔ ∃ rest, loop.item.run region.rest = (.ok value, rest) ∧
      (loop.checked = true → rest.length < region.rest.length) ∧
        after = ⟨region.position + (region.rest.length - rest.length), rest⟩ := by
  have hLe := run_length_le loop.item region.rest
  rw [round, runWith_region]
  rcases hRun : loop.item.run region.rest with ⟨result, rest⟩
  rw [hRun] at hLe
  have hLe : rest.length ≤ region.rest.length := hLe
  cases result with
  | error error => simp
  | ok other =>
    simp only [Bool.and_eq_true, beq_iff_eq, Nat.add_eq_left]
    split
    next hStuck =>
      refine ⟨(by intro hError; cases hError), ?_⟩
      rintro ⟨_, hSame, hLess, _⟩
      cases hSame
      have := hLess hStuck.1
      omega
    next hGoes =>
      constructor
      · intro hOk
        cases hOk
        exact ⟨rest, rfl, fun hChecked => by have := not_and.1 hGoes hChecked; omega, rfl⟩
      · rintro ⟨_, hSame, _, rfl⟩
        cases hSame
        rfl

/-- A round that fails because its reading does. -/
theorem round_eq_error {loop : Loop α} {region : Region} {error : WireError} {rest : Bytes}
    (hRun : loop.item.run region.rest = (.error error, rest)) :
    loop.round region = .error error := by
  rw [round, runWith_region, hRun]

/-- A round that fails because it took no byte. -/
theorem round_eq_emptyElement {loop : Loop α} {region : Region} {value : α} {rest : Bytes}
    (hChecked : loop.checked = true) (hRun : loop.item.run region.rest = (.ok value, rest))
    (hLength : rest.length = region.rest.length) :
    loop.round region = .error (.emptyElement rest.length) := by
  rw [round, runWith_region, hRun]
  simp [hChecked, hLength, Region.remaining]

/-- Rounds advance, because they are checked or because the reading takes a byte at least. -/
theorem round_advances {loop : Loop α} (hLoop : loop.checked = true ∨ loop.item.Moves)
    {region after : Region} {value : α} (hRound : loop.round region = .ok (value, after)) :
    after.rest.length < region.rest.length ∧ region.position < after.position := by
  obtain ⟨rest, hRun, hChecked, rfl⟩ := round_eq_ok.1 hRound
  have hLess : rest.length < region.rest.length :=
    hLoop.elim hChecked fun hMoves => hMoves _ _ _ hRun
  exact ⟨hLess, by dsimp only; omega⟩

theorem exists_ends {loop : Loop α} (hLoop : loop.checked = true ∨ loop.item.Moves)
    (region : Region) :
    ∃ rounds, loop.Ends region rounds (elements loop.item region.rest) := by
  obtain ⟨position, bytes⟩ := region
  show ∃ rounds, loop.Ends ⟨position, bytes⟩ rounds (elements loop.item bytes)
  -- The induction is the one of `elements`; the position only counts along.
  fun_induction elements loop.item bytes generalizing position with
  | case1 bytes hEmpty => exact ⟨0, .finished (by simp [Region.hasMore, hEmpty])⟩
  | case2 bytes hSome error rest hRun =>
    exact ⟨1, .failed (Region.hasMore_of_rest hSome) (round_eq_error hRun)⟩
  | case3 bytes hSome value rest hRun hLess outcome hRest ih
  | case4 bytes hSome value rest hRun hLess outcome hRest ih =>
    obtain ⟨rounds, hEnds⟩ := ih (position + (bytes.length - rest.length))
    rw [hRest] at hEnds
    have hRound : loop.round ⟨position, bytes⟩ =
        .ok (value, ⟨position + (bytes.length - rest.length), rest⟩) :=
      round_eq_ok.2 ⟨rest, hRun, fun _ => hLess, rfl⟩
    have hAll := Ends.again (Region.hasMore_of_rest hSome) hRound hEnds
    exact ⟨rounds + 1, hAll⟩
  | case5 bytes hSome value rest hRun hMore =>
    -- Only a checked round can get here.
    have hLe := run_length_le loop.item bytes
    rw [hRun] at hLe
    rcases hLoop with hChecked | hMoves
    · exact ⟨1, .failed (Region.hasMore_of_rest hSome)
        (round_eq_emptyElement hChecked hRun (Nat.le_antisymm hLe (Nat.le_of_not_lt hMore)))⟩
    · exact absurd (hMoves bytes value rest hRun) hMore

/-- A loop ends in one way. -/
theorem Ends.unique {loop : Loop α} {region : Region} {rounds others : Nat}
    {result other : Except WireError (List α)} (hEnds : loop.Ends region rounds result)
    (hOther : loop.Ends region others other) : result = other := by
  induction hEnds generalizing others other with
  | finished hMore =>
    cases hOther with
    | finished => rfl
    | failed hSome => cases hMore.symm.trans hSome
    | again hSome => cases hMore.symm.trans hSome
  | failed hMore hRound =>
    cases hOther with
    | finished hNone => cases hNone.symm.trans hMore
    | failed _ hAgain =>
      cases hRound.symm.trans hAgain
      rfl
    | again _ hAgain => cases hRound.symm.trans hAgain
  | again hMore hRound _ ih =>
    cases hOther with
    | finished hNone => cases hNone.symm.trans hMore
    | failed _ hAgain => cases hRound.symm.trans hAgain
    | again _ hAgain hRest =>
      cases hRound.symm.trans hAgain
      rw [ih hRest]

/-- Every round takes a byte. -/
theorem Ends.rounds_le {loop : Loop α} (hLoop : loop.checked = true ∨ loop.item.Moves)
    {region : Region} {rounds : Nat} {result : Except WireError (List α)}
    (hEnds : loop.Ends region rounds result) :
    rounds ≤ region.remaining := by
  induction hEnds with
  | finished hMore => exact Nat.zero_le _
  | @failed region error hMore hRound =>
    have hSome : region.rest ≠ [] := by simpa [Region.hasMore] using hMore
    exact List.length_pos_iff.2 hSome
  | again hMore hRound _ ih =>
    have hLess := (round_advances hLoop hRound).1
    rw [Region.remaining] at ih ⊢
    omega

theorem lawful {loop : Loop α} (hLoop : loop.checked = true ∨ loop.item.Moves) : loop.Lawful where
  advances _ _ _ hRound := (round_advances hLoop hRound).2
  ends := exists_ends hLoop
  bounded region _ _ hEnds := by
    obtain ⟨_, hElements⟩ := exists_ends hLoop region
    exact ⟨hEnds.rounds_le hLoop, hEnds.unique hElements⟩

end Loop

/-! ## Pieces of a region -/

/-- What a loop reads comes from pieces of its region, one after the other, none of them empty.
`hItem` says what is known of a piece. -/
theorem elements_pieces {α π : Type} {item : Reading α} {bytesOf : π → Bytes} {valueOf : π → α}
    {P : π → Prop} (hItem : ∀ chunk value, item.Reads chunk value →
      ∃ piece, bytesOf piece = chunk ∧ valueOf piece = value ∧ P piece)
    {region : Bytes} {values : List α} (hElements : elements item region = .ok values) :
    ∃ pieces : List π, region = pieces.flatMap bytesOf ∧ values = pieces.map valueOf ∧
      (∀ piece ∈ pieces, P piece) ∧ values.length ≤ region.length := by
  fun_induction elements item region generalizing values with
  | case1 region hEmpty =>
    cases hElements
    exact ⟨[], by simpa using hEmpty, rfl, List.forall_mem_nil _, Nat.zero_le _⟩
  | case2 region hSome error rest hRun => cases hElements
  | case3 region hSome value rest hRun hLess others hRest ih =>
    cases hElements
    obtain ⟨pieces, hRegion, hValues, hPieces, hCount⟩ := ih hRest
    obtain ⟨chunk, hChunk, hReads⟩ := exists_reads hRun
    obtain ⟨piece, hBytes, hValue, hPiece⟩ := hItem chunk value hReads
    refine ⟨piece :: pieces, ?_, ?_, List.forall_mem_cons.2 ⟨hPiece, hPieces⟩, ?_⟩
    · rw [List.flatMap_cons, hBytes, ← hRegion, ← hChunk]
    · rw [List.map_cons, hValue, ← hValues]
    · exact Nat.lt_of_le_of_lt hCount hLess
  | case4 region hSome value rest hRun hLess error hRest => cases hElements
  | case5 region hSome value rest hRun hLess => cases hElements

/-- An entry of a message with the bytes that it was read from. -/
inductive FieldPiece where
  /-- A field that the message declares: its tag, what stands behind the tag, and what was read from
  it. -/
  | known (tag content : Bytes) (part : ModelPart Codec) (value : Value)
  /-- An entry that was skipped. -/
  | skipped (bytes : Bytes)

namespace FieldPiece

def bytes : FieldPiece → Bytes
  | known tag content _ _ => tag ++ content
  | skipped bytes => bytes

def field? : FieldPiece → Option (UInt32 × Value)
  | known _ _ part value => some (part.number, value)
  | skipped _ => none

end FieldPiece

/-! ## What was read -/

/-- The value that a codec reads from some bytes, and where its parts come from. Composite values
are read from a region. The items of an array, the entries of a map and the fields of a message are
read from pieces of that region, one after the other, and an array and a map have at most as many
elements as their region has bytes. A message holds what its default holds, apart from the fields
that were read. A tag is its default, or a variant whose payload was read from what stands behind
its number or is the default of the payload. -/
inductive Metered : Codec → Bytes → Value → Prop
  | scalar {kind : Builtin} {default : Value} {taken : Bytes} {scalar : Scalar}
      (hRead : (Scalar.read kind).Reads taken scalar) :
      Metered (.scalar kind default) taken (.scalar scalar)
  | string {default : Value} {taken region : Bytes} {text : String}
      (hRegion : Reading.region.Reads taken region) (hText : utf8? region = some text) :
      Metered (.string default) taken (.string text)
  | bytes {default : Value} {taken region : Bytes} (hRegion : Reading.region.Reads taken region) :
      Metered (.bytes default) taken (.bytes region)
  | array {element : Codec} {default : Value} {taken region : Bytes} {pieces : List (Bytes × Value)}
      (hRegion : Reading.region.Reads taken region) (hPieces : region = pieces.flatMap Prod.fst)
      (hItems : ∀ piece ∈ pieces, Metered element piece.1 piece.2)
      (hCount : (pieces.map Prod.snd).length ≤ region.length) :
      Metered (.array element default) taken (.array (pieces.map Prod.snd))
  | map {keys values : Codec} {default : Value} {taken region : Bytes}
      {pieces : List ((Bytes × Value) × (Bytes × Value))}
      (hRegion : Reading.region.Reads taken region)
      (hPieces : region = pieces.flatMap fun piece => piece.1.1 ++ piece.2.1)
      (hKeys : ∀ piece ∈ pieces, Metered keys piece.1.1 piece.1.2)
      (hValues : ∀ piece ∈ pieces, Metered values piece.2.1 piece.2.2)
      (hCount : (pieces.map fun piece => (piece.1.2, piece.2.2)).length ≤ region.length) :
      Metered (.map keys values default) taken
        (.map (pieces.map fun piece => (piece.1.2, piece.2.2)))
  | record {name : String} {parts : List (ModelPart Codec)} {fields : List (UInt32 × Value)}
      {taken region : Bytes} {pieces : List FieldPiece}
      (hRegion : Reading.region.Reads taken region)
      (hPieces : region = pieces.flatMap FieldPiece.bytes)
      (hParts : ∀ tag content part value, .known tag content part value ∈ pieces → part ∈ parts)
      (hFields : ∀ tag content part value, .known tag content part value ∈ pieces →
        Metered part.content content value) :
      Metered (.record name parts (.message fields)) taken
        (.message (Fields.setAll fields (pieces.filterMap FieldPiece.field?)))
  | unionDefault {name : String} {variants : List (ModelPart (Option Codec))} {default : Value}
      {taken region : Bytes} (hRegion : Reading.region.Reads taken region)
      (hDefault : region = [] ∨ (Varint.read.run region).1 = .ok 0 ∧
        ∀ part ∈ variants, part.number ≠ 0) :
      Metered (.union name variants default) taken default
  | bare {name : String} {variants : List (ModelPart (Option Codec))} {default : Value}
      {taken region number rest : Bytes} {part : ModelPart (Option Codec)}
      (hRegion : Reading.region.Reads taken region) (hBytes : region = number ++ rest)
      (hNumber : Varint.read.Reads number part.number.toNat) (hPart : part ∈ variants)
      (hPayload : part.content = none) :
      Metered (.union name variants default) taken (.tag part.number none)
  | missing {name : String} {variants : List (ModelPart (Option Codec))} {default : Value}
      {taken region : Bytes} {part : ModelPart (Option Codec)} {codec : Codec}
      (hRegion : Reading.region.Reads taken region)
      (hNumber : Varint.read.Reads region part.number.toNat) (hPart : part ∈ variants)
      (hPayload : part.content = some codec) :
      Metered (.union name variants default) taken (.tag part.number (some codec.default))
  | payload {name : String} {variants : List (ModelPart (Option Codec))} {default : Value}
      {taken region number content rest : Bytes} {part : ModelPart (Option Codec)} {codec : Codec}
      {value : Value} (hRegion : Reading.region.Reads taken region)
      (hBytes : region = number ++ content ++ rest)
      (hNumber : Varint.read.Reads number part.number.toNat) (hPart : part ∈ variants)
      (hPayload : part.content = some codec) (hValue : Metered codec content value) :
      Metered (.union name variants default) taken (.tag part.number (some value))

namespace Codec

/-- An entry of a map takes a key and then a value. -/
theorem exists_entryPiece {keys values : Reading Value} {chunk : Bytes} {entry : Value × Value}
    (hReads : (Codec.entry keys values).Reads chunk entry) :
    ∃ piece : (Bytes × Value) × (Bytes × Value), piece.1.1 ++ piece.2.1 = chunk ∧
      (piece.1.2, piece.2.2) = entry ∧
        (keys.Reads piece.1.1 piece.1.2 ∧ values.Reads piece.2.1 piece.2.2) := by
  obtain ⟨first, _, key, rfl, hKey, hReads⟩ := hReads.of_bind
  obtain ⟨second, _, value, rfl, hValue, hReads⟩ := hReads.of_bind
  obtain ⟨rfl, rfl⟩ := hReads.of_pure
  exact ⟨((first, key), (second, value)), by rw [List.append_nil], rfl, hKey, hValue⟩

/-- An entry of a message takes a tag, and then the value of a field or what is skipped. -/
theorem exists_fieldPiece {name : String} {parts : List (ModelPart Codec)} {chunk : Bytes}
    {found : Option (UInt32 × Value)}
    (hReads : (fieldEntry name (fieldReaders parts)).Reads chunk found) :
    ∃ piece : FieldPiece, piece.bytes = chunk ∧ piece.field? = found ∧
      ∀ tag content part value, piece = .known tag content part value →
        part ∈ parts ∧ part.content.decode.Reads content value := by
  obtain ⟨tag, _, number, rfl, _, hBehind⟩ := hReads.of_bind
  obtain ⟨_, content, ⟨id, layout⟩, rfl, hSplit, hContent⟩ := hBehind.of_bind
  obtain ⟨rfl, _⟩ := hSplit.of_ofExcept
  rw [fieldReaders_eq_map] at hContent
  dsimp only at hContent
  split at hContent
  next =>
    obtain ⟨_, _, _, _, _, hNone⟩ := hContent.of_bind
    obtain ⟨_, rfl⟩ := hNone.of_pure
    exact ⟨.skipped _, rfl, rfl, by intro _ _ _ _ hKnown; cases hKnown⟩
  next declared label expected reading hFind =>
    obtain ⟨part, hPart, hReader⟩ := List.mem_map.1 (List.mem_of_find?_eq_some hFind)
    cases hReader
    split at hContent
    · obtain ⟨body, _, value, rfl, hValue, hSome⟩ := hContent.of_bind
      obtain ⟨rfl, rfl⟩ := hSome.of_pure
      refine ⟨.known tag body part value, by simp [FieldPiece.bytes], rfl, ?_⟩
      rintro _ _ _ _ ⟨⟩
      exact ⟨hPart, hValue⟩
    · exact absurd hContent not_reads_fail

/-- A tag that was read from a region, if payloads of its variants are metered. -/
theorem tagOf_metered {name : String} {variants : List (ModelPart (Option Codec))}
    {default value : Value} {taken region : Bytes} (hRegion : Reading.region.Reads taken region)
    (hVariants : ∀ part ∈ variants, ∀ codec, part.content = some codec → ∀ content value,
      codec.decode.Reads content value → Metered codec content value)
    (hTag : tagOf name default (variantReaders variants) region = .ok value) :
    Metered (.union name variants default) taken value := by
  rw [tagOf, variantReaders_eq_map] at hTag
  split at hTag
  next hEmpty =>
    cases hTag
    exact .unionDefault hRegion (Or.inl (List.isEmpty_iff.1 hEmpty))
  next =>
    split at hTag
    next => cases hTag
    next number rest hRead =>
      obtain ⟨head, rfl, hNumber⟩ := exists_reads hRead
      split at hTag
      next hNone =>
        split at hTag
        next hZero =>
          cases hTag
          subst hZero
          refine .unionDefault hRegion (Or.inr ⟨by rw [hRead], fun part hPart hNumber => ?_⟩)
          have hOther := List.find?_eq_none.1 hNone _ (List.mem_map_of_mem hPart)
          simp [ModelPart.map, hNumber] at hOther
        next => cases hTag
      next declared label hFind =>
        obtain ⟨⟨_, _, content⟩, hPart, hReader⟩ := List.mem_map.1 (List.mem_of_find?_eq_some hFind)
        have hSame := List.find?_some hFind
        cases content with
        | some codec => cases hReader
        | none =>
          cases hReader
          cases hTag
          obtain rfl : _ = number := by simpa using hSame
          exact .bare hRegion rfl hNumber hPart rfl
      next declared label missing reading hFind =>
        obtain ⟨⟨_, _, content⟩, hPart, hReader⟩ := List.mem_map.1 (List.mem_of_find?_eq_some hFind)
        have hSame := List.find?_some hFind
        cases content with
        | none => cases hReader
        | some codec =>
          cases hReader
          obtain rfl : _ = number := by simpa using hSame
          obtain ⟨payload, hPayload, hValue⟩ := bind_eq_ok.1 hTag
          cases hValue
          rw [payloadOf] at hPayload
          split at hPayload
          next hEmpty =>
            cases hPayload
            obtain rfl := List.isEmpty_iff.1 hEmpty
            rw [List.append_nil] at hRegion
            exact .missing hRegion hNumber hPart rfl
          next =>
            obtain ⟨after, hRun⟩ : ∃ after, codec.decode.run rest = (.ok payload, after) :=
              ⟨_, Prod.ext hPayload rfl⟩
            obtain ⟨content, rfl, hReads⟩ := exists_reads hRun
            exact .payload hRegion (List.append_assoc _ _ _).symm hNumber hPart rfl
              (hVariants _ hPart codec rfl _ _ hReads)

end Codec

mutual

/-- What a codec reads is metered. -/
theorem Metered.of_reads : (codec : Codec) → ∀ {taken : Bytes} {value : Value},
    codec.decode.Reads taken value → Metered codec taken value
  | .scalar kind default, taken, value, hReads => by
    obtain ⟨first, _, scalar, rfl, hScalar, hValue⟩ := hReads.of_bind
    obtain ⟨rfl, rfl⟩ := hValue.of_pure
    rw [List.append_nil]
    exact .scalar hScalar
  | .string default, taken, value, hReads => by
    obtain ⟨first, _, region, rfl, hRegion, hValue⟩ := hReads.of_bind
    split at hValue
    next text hText =>
      obtain ⟨rfl, rfl⟩ := hValue.of_pure
      rw [List.append_nil]
      exact .string hRegion hText
    next => exact absurd hValue not_reads_fail
  | .bytes default, taken, value, hReads => by
    obtain ⟨first, _, region, rfl, hRegion, hValue⟩ := hReads.of_bind
    obtain ⟨rfl, rfl⟩ := hValue.of_pure
    rw [List.append_nil]
    exact .bytes hRegion
  | .array element default, taken, value, hReads => by
    obtain ⟨first, _, region, rfl, hRegion, hLoop⟩ := hReads.of_bind
    obtain ⟨_, _, items, rfl, hItems, hValue⟩ := hLoop.of_bind
    obtain ⟨rfl, hElements⟩ := hItems.of_ofExcept
    obtain ⟨rfl, rfl⟩ := hValue.of_pure
    have hPiece : ∀ chunk value, element.decode.Reads chunk value → ∃ piece : Bytes × Value,
        piece.1 = chunk ∧ piece.2 = value ∧ Metered element piece.1 piece.2 :=
      fun chunk value hReads => ⟨(chunk, value), rfl, rfl, Metered.of_reads element hReads⟩
    obtain ⟨pieces, hPieces, rfl, hMetered, hCount⟩ := elements_pieces hPiece hElements
    rw [List.append_nil, List.append_nil]
    exact .array hRegion hPieces hMetered hCount
  | .map keys values default, taken, value, hReads => by
    obtain ⟨first, _, region, rfl, hRegion, hLoop⟩ := hReads.of_bind
    obtain ⟨_, _, entries, rfl, hEntries, hValue⟩ := hLoop.of_bind
    obtain ⟨rfl, hElements⟩ := hEntries.of_ofExcept
    obtain ⟨rfl, rfl⟩ := hValue.of_pure
    obtain ⟨pieces, hPieces, rfl, hMetered, hCount⟩ :=
      elements_pieces (fun _ _ => Codec.exists_entryPiece) hElements
    rw [List.append_nil, List.append_nil]
    exact .map hRegion hPieces (fun piece hMem => Metered.of_reads keys (hMetered piece hMem).1)
      (fun piece hMem => Metered.of_reads values (hMetered piece hMem).2) hCount
  | .record name parts default, taken, value, hReads => by
    obtain ⟨first, _, region, rfl, hRegion, hLoop⟩ := hReads.of_bind
    obtain ⟨rfl, hMessage⟩ := hLoop.of_ofExcept
    unfold Codec.messageOf at hMessage
    split at hMessage
    next fields =>
      obtain ⟨found, hElements, hValue⟩ := bind_eq_ok.1 hMessage
      cases hValue
      obtain ⟨pieces, hPieces, rfl, hKnown, _⟩ :=
        elements_pieces (fun _ _ => Codec.exists_fieldPiece) hElements
      rw [List.append_nil, List.filterMap_map]
      exact .record hRegion hPieces (fun _ _ _ _ hMem => (hKnown _ hMem _ _ _ _ rfl).1)
        fun _ _ part _ hMem =>
          let hPart := hKnown _ hMem _ _ _ _ rfl
          Metered.of_field parts part hPart.1 hPart.2
    next => cases hMessage
  | .union name variants default, taken, value, hReads => by
    obtain ⟨first, _, region, rfl, hRegion, hContent⟩ := hReads.of_bind
    obtain ⟨rfl, hTag⟩ := hContent.of_ofExcept
    rw [List.append_nil]
    exact Codec.tagOf_metered hRegion
      (fun part hPart codec hCodec _ _ => Metered.of_payload variants part hPart codec hCodec) hTag

theorem Metered.of_field : (parts : List (ModelPart Codec)) → ∀ part ∈ parts, ∀ {taken : Bytes}
    {value : Value}, part.content.decode.Reads taken value → Metered part.content taken value
  | ⟨_, _, codec⟩ :: rest, part, hPart, taken, value, hReads => by
    rcases List.mem_cons.1 hPart with rfl | hPart
    · exact Metered.of_reads codec hReads
    · exact Metered.of_field rest part hPart hReads

theorem Metered.of_payload : (variants : List (ModelPart (Option Codec))) → ∀ part ∈ variants,
    ∀ codec, part.content = some codec → ∀ {taken : Bytes} {value : Value},
      codec.decode.Reads taken value → Metered codec taken value
  | ⟨_, _, none⟩ :: rest, part, hPart, codec, hCodec, taken, value, hReads => by
    rcases List.mem_cons.1 hPart with rfl | hPart
    · cases hCodec
    · exact Metered.of_payload rest part hPart codec hCodec hReads
  | ⟨_, _, some inner⟩ :: rest, part, hPart, codec, hCodec, taken, value, hReads => by
    rcases List.mem_cons.1 hPart with rfl | hPart
    · cases hCodec
      exact Metered.of_reads inner hReads
    · exact Metered.of_payload rest part hPart codec hCodec hReads

end

/-- Whatever the bytes are and whatever the codecs, the loops of arrays, maps and messages advance
in every round that does not fail and come to an end. In what is read, an array and a map have at
most as many elements as their region has bytes, unless they come from a default. -/
theorem decode_metered :
    (∀ element, (Loop.items element).Lawful) ∧ (∀ keys values, (Loop.entries keys values).Lawful) ∧
      (∀ name parts, (Loop.fields name parts).Lawful) ∧
        ∀ codec bytes value rest, codec.decode.run bytes = (.ok value, rest) →
          ∃ taken, bytes = taken ++ rest ∧ Metered codec taken value := by
  refine ⟨fun element => Loop.lawful (Or.inl rfl), fun keys values => Loop.lawful (Or.inl rfl),
    fun name parts => Loop.lawful (Or.inr (Codec.moves_fieldEntry name _)), ?_⟩
  intro codec bytes value rest hRun
  obtain ⟨taken, hBytes, hReads⟩ := exists_reads hRun
  exact ⟨taken, hBytes, Metered.of_reads codec hReads⟩

/-- Arrays that hold nothing but `void`. -/
def hollow : Codec :=
  .array (.scalar .void (.scalar .void)) (.array [])

/-- Maps whose keys take no bytes. -/
def keyless : Codec :=
  .map (.scalar .void (.scalar .void)) hollow (.map [])

/-- Two entries in a region of two bytes, and a byte behind it. A hollow array cannot be filled: its
first round takes no byte, and the loop ends. -/
theorem decode_keyless :
    keyless.decode.run [0x82, 0x80, 0x80, 0xff] =
        (.ok (.map [(.scalar .void, .array []), (.scalar .void, .array [])]), [0xff]) ∧
      Metered keyless [0x82, 0x80, 0x80]
        (.map [(.scalar .void, .array []), (.scalar .void, .array [])]) ∧
        ∃ rounds ≤ 1, (Loop.items (.scalar .void (.scalar .void))).Ends (.ofBytes [0x00]) rounds
          (.error (.emptyElement 1)) := by
  have hRun : keyless.decode.run [0x82, 0x80, 0x80, 0xff] =
      (.ok (.map [(.scalar .void, .array []), (.scalar .void, .array [])]), [0xff]) := by cbv
  have hElements : elements (Codec.scalar .void (.scalar .void)).decode [0x00] =
      .error (.emptyElement 1) := by cbv
  obtain ⟨taken, hBytes, hMetered⟩ := decode_metered.2.2.2 _ _ _ _ hRun
  have hBytes : [0x82, 0x80, 0x80] ++ [0xff] = taken ++ [0xff] := hBytes
  obtain rfl := List.append_cancel_right hBytes
  have hLawful := decode_metered.1 (.scalar .void (.scalar .void))
  obtain ⟨rounds, hEnds⟩ := hLawful.ends (.ofBytes [0x00])
  refine ⟨hRun, hMetered, rounds, (hLawful.bounded _ _ _ hEnds).1, ?_⟩
  rw [← hElements]
  exact hEnds

end Interchange.Wire

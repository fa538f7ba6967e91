import Interchange.Proofs.Result
import Interchange.Proofs.Wire.Fields
import Interchange.Proofs.Wire.Reads
import Interchange.Wire.TypeCodec

/-!
# Codecs that carry values

Two codecs carry a value if the first one writes it and the second one reads something from the
bytes. What is read may differ from what was written, because parts that were missing come back as
defaults. Codecs carry the values that are put together from values that their parts carry. Where
both codecs are the same, this is the way of a value there and back.

* `Codec.Carries`: a value is written, and a result is read.
* `carries_array`, `carries_map`: items and entries.
* `carries_message`: fields, of which the reader may know fewer or more.
* `carries_bare`, `carries_payload`: tags.
-/

namespace Interchange.Wire

open Schema (Builtin ModelPart)
open Reading

/-! ## Bytes of writings -/

namespace Writing

theorem toBytes_piece (bytes : Bytes) : (piece bytes).toBytes = .ok bytes := by
  simp [piece, toBytes]

theorem toBytes_andThen {first second : Writing} {before after : Bytes}
    (hFirst : first.toBytes = .ok before) (hSecond : second.toBytes = .ok after) :
    (first.andThen second).toBytes = .ok (before ++ after) := by
  induction first generalizing before with
  | done =>
    cases hFirst
    exact hSecond
  | fail error => cases hFirst
  | put bytes next ih =>
    rw [toBytes] at hFirst
    split at hFirst
    next rest hNext =>
      cases hFirst
      rw [andThen, toBytes, ih hNext, List.append_assoc]
    next => cases hFirst

end Writing

namespace Codec

theorem toBytes_framed {content : Writing} {bytes : Bytes}
    (hContent : content.toBytes = .ok bytes) :
    (framed content).toBytes = .ok (lengthPrefixed bytes) := by
  rw [framed, hContent]
  simp [Writing.toBytes, Writing.piece, lengthPrefixed]

theorem toBytes_empty : empty.toBytes = .ok (lengthPrefixed []) := by
  rw [empty, Writing.toBytes_piece, lengthPrefixed, List.append_nil]
  rfl

/-! ## Carrying values -/

/-- One codec writes a value as some bytes, and the other reads a result from them. What takes no
bytes is `void`; all else can be skipped. -/
structure Carries (writer reader : Codec) (value result : Value) (bytes : Bytes) : Prop where
  layout : reader.layout = writer.layout
  written : (writer.encode value).toBytes = .ok bytes
  void : bytes = [] → value = .scalar .void ∧ result = reader.default
  reads : bytes.length < 2 ^ 64 → reader.decode.Reads bytes result
  skips : bytes ≠ [] → bytes.length < 2 ^ 64 → writer.layout.skip.Reads bytes ()

theorem length_lt_of_lengthPrefixed {bytes : Bytes}
    (hLength : (lengthPrefixed bytes).length < 2 ^ 64) :
    bytes.length < 2 ^ 64 := by
  rw [lengthPrefixed, List.length_append] at hLength
  omega

theorem lengthPrefixed_ne_nil (bytes : Bytes) : lengthPrefixed bytes ≠ [] := by
  simp [lengthPrefixed, Varint.encode_ne_nil]

/-- A value that is written behind its length. -/
theorem carries_region {writer reader : Codec} {value result : Value} (region : Bytes)
    (hWriter : writer.layout = .lengthPrefixed) (hReader : reader.layout = .lengthPrefixed)
    (hWritten : (writer.encode value).toBytes = .ok (lengthPrefixed region))
    (hReads : region.length < 2 ^ 64 → reader.decode.Reads (lengthPrefixed region) result) :
    writer.Carries reader value result (lengthPrefixed region) where
  layout := hReader.trans hWriter.symm
  written := hWritten
  void hEmpty := absurd hEmpty (lengthPrefixed_ne_nil region)
  reads hLength := hReads (length_lt_of_lengthPrefixed hLength)
  skips _ hLength := by
    rw [hWriter]
    exact (reads_region (length_lt_of_lengthPrefixed hLength)).map fun _ => ()

theorem toBytes_write (scalar : Scalar) : scalar.write.toBytes = .ok scalar.encode := by
  cases scalar with
  | void => rfl
  | _ => exact Writing.toBytes_piece _

/-- A scalar other than `void` is skipped by its layout. -/
theorem skips_scalar {scalar : Scalar} (hKind : scalar.kind ≠ .void) :
    (Layout.ofBuiltin scalar.kind).skip.Reads scalar.encode () := by
  have hVarint : ∀ value < 2 ^ 64, Layout.varint.skip.Reads (Varint.encode value) () :=
    fun value hValue => (Varint.reads_encode hValue).map fun _ => ()
  cases scalar with
  | bool value => exact hVarint _ (by cases value <;> decide)
  | int8 value =>
    have hLow := value.le_toInt
    have hHigh := value.toInt_lt
    exact hVarint _ (Zigzag.encode_lt (by omega) (by omega))
  | int16 value =>
    have hLow := value.le_toInt
    have hHigh := value.toInt_lt
    exact hVarint _ (Zigzag.encode_lt (by omega) (by omega))
  | int32 value =>
    have hLow := value.le_toInt
    have hHigh := value.toInt_lt
    exact hVarint _ (Zigzag.encode_lt (by omega) (by omega))
  | int64 value => exact hVarint _ (Zigzag.encode_lt value.le_toInt value.toInt_lt)
  | uint8 value => exact hVarint _ (Nat.lt_trans value.toNat_lt (by decide))
  | uint16 value => exact hVarint _ (Nat.lt_trans value.toNat_lt (by decide))
  | uint32 value => exact hVarint _ (Nat.lt_trans value.toNat_lt (by decide))
  | uint64 value => exact hVarint _ value.toNat_lt
  | float32 bits => exact (reads_block (leBlock 4 bits.toNat)).map fun _ => ()
  | float64 bits => exact (reads_block (leBlock 8 bits.toNat)).map fun _ => ()
  | uuid bytes => exact (reads_block bytes).map fun _ => ()
  | void => exact absurd rfl hKind

theorem carries_scalar (scalar : Scalar) (default : Value) :
    (Codec.scalar scalar.kind default).Carries
      (.scalar scalar.kind (.scalar (Scalar.zero scalar.kind))) (.scalar scalar) (.scalar scalar)
      scalar.encode where
  layout := rfl
  written := by
    rw [encode, if_pos rfl]
    exact toBytes_write scalar
  void hEmpty := by
    cases scalar with
    | void => exact ⟨rfl, rfl⟩
    | _ => exact absurd hEmpty (Scalar.encode_ne_nil (by simp [Scalar.kind]))
  reads _ := (Scalar.reads_encode scalar).map Value.scalar
  skips hSome _ := by
    refine skips_scalar ?_
    intro hKind
    cases scalar with
    | void => exact hSome rfl
    | _ => cases hKind

theorem carries_string (text : String) (default other : Value) :
    (Codec.string default).Carries (.string other) (.string text) (.string text)
      (lengthPrefixed (utf8 text)) := by
  refine carries_region _ rfl rfl ?_ ?_
  · exact toBytes_framed (Writing.toBytes_piece _)
  · intro hLength
    refine (reads_region hLength).bind_nil ?_
    rw [utf8?_utf8]
    exact reads_pure _

theorem carries_bytes (bytes : Bytes) (default other : Value) :
    (Codec.bytes default).Carries (.bytes other) (.bytes bytes) (.bytes bytes)
      (lengthPrefixed bytes) := by
  refine carries_region _ rfl rfl ?_ ?_
  · exact toBytes_framed (Writing.toBytes_piece _)
  · intro hLength
    exact (reads_region hLength).map Value.bytes

/-! ## Arrays and maps -/

/-- Chunks that are read one after the other, of a region that is not too long. -/
theorem elements_flatten {α β : Type} {item : Reading α} {f : β → α} {xs : List β}
    {chunks : List Bytes} (hLength : chunks.flatten.length < 2 ^ 64)
    (hChunks : List.Forall₂ (fun x chunk => chunk ≠ [] ∧
      (chunk.length < 2 ^ 64 → item.Reads chunk (f x))) xs chunks) :
    elements item chunks.flatten = .ok (xs.map f) := by
  apply elements_eq_ok
  induction hChunks with
  | nil => exact .nil
  | cons hFirst _ ih =>
    rw [List.flatten_cons, List.length_append] at hLength
    exact .cons ⟨hFirst.1, hFirst.2 (by omega)⟩ (ih (by omega))

theorem toBytes_encodeItems {encode : Value → Writing} {items : List Value} {chunks : List Bytes}
    (hItems : List.Forall₂ (fun item chunk => (encode item).toBytes = .ok chunk) items chunks) :
    (encodeItems encode items).toBytes = .ok chunks.flatten := by
  induction hItems with
  | nil => rfl
  | cons hFirst _ ih => exact Writing.toBytes_andThen hFirst ih

theorem carries_array {element other : Codec} {items : List Value} {result : Value → Value}
    (default default' : Value)
    (hItems : ∀ item ∈ items, item ≠ .scalar .void ∧
      ∃ bytes, element.Carries other item (result item) bytes) :
    ∃ bytes, (Codec.array element default).Carries (.array other default') (.array items)
      (.array (items.map result)) bytes := by
  have hEach : ∀ item ∈ items,
      ∃ chunk, chunk ≠ [] ∧ element.Carries other item (result item) chunk := by
    intro item hItem
    obtain ⟨hSome, chunk, hChunk⟩ := hItems item hItem
    exact ⟨chunk, fun hEmpty => hSome (hChunk.void hEmpty).1, hChunk⟩
  obtain ⟨chunks, hChunks⟩ := exists_forall₂ hEach
  refine ⟨_, carries_region chunks.flatten rfl rfl ?_ ?_⟩
  · exact toBytes_framed (toBytes_encodeItems (hChunks.imp fun _ _ hOne => hOne.2.written))
  · intro hLength
    have hElements : elements other.decode chunks.flatten = .ok (items.map result) :=
      elements_flatten hLength (hChunks.imp fun _ _ hOne => ⟨hOne.1, hOne.2.reads⟩)
    refine (reads_region hLength).bind_nil ?_
    exact (reads_ofExcept hElements).map Value.array

theorem toBytes_encodeEntries {encodeKey encodeValue : Value → Writing}
    {entries : List (Value × Value)} {chunks : List Bytes}
    (hEntries : List.Forall₂ (fun entry chunk => ∃ key value, chunk = key ++ value ∧
      (encodeKey entry.1).toBytes = .ok key ∧ (encodeValue entry.2).toBytes = .ok value) entries
      chunks) : (encodeEntries encodeKey encodeValue entries).toBytes = .ok chunks.flatten := by
  induction hEntries with
  | nil => rfl
  | cons hFirst _ ih =>
    obtain ⟨key, value, rfl, hKey, hValue⟩ := hFirst
    exact Writing.toBytes_andThen (Writing.toBytes_andThen hKey hValue) ih

theorem carries_map {keys keys' values values' : Codec} {entries : List (Value × Value)}
    {keyResult valueResult : Value → Value} (default default' : Value)
    (hEntries : ∀ entry ∈ entries, entry.1 ≠ .scalar .void ∧
      (∃ bytes, keys.Carries keys' entry.1 (keyResult entry.1) bytes) ∧
      ∃ bytes, values.Carries values' entry.2 (valueResult entry.2) bytes) :
    ∃ bytes, (Codec.map keys values default).Carries (.map keys' values' default') (.map entries)
      (.map (entries.map fun entry => (keyResult entry.1, valueResult entry.2))) bytes := by
  have hEach : ∀ entry ∈ entries, ∃ chunk, ∃ key value, chunk = key ++ value ∧ key ≠ [] ∧
      keys.Carries keys' entry.1 (keyResult entry.1) key ∧
      values.Carries values' entry.2 (valueResult entry.2) value := by
    intro entry hEntry
    obtain ⟨hSome, ⟨key, hKey⟩, value, hValue⟩ := hEntries entry hEntry
    exact ⟨key ++ value, key, value, rfl, fun hEmpty => hSome (hKey.void hEmpty).1, hKey, hValue⟩
  obtain ⟨chunks, hChunks⟩ := exists_forall₂ hEach
  refine ⟨_, carries_region chunks.flatten rfl rfl ?_ ?_⟩
  · refine toBytes_framed (toBytes_encodeEntries (hChunks.imp ?_))
    rintro entry _ ⟨key, value, hChunk, _, hKey, hValue⟩
    exact ⟨key, value, hChunk, hKey.written, hValue.written⟩
  · intro hLength
    have hElements : elements (Codec.entry keys'.decode values'.decode) chunks.flatten =
        .ok (entries.map fun entry => (keyResult entry.1, valueResult entry.2)) := by
      refine elements_flatten hLength (hChunks.imp ?_)
      rintro entry _ ⟨key, value, rfl, hSome, hKey, hValue⟩
      refine ⟨by simp [hSome], fun hChunk => ?_⟩
      rw [List.length_append] at hChunk
      have hSecond := (hValue.reads (by omega)).map fun v => (keyResult entry.1, v)
      exact (hKey.reads (by omega)).bind hSecond
    refine (reads_region hLength).bind_nil ?_
    exact (reads_ofExcept hElements).map Value.map

end Codec

end Interchange.Wire

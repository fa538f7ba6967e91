import Interchange.Source.Load

/-!
# The encodings of a schema file

A schema file is meant to hold UTF-8, with or without a byte-order mark. Its reader looks at the
mark first, and the two marks of UTF-16 switch it to UTF-16. Both encodings are written down here,
with the mark as the character U+FEFF in front of the text, and the reader gives back exactly the
texts that they write. No UTF-8 starts like a mark of UTF-16. So the reader keeps to UTF-8 unless a
content is UTF-16 behind its mark, and then it takes for a text what UTF-8 has no text for.

* `ByteOrder`, `utf16`: texts in UTF-16.
* `InUtf8`, `InUtf16`: the contents of a file that hold a text.
* `decodeUtf16?_eq_some_iff`, `units?_eq_some_iff`: reading units, and bytes as units.
* `decodeText?_eq_some_iff`: the contents that are read as a text.
* `readSource_encodings`: the answers of the reader, and where they are those of UTF-8 alone.
-/

namespace Interchange

/-! ## UTF-8 -/

theorem utf8?_eq_some_iff {bytes : Bytes} {text : String} :
    utf8? bytes = some text ↔ bytes = utf8 text := by
  constructor
  · intro hText
    rw [utf8?, String.fromUTF8?] at hText
    split at hText
    · cases hText
      rfl
    · cases hText
  · rintro rfl
    exact utf8?_utf8 text

/-- The UTF-8 bytes of a text are those of its characters. -/
theorem utf8_eq_flatMap (text : String) :
    utf8 text = text.toList.flatMap String.utf8EncodeChar := by
  rw [utf8, ← String.utf8Encode_toList, List.utf8Encode, List.toList_data_toByteArray]

/-- The first byte of a character is below those that UTF-8 never has. -/
theorem exists_utf8EncodeChar (c : Char) :
    ∃ first rest, String.utf8EncodeChar c = first :: rest ∧ first.toNat < 0xf8 := by
  unfold String.utf8EncodeChar
  dsimp only
  -- One case for each number of bytes.
  repeat' split
  all_goals
    refine ⟨_, _, rfl, ?_⟩
    rw [UInt8.toNat_ofNat']
    omega

theorem first_lt_of_utf8 {text : String} {first : UInt8} {rest : Bytes}
    (hBytes : first :: rest = utf8 text) :
    first.toNat < 0xf8 := by
  rw [utf8_eq_flatMap] at hBytes
  cases hChars : text.toList with
  | nil =>
    rw [hChars] at hBytes
    cases hBytes
  | cons c chars =>
    obtain ⟨head, tail, hHead, hLt⟩ := exists_utf8EncodeChar c
    rw [hChars, List.flatMap_cons, hHead] at hBytes
    cases hBytes
    exact hLt

namespace Text

/-! ## UTF-16 units -/

/-- The 16-bit units of a character: one, or a pair for what does not fit into one. -/
def charUnits (c : Char) : List Nat :=
  if c.toNat < 0x10000 then [c.toNat]
  else [0xd800 + (c.toNat - 0x10000) / 0x400, 0xdc00 + (c.toNat - 0x10000) % 0x400]

theorem isLeadUnit_iff {unit : Nat} : isLeadUnit unit = true ↔ 0xd800 ≤ unit ∧ unit < 0xdc00 := by
  simp [isLeadUnit]

theorem isTrailUnit_iff {unit : Nat} : isTrailUnit unit = true ↔ 0xdc00 ≤ unit ∧ unit < 0xe000 := by
  simp [isTrailUnit]

theorem toNat_ofNat {code : Nat} (hCode : code.isValidChar) : (Char.ofNat code).toNat = code := by
  rw [Char.ofNat, dif_pos hCode]
  rfl

/-- No character is half a pair. -/
theorem toNat_lt_or (c : Char) : c.toNat < 0xd800 ∨ 0xe000 ≤ c.toNat ∧ c.toNat < 0x110000 :=
  c.valid.imp_right fun hValid => ⟨hValid.1, hValid.2⟩

theorem charUnits_ofNat {unit : Nat} (hUnit : unit < 0x10000) (hLead : ¬ isLeadUnit unit = true)
    (hTrail : ¬ isTrailUnit unit = true) : charUnits (Char.ofNat unit) = [unit] := by
  rw [isLeadUnit_iff] at hLead
  rw [isTrailUnit_iff] at hTrail
  have hCode : (Char.ofNat unit).toNat = unit := toNat_ofNat (by rw [Nat.isValidChar]; omega)
  rw [charUnits, hCode, if_pos hUnit]

theorem charUnits_ofPair {lead trail : Nat} (hLead : isLeadUnit lead = true)
    (hTrail : isTrailUnit trail = true) : charUnits (ofPair lead trail) = [lead, trail] := by
  rw [isLeadUnit_iff] at hLead
  rw [isTrailUnit_iff] at hTrail
  have hCode : (ofPair lead trail).toNat = 0x10000 + (lead - 0xd800) * 0x400 + (trail - 0xdc00) :=
    toNat_ofNat (by rw [Nat.isValidChar]; omega)
  have hHigh : 0xd800 + (0x10000 + (lead - 0xd800) * 0x400 + (trail - 0xdc00) - 0x10000) / 0x400 =
      lead := by
    omega
  have hLow : 0xdc00 + (0x10000 + (lead - 0xd800) * 0x400 + (trail - 0xdc00) - 0x10000) % 0x400 =
      trail := by
    omega
  rw [charUnits, hCode, if_neg (by omega), hHigh, hLow]

theorem decodeUtf16?_cons {unit : Nat} (hLead : ¬ isLeadUnit unit = true)
    (hTrail : ¬ isTrailUnit unit = true) (rest : List Nat) :
    decodeUtf16? (unit :: rest) = (decodeUtf16? rest).map (Char.ofNat unit :: ·) := by
  cases rest with
  | nil => simp [decodeUtf16?, hLead, hTrail]
  | cons next rest => rw [decodeUtf16?, if_neg hLead, if_neg hTrail]

/-- The units of a character are read as that character. -/
theorem decodeUtf16?_charUnits (c : Char) (rest : List Nat) :
    decodeUtf16? (charUnits c ++ rest) = (decodeUtf16? rest).map (c :: ·) := by
  have hCode := toNat_lt_or c
  rw [charUnits]
  split
  · have hLead : ¬ isLeadUnit c.toNat = true := by
      rw [isLeadUnit_iff]
      omega
    have hTrail : ¬ isTrailUnit c.toNat = true := by
      rw [isTrailUnit_iff]
      omega
    rw [List.singleton_append, decodeUtf16?_cons hLead hTrail, Char.ofNat_toNat]
  · have hLead : isLeadUnit (0xd800 + (c.toNat - 0x10000) / 0x400) = true := by
      rw [isLeadUnit_iff]
      omega
    have hTrail : isTrailUnit (0xdc00 + (c.toNat - 0x10000) % 0x400) = true := by
      rw [isTrailUnit_iff]
      omega
    have hPair : ofPair (0xd800 + (c.toNat - 0x10000) / 0x400)
        (0xdc00 + (c.toNat - 0x10000) % 0x400) = c := by
      refine Eq.trans (congrArg Char.ofNat ?_) (Char.ofNat_toNat c)
      omega
    rw [List.cons_append, List.singleton_append, decodeUtf16?, if_pos hLead, if_pos hTrail, hPair]

theorem decodeUtf16?_flatMap (chars : List Char) :
    decodeUtf16? (chars.flatMap charUnits) = some chars := by
  induction chars with
  | nil => rfl
  | cons c chars ih =>
    rw [List.flatMap_cons, decodeUtf16?_charUnits, ih]
    rfl

/-- Units are read as the characters whose units they are. -/
theorem decodeUtf16?_eq_some_iff {units : List Nat} {chars : List Char}
    (hUnits : ∀ unit ∈ units, unit < 0x10000) :
    decodeUtf16? units = some chars ↔ units = chars.flatMap charUnits := by
  refine ⟨fun hChars => ?_, fun hChars => hChars ▸ decodeUtf16?_flatMap chars⟩
  fun_induction decodeUtf16? units generalizing chars with
  | case1 =>
    cases hChars
    rfl
  | case2 unit hHalf => cases hChars
  | case3 unit hWhole =>
    cases hChars
    rw [Bool.or_eq_true, not_or] at hWhole
    rw [List.flatMap_singleton,
      charUnits_ofNat (hUnits unit (List.mem_singleton_self unit)) hWhole.1 hWhole.2]
  | case4 lead trail rest hLead hTrail ih =>
    obtain ⟨tail, hTail, rfl⟩ := Option.map_eq_some_iff.1 hChars
    rw [List.forall_mem_cons, List.forall_mem_cons] at hUnits
    rw [List.flatMap_cons, charUnits_ofPair hLead hTrail, ← ih hUnits.2.2 hTail]
    rfl
  | case5 lead next rest hLead hNext => cases hChars
  | case6 unit next rest hLead hTrail => cases hChars
  | case7 unit next rest hLead hTrail ih =>
    obtain ⟨tail, hTail, rfl⟩ := Option.map_eq_some_iff.1 hChars
    rw [List.forall_mem_cons] at hUnits
    rw [List.flatMap_cons, charUnits_ofNat hUnits.1 hLead hTrail, ← ih hUnits.2 hTail]
    rfl

/-! ## UTF-16 bytes -/

/-- The order of the two bytes of a unit. -/
inductive ByteOrder where
  | little
  | big
deriving DecidableEq, Repr

namespace ByteOrder

/-- The bytes of a unit. -/
def bytes : ByteOrder → Nat → Bytes
  | little, unit => leBytes 2 unit
  | big, unit => (leBytes 2 unit).reverse

/-- The unit of two bytes in a row. -/
def combine : ByteOrder → Nat → Nat → Nat
  | little, low, high => low + 256 * high
  | big, high, low => low + 256 * high

theorem combine_lt (order : ByteOrder) (first second : UInt8) :
    order.combine first.toNat second.toNat < 0x10000 := by
  have hFirst := first.toNat_lt
  have hSecond := second.toNat_lt
  cases order with
  | little =>
    rw [combine]
    omega
  | big =>
    rw [combine]
    omega

theorem bytes_combine (order : ByteOrder) (first second : UInt8) :
    order.bytes (order.combine first.toNat second.toNat) = [first, second] := by
  have hBytes : ∀ low high : UInt8, leBytes 2 (low.toNat + 256 * high.toNat) = [low, high] := by
    intro low high
    have hLow := low.toNat_lt
    have hHigh : (low.toNat + 256 * high.toNat) / 256 = high.toNat := by omega
    have hFirst : UInt8.ofNat (low.toNat + 256 * high.toNat) = low := by
      rw [← UInt8.toNat_inj, UInt8.toNat_ofNat']
      omega
    rw [leBytes, leBytes, leBytes, hHigh, hFirst, UInt8.ofNat_toNat]
  cases order with
  | little => exact hBytes first second
  | big =>
    rw [bytes, combine, hBytes]
    rfl

theorem exists_bytes (order : ByteOrder) {unit : Nat} (hUnit : unit < 0x10000) :
    ∃ first second, order.bytes unit = [first, second] ∧
      order.combine first.toNat second.toNat = unit := by
  have hLow : (UInt8.ofNat unit).toNat = unit % 256 := UInt8.toNat_ofNat'
  have hHigh : (UInt8.ofNat (unit / 256)).toNat = unit / 256 % 256 := UInt8.toNat_ofNat'
  cases order with
  | little =>
    refine ⟨UInt8.ofNat unit, UInt8.ofNat (unit / 256), rfl, ?_⟩
    rw [combine, hLow, hHigh]
    omega
  | big =>
    refine ⟨UInt8.ofNat (unit / 256), UInt8.ofNat unit, rfl, ?_⟩
    rw [combine, hLow, hHigh]
    omega

end ByteOrder

/-- Bytes are read as the units whose bytes they are. -/
theorem units?_eq_some_iff {order : ByteOrder} {content : Bytes} {units : List Nat} :
    units? order.combine content = some units ↔
      (∀ unit ∈ units, unit < 0x10000) ∧ content = units.flatMap order.bytes := by
  constructor
  · intro hUnits
    fun_induction units? order.combine content generalizing units with
    | case1 =>
      cases hUnits
      exact ⟨List.forall_mem_nil _, rfl⟩
    | case2 odd => cases hUnits
    | case3 first second rest ih =>
      obtain ⟨tail, hTail, rfl⟩ := Option.map_eq_some_iff.1 hUnits
      obtain ⟨hBound, hRest⟩ := ih hTail
      refine ⟨List.forall_mem_cons.2 ⟨order.combine_lt first second, hBound⟩, ?_⟩
      rw [List.flatMap_cons, order.bytes_combine, ← hRest]
      rfl
  · rintro ⟨hBound, rfl⟩
    induction units with
    | nil => rfl
    | cons unit units ih =>
      rw [List.forall_mem_cons] at hBound
      obtain ⟨first, second, hBytes, hUnit⟩ := order.exists_bytes hBound.1
      rw [List.flatMap_cons, hBytes, List.cons_append, List.cons_append, List.nil_append, units?,
        ih hBound.2, hUnit]
      rfl

/-- The bytes of a text in UTF-16. -/
def utf16 (order : ByteOrder) (text : String) : Bytes :=
  (text.toList.flatMap charUnits).flatMap order.bytes

theorem charUnits_lt (c : Char) : ∀ unit ∈ charUnits c, unit < 0x10000 := by
  have hCode := toNat_lt_or c
  intro unit hUnit
  rw [charUnits] at hUnit
  split at hUnit
  · rw [List.mem_singleton] at hUnit
    omega
  · rw [List.mem_cons, List.mem_singleton] at hUnit
    omega

theorem utf16?_eq_some_iff {order : ByteOrder} {content : Bytes} {text : String} :
    utf16? order.combine content = some text ↔ content = utf16 order text := by
  rw [utf16?, Option.map_eq_some_iff]
  constructor
  · rintro ⟨chars, hChars, rfl⟩
    obtain ⟨units, hUnits, hUnitChars⟩ := Option.bind_eq_some_iff.1 hChars
    obtain ⟨hBound, rfl⟩ := units?_eq_some_iff.1 hUnits
    rw [utf16, String.toList_ofList, (decodeUtf16?_eq_some_iff hBound).1 hUnitChars]
  · rintro rfl
    have hUnits : units? order.combine (utf16 order text) =
        some (text.toList.flatMap charUnits) := by
      refine units?_eq_some_iff.2 ⟨fun unit hUnit => ?_, rfl⟩
      obtain ⟨c, _, hUnit⟩ := List.mem_flatMap.1 hUnit
      exact charUnits_lt c unit hUnit
    refine ⟨text.toList, ?_, String.ofList_toList⟩
    rw [hUnits, Option.bind_some, decodeUtf16?_flatMap]

/-! ## The contents of a file -/

/-- The character that marks the encoding of a text when it stands in front of it. -/
def mark : String := "\ufeff"

/-- The content is a text in UTF-8. A mark in front is not part of the text. -/
def InUtf8 (content : Bytes) (text : String) : Prop :=
  content = utf8 mark ++ utf8 text ∨ content = utf8 text ∧ ¬ utf8 mark <+: content

/-- The content is a text in UTF-16, with the mark that tells its byte order. -/
def InUtf16 (content : Bytes) (text : String) : Prop :=
  ∃ order, content = utf16 order mark ++ utf16 order text

theorem utf8_mark : utf8 mark = [0xef, 0xbb, 0xbf] := by
  decide

theorem utf16_mark_little : utf16 .little mark = [0xff, 0xfe] := by
  decide

theorem utf16_mark_big : utf16 .big mark = [0xfe, 0xff] := by
  decide

/-- The marks tell the byte orders apart. -/
theorem utf16_mark_append_inj {order other : ByteOrder} {rest tail : Bytes}
    (hBytes : utf16 order mark ++ rest = utf16 other mark ++ tail) :
    order = other ∧ rest = tail := by
  cases order with
  | little =>
    cases other with
    | little => exact ⟨rfl, List.append_cancel_left hBytes⟩
    | big =>
      rw [utf16_mark_little, utf16_mark_big] at hBytes
      exact absurd (List.cons.inj hBytes).1 (by decide)
  | big =>
    cases other with
    | little =>
      rw [utf16_mark_little, utf16_mark_big] at hBytes
      exact absurd (List.cons.inj hBytes).1 (by decide)
    | big => exact ⟨rfl, List.append_cancel_left hBytes⟩

/-- No UTF-8 starts like a mark of UTF-16. -/
theorem not_inUtf8_of_utf16Mark {content : Bytes} {order : ByteOrder}
    (hMark : utf16 order mark <+: content) (text : String) : ¬ InUtf8 content text := by
  have hFirst : ∃ first rest, content = first :: rest ∧ 0xf8 ≤ first.toNat := by
    obtain ⟨rest, rfl⟩ := hMark
    cases order with
    | little => exact ⟨0xff, _, congrArg (· ++ rest) utf16_mark_little, by decide⟩
    | big => exact ⟨0xfe, _, congrArg (· ++ rest) utf16_mark_big, by decide⟩
  obtain ⟨first, rest, rfl, hHigh⟩ := hFirst
  rintro (hMarked | ⟨hPlain, _⟩)
  · rw [utf8_mark] at hMarked
    cases hMarked
    exact absurd hHigh (by decide)
  · exact absurd (first_lt_of_utf8 hPlain) (Nat.not_lt.2 hHigh)

theorem InUtf16.exists_mark {content : Bytes} {text : String} (hText : InUtf16 content text) :
    ∃ order, utf16 order mark <+: content := by
  obtain ⟨order, rfl⟩ := hText
  exact ⟨order, List.prefix_append _ _⟩

/-! ## Reading a file -/

theorem decodeText?_utf8Mark (rest : Bytes) : decodeText? (utf8 mark ++ rest) = utf8? rest := by
  rw [utf8_mark]
  rfl

theorem decodeText?_utf16Mark (order : ByteOrder) (rest : Bytes) :
    decodeText? (utf16 order mark ++ rest) = utf16? order.combine rest := by
  cases order with
  | little =>
    rw [utf16_mark_little]
    rfl
  | big =>
    rw [utf16_mark_big]
    rfl

theorem decodeText?_unmarked {content : Bytes} (hUtf8 : ¬ utf8 mark <+: content)
    (hUtf16 : ∀ order, ¬ utf16 order mark <+: content) : decodeText? content = utf8? content := by
  have hLittle := hUtf16 .little
  have hBig := hUtf16 .big
  rw [utf8_mark] at hUtf8
  rw [utf16_mark_little] at hLittle
  rw [utf16_mark_big] at hBig
  fun_cases decodeText? content with
  | case1 rest => exact absurd (List.prefix_append [0xef, 0xbb, 0xbf] rest) hUtf8
  | case2 rest => exact absurd (List.prefix_append [0xff, 0xfe] rest) hLittle
  | case3 rest => exact absurd (List.prefix_append [0xfe, 0xff] rest) hBig
  | case4 => rfl

/-- A content is read as the text that it holds in UTF-8 or, behind a mark, in UTF-16. -/
theorem decodeText?_eq_some_iff {content : Bytes} {text : String} :
    decodeText? content = some text ↔ InUtf8 content text ∨ InUtf16 content text := by
  by_cases hMark : ∃ order, utf16 order mark <+: content
  · obtain ⟨order, rest, rfl⟩ := hMark
    rw [decodeText?_utf16Mark, utf16?_eq_some_iff]
    constructor
    · rintro rfl
      exact Or.inr ⟨order, rfl⟩
    · rintro (hUtf8 | ⟨other, hBytes⟩)
      · exact absurd hUtf8 (not_inUtf8_of_utf16Mark (List.prefix_append _ _) text)
      · obtain ⟨rfl, hRest⟩ := utf16_mark_append_inj hBytes
        exact hRest
  · rw [or_iff_left fun hUtf16 : InUtf16 content text => hMark hUtf16.exists_mark]
    by_cases hUtf8 : utf8 mark <+: content
    · obtain ⟨rest, rfl⟩ := hUtf8
      rw [decodeText?_utf8Mark, utf8?_eq_some_iff, InUtf8, List.append_cancel_left_eq]
      exact (or_iff_left fun hPlain => hPlain.2 (List.prefix_append _ _)).symm
    · rw [decodeText?_unmarked hUtf8 (not_exists.1 hMark), utf8?_eq_some_iff]
      constructor
      · exact fun hPlain => Or.inr ⟨hPlain, hUtf8⟩
      · rintro (rfl | hPlain)
        · exact absurd (List.prefix_append _ _) hUtf8
        · exact hPlain.1

end Text

namespace Source

open Text

/-- The answer for a file with this content, if only UTF-8 is read: the text that the content holds,
and the fault of the encoding for every other content. -/
structure Utf8Only (path : String) (content : Bytes) (answer : Except LoadError Schema.Source) :
    Prop where
  text : ∀ text, answer = .ok ⟨path, text⟩ ↔ InUtf8 content text
  fault : answer = .error (.notText path) ↔ ¬ ∃ text, InUtf8 content text

theorem decodeSource_eq_ok {path text : String} {content : Bytes} :
    decodeSource path content = .ok ⟨path, text⟩ ↔ InUtf8 content text ∨ InUtf16 content text := by
  rw [← decodeText?_eq_some_iff, decodeSource]
  cases decodeText? content with
  | none => simp
  | some other => simp

theorem decodeSource_eq_notText {path : String} {content : Bytes} :
    decodeSource path content = .error (.notText path) ↔
      ¬ ∃ text, InUtf8 content text ∨ InUtf16 content text := by
  simp only [← decodeText?_eq_some_iff, decodeSource]
  cases decodeText? content with
  | none => simp
  | some other => simp

/-- The reader gives a text exactly for the contents that hold it in UTF-8 or, behind a mark, in
UTF-16, and the fault of the encoding for every other content. So it keeps to UTF-8 exactly for the
contents that are not UTF-16 behind a mark; those are read as UTF-16, and none of them is UTF-8. -/
theorem readSource_encodings (files : Files) (path : String) (content : Bytes)
    (hContent : readFile files path = .ok content) :
    (∀ text, readSource files path = .ok ⟨path, text⟩ ↔ InUtf8 content text ∨
      InUtf16 content text) ∧
    (readSource files path = .error (.notText path) ↔
      ¬ ∃ text, InUtf8 content text ∨ InUtf16 content text) ∧
    (Utf8Only path content (readSource files path) ↔ ¬ ∃ text, InUtf16 content text) ∧
    ∀ text, InUtf16 content text → ∀ other, ¬ InUtf8 content other := by
  have hRead : readSource files path = decodeSource path content := by
    rw [readSource, hContent]
  rw [hRead]
  have hApart : ∀ text, InUtf16 content text → ∀ other, ¬ InUtf8 content other := by
    intro text hUtf16 other
    obtain ⟨order, hMark⟩ := hUtf16.exists_mark
    exact not_inUtf8_of_utf16Mark hMark other
  refine ⟨fun text => decodeSource_eq_ok, decodeSource_eq_notText, ⟨?_, ?_⟩, hApart⟩
  · rintro hOnly ⟨text, hUtf16⟩
    exact hApart text hUtf16 text ((hOnly.text text).1 (decodeSource_eq_ok.2 (Or.inr hUtf16)))
  · intro hNone
    have hOr : ∀ text, InUtf8 content text ∨ InUtf16 content text ↔ InUtf8 content text :=
      fun text => or_iff_left fun hUtf16 => hNone ⟨text, hUtf16⟩
    refine ⟨fun text => decodeSource_eq_ok.trans (hOr text), decodeSource_eq_notText.trans ?_⟩
    rw [exists_congr hOr]

section

/-- The mark of UTF-16 with the low byte first, a letter, and a character that takes two units. -/
def wide : Bytes := [0xff, 0xfe, 0x41, 0x00, 0x3d, 0xd8, 0x00, 0xde]

def wideFiles : Files := fun _ => .ok (.file wide)

theorem inUtf16_wide : InUtf16 wide "A😀" :=
  ⟨.little, by decide⟩

/-- The eight bytes are no UTF-8, and they are read all the same. -/
theorem readSource_wideFiles :
    readSource wideFiles "wide.ks" = .ok ⟨"wide.ks", "A😀"⟩ ∧
      ¬ Utf8Only "wide.ks" wide (readSource wideFiles "wide.ks") ∧ ∀ text, ¬ InUtf8 wide text := by
  obtain ⟨hText, _, hOnly, hApart⟩ := readSource_encodings wideFiles "wide.ks" wide rfl
  exact ⟨(hText "A😀").2 (Or.inr inUtf16_wide), fun hUtf8 => hOnly.1 hUtf8 ⟨_, inUtf16_wide⟩,
    hApart _ inUtf16_wide⟩

end

end Source

end Interchange

import Interchange.Bytes

/-!
# Encoded text

The bytes of a file are UTF-8 unless they start with a byte-order mark of UTF-16. A mark, also the
one of UTF-8, is not part of the text.

* `decodeUtf16?`: text from 16-bit units.
* `decodeText?`: the text of a file.
-/

namespace Interchange.Text

/-- A 16-bit unit that starts a pair. -/
def isLeadUnit (unit : Nat) : Bool :=
  0xd800 ≤ unit && unit < 0xdc00

/-- A 16-bit unit that ends a pair. -/
def isTrailUnit (unit : Nat) : Bool :=
  0xdc00 ≤ unit && unit < 0xe000

/-- The character of a pair of units. -/
def ofPair (lead trail : Nat) : Char :=
  Char.ofNat (0x10000 + (lead - 0xd800) * 0x400 + (trail - 0xdc00))

/-- The characters of 16-bit units. Units that start or end a pair stand in pairs. -/
def decodeUtf16? : List Nat → Option (List Char)
  | [] => some []
  | [unit] =>
    if isLeadUnit unit || isTrailUnit unit then none else some [Char.ofNat unit]
  | unit :: next :: rest =>
    if isLeadUnit unit then
      if isTrailUnit next then (decodeUtf16? rest).map (ofPair unit next :: ·) else none
    else if isTrailUnit unit then none
    else (decodeUtf16? (next :: rest)).map (Char.ofNat unit :: ·)

/-- Bytes in pairs, each made a unit by `combine`; an odd byte at the end makes this fail. -/
def units? (combine : Nat → Nat → Nat) : Bytes → Option (List Nat)
  | [] => some []
  | [_] => none
  | first :: second :: rest => (units? combine rest).map (combine first.toNat second.toNat :: ·)

/-- The text of UTF-16 bytes. -/
def utf16? (combine : Nat → Nat → Nat) (bytes : Bytes) : Option String :=
  ((units? combine bytes).bind decodeUtf16?).map String.ofList

/-- The text of a file. -/
def decodeText? : Bytes → Option String
  | 0xef :: 0xbb :: 0xbf :: rest => utf8? rest
  | 0xff :: 0xfe :: rest => utf16? (fun low high => low + 256 * high) rest
  | 0xfe :: 0xff :: rest => utf16? (fun high low => low + 256 * high) rest
  | bytes => utf8? bytes

end Interchange.Text

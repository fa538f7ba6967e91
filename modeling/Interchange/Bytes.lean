/-!
# Byte strings

Byte strings are lists, read from the front. This module holds what the wire format and the content
hash share: little-endian words, hexadecimal text and UTF-8.

* `leBytes_length`: a word of `n` bytes has `n` bytes.
* `leValue_leBytes`: reading a little-endian word gives back the number, up to its width.
* `utf8?_utf8`: text survives the way through UTF-8.
-/

namespace Interchange

/-- A byte string. -/
abbrev Bytes := List UInt8

/-- A byte string of known length. -/
abbrev Block (n : Nat) := { bytes : Bytes // bytes.length = n }

/-! ## Little-endian words -/

/-- The `n` lowest base-256 digits of `value`, lowest first. -/
def leBytes : (n : Nat) → (value : Nat) → Bytes
  | 0, _ => []
  | n + 1, value => UInt8.ofNat value :: leBytes n (value / 256)

/-- The number whose base-256 digits are `bytes`, lowest first. -/
def leValue : Bytes → Nat
  | [] => 0
  | byte :: rest => byte.toNat + 256 * leValue rest

@[simp] theorem leBytes_length (n value : Nat) : (leBytes n value).length = n := by
  induction n generalizing value with
  | zero => rfl
  | succ n ih => simp [leBytes, ih]

theorem leValue_leBytes (n value : Nat) : leValue (leBytes n value) = value % Nat.pow 256 n := by
  induction n generalizing value with
  | zero => simp [leBytes, leValue, Nat.mod_one]
  | succ n ih =>
    have hstep : value % Nat.pow 256 (n + 1) =
        value % 256 + 256 * (value / 256 % Nat.pow 256 n) := by
      rw [Nat.pow_eq, Nat.pow_succ, Nat.mul_comm, Nat.mod_mul]
      rfl
    simp only [leBytes, leValue, ih, hstep]
    simp

/-- A little-endian word of `n` bytes. -/
def leBlock (n value : Nat) : Block n :=
  ⟨leBytes n value, leBytes_length n value⟩

/-! ## Hexadecimal text -/

/-- The lower-case hexadecimal digit of a number below 16. -/
def hexDigit (n : Nat) : Char :=
  if n < 10 then Char.ofNat (48 + n) else Char.ofNat (87 + n)

/-- Two lower-case digits a byte. -/
def hexText (bytes : Bytes) : String :=
  String.ofList (bytes.flatMap fun byte => [hexDigit (byte.toNat / 16), hexDigit (byte.toNat % 16)])

/-! ## UTF-8 -/

/-- The UTF-8 bytes of a text. -/
def utf8 (text : String) : Bytes :=
  text.toByteArray.data.toList

/-- The text whose UTF-8 bytes are `bytes`, if there is one. -/
def utf8? (bytes : Bytes) : Option String :=
  String.fromUTF8? ⟨bytes.toArray⟩

theorem utf8?_utf8 (text : String) : utf8? (utf8 text) = some text := by
  have hvalid : (⟨(utf8 text).toArray⟩ : ByteArray).IsValidUTF8 := text.isValidUTF8
  simp only [utf8?, String.fromUTF8?, hvalid, ↓reduceDIte]
  rfl

end Interchange

import Interchange.Text.Unprintable

/-!
# Quoted text

Messages show text from a source between double quotes. A quote, a backslash and the four common
controls are written with a backslash, a character that cannot be seen by its code point, and all
else as it is.
-/

namespace Interchange.Text

/-- A code point in lower-case hexadecimal, without leading zeros. -/
def hexCodePoint (n : Nat) : List Char :=
  Nat.toDigits 16 n

/-- How one character stands inside quotes. -/
def quotedChar (c : Char) : List Char :=
  if c = '\x00' then ['\\', '0']
  else if c = '\t' then ['\\', 't']
  else if c = '\r' then ['\\', 'r']
  else if c = '\n' then ['\\', 'n']
  else if c = '\\' then ['\\', '\\']
  else if c = '"' then ['\\', '"']
  else if isHidden c then
    ['\\', 'u', Char.ofNat 0x7b] ++ hexCodePoint c.toNat ++ [Char.ofNat 0x7d]
  else [c]

/-- `text` between double quotes. -/
def quote (text : String) : String :=
  String.ofList ('"' :: text.toList.flatMap quotedChar ++ ['"'])

end Interchange.Text

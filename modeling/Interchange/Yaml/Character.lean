/-!
# Characters of a document

A document is a text of lines. This module says which characters it may hold, which of them part
lines and words, and which have a meaning of their own.

* `isAllowed`: a document may hold the character.
* `unifyBreaks`: line breaks in one spelling.
* `atMarker`: three hyphens or three dots that stand alone.
-/

namespace Interchange.Yaml

/-! ## Characters by name -/

def openBrace : Char := Char.ofNat 0x7b

def closeBrace : Char := Char.ofNat 0x7d

def singleQuote : Char := Char.ofNat 0x27

def backquote : Char := Char.ofNat 0x60

/-- The mark that may stand in front of a text or of a line. It has a column of its own. -/
def byteOrderMark : Char := Char.ofNat 0xfeff

/-! ## Classes -/

/-- A line ends here. -/
def isBreak (c : Char) : Bool :=
  c == '\n' || c == '\r' || c == '\x85' || c == '\u2028' || c == '\u2029'

/-- A space or a tab. -/
def isGap (c : Char) : Bool :=
  c == ' ' || c == '\t'

/-- Characters that a document may hold: no controls but tabs and line breaks. -/
def isAllowed (c : Char) : Bool :=
  let n := c.toNat
  c == '\t' || c == '\n' || c == '\r' || (0x20 ≤ n && n ≤ 0x7e) || n == 0x85
    || (0xa0 ≤ n && n ≤ 0xd7ff) || (0xe000 ≤ n && n ≤ 0xfffd) || 0x10000 ≤ n

/-- Characters of the names of anchors, handles and directives. -/
def isNameChar (c : Char) : Bool :=
  c.isAlphanum || c == '_' || c == '-'

/-- Characters with a meaning of their own at the start of a value. -/
def indicators : List Char :=
  ['-', '?', ':', ',', '[', ']', openBrace, closeBrace, '#', '&', '*', '!', '|', '>',
    singleQuote, '"', '%', '@', backquote]

/-- Characters that end a plain scalar between brackets. -/
def flowIndicators : List Char :=
  [',', '[', ']', openBrace, closeBrace]

/-- Characters that do not follow a colon directly between brackets. -/
def colonBreakers : List Char :=
  '?' :: flowIndicators

/-- The value of a hexadecimal digit. -/
def hexValue? (c : Char) : Option Nat :=
  if '0' ≤ c ∧ c ≤ '9' then some (c.toNat - 48)
  else if 'a' ≤ c ∧ c ≤ 'f' then some (c.toNat - 87)
  else if 'A' ≤ c ∧ c ≤ 'F' then some (c.toNat - 55)
  else none

/-! ## What follows -/

/-- A gap, a line break or the end follows. -/
def atGap : List Char → Bool
  | [] => true
  | c :: _ => isGap c || isBreak c

/-- A line break or the end follows. -/
def atLineEnd : List Char → Bool
  | [] => true
  | c :: _ => isBreak c

/-- The first character is one of some. -/
def startsWithAny (chars : List Char) : List Char → Bool
  | [] => false
  | c :: _ => chars.contains c

/-- Three hyphens that stand alone. -/
def atStartMarker : List Char → Bool
  | '-' :: '-' :: '-' :: rest => atGap rest
  | _ => false

/-- Three dots that stand alone. -/
def atEndMarker : List Char → Bool
  | '.' :: '.' :: '.' :: rest => atGap rest
  | _ => false

/-- What starts or ends a document, if it stands at the start of a line. -/
def atMarker (text : List Char) : Bool :=
  atStartMarker text || atEndMarker text

/-! ## Line breaks -/

/-- Every line break as one character. Of the spellings of a break, only the line and the paragraph
separator keep their own. -/
def unifyBreaks : List Char → List Char
  | [] => []
  | '\r' :: '\n' :: rest => '\n' :: unifyBreaks rest
  | '\r' :: rest => '\n' :: unifyBreaks rest
  | '\x85' :: rest => '\n' :: unifyBreaks rest
  | c :: rest => c :: unifyBreaks rest

/-- What a run of line breaks means inside a scalar: one break is a space, and of several all but
the first stay. A separator as the first break stays too. -/
def fold : List Char → List Char
  | [] => []
  | ['\n'] => [' ']
  | '\n' :: more => more
  | breaks => breaks

end Interchange.Yaml

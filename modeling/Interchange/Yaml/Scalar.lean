import Interchange.Yaml.Cursor

/-!
# Scalars in a line

A scalar is plain or stands between quotes. It may go over several lines, and then its line breaks
are folded: gaps around a break do not count, a single break is a space, and of several breaks the
first does not count.

* `plain?`: a plain scalar.
* `singleQuoted?`, `doubleQuoted?`: scalars between quotes.
-/

namespace Interchange.Yaml

/-- What was met inside a scalar since its last character: gaps, or line breaks and the gaps around
them. The last one stands first. -/
inductive Between where
  | gaps (gaps : List Char)
  /-- `escaped` says that the first break does not count and is not listed. -/
  | breaks (escaped : Bool) (breaks : List Char)

namespace Between

def none : Between :=
  gaps []

/-- Gaps before and after a line break do not count. -/
def addGap (c : Char) : Between → Between
  | gaps cs => gaps (c :: cs)
  | breaks escaped cs => breaks escaped cs

def addBreak (c : Char) : Between → Between
  | gaps _ => breaks false [c]
  | breaks escaped cs => breaks escaped (c :: cs)

/-- What it means if the scalar goes on. -/
def text : Between → List Char
  | gaps cs => cs.reverse
  | breaks true cs => cs.reverse
  | breaks false cs => fold cs.reverse

/-- A line break was met. -/
def isBroken : Between → Bool
  | gaps _ => false
  | breaks _ _ => true

/-- Nothing was met. -/
def isEmpty : Between → Bool
  | gaps cs => cs.isEmpty
  | breaks _ _ => false

end Between

/-! ## Plain scalars -/

/-- A plain scalar and the place behind it, which is behind the gaps and breaks that follow it. -/
structure PlainScalar where
  text : List Char
  /-- A line break follows the scalar. -/
  broken : Bool
  stop : Cursor

/-- The scalar with more text in front. -/
def PlainScalar.prepend (front : List Char) (scalar : PlainScalar) : PlainScalar :=
  { scalar with text := front ++ scalar.text }

/-- A plain scalar starts here. -/
def startsPlain (inFlow : Bool) : List Char → Bool
  | [] => false
  | c :: rest =>
    !isGap c && !isBreak c
      && (!indicators.contains c
        || (c == '-' && !startsWithAny [' ', '\t'] rest)
        || (!inFlow && (c == '?' || c == ':') && !atGap rest))

/-- Reads on in a plain scalar. Outside of brackets, a line that goes on with it starts at `least`
or to the right of it. A tab to the left of that is refused. -/
def plainFrom (inFlow : Bool) (least : Nat) :
    (between : Between) → (line column : Nat) → List Char → Option PlainScalar
  | between, line, column, [] => some ⟨[], between.isBroken, ⟨[], line, column⟩⟩
  | between, line, column, c :: rest =>
    let finish : Option PlainScalar := some ⟨[], between.isBroken, ⟨c :: rest, line, column⟩⟩
    if isBreak c then plainFrom inFlow least (between.addBreak c) (line + 1) 0 rest
    else if isGap c then
      if c == '\t' && between.isBroken && column < least then none
      else plainFrom inFlow least (between.addGap c) line (column + 1) rest
    else if !between.isEmpty &&
        (c == '#' || (!inFlow && column < least) || (column == 0 && atMarker (c :: rest))) then
      finish
    else if inFlow && c == ':' && startsWithAny colonBreakers rest then none
    else if c == ':' && atGap rest then finish
    else if inFlow && flowIndicators.contains c then finish
    else (plainFrom inFlow least .none line (column + 1) rest).map (.prepend (between.text ++ [c]))

/-- Reads a plain scalar. -/
def plain? (inFlow : Bool) (least : Nat) (cursor : Cursor) : Option PlainScalar :=
  plainFrom inFlow least .none cursor.line cursor.column cursor.rest

/-! ## Quoted scalars -/

/-- Reads the rest of a scalar between single quotes. A quote inside is written twice. A marker of a
document does not stand inside. -/
def singleFrom :
    (between : Between) → (line column : Nat) → List Char → Option (List Char × Cursor)
  | _, _, _, [] => none
  | between, line, column, c :: rest =>
    if column == 0 && atMarker (c :: rest) then none
    else if c == singleQuote then
      match rest with
      | [] => some (between.text, ⟨[], line, column + 1⟩)
      | d :: more =>
        if d == singleQuote then
          (singleFrom .none line (column + 2) more).map fun (text, stop) =>
            (between.text ++ singleQuote :: text, stop)
        else some (between.text, ⟨d :: more, line, column + 1⟩)
    else if isBreak c then singleFrom (between.addBreak c) (line + 1) 0 rest
    else if isGap c then singleFrom (between.addGap c) line (column + 1) rest
    else
      (singleFrom .none line (column + 1) rest).map fun (text, stop) =>
        (between.text ++ c :: text, stop)

/-- Reads a scalar between single quotes from its first quote on. -/
def singleQuoted? (cursor : Cursor) : Option (List Char × Cursor) :=
  let inside := cursor.along 1
  singleFrom .none inside.line inside.column inside.rest

/-- The character with a code in hexadecimal digits. -/
def codeChar? (digits : List Char) : Option Char := do
  let code ← digits.foldlM (fun n c => (hexValue? c).map (16 * n + ·)) 0
  if 0xd800 ≤ code ∧ code ≤ 0xdfff ∨ 0x10ffff < code then none else return Char.ofNat code

/-- What a character behind a backslash stands for. -/
def escaped? : Char → Option Char
  | '0' => some '\x00'
  | 'a' => some '\x07'
  | 'b' => some '\x08'
  | 't' => some '\t'
  | '\t' => some '\t'
  | 'n' => some '\n'
  | 'v' => some '\x0b'
  | 'f' => some '\x0c'
  | 'r' => some '\r'
  | 'e' => some '\x1b'
  | ' ' => some ' '
  | '"' => some '"'
  | '/' => some '/'
  | '\\' => some '\\'
  | 'N' => some '\x85'
  | '_' => some '\xa0'
  | 'L' => some '\u2028'
  | 'P' => some '\u2029'
  | _ => none

/-- Reads the rest of a scalar between double quotes. A backslash starts an escape; before a line
break it makes the break not count. -/
def doubleFrom :
    (between : Between) → (line column : Nat) → List Char → Option (List Char × Cursor)
  | _, _, _, [] => none
  | between, line, column, '"' :: rest => some (between.text, ⟨rest, line, column + 1⟩)
  | between, line, column, '\\' :: 'x' :: a :: b :: rest => do
    let char ← codeChar? [a, b]
    let (text, stop) ← doubleFrom .none line (column + 4) rest
    return (between.text ++ char :: text, stop)
  | between, line, column, '\\' :: 'u' :: a :: b :: c :: d :: rest => do
    let char ← codeChar? [a, b, c, d]
    let (text, stop) ← doubleFrom .none line (column + 6) rest
    return (between.text ++ char :: text, stop)
  | between, line, column, '\\' :: 'U' :: a :: b :: c :: d :: e :: f :: g :: h :: rest => do
    let char ← codeChar? [a, b, c, d, e, f, g, h]
    let (text, stop) ← doubleFrom .none line (column + 10) rest
    return (between.text ++ char :: text, stop)
  | between, line, column, '\\' :: c :: rest =>
    if isBreak c then
      (doubleFrom (.breaks true []) (line + 1) 0 rest).map fun (text, stop) =>
        (between.text ++ text, stop)
    else do
      let char ← escaped? c
      let (text, stop) ← doubleFrom .none line (column + 2) rest
      return (between.text ++ char :: text, stop)
  | between, line, column, c :: rest =>
    if column == 0 && atMarker (c :: rest) then none
    else if isBreak c then doubleFrom (between.addBreak c) (line + 1) 0 rest
    else if isGap c then doubleFrom (between.addGap c) line (column + 1) rest
    else
      (doubleFrom .none line (column + 1) rest).map fun (text, stop) =>
        (between.text ++ c :: text, stop)

/-- Reads a scalar between double quotes from its first quote on. -/
def doubleQuoted? (cursor : Cursor) : Option (List Char × Cursor) :=
  let inside := cursor.along 1
  doubleFrom .none inside.line inside.column inside.rest

end Interchange.Yaml

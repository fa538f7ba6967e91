import Interchange.Yaml.Character

/-!
# Places in a document

A cursor is a place in a text: what follows, and the line and the column. Columns decide what
belongs to what, and lines decide what can be a key.

* `Cursor.along`, `Cursor.span`: going on in a line.
* `Cursor.toContent`: skipping what has no meaning.
-/

namespace Interchange.Yaml

/-- A place in a text. -/
structure Cursor where
  rest : List Char
  line : Nat
  column : Nat

namespace Cursor

/-- The start of a text. -/
def start (text : List Char) : Cursor :=
  ⟨text, 0, 0⟩

/-- The place `n` characters further in the same line. -/
def along (cursor : Cursor) (n : Nat) : Cursor :=
  ⟨cursor.rest.drop n, cursor.line, cursor.column + n⟩

/-- The place behind a line break, if there is one here. -/
def pastBreak (cursor : Cursor) : Cursor :=
  match cursor.rest with
  | [] => cursor
  | c :: rest => if isBreak c then ⟨rest, cursor.line + 1, 0⟩ else cursor

/-- The longest run of characters of a class, and the place behind it. No line break is in the
class. -/
def span (cursor : Cursor) (p : Char → Bool) : List Char × Cursor :=
  let run := cursor.rest.takeWhile p
  (run, cursor.along run.length)

/-- The place behind gaps. -/
def pastGaps (cursor : Cursor) : Cursor :=
  (cursor.span isGap).2

/-- The place behind gaps, a comment and a line break; `none` if something else stands in the
line. -/
def pastLine? (cursor : Cursor) : Option Cursor :=
  let here := cursor.pastGaps
  let stop := if startsWithAny ['#'] here.rest then (here.span fun c => !isBreak c).2 else here
  if atLineEnd stop.rest then some stop.pastBreak else none

/-- Skips gaps, comments and line breaks from a place in a line. `comment` says that the place is in
a comment. A tab does not count as a gap where a key may stand, and outside of brackets a key may
stand in every new line. The result says whether a key may stand at the place that is found. -/
def skipFrom (inFlow : Bool) :
    (comment keyAllowed : Bool) → (line column : Nat) → List Char → Cursor × Bool
  | _, keyAllowed, line, column, [] => (⟨[], line, column⟩, keyAllowed)
  | comment, keyAllowed, line, column, c :: rest =>
    if isBreak c then skipFrom inFlow false (keyAllowed || !inFlow) (line + 1) 0 rest
    else if comment then skipFrom inFlow true keyAllowed line (column + 1) rest
    else if c == ' ' || (c == '\t' && (inFlow || !keyAllowed)) ||
      (c == byteOrderMark && column == 0) then
      skipFrom inFlow false keyAllowed line (column + 1) rest
    else if c == '#' then skipFrom inFlow true keyAllowed line (column + 1) rest
    else (⟨c :: rest, line, column⟩, keyAllowed)

/-- The next place with a meaning, and whether a key may stand there. -/
def toContent (cursor : Cursor) (inFlow keyAllowed : Bool) : Cursor × Bool :=
  skipFrom inFlow false keyAllowed cursor.line cursor.column cursor.rest

end Cursor

end Interchange.Yaml

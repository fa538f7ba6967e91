import Interchange.Yaml.Cursor

/-!
# Scalars in lines of their own

A scalar may stand in the lines below its indicator, each indented by the same number of spaces.
Either its line breaks are kept, or they are folded between lines that do not start with a gap. The
header says what becomes of the breaks at its end.

* `blockScalar?`: such a scalar, from its indicator on.
-/

namespace Interchange.Yaml

/-- What becomes of the line breaks at the end: all are dropped, one is kept, or all are. -/
inductive Chomping where
  | strip
  | clip
  | keep
deriving DecidableEq, Repr

/-- The header of a scalar: what becomes of the breaks at its end, and by how much its lines are
indented, if that is given. -/
structure BlockHeader where
  chomping : Chomping
  increment : Option Nat

/-- The sign for what becomes of the breaks at the end. -/
def chomping? : Char → Option Chomping
  | '+' => some .keep
  | '-' => some .strip
  | _ => none

/-- Reads the two parts of a header in either order. Lines are indented by one space at least. -/
def blockHeader? (cursor : Cursor) : Option (BlockHeader × Cursor) :=
  match cursor.rest with
  | [] => some (⟨.clip, none⟩, cursor)
  | c :: rest =>
    match chomping? c with
    | some chomping =>
      match rest with
      | d :: _ =>
        if d == '0' then none
        else if d.isDigit then some (⟨chomping, some (d.toNat - 48)⟩, cursor.along 2)
        else some (⟨chomping, none⟩, cursor.along 1)
      | [] => some (⟨chomping, none⟩, cursor.along 1)
    | none =>
      if c == '0' then none
      else if c.isDigit then
        match rest.head?.bind chomping? with
        | some chomping => some (⟨chomping, some (c.toNat - 48)⟩, cursor.along 2)
        | none => some (⟨.clip, some (c.toNat - 48)⟩, cursor.along 1)
      else some (⟨.clip, none⟩, cursor)

/-- The breaks of empty lines, the widest indentation on the way, and the place of the next line
that is not empty. -/
structure EmptyLines where
  breaks : List Char
  widest : Nat
  stop : Cursor

/-- Skips empty lines and the indentation of the line behind them. The indentation is `indent` wide,
or as wide as it is if that is not known yet. It holds no tab. -/
def emptyLines (indent : Option Nat) :
    (widest line column : Nat) → List Char → Option EmptyLines
  | widest, line, column, [] => some ⟨[], max widest column, ⟨[], line, column⟩⟩
  | widest, line, column, c :: rest =>
    let inside := indent.all (column < ·)
    if c == ' ' && inside then emptyLines indent widest line (column + 1) rest
    else if c == '\t' && inside then none
    else if isBreak c then
      (emptyLines indent (max widest column) (line + 1) 0 rest).map fun found =>
        { found with breaks := c :: found.breaks }
    else some ⟨[], max widest column, ⟨c :: rest, line, column⟩⟩

/-- Empty lines from a place on. -/
def emptyLinesAt (indent : Option Nat) (cursor : Cursor) : Option EmptyLines :=
  emptyLines indent 0 cursor.line cursor.column cursor.rest

/-- Starts with a gap. -/
def startsWithGap (text : List Char) : Bool :=
  startsWithAny [' ', '\t'] text

/-- What stands between two lines: the break behind the first and the breaks of the empty lines. It
is folded if `folded` says so and the first break is no separator. -/
def joinLines (folded : Bool) (first empty : List Char) : List Char :=
  if folded && first == ['\n'] then (if empty.isEmpty then [' '] else empty) else first ++ empty

/-- Reads the lines of a scalar. `first` and `empty` are the breaks before the line, and `gap` says
that the line before starts with a gap. The result ends with the last break and the breaks behind
it, which are still to be chomped. `fuel` bounds the number of lines. -/
def blockLines (literal : Bool) (indent : Nat) :
    (fuel : Nat) → (gap : Bool) → (first empty : List Char) → Cursor →
    Option (List Char × List Char × List Char × Cursor)
  | 0, _, _, _, _ => none
  | fuel + 1, gap, first, empty, cursor =>
    if cursor.column != indent || cursor.rest.isEmpty then some ([], first, empty, cursor)
    else do
      let (content, lineEnd) := cursor.span fun c => !isBreak c
      let found ← emptyLinesAt (some indent) lineEnd.pastBreak
      let opening := startsWithGap cursor.rest
      let front := joinLines (!literal && !gap && !opening) first empty
      let (text, tail) ← blockLines literal indent fuel opening
        (lineEnd.rest.take 1) found.breaks found.stop
      return (front ++ content ++ text, tail)

/-- The breaks at the end of a scalar that stay. -/
def Chomping.tail (chomping : Chomping) (last empty : List Char) : List Char :=
  match chomping with
  | strip => []
  | clip => last
  | keep => last ++ empty

/-- Reads a scalar in lines of its own, from its indicator on. `least` is the least column at which
its lines may start. -/
def blockScalar? (literal : Bool) (least : Nat) (cursor : Cursor) :
    Option (List Char × Cursor) := do
  let (header, afterHeader) ← blockHeader? (cursor.along 1)
  let start ← afterHeader.pastLine?
  let given := header.increment.map (least - 1 + ·)
  let found ← emptyLinesAt given start
  let indent := given.getD (max (max found.widest least) 1)
  let (text, last, empty, stop) ←
    blockLines literal indent (cursor.rest.length + 1) false [] found.breaks found.stop
  return (text ++ header.chomping.tail last empty, stop)

end Interchange.Yaml

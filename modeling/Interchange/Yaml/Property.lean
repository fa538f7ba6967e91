import Interchange.Yaml.Cursor
import Interchange.Yaml.Token

/-!
# Anchors, tags and directives

A node may have an anchor, under which it is found again, and a tag, which names its type. A tag is
written in full or with a handle, and a directive in front of a document says what a handle stands
for.

* `anchor?`: the name of an anchor or of an alias.
* `tag?`: a tag.
* `directive?`: a directive.
-/

namespace Interchange.Yaml

/-! ## Anchors -/

/-- Characters that may follow the name of an anchor. -/
def anchorBreakers : List Char :=
  ['?', ':', ',', ']', closeBrace, '%', '@', backquote]

/-- Reads the name of an anchor or of an alias, from its indicator on. -/
def anchor? (cursor : Cursor) : Option (List Char × Cursor) :=
  let (name, stop) := (cursor.along 1).span isNameChar
  if name.isEmpty || !(atGap stop.rest || startsWithAny anchorBreakers stop.rest) then none
  else some (name, stop)

/-! ## Addresses -/

/-- Characters of an address that stand for themselves. Some of them only stand in a tag that is
written in full. -/
def isAddressChar (inFull : Bool) (c : Char) : Bool :=
  isNameChar c
    || [';', '/', '?', ':', '@', '&', '=', '+', '$', '.', '!', '~', '*', singleQuote,
      '(', ')'].contains c
    || (inFull && [',', '[', ']'].contains c)

/-- How many bytes a character has whose first byte is given. -/
def utf8Width? (byte : Nat) : Option Nat :=
  if byte < 0x80 then some 1
  else if 0xc0 ≤ byte ∧ byte < 0xe0 then some 2
  else if 0xe0 ≤ byte ∧ byte < 0xf0 then some 3
  else if 0xf0 ≤ byte ∧ byte < 0xf8 then some 4
  else none

/-- Reads an address and what follows it. A byte may be written as a percent sign and two digits;
`left` bytes of a character are still to come. Bytes stay single. -/
def addressFrom (inFull : Bool) : (left : Nat) → List Char → Option (List Char × List Char)
  | left, '%' :: a :: b :: rest => do
    let byte := 16 * (← hexValue? a) + (← hexValue? b)
    let width ← if left = 0 then utf8Width? byte
      else if 0x80 ≤ byte ∧ byte < 0xc0 then some left else none
    let (address, after) ← addressFrom inFull (width - 1) rest
    return (Char.ofNat byte :: address, after)
  | left, c :: rest =>
    if left != 0 || c == '%' then none
    else if isAddressChar inFull c then
      (addressFrom inFull 0 rest).map fun (address, after) => (c :: address, after)
    else some ([], c :: rest)
  | left, [] => if left = 0 then some ([], []) else none

/-- Reads an address at a place. -/
def address? (inFull : Bool) (cursor : Cursor) : Option (List Char × Cursor) := do
  let (address, after) ← addressFrom inFull 0 cursor.rest
  return (address, cursor.along (cursor.rest.length - after.length))

/-- The part of an address that counts: a zero byte ends it. -/
def beforeZero (address : List Char) : List Char :=
  address.takeWhile (· != '\x00')

/-! ## Tags -/

/-- Reads a handle: an exclamation mark, a name that may be empty, and perhaps a second mark. -/
def handle? (cursor : Cursor) : Option (List Char × Cursor) :=
  match cursor.rest with
  | '!' :: _ =>
    let (name, stop) := (cursor.along 1).span isNameChar
    if startsWithAny ['!'] stop.rest then some ('!' :: name ++ ['!'], stop.along 1)
    else some ('!' :: name, stop)
  | _ => none

/-- Reads the handle and the suffix of a tag. -/
def tagParts? (cursor : Cursor) : Option (List Char × List Char × Cursor) :=
  if startsWithAny ['<'] (cursor.rest.drop 1) then do
    let (address, stop) ← address? true (cursor.along 2)
    if address.isEmpty || !startsWithAny ['>'] stop.rest then none
    else return ([], beforeZero address, stop.along 1)
  else do
    let (handle, afterHandle) ← handle? cursor
    let (suffix, stop) ← address? false afterHandle
    if 1 < handle.length && handle.getLast? == some '!' then
      if suffix.isEmpty then none else return (handle, beforeZero suffix, stop)
    else
      let whole := beforeZero (handle.drop 1 ++ suffix)
      if whole.isEmpty then return ([], ['!'], stop) else return (['!'], whole, stop)

/-- Reads a tag. A gap follows it, or a comma between brackets. -/
def tag? (inFlow : Bool) (cursor : Cursor) : Option (Token × Cursor) := do
  let (handle, suffix, stop) ← tagParts? cursor
  if atGap stop.rest || (inFlow && startsWithAny [','] stop.rest) then
    return (.tag handle suffix, stop)
  else none

/-! ## Directives -/

/-- Reads a number of nine digits at most. -/
def number? (cursor : Cursor) : Option (Nat × Cursor) :=
  let (digits, stop) := cursor.span Char.isDigit
  if digits.isEmpty || 9 < digits.length then none
  else some (digits.foldl (fun n c => 10 * n + (c.toNat - 48)) 0, stop)

/-- Reads the two numbers of a version. -/
def versionDirective? (cursor : Cursor) : Option (Token × Cursor) := do
  let (major, dot) ← number? cursor.pastGaps
  if startsWithAny ['.'] dot.rest then
    let (minor, stop) ← number? (dot.along 1)
    return (.version major minor, stop)
  else none

/-- Reads a handle and the address that it stands for. -/
def handleDirective? (cursor : Cursor) : Option (Token × Cursor) := do
  let (handle, afterHandle) ← handle? cursor.pastGaps
  let closed := handle.length = 1 || handle.getLast? == some '!'
  let (address, stop) ← address? true afterHandle.pastGaps
  if closed && startsWithAny [' ', '\t'] afterHandle.rest && !address.isEmpty &&
    atGap stop.rest then
    return (.handle handle (beforeZero address), stop)
  else none

/-- Reads a directive with its line, from its percent sign on. -/
def directive? (cursor : Cursor) : Option (Token × Cursor) := do
  let (name, afterName) := (cursor.along 1).span isNameChar
  if atGap afterName.rest then
    let (token, stop) ←
      if name = ['Y', 'A', 'M', 'L'] then versionDirective? afterName
      else if name = ['T', 'A', 'G'] then handleDirective? afterName
      else none
    return (token, ← stop.pastLine?)
  else none

end Interchange.Yaml

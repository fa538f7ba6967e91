import Interchange.Yaml.BlockScalar
import Interchange.Yaml.Property
import Interchange.Yaml.Scalar

/-!
# From text to tokens

A text is read token by token. Whether something is a key only shows at the colon behind it, so its
place among the tokens is kept until then: a key stands in one line and is not longer than 1024
bytes. Outside of brackets, the column of a key opens a block, and what stands to the left of it
closes the block again.

* `Outline`: the tokens so far, with the blocks and keys that are open.
* `tokens?`: the tokens of a text.
-/

namespace Interchange.Yaml

/-- Something that is a key if a colon follows: its place among the tokens and in the text. -/
structure PossibleKey where
  place : Nat
  start : Cursor
  /-- It stands where a block has its keys, so that it has to be one. -/
  required : Bool

/-- The longest distance in bytes between the start of a key and its colon. -/
def keyLimit : Nat := 1024

/-- How many bytes there are from a place to a later one in the same line. -/
def Cursor.bytesTo (start stop : Cursor) : Nat :=
  (start.rest.take (stop.column - start.column)).foldl (fun size c => size + c.utf8Size) 0

/-- A colon at the cursor comes too late for the key. -/
def PossibleKey.isStale (key : PossibleKey) (cursor : Cursor) : Bool :=
  key.start.line < cursor.line || keyLimit < key.start.bytesTo cursor

/-- The tokens so far, and what is open. -/
structure Outline where
  cursor : Cursor
  tokens : Array Token
  /-- A key may stand here. -/
  keyAllowed : Bool
  /-- The columns of the open blocks, the innermost first. -/
  indents : List Nat
  /-- The last possible key in the innermost brackets, or outside of all. -/
  key : Option PossibleKey
  /-- The last possible key around each pair of open brackets, the innermost first. -/
  outerKeys : List (Option PossibleKey)

namespace Outline

def start (text : List Char) : Outline :=
  ⟨.start text, #[], true, [], none, []⟩

/-- Brackets are open. -/
def inFlow (outline : Outline) : Bool :=
  !outline.outerKeys.isEmpty

/-- The least column to the right of the innermost block. -/
def least (outline : Outline) : Nat :=
  match outline.indents with
  | [] => 0
  | column :: _ => column + 1

/-- Adds a token that ends at a place. -/
def push (outline : Outline) (token : Token) (stop : Cursor) : Outline :=
  { outline with tokens := outline.tokens.push token, cursor := stop }

/-- Adds a token of `n` characters. -/
def pushShort (outline : Outline) (token : Token) (n : Nat) : Outline :=
  outline.push token (outline.cursor.along n)

/-! ## Blocks -/

/-- Closes the blocks to the right of a column, or all blocks. Between brackets, columns have no
meaning. -/
def closeBlocks (outline : Outline) (column : Option Nat) : Outline :=
  if outline.inFlow then outline
  else
    let isRight (indent : Nat) : Bool := column.all (· < indent)
    let ends := (outline.indents.takeWhile isRight).map fun _ => Token.blockEnd
    { outline with
      tokens := outline.tokens ++ ends.toArray
      indents := outline.indents.dropWhile isRight }

/-- Opens a block at a column, unless it is open already. Its token goes to a place among the
tokens. -/
def openBlock (outline : Outline) (column place : Nat) (token : Token) : Outline :=
  if outline.inFlow || column < outline.least then outline
  else
    { outline with
      tokens := outline.tokens.insertIdxIfInBounds place token
      indents := column :: outline.indents }

/-- Opens a block at the cursor. -/
def openBlockHere (outline : Outline) (token : Token) : Outline :=
  outline.openBlock outline.cursor.column outline.tokens.size token

/-! ## Keys -/

/-- What is here is no key; `none` if it has to be one. -/
def dropKey (outline : Outline) : Option Outline :=
  if outline.key.any (·.required) then none else some { outline with key := none }

/-- What follows may be a key. -/
def expectKey (outline : Outline) : Option Outline :=
  if outline.keyAllowed then do
    let dropped ← outline.dropKey
    let key : PossibleKey := {
      place := outline.tokens.size
      start := outline.cursor
      required := !outline.inFlow && outline.indents.head? == some outline.cursor.column }
    return { dropped with key := some key }
  else some outline

/-- Drops the possible keys for which a colon would come too late; `none` if one of them has to be a
key. -/
def dropStale (outline : Outline) : Option Outline :=
  let isStale (key : PossibleKey) : Bool := key.isStale outline.cursor
  let keys := outline.key :: outline.outerKeys
  if keys.any fun key => key.any fun k => isStale k && k.required then none
  else
    some { outline with
      key := outline.key.filter fun k => !isStale k
      outerKeys := outline.outerKeys.map fun key => key.filter fun k => !isStale k }

/-! ## Tokens -/

/-- The start or the end of a document: all blocks end here. -/
def marker (outline : Outline) (token : Token) : Option Outline := do
  let closed ← (outline.closeBlocks none).dropKey
  return { closed with keyAllowed := false }.pushShort token 3

def directive (outline : Outline) : Option Outline := do
  let closed ← (outline.closeBlocks none).dropKey
  let (token, stop) ← directive? closed.cursor
  return { closed with keyAllowed := false }.push token stop

def openBracket (outline : Outline) (token : Token) : Option Outline := do
  let saved ← outline.expectKey
  return { saved with
    key := none
    outerKeys := saved.key :: saved.outerKeys
    keyAllowed := true }.pushShort token 1

def closeBracket (outline : Outline) (token : Token) : Option Outline := do
  let dropped ← outline.dropKey
  let closed := match dropped.outerKeys with
    | [] => dropped
    | key :: outer => { dropped with key := key, outerKeys := outer }
  return { closed with keyAllowed := false }.pushShort token 1

def comma (outline : Outline) : Option Outline := do
  let dropped ← outline.dropKey
  return { dropped with keyAllowed := true }.pushShort .flowEntry 1

/-- The hyphen of an entry. Outside of brackets it stands where a key may stand. -/
def hyphen (outline : Outline) : Option Outline := do
  if outline.inFlow || outline.keyAllowed then
    let dropped ← (outline.openBlockHere .blockSequenceStart).dropKey
    return { dropped with keyAllowed := true }.pushShort .blockEntry 1
  else none

/-- The question mark in front of a key. -/
def question (outline : Outline) : Option Outline := do
  if outline.inFlow || outline.keyAllowed then
    let dropped ← (outline.openBlockHere .blockMappingStart).dropKey
    return { dropped with keyAllowed := !outline.inFlow }.pushShort .key 1
  else none

/-- The colon behind a key. If there is a possible key, it is one now; otherwise the key is empty or
was announced by a question mark. -/
def colon (outline : Outline) : Option Outline :=
  match outline.key with
  | some key =>
    let keyed := { outline with
      tokens := outline.tokens.insertIdxIfInBounds key.place .key
      key := none
      keyAllowed := false }
    some ((keyed.openBlock key.start.column key.place .blockMappingStart).pushShort .value 1)
  | none =>
    if outline.inFlow || outline.keyAllowed then
      some ({ outline.openBlockHere .blockMappingStart with
        keyAllowed := !outline.inFlow }.pushShort .value 1)
    else none

/-- A token that may be a key or the front of one. -/
def content (outline : Outline) (read : Cursor → Option (Token × Cursor)) : Option Outline := do
  let saved ← outline.expectKey
  let (token, stop) ← read saved.cursor
  return { saved with keyAllowed := false }.push token stop

/-- A plain scalar. If its line ends with it, a key may follow. -/
def plain (outline : Outline) : Option Outline := do
  let saved ← outline.expectKey
  let scalar ← plain? saved.inFlow saved.least saved.cursor
  return { saved with keyAllowed := scalar.broken }.push (.scalar scalar.text true) scalar.stop

/-- A scalar in lines of its own. -/
def block (outline : Outline) (literal : Bool) : Option Outline := do
  let dropped ← outline.dropKey
  let (text, stop) ← blockScalar? literal dropped.least dropped.cursor
  return { dropped with keyAllowed := true }.push (.scalar text false) stop

/-- Reads the token that starts with a character. -/
def next (outline : Outline) (c : Char) (rest : List Char) : Option Outline :=
  let lineStart := outline.cursor.column == 0
  let apart := outline.inFlow || atGap rest
  if lineStart && c == '%' then outline.directive
  else if lineStart && atStartMarker (c :: rest) then outline.marker .documentStart
  else if lineStart && atEndMarker (c :: rest) then outline.marker .documentEnd
  else if c == '[' then outline.openBracket .flowSequenceStart
  else if c == openBrace then outline.openBracket .flowMappingStart
  else if c == ']' then outline.closeBracket .flowSequenceEnd
  else if c == closeBrace then outline.closeBracket .flowMappingEnd
  else if c == ',' then outline.comma
  else if c == '-' && atGap rest then outline.hyphen
  else if c == '?' && apart then outline.question
  else if c == ':' && apart then outline.colon
  else if c == '*' then
    outline.content fun cursor => (anchor? cursor).map fun (n, s) => (.alias n, s)
  else if c == '&' then
    outline.content fun cursor => (anchor? cursor).map fun (n, s) => (.anchor n, s)
  else if c == '!' then outline.content (tag? outline.inFlow)
  else if c == '|' && !outline.inFlow then outline.block true
  else if c == '>' && !outline.inFlow then outline.block false
  else if c == singleQuote then
    outline.content fun cursor => (singleQuoted? cursor).map fun (t, s) => (.scalar t false, s)
  else if c == '"' then
    outline.content fun cursor => (doubleQuoted? cursor).map fun (t, s) => (.scalar t false, s)
  else if startsPlain outline.inFlow (c :: rest) then outline.plain
  else none

/-- Goes to the next token and closes the blocks that end before it. -/
def advance (outline : Outline) : Option Outline := do
  let (cursor, keyAllowed) := outline.cursor.toContent outline.inFlow outline.keyAllowed
  let fresh ← { outline with cursor, keyAllowed }.dropStale
  return fresh.closeBlocks (some cursor.column)

/-- Reads tokens to the end. Every token has a character at least, so `fuel` bounds their number. -/
def run : (fuel : Nat) → Outline → Option (List Token)
  | 0, _ => none
  | fuel + 1, outline => do
    let here ← outline.advance
    match here.cursor.rest with
    | [] => return (← (here.closeBlocks none).dropKey).tokens.toList
    | c :: rest => run fuel (← here.next c rest)

end Outline

/-- The tokens of a text. -/
def tokens? (text : String) : Option (List Token) :=
  let chars := text.toList
  if chars.all isAllowed then Outline.run (chars.length + 1) (.start (unifyBreaks chars)) else none

end Interchange.Yaml

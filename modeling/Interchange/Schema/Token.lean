import Interchange.Text.Quoted

/-!
# Tokens

The words, numbers and symbols of a schema text, each with the place where it starts.
-/

namespace Interchange.Schema

/-! ## Places in a text -/

/-- Line and column of a character, both counted from 1. -/
structure Span where
  line : Nat
  column : Nat
deriving DecidableEq, Repr

namespace Span

/-- The place of the first character of a text. -/
def start : Span :=
  ⟨1, 1⟩

/-- The place after one character. -/
def step (span : Span) (c : Char) : Span :=
  if c = '\n' then ⟨span.line + 1, 1⟩ else ⟨span.line, span.column + 1⟩

/-- The place after some text. -/
def advance (span : Span) (text : List Char) : Span :=
  text.foldl step span

def text (span : Span) : String :=
  toString span.line ++ ":" ++ toString span.column

end Span

/-! ## Symbols and tokens -/

/-- A punctuation character. -/
inductive Symbol where
  | leftBrace
  | rightBrace
  | leftParen
  | rightParen
  | leftAngle
  | rightAngle
  | leftBracket
  | rightBracket
  | comma
  | semicolon
  | equals
  | atSign
  | dot
deriving DecidableEq, Repr

namespace Symbol

def char : Symbol → Char
  | leftBrace => Char.ofNat 0x7b
  | rightBrace => Char.ofNat 0x7d
  | leftParen => '('
  | rightParen => ')'
  | leftAngle => '<'
  | rightAngle => '>'
  | leftBracket => '['
  | rightBracket => ']'
  | comma => ','
  | semicolon => ';'
  | equals => '='
  | atSign => '@'
  | dot => '.'

def all : List Symbol :=
  [leftBrace, rightBrace, leftParen, rightParen, leftAngle, rightAngle, leftBracket, rightBracket,
    comma, semicolon, equals, atSign, dot]

/-- The symbol of a character. -/
def ofChar? (c : Char) : Option Symbol :=
  all.find? fun symbol => symbol.char == c

theorem ofChar?_char (symbol : Symbol) : ofChar? symbol.char = some symbol := by
  cases symbol <;> decide

end Symbol

/-- A token. Keywords are identifiers. -/
inductive Token where
  | identifier (name : String)
  | integer (value : Nat)
  | symbol (symbol : Symbol)
deriving DecidableEq, Repr

/-- How a message names a token. -/
def Token.text : Token → String
  | identifier name => "identifier " ++ Text.quote name
  | integer value => "integer " ++ toString value
  | symbol s => "'" ++ s.char.toString ++ "'"

/-- How a message names what was found, which may be the end of the text. -/
def Token.textOrEnd : Option Token → String
  | some token => token.text
  | none => "end of file"

/-- A token and its place. -/
structure Located where
  token : Token
  span : Span
deriving DecidableEq, Repr

/-- The tokens of a text and the place where the text ends. -/
structure Tokens where
  items : List Located
  stop : Span
deriving DecidableEq, Repr

end Interchange.Schema

import Interchange.Schema.Token

/-!
# Faults of a schema text

What can be wrong with the text of one file, before any name is looked up: stretches that are no
token, and the first token that does not fit the grammar.
-/

namespace Interchange.Schema

/-- What the grammar asks for at a place. -/
inductive Expectation where
  | statement
  | namespaceName
  | parameterName
  | declarationName
  | fieldName
  | fieldId
  | variantName
  | variantValue
  | serviceName
  | serviceMember
  | optionName
  | optionNumber
  | optionContent
  | typeName
  | symbol (symbol : Symbol)
deriving DecidableEq, Repr

def Expectation.text : Expectation → String
  | statement => "'namespace', 'message', 'tag' or 'service'"
  | namespaceName => "namespace name"
  | parameterName => "template parameter name"
  | declarationName => "declaration name"
  | fieldName => "field name"
  | fieldId => "field id"
  | variantName => "tag field name"
  | variantValue => "tag value"
  | serviceName => "service name"
  | serviceMember => "'@' option or '\x7d'"
  | optionName => "option name"
  | optionNumber => "option value"
  | optionContent => "integer, integer list or type"
  | typeName => "type name"
  | symbol s => (Token.symbol s).text

/-- One thing that is wrong with a text. -/
inductive Fault where
  /-- A stretch in which no token starts. -/
  | unexpectedText (text : String)
  | unterminatedComment
  /-- A number of 2^64 or more. -/
  | integerTooLarge (digits : String)
  | expected (wanted : Expectation) (found : Option Token)
  /-- An id or value of 2^32 or more. -/
  | tooWide (what : Expectation) (value : Nat)
  | duplicateParameter (name : String)
  | repeatedFileNamespace
  | lateFileNamespace
  | nestedFileNamespace
deriving DecidableEq, Repr

def Fault.message : Fault → String
  | unexpectedText text => "unexpected character(s) " ++ Text.quote text
  | unterminatedComment => "unterminated block comment"
  | integerTooLarge digits => "integer literal " ++ digits ++ " is too large"
  | expected wanted found => "expected " ++ wanted.text ++ ", found " ++ Token.textOrEnd found
  | tooWide what value => what.text ++ " " ++ toString value ++ " does not fit 32 bits"
  | duplicateParameter name => "duplicate template parameter " ++ Text.quote name
  | repeatedFileNamespace => "only one global namespace statement is allowed per file"
  | lateFileNamespace => "the global namespace statement must be the first statement"
  | nestedFileNamespace => "a global namespace statement cannot appear inside a namespace block"

/-- A fault and its place. -/
structure FaultAt where
  span : Span
  fault : Fault
deriving DecidableEq, Repr

/-- A fault, its place and its file. -/
structure Diagnostic where
  path : String
  span : Span
  fault : Fault
deriving DecidableEq, Repr

def Diagnostic.text (d : Diagnostic) : String :=
  d.path ++ ":" ++ d.span.text ++ ": " ++ d.fault.message

end Interchange.Schema

/-!
# Tokens of a document

A document is a sequence of tokens. Indentation is turned into tokens too: a block starts where a
column further to the right is reached, and ends where it is left again.
-/

namespace Interchange.Yaml

/-- A token. The end of a document has none. -/
inductive Token where
  | version (major minor : Nat)
  | handle (handle address : List Char)
  | documentStart
  | documentEnd
  | blockSequenceStart
  | blockMappingStart
  | blockEnd
  | flowSequenceStart
  | flowSequenceEnd
  | flowMappingStart
  | flowMappingEnd
  | blockEntry
  | flowEntry
  | key
  | value
  | alias (name : List Char)
  | anchor (name : List Char)
  | tag (handle suffix : List Char)
  /-- `plain` says that the scalar is neither quoted nor in lines of its own. -/
  | scalar (text : List Char) (plain : Bool)
deriving DecidableEq, Repr

end Interchange.Yaml

import Interchange.Text.Ranges

/-!
# White space

The characters with the Unicode property `White_Space`. They separate tokens, and a project name
made of nothing else counts as empty.
-/

namespace Interchange.Text

/-- The code points of white space. -/
def blankRanges : Ranges := [
  (0x9, 0xd), (0x20, 0x20), (0x85, 0x85), (0xa0, 0xa0), (0x1680, 0x1680), (0x2000, 0x200a),
  (0x2028, 0x2029), (0x202f, 0x202f), (0x205f, 0x205f), (0x3000, 0x3000)]

/-- White space: the ASCII blanks, the no-break space and the spaces and separators above them. -/
def isBlank (c : Char) : Bool :=
  blankRanges.contains c.toNat

/-- `text` without the white space at its two ends. -/
def trimBlank (text : List Char) : List Char :=
  ((text.dropWhile isBlank).reverse.dropWhile isBlank).reverse

end Interchange.Text

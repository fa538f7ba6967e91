import Interchange.Text.DecimalDigit

/-!
# Project versions

A version is three numbers with dots between them. A hyphen and a label may follow, and the label
has one character at least. The digits may be those of any script.
-/

namespace Interchange.Settings

/-- A character of the label of a version. -/
def isLabelChar (c : Char) : Bool :=
  c.isAlphanum || c == '.' || c == '-'

/-- What follows the third number. -/
def isLabel : List Char → Bool
  | [] => true
  | c :: label => c == '-' && !label.isEmpty && label.all isLabelChar

/-- `count` more numbers with dots between them, and then a label or nothing. -/
def isVersionTail : (count : Nat) → List Char → Bool
  | 0, text => isLabel text
  | count + 1, text =>
    let digits := text.takeWhile Text.isDecimalDigit
    let rest := text.dropWhile Text.isDecimalDigit
    !digits.isEmpty &&
      match count, rest with
      | 0, rest => isLabel rest
      | count + 1, '.' :: rest => isVersionTail (count + 1) rest
      | _ + 1, _ => false

/-- The text is a version. -/
def isVersion (text : String) : Bool :=
  isVersionTail 3 text.toList

end Interchange.Settings

import Interchange.Schema.Fault
import Interchange.Text.Blank

/-!
# From text to tokens

A text is cut into lexemes from left to right. A lexeme is a run of blanks, a comment, a word, a run
of digits or a symbol, and each is as long as it can be; a block comment ends at its first `*/`.
Where no lexeme starts, the stretch up to the next place where one does is reported, and scanning
goes on behind it. A stretch that begins with `/*` is a comment without an end: it is reported as
such and ends the scan.

* `lexeme?_split`: a lexeme and what follows it make up the text.
* `scan`: the tokens and the faults of a text in order.
-/

namespace Interchange.Schema

/-! ## Lexemes -/

/-- The classes of lexemes. -/
inductive LexemeKind where
  | blank
  | comment
  | word
  | number
  | symbol (symbol : Symbol)
deriving DecidableEq, Repr

/-- A lexeme: its class and its text. -/
structure Lexeme where
  kind : LexemeKind
  text : List Char
deriving DecidableEq, Repr

/-- Words start with an ASCII letter or an underscore. -/
def isWordStart (c : Char) : Bool :=
  c.isAlpha || c == '_'

/-- Words go on with ASCII letters, ASCII digits and underscores. -/
def isWordPart (c : Char) : Bool :=
  c.isAlphanum || c == '_'

/-- The inside of a block comment with its closing mark, and what follows it. -/
def commentEnd? : List Char → Option (List Char × List Char)
  | [] => none
  | '*' :: '/' :: rest => some (['*', '/'], rest)
  | c :: rest => (commentEnd? rest).map fun (inside, after) => (c :: inside, after)

/-- A lexeme that starts with `c` and takes the run of characters that satisfy `p`. -/
def runLexeme (kind : LexemeKind) (p : Char → Bool) (c : Char) (rest : List Char) :
    Lexeme × List Char :=
  (⟨kind, c :: rest.takeWhile p⟩, rest.dropWhile p)

/-- The comment whose first slash has been read. -/
def commentLexeme? : List Char → Option (Lexeme × List Char)
  | '/' :: rest =>
    some (⟨.comment, '/' :: '/' :: rest.takeWhile (· != '\n')⟩, rest.dropWhile (· != '\n'))
  | '*' :: rest =>
    (commentEnd? rest).map fun (inside, after) => (⟨.comment, '/' :: '*' :: inside⟩, after)
  | _ => none

/-- The lexeme at the start of a text and the text behind it. -/
def lexeme? : List Char → Option (Lexeme × List Char)
  | [] => none
  | c :: rest =>
    if Text.isBlank c then some (runLexeme .blank Text.isBlank c rest)
    else if c = '/' then commentLexeme? rest
    else if isWordStart c then some (runLexeme .word isWordPart c rest)
    else if c.isDigit then some (runLexeme .number Char.isDigit c rest)
    else (Symbol.ofChar? c).map fun symbol => (⟨.symbol symbol, [c]⟩, rest)

theorem commentEnd?_split {text inside after : List Char}
    (h : commentEnd? text = some (inside, after)) :
    inside ++ after = text := by
  fun_induction commentEnd? text generalizing inside after with
  | case1 => cases h
  | case2 rest => cases h; rfl
  | case3 c rest _ ih =>
    obtain ⟨p, hp, hsome⟩ := Option.map_eq_some_iff.1 h
    cases hsome
    simp [ih hp]

theorem commentLexeme?_split {rest after : List Char} {l : Lexeme}
    (h : commentLexeme? rest = some (l, after)) : l.text ≠ [] ∧ l.text ++ after = '/' :: rest := by
  unfold commentLexeme? at h
  split at h
  · cases h
    simp
  · obtain ⟨p, hp, hsome⟩ := Option.map_eq_some_iff.1 h
    cases hsome
    simp [commentEnd?_split hp]
  · cases h

/-- A lexeme is not empty, and it is the front of the text. -/
theorem lexeme?_split {text rest : List Char} {l : Lexeme} (h : lexeme? text = some (l, rest)) :
    l.text ≠ [] ∧ l.text ++ rest = text := by
  cases text with
  | nil => cases h
  | cons c tail =>
    simp only [lexeme?] at h
    split at h
    · cases h
      simp
    · split at h
      · rename_i hc
        subst hc
        exact commentLexeme?_split h
      · split at h
        · cases h
          simp
        · split at h
          · cases h
            simp
          · obtain ⟨s, _, hsome⟩ := Option.map_eq_some_iff.1 h
            cases hsome
            simp

theorem lexeme?_length {text rest : List Char} {l : Lexeme} (h : lexeme? text = some (l, rest)) :
    rest.length < text.length := by
  obtain ⟨hne, hsplit⟩ := lexeme?_split h
  have hpos : 0 < l.text.length := List.length_pos_iff.2 hne
  rw [← hsplit, List.length_append]
  omega

/-- The number that a run of decimal digits writes. -/
def digitsValue (digits : List Char) : Nat :=
  digits.foldl (fun value c => 10 * value + (c.toNat - 48)) 0

/-- The token of a lexeme; blanks and comments have none. -/
def Lexeme.token? (l : Lexeme) : Except Fault (Option Token) :=
  match l.kind with
  | .blank => .ok none
  | .comment => .ok none
  | .word => .ok (some (.identifier (String.ofList l.text)))
  | .number =>
    let value := digitsValue l.text
    if value < UInt64.size then .ok (some (.integer value))
    else .error (.integerTooLarge (String.ofList l.text))
  | .symbol s => .ok (some (.symbol s))

/-! ## Stretches without a lexeme -/

/-- The longest front of a text in which no lexeme starts, and the text behind it. -/
def stretch : List Char → List Char × List Char
  | [] => ([], [])
  | c :: rest =>
    if (lexeme? (c :: rest)).isSome then ([], c :: rest)
    else
      let (front, after) := stretch rest
      (c :: front, after)

theorem stretch_split (text : List Char) : (stretch text).1 ++ (stretch text).2 = text := by
  induction text with
  | nil => rfl
  | cons c rest ih =>
    unfold stretch
    split
    · rfl
    · simp [ih]

theorem stretch_length {c : Char} {rest : List Char} (h : lexeme? (c :: rest) = none) :
    (stretch (c :: rest)).2.length < (c :: rest).length := by
  have hsplit := congrArg List.length (stretch_split rest)
  simp only [List.length_append] at hsplit
  simp only [stretch, h, Option.isSome_none, Bool.false_eq_true, ↓reduceIte, List.length_cons]
  omega

/-! ## The scan -/

/-- What a scan has found. -/
structure Scanned where
  tokens : List Located
  faults : List FaultAt
  stop : Span
deriving DecidableEq, Repr

/-- Adds what one lexeme at `span` gives. -/
def Scanned.add (found : Scanned) (span : Span) : Except Fault (Option Token) → Scanned
  | .ok none => found
  | .ok (some token) => { found with tokens := ⟨token, span⟩ :: found.tokens }
  | .error fault => { found with faults := ⟨span, fault⟩ :: found.faults }

/-- Scans the text that starts at `span`. -/
def scan (span : Span) : (text : List Char) → Scanned
  | [] => ⟨[], [], span⟩
  | c :: tail =>
    match _hl : lexeme? (c :: tail) with
    | some (l, rest) => (scan (span.advance l.text) rest).add span l.token?
    | none =>
      let front := (stretch (c :: tail)).1
      if ['/', '*'].isPrefixOf front then ⟨[], [⟨span, .unterminatedComment⟩], span⟩
      else
        (scan (span.advance front) (stretch (c :: tail)).2).add span
          (.error (.unexpectedText (String.ofList front)))
termination_by text => text.length
decreasing_by
  · exact lexeme?_length _hl
  · exact stretch_length _hl

/-- The tokens of a text, or every fault in it. -/
def tokenize (text : String) : Except (List FaultAt) Tokens :=
  let found := scan Span.start text.toList
  if found.faults.isEmpty then .ok ⟨found.tokens, found.stop⟩ else .error found.faults

end Interchange.Schema

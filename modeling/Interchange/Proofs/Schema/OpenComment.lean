import Interchange.Proofs.Schema.Segmentation

/-!
# Comments without an end

A text may hold a `/*` that no `*/` closes. The scanner says so, as the last of its faults, if it
comes to the mark behind a lexeme or at the start of the text. Where no lexeme starts, however, it
takes the whole stretch up to the next lexeme for one fault. A comment that opens inside such a
stretch is not noticed: its mark is part of what was not expected, and the text behind it is scanned
as if it were no comment.

* `ReachesOpen`: the way through a text to the first comment without an end.
* `ReachesOpen.stretch`: how it passes a stretch without a lexeme.
* `scan_openComment`: what the scanner says about the comment.
* `tokenize_openComment`: it is reported exactly if no character was passed over right before it.
-/

namespace Interchange.Schema

/-- A block comment starts here and does not end. -/
def OpensComment (text : List Char) : Prop :=
  ∃ inside, text = '/' :: '*' :: inside ∧ ¬ ['*', '/'] <:+: inside

/-- What is behind on the way through a text. -/
inductive Piece where
  | lexeme (l : Lexeme)
  /-- A character where no lexeme starts. -/
  | passed (c : Char)

def Piece.text : Piece → List Char
  | lexeme l => l.text
  | passed c => [c]

/-- Going through a text from left to right, lexeme by lexeme, and passing one character where no
lexeme starts, leads to a comment without an end. It is the first one. -/
inductive ReachesOpen : (text : List Char) → List Piece → (rest : List Char) → Prop
  | here {text : List Char} (hOpens : OpensComment text) : ReachesOpen text [] text
  | lexeme {text middle rest : List Char} {l : Lexeme} {pieces : List Piece}
      (hLeads : Leads text l middle) (hOthers : ReachesOpen middle pieces rest) :
      ReachesOpen text (.lexeme l :: pieces) rest
  | passed {c : Char} {tail rest : List Char} {pieces : List Piece} (hStuck : Stuck (c :: tail))
      (hClosed : ¬ OpensComment (c :: tail)) (hOthers : ReachesOpen tail pieces rest) :
      ReachesOpen (c :: tail) (.passed c :: pieces) rest

theorem ReachesOpen.opensComment {text rest : List Char} (hReaches : ReachesOpen text [] rest) :
    OpensComment text := by
  cases hReaches with
  | here hOpens => exact hOpens

/-! ## Stretches -/

/-- No lexeme starts with the second character of the mark that opens comments. -/
theorem lexeme?_star (tail : List Char) : lexeme? ('*' :: tail) = none := by
  have hBlank : Text.isBlank '*' = false := by decide
  have hStart : isWordStart '*' = false := by decide
  have hDigit : '*'.isDigit = false := by decide
  have hSymbol : Symbol.ofChar? '*' = none := by decide
  simp [lexeme?, hBlank, hStart, hDigit, hSymbol]

theorem lexeme?_open_eq_none_iff {inside : List Char} :
    lexeme? ('/' :: '*' :: inside) = none ↔ ¬ ['*', '/'] <:+: inside := by
  have hBlank : Text.isBlank '/' = false := by decide
  rw [← commentEnd?_eq_none_iff]
  simp [lexeme?, hBlank, commentLexeme?]

theorem OpensComment.lexeme?_eq_none {text : List Char} (hOpens : OpensComment text) :
    lexeme? text = none := by
  obtain ⟨inside, rfl, hInside⟩ := hOpens
  exact lexeme?_open_eq_none_iff.2 hInside

theorem Stuck.lexeme?_eq_none {text : List Char} (hStuck : Stuck text) : lexeme? text = none := by
  cases hLexeme : lexeme? text with
  | none => rfl
  | some pair => exact absurd (lexeme?_eq_some_iff.1 hLexeme) (hStuck.2 _ _)

theorem scan_of_stretch {span : Span} {c : Char} {tail front after : List Char}
    (hNone : lexeme? (c :: tail) = none) (hStretch : stretch (c :: tail) = (front, after))
    (hOther : ['/', '*'].isPrefixOf front = false) :
    scan span (c :: tail) = (scan (span.advance front) after).add span
      (.error (.unexpectedText (String.ofList front))) := by
  rw [scan]
  split
  next hSome => cases hNone.symm.trans hSome
  next => simp [hStretch, hOther]

theorem stretch_of_none {c : Char} {tail : List Char} (hNone : lexeme? (c :: tail) = none) :
    stretch (c :: tail) = (c :: (stretch tail).1, (stretch tail).2) := by
  simp [stretch, hNone]

/-- A comment that does not end is no lexeme, and neither is what starts with its second
character. -/
theorem OpensComment.stretch {text : List Char} (hOpens : OpensComment text) :
    ∃ more, (stretch text).1 = '/' :: '*' :: more := by
  have hNone := hOpens.lexeme?_eq_none
  obtain ⟨inside, rfl, _⟩ := hOpens
  rw [stretch_of_none hNone, stretch_of_none (lexeme?_star inside)]
  exact ⟨_, rfl⟩

/-- A stretch ends where the text does or where a lexeme starts. -/
theorem not_opensComment_stretch (text : List Char) : ¬ OpensComment (stretch text).2 := by
  induction text with
  | nil =>
    rintro ⟨inside, hEmpty, _⟩
    cases hEmpty
  | cons c tail ih =>
    unfold Schema.stretch
    split
    next hSome =>
      intro hOpens
      rw [hOpens.lexeme?_eq_none] at hSome
      cases hSome
    next => exact ih

/-- A stretch is passed character by character, unless the comment opens inside it. -/
theorem ReachesOpen.stretch {text rest : List Char} {pieces : List Piece}
    (hReaches : ReachesOpen text pieces rest) :
    (∃ more, pieces = (stretch text).1.map .passed ++ more ∧
      ReachesOpen (stretch text).2 more rest) ∨
      ∃ front back, (stretch text).1 = front ++ back ∧ pieces = front.map .passed ∧
        stretch rest = (back, (stretch text).2) ∧ OpensComment rest := by
  induction hReaches with
  | here hOpens => exact Or.inr ⟨[], _, rfl, rfl, rfl, hOpens⟩
  | @lexeme text middle rest l pieces hLeads hOthers _ =>
    have hNothing : Schema.stretch text = ([], text) := by
      cases text with
      | nil => rfl
      | cons c tail => simp [Schema.stretch, hLeads.lexeme?_eq]
    rw [hNothing]
    exact Or.inl ⟨_, rfl, .lexeme hLeads hOthers⟩
  | @passed c tail rest pieces hStuck hClosed hOthers ih =>
    rw [stretch_of_none hStuck.lexeme?_eq_none]
    rcases ih with ⟨more, rfl, hMore⟩ | ⟨front, back, hSplit, rfl, hRest, hOpens⟩
    · exact Or.inl ⟨more, rfl, hMore⟩
    · exact Or.inr ⟨c :: front, back, congrArg (List.cons c) hSplit, rfl, hRest, hOpens⟩

/-! ## Faults -/

/-- The last piece is a character where no lexeme starts. -/
def PassedLast (pieces : List Piece) : Prop :=
  ∃ c, pieces.getLast? = some (.passed c)

/-- The last fault is a comment without an end at a place. All other faults are before it and of
other kinds. -/
def EndsOpen (place : Span) (faults : List FaultAt) : Prop :=
  ∃ earlier, faults = earlier ++ [⟨place, .unterminatedComment⟩] ∧
    ∀ fault ∈ earlier, fault.span.Before place ∧ fault.fault ≠ .unterminatedComment

/-- A mark that opens a comment stands behind some text. It is part of a stretch of unexpected text
that starts earlier, and no fault is at its own place. -/
def Swallowed (before walked : List Char) (faults : List FaultAt) : Prop :=
  (∃ front passed more, walked = front ++ passed ∧ passed ≠ [] ∧
    ⟨Span.behind (before ++ front),
      .unexpectedText (String.ofList (passed ++ '/' :: '*' :: more))⟩ ∈ faults) ∧
  ∀ fault ∈ faults, fault.span ≠ Span.behind (before ++ walked)

theorem passedLast_append {pieces : List Piece} (hSome : pieces ≠ []) (others : List Piece) :
    PassedLast (others ++ pieces) ↔ PassedLast pieces := by
  rw [PassedLast, PassedLast, List.getLast?_append,
    List.getLast?_eq_some_getLast hSome, Option.some_or]

theorem passedLast_cons_lexeme (l : Lexeme) (pieces : List Piece) :
    PassedLast (.lexeme l :: pieces) ↔ PassedLast pieces := by
  cases pieces with
  | nil => simp [PassedLast]
  | cons piece rest => exact passedLast_append (List.cons_ne_nil _ _) [.lexeme l]

theorem EndsOpen.cons {place span : Span} {faults : List FaultAt} {fault : Fault}
    (hFaults : EndsOpen place faults) (hBefore : span.Before place)
    (hOther : fault ≠ .unterminatedComment) : EndsOpen place (⟨span, fault⟩ :: faults) := by
  obtain ⟨earlier, rfl, hEarlier⟩ := hFaults
  exact ⟨⟨span, fault⟩ :: earlier, rfl, List.forall_mem_cons.2 ⟨⟨hBefore, hOther⟩, hEarlier⟩⟩

section

variable {before front walked : List Char} {faults : List FaultAt}

theorem Swallowed.behind (hFaults : Swallowed (before ++ front) walked faults) :
    Swallowed before (front ++ walked) faults := by
  obtain ⟨⟨others, passed, more, rfl, hPassed, hMem⟩, hPlaces⟩ := hFaults
  rw [List.append_assoc] at hMem hPlaces
  exact ⟨⟨front ++ others, passed, more, (List.append_assoc _ _ _).symm, hPassed, hMem⟩, hPlaces⟩

theorem Swallowed.cons (hFaults : Swallowed (before ++ front) walked faults) (hFront : front ≠ [])
    (fault : Fault) :
    Swallowed before (front ++ walked) (⟨Span.behind before, fault⟩ :: faults) := by
  obtain ⟨⟨others, passed, more, hWalked, hPassed, hMem⟩, hPlaces⟩ := hFaults.behind
  refine ⟨⟨others, passed, more, hWalked, hPassed, List.mem_cons_of_mem _ hMem⟩,
    List.forall_mem_cons.2 ⟨?_, hPlaces⟩⟩
  exact (Span.behind_before before (by simp [hFront])).ne

end

/-- What the scanner says about a comment without an end. -/
structure CommentVerdict (before : List Char) (pieces : List Piece)
    (faults : List FaultAt) : Prop where
  reported : ¬ PassedLast pieces →
    EndsOpen (Span.behind (before ++ pieces.flatMap Piece.text)) faults
  swallowed : PassedLast pieces → Swallowed before (pieces.flatMap Piece.text) faults

theorem CommentVerdict.lexeme {before : List Char} {l : Lexeme} {pieces : List Piece}
    {found : Scanned} (hVerdict : CommentVerdict (before ++ l.text) pieces found.faults)
    (hText : l.text ≠ []) :
    CommentVerdict before (.lexeme l :: pieces)
      (found.add (Span.behind before) l.token?).faults := by
  have hWalked : (Piece.lexeme l :: pieces).flatMap Piece.text =
      l.text ++ pieces.flatMap Piece.text := rfl
  by_cases hFits : l.Representable
  · rw [hFits.token?_eq, Scanned.add_ok_faults]
    constructor
    · rw [passedLast_cons_lexeme, hWalked, ← List.append_assoc]
      exact hVerdict.reported
    · rw [passedLast_cons_lexeme, hWalked]
      exact fun hPassed => (hVerdict.swallowed hPassed).behind
  · rw [Lexeme.token?_eq_error hFits]
    constructor
    · rw [passedLast_cons_lexeme, hWalked, ← List.append_assoc]
      intro hPassed
      refine (hVerdict.reported hPassed).cons ?_ (by simp)
      rw [List.append_assoc]
      exact Span.behind_before before (by simp [hText])
    · rw [passedLast_cons_lexeme, hWalked]
      exact fun hPassed => (hVerdict.swallowed hPassed).cons hText _

theorem flatMap_passed (front : List Char) :
    (front.map Piece.passed).flatMap Piece.text = front := by
  induction front with
  | nil => rfl
  | cons c rest ih => rw [List.map_cons, List.flatMap_cons, ih, Piece.text, List.singleton_append]

/-- A stretch before a lexeme that is on the way. -/
theorem CommentVerdict.stretch {before front : List Char} {pieces : List Piece} {found : Scanned}
    (hVerdict : CommentVerdict (before ++ front) pieces found.faults) (hFront : front ≠ [])
    (hPieces : pieces ≠ []) :
    CommentVerdict before (front.map .passed ++ pieces)
      (found.add (Span.behind before) (.error (.unexpectedText (String.ofList front)))).faults := by
  constructor
  · rw [passedLast_append hPieces, List.flatMap_append, flatMap_passed, ← List.append_assoc]
    intro hPassed
    refine (hVerdict.reported hPassed).cons ?_ (by simp)
    rw [List.append_assoc]
    exact Span.behind_before before (by simp [hFront])
  · rw [passedLast_append hPieces, List.flatMap_append, flatMap_passed]
    exact fun hPassed => (hVerdict.swallowed hPassed).cons hFront _

/-- A stretch in which the comment opens. -/
theorem commentVerdict_swallowed {before front after more : List Char} (hFront : front ≠ []) :
    CommentVerdict before (front.map .passed)
      ((scan (Span.behind (before ++ (front ++ '/' :: '*' :: more))) after).add (Span.behind before)
        (.error (.unexpectedText (String.ofList (front ++ '/' :: '*' :: more))))).faults := by
  have hPassed : PassedLast (front.map .passed) :=
    ⟨front.getLast hFront, by rw [List.getLast?_map, List.getLast?_eq_some_getLast hFront]; rfl⟩
  refine ⟨absurd hPassed, fun _ => ?_⟩
  rw [flatMap_passed]
  refine ⟨⟨[], front, more, rfl, hFront, ?_⟩, List.forall_mem_cons.2 ⟨?_, fun fault hFault => ?_⟩⟩
  · rw [List.append_nil]
    exact List.mem_cons_self
  · exact (Span.behind_before before hFront).ne
  · obtain ⟨n, _, hPlace⟩ := (scan_scattered _ after).placed fault hFault
    rw [hPlace, List.append_assoc, List.append_assoc, ← List.append_assoc before front]
    exact (Span.behind_before _ (by simp)).ne.symm

/-- The scanner reports the first comment without an end, unless a character was passed right before
it. -/
theorem scan_openComment {text rest : List Char} {pieces : List Piece}
    (hReaches : ReachesOpen text pieces rest) (before : List Char) :
    CommentVerdict before pieces (scan (Span.behind before) text).faults := by
  generalize hSpan : Span.behind before = span
  fun_induction scan span text generalizing before pieces with
  | case1 span =>
    cases hReaches with
    | here hOpens =>
      obtain ⟨_, hEmpty, _⟩ := hOpens
      cases hEmpty
    | lexeme hLeads _ => exact absurd hLeads (not_leads_nil _ _)
  | case2 span c tail l middle hLexeme ih =>
    cases hReaches with
    | here hOpens =>
      rw [hOpens.lexeme?_eq_none] at hLexeme
      cases hLexeme
    | lexeme hLeads hOthers =>
      obtain ⟨rfl, rfl⟩ := hLeads.unique (lexeme?_eq_some_iff.1 hLexeme)
      have hRest := ih hOthers (before ++ _) (by rw [Span.behind_append, hSpan])
      rw [← hSpan] at hRest ⊢
      exact hRest.lexeme (lexeme?_split hLexeme).1
    | passed hStuck _ _ =>
      rw [hStuck.lexeme?_eq_none] at hLexeme
      cases hLexeme
  | case3 span c tail hNone front =>
    rename_i hOpen
    have hOpens : OpensComment (c :: tail) := by
      obtain ⟨more, hMore⟩ := List.isPrefixOf_iff_prefix.1 hOpen
      have hSplit : front ++ (stretch (c :: tail)).2 = c :: tail := stretch_split _
      rw [← hMore] at hSplit
      rw [← hSplit] at hNone ⊢
      exact ⟨_, rfl, lexeme?_open_eq_none_iff.1 hNone⟩
    cases hReaches with
    | here _ =>
      refine ⟨fun _ => ⟨[], ?_, by simp⟩, fun hPassed => ?_⟩
      · rw [List.flatMap_nil, List.append_nil, hSpan, List.nil_append]
      · obtain ⟨_, hNothing⟩ := hPassed
        cases hNothing
    | lexeme hLeads _ =>
      rw [hLeads.lexeme?_eq] at hNone
      cases hNone
    | passed _ hClosed _ => exact absurd hOpens hClosed
  | case4 span c tail hNone front hOther =>
    rename_i ih
    rcases hReaches.stretch with ⟨more, rfl, hMore⟩ | ⟨passed, back, hSplit, rfl, hRest, hOpens⟩
    · have hSome : more ≠ [] := by
        rintro rfl
        exact not_opensComment_stretch _ hMore.opensComment
      have hLater := ih hMore (before ++ front) (by rw [Span.behind_append, hSpan])
      have hFront : front ≠ [] := by simp [front, stretch, hNone]
      rw [← hSpan] at hLater ⊢
      exact hLater.stretch hFront hSome
    · obtain ⟨more, hMore⟩ := hOpens.stretch
      rw [hRest] at hMore
      have hFront : front = passed ++ '/' :: '*' :: more := hSplit.trans (congrArg _ hMore)
      have hPassed : passed ≠ [] := by
        rintro rfl
        exact hOther (by rw [hFront]; rfl)
      rw [← hSpan, ← Span.behind_append, hFront]
      exact commentVerdict_swallowed hPassed

theorem CommentVerdict.ne_nil {before : List Char} {pieces : List Piece} {faults : List FaultAt}
    (hVerdict : CommentVerdict before pieces faults) : faults ≠ [] := by
  rintro rfl
  by_cases hPassed : PassedLast pieces
  · obtain ⟨⟨_, _, _, _, _, hMem⟩, _⟩ := hVerdict.swallowed hPassed
    cases hMem
  · obtain ⟨earlier, hFaults, _⟩ := hVerdict.reported hPassed
    simp at hFaults

/-- Where the way through a text leads to a comment without an end, the text has faults. The last of
them is the comment, at its place and once, exactly if no character was passed right before it.
Otherwise the comment is part of a stretch of unexpected text. -/
theorem tokenize_openComment {text : String} {pieces : List Piece} {rest : List Char}
    (hReaches : ReachesOpen text.toList pieces rest) :
    ∃ faults, tokenize text = .error faults ∧
      (EndsOpen (Span.behind (pieces.flatMap Piece.text)) faults ↔ ¬ PassedLast pieces) ∧
      (PassedLast pieces → Swallowed [] (pieces.flatMap Piece.text) faults) := by
  have hVerdict : CommentVerdict [] pieces (scan Span.start text.toList).faults :=
    scan_openComment hReaches []
  refine ⟨(scan Span.start text.toList).faults, ?_, ⟨?_, hVerdict.reported⟩, hVerdict.swallowed⟩
  · rw [tokenize, if_neg (by simpa using hVerdict.ne_nil)]
  · rintro ⟨earlier, hFaults, _⟩ hPassed
    have hNowhere := (hVerdict.swallowed hPassed).2
    rw [hFaults] at hNowhere
    exact hNowhere _ (List.mem_append_right _ List.mem_cons_self) rfl

/-- A comment behind a word is reported. A comment behind a character that starts no lexeme is
not. -/
theorem tokenize_hiddenComment :
    (∃ faults, tokenize "a/* x" = .error faults ∧ EndsOpen ⟨1, 2⟩ faults) ∧
      ∃ faults, tokenize "$/* x" = .error faults ∧ ¬ EndsOpen ⟨1, 2⟩ faults ∧
        faults = [⟨⟨1, 1⟩, .unexpectedText "$/*"⟩] := by
  have hOpens : OpensComment ['/', '*', ' ', 'x'] := ⟨_, rfl, by decide⟩
  constructor
  · have hWord : Leads ['a', '/', '*', ' ', 'x'] ⟨.word, ['a']⟩ ['/', '*', ' ', 'x'] :=
      lexeme?_eq_some_iff.1 (by decide)
    have hReaches : ReachesOpen "a/* x".toList [.lexeme ⟨.word, ['a']⟩] _ :=
      .lexeme hWord (.here hOpens)
    obtain ⟨faults, hFaults, hReported, _⟩ := tokenize_openComment hReaches
    exact ⟨faults, hFaults, hReported.2 (by simp [PassedLast])⟩
  · have hStuck : Stuck ['$', '/', '*', ' ', 'x'] := stuck_of_lexeme? (by decide)
    have hClosed : ¬ OpensComment ['$', '/', '*', ' ', 'x'] := by simp [OpensComment]
    have hBehind : Segments [' ', 'x'] [⟨.blank, [' ']⟩, ⟨.word, ['x']⟩] [] := by decide
    have hStretch : stretch ['$', '/', '*', ' ', 'x'] = (['$', '/', '*'], [' ', 'x']) := by decide
    have hFound : tokenize "$/* x" = .error [⟨⟨1, 1⟩, .unexpectedText "$/*"⟩] := by
      have hScan : scan Span.start "$/* x".toList =
          (scan (Span.behind ['$', '/', '*']) [' ', 'x']).add Span.start
            (.error (.unexpectedText "$/*")) :=
        scan_of_stretch hStuck.lexeme?_eq_none hStretch rfl
      rw [tokenize, hScan, hBehind.scan_eq (by decide)]
      rfl
    have hReaches : ReachesOpen "$/* x".toList [.passed '$'] _ :=
      .passed hStuck hClosed (.here hOpens)
    obtain ⟨faults, hFaults, hReported, _⟩ := tokenize_openComment hReaches
    refine ⟨faults, hFaults, fun hEnds => hReported.1 hEnds ⟨'$', rfl⟩, ?_⟩
    cases hFound.symm.trans hFaults
    rfl

end Interchange.Schema

import Interchange.Proofs.Schema.Lexemes
import Mathlib.Algebra.Group.Nat.Defs
import Mathlib.Order.Bounds.Defs

/-!
# Cutting a text into lexemes

From its start on, a text is cut into lexemes as far as this goes. If it goes to the end and all
numbers have 64 bits, the lexemes that mean something are the tokens of the text, each at its place.
Otherwise the first fault is at the first place where no lexeme starts or where a number is too
large, and all faults stand in the order of their places.

* `Span.behind`: line and column of a place by the text before it.
* `Segments`: cutting lexemes off a text.
* `scan_outcome`: the tokens of a text, or its first fault.
* `scan_scattered`: the places of faults.
* `tokenize_of_segments`: the tokens of a text that is cut to its end.
* `tokenize_segmentation`: both for whole texts.
-/

namespace Interchange.Schema

/-! ## Places -/

namespace Span

/-- The place behind some text. Its line is counted by the line breaks before it, and its column by
the characters since the last of them. -/
def behind (before : List Char) : Span :=
  ⟨1 + before.count '\n', 1 + (before.reverse.takeWhile (· != '\n')).length⟩

theorem behind_snoc (before : List Char) (c : Char) :
    behind (before ++ [c]) = (behind before).step c := by
  by_cases hLine : c = '\n'
  · subst hLine
    simp [behind, step, Nat.add_assoc]
  · simp [behind, step, hLine, Nat.add_comm]

theorem behind_append (before text : List Char) :
    behind (before ++ text) = (behind before).advance text := by
  induction text generalizing before with
  | nil => simp [advance]
  | cons c rest ih =>
    have hSplit : before ++ c :: rest = before ++ [c] ++ rest := by simp
    rw [hSplit, ih, behind_snoc]
    rfl

/-- One place stands before another. -/
def Before (a b : Span) : Prop :=
  a.line < b.line ∨ a.line = b.line ∧ a.column < b.column

theorem Before.trans {a b c : Span} (hFirst : a.Before b) (hSecond : b.Before c) : a.Before c := by
  unfold Before at *
  omega

theorem Before.ne {a b : Span} (hBefore : a.Before b) : a ≠ b := by
  rintro rfl
  unfold Before at hBefore
  omega

theorem before_step (span : Span) (c : Char) : span.Before (span.step c) := by
  unfold step Before
  split <;> simp

theorem before_advance (span : Span) {text : List Char} (hText : text ≠ []) :
    span.Before (span.advance text) := by
  induction text generalizing span with
  | nil => exact absurd rfl hText
  | cons c rest ih =>
    cases rest with
    | nil => exact before_step span c
    | cons d rest => exact (before_step span c).trans (ih (span.step c) (List.cons_ne_nil _ _))

theorem behind_before (before : List Char) {text : List Char} (hText : text ≠ []) :
    (behind before).Before (behind (before ++ text)) := by
  rw [behind_append]
  exact before_advance _ hText

end Span

/-! ## Lexemes and tokens -/

/-- The token that a lexeme stands for. Blanks and comments mean nothing. -/
def Lexeme.meaning? (l : Lexeme) : Option Token :=
  match l.kind with
  | .blank => none
  | .comment => none
  | .word => some (.identifier (String.ofList l.text))
  | .number => some (.integer (digitsValue l.text))
  | .symbol symbol => some (.symbol symbol)

/-- A number has 64 bits. -/
def Lexeme.Representable (l : Lexeme) : Prop :=
  l.kind = .number → digitsValue l.text < 2 ^ 64

instance (l : Lexeme) : Decidable l.Representable :=
  inferInstanceAs (Decidable (l.kind = .number → digitsValue l.text < 2 ^ 64))

theorem Lexeme.Representable.token?_eq {l : Lexeme} (hFits : l.Representable) :
    l.token? = .ok l.meaning? := by
  obtain ⟨kind, text⟩ := l
  cases kind with
  | number => exact if_pos (hFits rfl)
  | _ => rfl

theorem Lexeme.token?_eq_error {l : Lexeme} (hLarge : ¬ l.Representable) :
    l.token? = .error (.integerTooLarge (String.ofList l.text)) := by
  obtain ⟨kind, text⟩ := l
  cases kind with
  | number => exact if_neg fun hLess => hLarge fun _ => hLess
  | _ => exact absurd (fun hKind => by cases hKind) hLarge

/-! ## Cutting off lexemes -/

/-- A text is cut into lexemes from its start on, up to a rest. -/
inductive Segments : (text : List Char) → List Lexeme → (rest : List Char) → Prop
  | nil (text : List Char) : Segments text [] text
  | cons {text middle rest : List Char} {l : Lexeme} {lexemes : List Lexeme}
      (hFirst : Leads text l middle) (hOthers : Segments middle lexemes rest) :
      Segments text (l :: lexemes) rest

/-- The tokens of lexemes that stand behind some text, each at its place. -/
def tokensBehind (before : List Char) : List Lexeme → List Located
  | [] => []
  | l :: rest =>
    match l.meaning? with
    | some token => ⟨token, Span.behind before⟩ :: tokensBehind (before ++ l.text) rest
    | none => tokensBehind (before ++ l.text) rest

/-- No lexeme starts here. -/
def Stuck (text : List Char) : Prop :=
  text ≠ [] ∧ ∀ l rest, ¬ Leads text l rest

/-- A number that is too large starts here. -/
def StartsTooLarge (text : List Char) : Prop :=
  ∃ l rest, Leads text l rest ∧ ¬ l.Representable

/-- Cutting off lexemes ends here before the text does. -/
def FailsAt (text : List Char) (offset : Nat) : Prop :=
  ∃ lexemes rest, Segments text lexemes rest ∧ (lexemes.flatMap Lexeme.text).length = offset ∧
    Stuck rest

/-- A number that is too large is cut off here. -/
def TooLargeAt (text : List Char) (offset : Nat) : Prop :=
  ∃ lexemes rest, Segments text lexemes rest ∧ (lexemes.flatMap Lexeme.text).length = offset ∧
    StartsTooLarge rest

theorem Segments.split {text rest : List Char} {lexemes : List Lexeme}
    (hSegments : Segments text lexemes rest) : text = lexemes.flatMap Lexeme.text ++ rest := by
  induction hSegments with
  | nil => rfl
  | cons hFirst _ ih => rw [hFirst.split, List.flatMap_cons, List.append_assoc, ← ih]

theorem Leads.unique {text rest rest' : List Char} {l l' : Lexeme} (hLeads : Leads text l rest)
    (hOther : Leads text l' rest') : l = l' ∧ rest = rest' :=
  Prod.mk.inj (Option.some.inj (hLeads.lexeme?_eq.symm.trans hOther.lexeme?_eq))

theorem Segments.cons_iff {text middle rest : List Char} {l : Lexeme} {lexemes : List Lexeme}
    (hLeads : Leads text l middle) :
    Segments text (l :: lexemes) rest ↔ Segments middle lexemes rest := by
  refine ⟨fun hSegments => ?_, .cons hLeads⟩
  cases hSegments with
  | cons hFirst hOthers =>
    obtain ⟨_, rfl⟩ := hLeads.unique hFirst
    exact hOthers

/-- Cutting a text anew decides whether it is cut into given lexemes. -/
def Segments.decide : (text : List Char) → (lexemes : List Lexeme) → (rest : List Char) →
    Decidable (Segments text lexemes rest)
  | text, [], rest =>
    decidable_of_iff (text = rest) ⟨fun hSame => hSame ▸ .nil _, fun hNil => by cases hNil; rfl⟩
  | text, l :: lexemes, rest =>
    match hLexeme : lexeme? text with
    | none => isFalse fun hSegments => by
      cases hSegments with
      | cons hFirst _ => cases hLexeme.symm.trans hFirst.lexeme?_eq
    | some (found, middle) =>
      if hFound : found = l then
        have := Segments.decide middle lexemes rest
        decidable_of_iff' _ (Segments.cons_iff (hFound ▸ lexeme?_eq_some_iff.1 hLexeme))
      else isFalse fun hSegments => by
        cases hSegments with
        | cons hFirst _ => exact hFound (hFirst.unique (lexeme?_eq_some_iff.1 hLexeme)).1.symm

instance (text : List Char) (lexemes : List Lexeme) (rest : List Char) :
    Decidable (Segments text lexemes rest) :=
  Segments.decide text lexemes rest

/-- Of two ways to cut a text, one goes on where the other ends. -/
theorem Segments.compare {text rest rest' : List Char} {lexemes lexemes' : List Lexeme}
    (hSegments : Segments text lexemes rest) (hOther : Segments text lexemes' rest') :
    (∃ more, lexemes' = lexemes ++ more ∧ Segments rest more rest') ∨
      ∃ l ∈ lexemes, ∃ after, Leads rest' l after := by
  induction hSegments generalizing lexemes' with
  | nil => exact Or.inl ⟨lexemes', rfl, hOther⟩
  | cons hFirst _ ih =>
    cases hOther with
    | nil => exact Or.inr ⟨_, List.mem_cons_self, _, hFirst⟩
    | cons hFirst' hOthers' =>
      obtain ⟨rfl, rfl⟩ := hFirst.unique hFirst'
      rcases ih hOthers' with ⟨more, rfl, hMore⟩ | ⟨l, hMem, after, hLeads⟩
      · exact Or.inl ⟨more, rfl, hMore⟩
      · exact Or.inr ⟨l, List.mem_cons_of_mem _ hMem, after, hLeads⟩

theorem stuck_of_lexeme? {c : Char} {tail : List Char} (hNone : lexeme? (c :: tail) = none) :
    Stuck (c :: tail) := by
  refine ⟨List.cons_ne_nil _ _, fun l rest hLeads => ?_⟩
  rw [hLeads.lexeme?_eq] at hNone
  cases hNone

/-! ## The scan -/

theorem Scanned.add_ok_faults (found : Scanned) (span : Span) (token : Option Token) :
    (found.add span (.ok token)).faults = found.faults := by
  cases token <;> rfl

/-- A text is cut into lexemes to its end, and these give its tokens; or the first fault stands
where it cannot be cut further or where the first number is too large. -/
theorem scan_outcome (before text : List Char) :
    ∃ lexemes rest, Segments text lexemes rest ∧ (∀ l ∈ lexemes, l.Representable) ∧
      (rest = [] ∧ scan (Span.behind before) text =
          ⟨tokensBehind before lexemes, [], Span.behind (before ++ text)⟩ ∨
        (Stuck rest ∨ StartsTooLarge rest) ∧
          ∃ first later, (scan (Span.behind before) text).faults = first :: later ∧
            first.span = Span.behind (before ++ lexemes.flatMap Lexeme.text)) := by
  generalize hSpan : Span.behind before = span
  fun_induction scan span text generalizing before with
  | case1 span =>
    refine ⟨[], [], .nil _, by simp, Or.inl ⟨rfl, ?_⟩⟩
    rw [List.append_nil, hSpan]
    rfl
  | case2 span c tail l rest hLexeme ih =>
    have hLeads := lexeme?_eq_some_iff.1 hLexeme
    by_cases hFits : l.Representable
    · obtain ⟨lexemes, last, hSegments, hAll, hOutcome⟩ := ih (before ++ l.text)
        (by rw [Span.behind_append, hSpan])
      refine ⟨l :: lexemes, last, .cons hLeads hSegments, List.forall_mem_cons.2 ⟨hFits, hAll⟩, ?_⟩
      rw [hFits.token?_eq]
      rcases hOutcome with ⟨rfl, hScan⟩ | ⟨hBreak, first, later, hFaults, hPlace⟩
      · refine Or.inl ⟨rfl, ?_⟩
        rw [hScan, tokensBehind, hLeads.split, ← List.append_assoc, hSpan]
        cases l.meaning? <;> rfl
      · refine Or.inr ⟨hBreak, first, later, ?_, ?_⟩
        · rw [Scanned.add_ok_faults, hFaults]
        · rw [hPlace, List.flatMap_cons, List.append_assoc]
    · refine ⟨[], c :: tail, .nil _, by simp, Or.inr ⟨Or.inr ⟨l, rest, hLeads, hFits⟩, ?_⟩⟩
      rw [Lexeme.token?_eq_error hFits]
      exact ⟨_, _, rfl, by simp [hSpan]⟩
  | case3 span c tail hNone front hOpen =>
    refine ⟨[], c :: tail, .nil _, by simp, Or.inr ⟨Or.inl (stuck_of_lexeme? hNone), ?_⟩⟩
    exact ⟨_, _, rfl, by simp [hSpan]⟩
  | case4 span c tail hNone front hOther ih =>
    refine ⟨[], c :: tail, .nil _, by simp, Or.inr ⟨Or.inl (stuck_of_lexeme? hNone), ?_⟩⟩
    exact ⟨_, _, rfl, by simp [hSpan]⟩

/-- Faults in the order of their places, all of them in a text that stands behind another. -/
structure Scattered (before text : List Char) (faults : List FaultAt) : Prop where
  ordered : faults.Pairwise fun a b => a.span.Before b.span
  placed : ∀ fault ∈ faults, ∃ n < text.length, fault.span = Span.behind (before ++ text.take n)

section

variable {before front rest : List Char} {faults : List FaultAt}

/-- Faults behind the front of a text. -/
theorem Scattered.behind (hFaults : Scattered (before ++ front) rest faults) :
    Scattered before (front ++ rest) faults := by
  refine ⟨hFaults.ordered, fun fault hFault => ?_⟩
  obtain ⟨n, hLess, hPlace⟩ := hFaults.placed fault hFault
  refine ⟨front.length + n, ?_, ?_⟩
  · rw [List.length_append]
    omega
  · rw [hPlace, List.take_length_add_append, List.append_assoc]

/-- One more fault at the start of a text. -/
theorem Scattered.cons (hFaults : Scattered (before ++ front) rest faults) (hFront : front ≠ [])
    (fault : Fault) : Scattered before (front ++ rest) (⟨Span.behind before, fault⟩ :: faults) := by
  refine ⟨List.pairwise_cons.2 ⟨fun other hOther => ?_, hFaults.ordered⟩,
    List.forall_mem_cons.2 ⟨⟨0, ?_, by simp⟩, hFaults.behind.placed⟩⟩
  · obtain ⟨n, _, hPlace⟩ := hFaults.placed other hOther
    rw [hPlace, List.append_assoc]
    exact Span.behind_before before (by simp [hFront])
  · rw [List.length_append]
    have hPositive := List.length_pos_iff.2 hFront
    omega

end

/-- The faults of a text stand in the order of their places. -/
theorem scan_scattered (before text : List Char) :
    Scattered before text (scan (Span.behind before) text).faults := by
  generalize hSpan : Span.behind before = span
  fun_induction scan span text generalizing before with
  | case1 span => exact ⟨.nil, by simp⟩
  | case2 span c tail l rest hLexeme ih =>
    obtain ⟨hSome, hSplit⟩ := lexeme?_split hLexeme
    have hRest := ih (before ++ l.text) (by rw [Span.behind_append, hSpan])
    rw [← hSplit]
    cases l.token? with
    | ok token =>
      rw [Scanned.add_ok_faults]
      exact hRest.behind
    | error fault =>
      rw [← hSpan] at hRest ⊢
      exact hRest.cons hSome fault
  | case3 span c tail hNone front hOpen =>
    have hEmpty : Scattered (before ++ c :: tail) [] [] := ⟨.nil, by simp⟩
    rw [← hSpan, ← List.append_nil (c :: tail)]
    exact hEmpty.cons (List.cons_ne_nil _ _) _
  | case4 span c tail hNone front hOther ih =>
    have hRest := ih (before ++ front) (by rw [Span.behind_append, hSpan])
    have hFront : front ≠ [] := by simp [front, stretch, hNone]
    have hSplit : front ++ (stretch (c :: tail)).2 = c :: tail := stretch_split _
    have hFaults := hRest.cons hFront (.unexpectedText (String.ofList front))
    rw [hSplit, hSpan] at hFaults
    exact hFaults

/-! ## Tokens and faults of texts -/

/-- The first place where a text cannot be cut or where a number is too large, if all lexemes before
it are without fault. -/
theorem Segments.isLeast {text rest : List Char} {lexemes : List Lexeme}
    (hSegments : Segments text lexemes rest) (hAll : ∀ l ∈ lexemes, l.Representable)
    (hBreak : Stuck rest ∨ StartsTooLarge rest) :
    IsLeast {offset | FailsAt text offset ∨ TooLargeAt text offset}
      (lexemes.flatMap Lexeme.text).length := by
  constructor
  · exact hBreak.imp (fun hStuck => ⟨lexemes, rest, hSegments, rfl, hStuck⟩)
      fun hLarge => ⟨lexemes, rest, hSegments, rfl, hLarge⟩
  · have hLower : ∀ {others last}, Segments text others last → Stuck last ∨ StartsTooLarge last →
        (lexemes.flatMap Lexeme.text).length ≤ (others.flatMap Lexeme.text).length := by
      intro others last hOthers hLast
      rcases hSegments.compare hOthers with ⟨more, rfl, _⟩ | ⟨l, hMem, after, hLeads⟩
      · rw [List.flatMap_append, List.length_append]
        omega
      · rcases hLast with hStuck | ⟨l', after', hLeads', hLarge⟩
        · exact absurd hLeads (hStuck.2 l after)
        · obtain ⟨rfl, _⟩ := hLeads.unique hLeads'
          exact absurd (hAll l hMem) hLarge
    rintro _ (⟨others, last, hOthers, rfl, hStuck⟩ | ⟨others, last, hOthers, rfl, hLarge⟩)
    · exact hLower hOthers (Or.inl hStuck)
    · exact hLower hOthers (Or.inr hLarge)

theorem not_leads_nil (l : Lexeme) (rest : List Char) : ¬ Leads [] l rest := by
  intro hLeads
  cases hLeads.lexeme?_eq

/-- A text that is cut to its end can be cut on from everywhere. -/
theorem Segments.append_of_nil {text rest : List Char} {lexemes others : List Lexeme}
    (hSegments : Segments text lexemes []) (hOthers : Segments text others rest) :
    ∃ more, lexemes = others ++ more ∧ Segments rest more [] := by
  rcases hOthers.compare hSegments with hMore | ⟨l, _, after, hLeads⟩
  · exact hMore
  · exact absurd hLeads (not_leads_nil l after)

theorem Segments.not_breaks {rest : List Char} {lexemes : List Lexeme}
    (hSegments : Segments rest lexemes []) (hAll : ∀ l ∈ lexemes, l.Representable) :
    ¬ (Stuck rest ∨ StartsTooLarge rest) := by
  rintro (⟨hSome, hStuck⟩ | ⟨l', after, hLeads, hLarge⟩)
  · cases hSegments with
    | nil => exact hSome rfl
    | cons hFirst _ => exact hStuck _ _ hFirst
  · cases hSegments with
    | nil => exact not_leads_nil l' after hLeads
    | cons hFirst _ =>
      obtain ⟨rfl, _⟩ := hLeads.unique hFirst
      exact hLarge (hAll l' List.mem_cons_self)

/-- A text that is cut to its end gives the tokens of its lexemes. -/
theorem Segments.scan_eq {text : List Char} {lexemes : List Lexeme}
    (hSegments : Segments text lexemes []) (hAll : ∀ l ∈ lexemes, l.Representable)
    (before : List Char) :
    scan (Span.behind before) text =
      ⟨tokensBehind before lexemes, [], Span.behind (before ++ text)⟩ := by
  obtain ⟨others, rest, hOthers, _, hOutcome⟩ := scan_outcome before text
  obtain ⟨more, rfl, hMore⟩ := hSegments.append_of_nil hOthers
  rcases hOutcome with ⟨rfl, hScan⟩ | ⟨hBreak, _⟩
  · cases hMore with
    | nil => rw [hScan, List.append_nil]
    | cons hFirst _ => exact absurd hFirst (not_leads_nil _ _)
  · have hRest : ∀ l ∈ more, l.Representable := fun l hMem => hAll l (List.mem_append_right _ hMem)
    exact absurd hBreak (hMore.not_breaks hRest)

theorem tokenize_of_segments {text : String} {lexemes : List Lexeme}
    (hSegments : Segments text.toList lexemes []) (hAll : ∀ l ∈ lexemes, l.Representable) :
    tokenize text = .ok ⟨tokensBehind [] lexemes, Span.behind text.toList⟩ := by
  have hScan := hSegments.scan_eq hAll []
  rw [List.nil_append] at hScan
  rw [tokenize, show Span.start = Span.behind [] from rfl, hScan]
  rfl

/-- The tokens of a text are exactly those of the lexemes that it is cut into, each at its place, if
it can be cut to its end and all numbers have 64 bits. Otherwise it has faults. The first one is at
the first place where no lexeme starts or where a number is too large, and all of them are at places
in the text, one after the other. -/
theorem tokenize_segmentation (text : String) :
    (∀ tokens, tokenize text = .ok tokens ↔
      ∃ lexemes, Segments text.toList lexemes [] ∧ (∀ l ∈ lexemes, l.Representable) ∧
        tokens = ⟨tokensBehind [] lexemes, Span.behind text.toList⟩) ∧
    (∀ faults, tokenize text = .error faults →
      (∃ first later offset, faults = first :: later ∧
        IsLeast {offset | FailsAt text.toList offset ∨ TooLargeAt text.toList offset} offset ∧
        first.span = Span.behind (text.toList.take offset)) ∧
      faults.Pairwise (fun a b => a.span.Before b.span) ∧
      ∀ fault ∈ faults, ∃ offset < text.toList.length,
        fault.span = Span.behind (text.toList.take offset)) := by
  obtain ⟨lexemes, rest, hSegments, hAll, hOutcome⟩ := scan_outcome [] text.toList
  have hScattered := scan_scattered [] text.toList
  have hStart : Span.behind [] = Span.start := rfl
  simp only [hStart, List.nil_append] at hOutcome hScattered
  rcases hOutcome with ⟨rfl, _⟩ | ⟨hBreak, first, later, hFaults, hPlace⟩
  · have hTokens := tokenize_of_segments hSegments hAll
    refine ⟨fun tokens => ⟨fun hSame => ?_, ?_⟩, fun faults hFaults => ?_⟩
    · cases hTokens.symm.trans hSame
      exact ⟨lexemes, hSegments, hAll, rfl⟩
    · rintro ⟨others, hOthers, hSmall, rfl⟩
      exact tokenize_of_segments hOthers hSmall
    · cases hTokens.symm.trans hFaults
  · have hError : tokenize text = .error (first :: later) := by
      rw [tokenize, hFaults]
      rfl
    refine ⟨fun tokens => ⟨fun hTokens => ?_, ?_⟩, fun faults hSame => ?_⟩
    · cases hError.symm.trans hTokens
    · rintro ⟨others, hOthers, hSmall, rfl⟩
      exact tokenize_of_segments hOthers hSmall
    · cases hError.symm.trans hSame
      have hTake : text.toList.take (lexemes.flatMap Lexeme.text).length =
          lexemes.flatMap Lexeme.text := by
        rw [hSegments.split, List.take_left]
      rw [hFaults] at hScattered
      refine ⟨⟨first, later, _, rfl, hSegments.isLeast hAll hBreak, ?_⟩, hScattered.ordered,
        hScattered.placed⟩
      rw [hTake, hPlace]

end Interchange.Schema

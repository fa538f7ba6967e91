import Interchange.Schema.Scan

/-!
# Lexemes

What a lexeme is, said without the scanner: a run of blanks, words and numbers go on as long as they
can, a comment goes to the end of its line or to its first `*/`, and a symbol is one character. The
scanner takes exactly these, and no two of them start at one place.

* `Leads`: a text starts with a lexeme.
* `commentEnd?_append`, `commentEnd?_eq_some`, `commentEnd?_eq_none_iff`: where block comments end.
* `lexeme?_eq_some_iff`: the scanner takes the lexeme that a text starts with.
-/

namespace Interchange.Schema

/-- The rest of a text goes on with no character of a class. -/
def EndsRun (p : Char → Bool) (rest : List Char) : Prop :=
  ∀ c ∈ rest.head?, p c = false

/-- A text is a lexeme and a rest. -/
inductive Leads : (text : List Char) → Lexeme → (rest : List Char) → Prop
  | blank {run rest : List Char} (hSome : run ≠ []) (hRun : ∀ c ∈ run, Text.isBlank c = true)
      (hEnd : EndsRun Text.isBlank rest) : Leads (run ++ rest) ⟨.blank, run⟩ rest
  | lineComment {body rest : List Char} (hBody : '\n' ∉ body) (hEnd : EndsRun (· != '\n') rest) :
      Leads ('/' :: '/' :: body ++ rest) ⟨.comment, '/' :: '/' :: body⟩ rest
  | blockComment {body rest : List Char} (hBody : ¬ ['*', '/'] <:+: body) :
      Leads ('/' :: '*' :: body ++ '*' :: '/' :: rest)
        ⟨.comment, '/' :: '*' :: body ++ ['*', '/']⟩ rest
  | word {first : Char} {run rest : List Char} (hFirst : isWordStart first = true)
      (hRun : ∀ c ∈ run, isWordPart c = true) (hEnd : EndsRun isWordPart rest) :
      Leads (first :: run ++ rest) ⟨.word, first :: run⟩ rest
  | number {run rest : List Char} (hSome : run ≠ []) (hRun : ∀ c ∈ run, c.isDigit = true)
      (hEnd : EndsRun Char.isDigit rest) : Leads (run ++ rest) ⟨.number, run⟩ rest
  | symbol (symbol : Symbol) (rest : List Char) :
      Leads (symbol.char :: rest) ⟨.symbol symbol, [symbol.char]⟩ rest

theorem Leads.split {text rest : List Char} {l : Lexeme} (hLeads : Leads text l rest) :
    text = l.text ++ rest := by
  cases hLeads with
  | blockComment => simp
  | _ => rfl

/-! ## Classes of characters -/

theorem isBlank_range {c : Char} (hBlank : Text.isBlank c = true) :
    c.toNat ≤ 32 ∨ 133 ≤ c.toNat := by
  simp only [Text.isBlank, Text.Ranges.contains_iff, Text.blankRanges, List.mem_cons,
    List.not_mem_nil, or_false, exists_eq_or_imp, exists_eq_left] at hBlank
  omega

theorem isDigit_range {c : Char} (hDigit : c.isDigit = true) : 48 ≤ c.toNat ∧ c.toNat ≤ 57 := by
  simpa [Char.isDigit, UInt32.le_iff_toNat_le] using hDigit

theorem isWordStart_range {c : Char} (hStart : isWordStart c = true) :
    65 ≤ c.toNat ∧ c.toNat ≤ 122 := by
  have hUpper : c.isUpper = true → 65 ≤ c.toNat ∧ c.toNat ≤ 90 := of_decide_eq_true
  have hLower : c.isLower = true → 97 ≤ c.toNat ∧ c.toNat ≤ 122 := by
    intro hLower
    obtain ⟨hLow, hHigh⟩ := (Bool.and_eq_true _ _).mp hLower
    exact ⟨of_decide_eq_true hLow, of_decide_eq_true hHigh⟩
  rcases (Bool.or_eq_true _ _).mp hStart with hLetter | hLine
  · rcases (Bool.or_eq_true _ _).mp hLetter with hLetter | hLetter
    · have hRange := hUpper hLetter
      omega
    · have hRange := hLower hLetter
      omega
  · obtain rfl : c = '_' := eq_of_beq hLine
    decide

theorem isBlank_eq_false {c : Char} (hLow : 32 < c.toNat) (hHigh : c.toNat < 133) :
    Text.isBlank c = false := by
  rw [Bool.eq_false_iff]
  intro hBlank
  have hRange := isBlank_range hBlank
  omega

theorem isWordStart_eq_false {c : Char} (hDigit : c.isDigit = true) : isWordStart c = false := by
  rw [Bool.eq_false_iff]
  intro hStart
  have hRange := isWordStart_range hStart
  have hOther := isDigit_range hDigit
  omega

theorem ne_slash {c : Char} (hOther : c.toNat ≠ 47) : c ≠ '/' := by
  rintro rfl
  exact hOther rfl

/-- A symbol is of no other class. -/
theorem Symbol.char_classes (symbol : Symbol) :
    Text.isBlank symbol.char = false ∧ symbol.char ≠ '/' ∧ isWordStart symbol.char = false ∧
      symbol.char.isDigit = false := by
  cases symbol <;> decide

/-! ## Runs -/

section

variable {p : Char → Bool} {run rest : List Char}

theorem takeWhile_run (hRun : ∀ c ∈ run, p c = true) (hEnd : EndsRun p rest) :
    (run ++ rest).takeWhile p = run := by
  rw [List.takeWhile_append_of_pos hRun]
  cases rest with
  | nil => simp
  | cons c tail => simp [hEnd c rfl]

theorem dropWhile_run (hRun : ∀ c ∈ run, p c = true) (hEnd : EndsRun p rest) :
    (run ++ rest).dropWhile p = rest := by
  rw [List.dropWhile_append_of_pos hRun]
  cases rest with
  | nil => rfl
  | cons c tail => simp [hEnd c rfl]

theorem endsRun_dropWhile (p : Char → Bool) (text : List Char) : EndsRun p (text.dropWhile p) := by
  have hHead := List.head?_dropWhile_not p text
  intro c hc
  rw [Option.mem_def.1 hc] at hHead
  exact hHead

theorem forall_mem_takeWhile (p : Char → Bool) (text : List Char) :
    ∀ c ∈ text.takeWhile p, p c = true :=
  List.all_eq_true.1 List.all_takeWhile

end

/-! ## Comments -/

/-- Where a mark that closes comments starts, it is not reached later. -/
theorem closes_cons_iff {c : Char} {text : List Char}
    (hOther : ∀ rest, c = '*' → text = '/' :: rest → False) :
    ['*', '/'] <:+: c :: text ↔ ['*', '/'] <:+: text := by
  rw [List.infix_cons_iff, or_iff_right]
  rintro ⟨rest, hRest⟩
  obtain ⟨hStar, hSlash⟩ := List.cons.inj hRest
  exact hOther rest hStar.symm hSlash.symm

/-- A block comment has no end if no mark closes it. -/
theorem commentEnd?_eq_none_iff {text : List Char} :
    commentEnd? text = none ↔ ¬ ['*', '/'] <:+: text := by
  fun_induction commentEnd? text with
  | case1 => simp
  | case2 rest => simp [List.infix_cons_iff]
  | case3 c rest hOther ih => rw [Option.map_eq_none_iff, ih, closes_cons_iff hOther]

theorem commentEnd?_append {body after : List Char} (hBody : ¬ ['*', '/'] <:+: body) :
    commentEnd? (body ++ '*' :: '/' :: after) = some (body ++ ['*', '/'], after) := by
  induction body with
  | nil => rfl
  | cons c body ih =>
    have hOther : ∀ rest, c = '*' → body = '/' :: rest → False := by
      rintro rest rfl rfl
      exact hBody (List.infix_cons_iff.2 (Or.inl ⟨rest, rfl⟩))
    rw [List.cons_append, commentEnd?, ih (mt (closes_cons_iff hOther).2 hBody)]
    · rfl
    · rintro rest rfl hRest
      cases body with
      | nil => cases hRest
      | cons d body =>
        cases hRest
        exact hOther body rfl rfl

/-- A block comment ends at the first mark that closes it. -/
theorem commentEnd?_eq_some {text inside after : List Char}
    (hEnd : commentEnd? text = some (inside, after)) :
    ∃ body, inside = body ++ ['*', '/'] ∧ text = body ++ '*' :: '/' :: after ∧
      ¬ ['*', '/'] <:+: body := by
  fun_induction commentEnd? text generalizing inside after with
  | case1 => cases hEnd
  | case2 rest =>
    cases hEnd
    exact ⟨[], rfl, rfl, by simp⟩
  | case3 c rest hOther ih =>
    obtain ⟨⟨inside, after⟩, hInner, hSome⟩ := Option.map_eq_some_iff.1 hEnd
    cases hSome
    obtain ⟨body, rfl, rfl, hBody⟩ := ih hInner
    refine ⟨c :: body, rfl, rfl, ?_⟩
    rw [closes_cons_iff]
    · exact hBody
    · rintro rest rfl rfl
      exact hOther _ rfl rfl

theorem commentLexeme?_eq_some {text rest : List Char} {l : Lexeme}
    (hComment : commentLexeme? text = some (l, rest)) : Leads ('/' :: text) l rest := by
  unfold commentLexeme? at hComment
  split at hComment
  next tail =>
    cases hComment
    have hBody : '\n' ∉ tail.takeWhile (· != '\n') := by
      intro hLine
      have hOther := forall_mem_takeWhile _ _ _ hLine
      simp at hOther
    have hLeads := Leads.lineComment hBody (endsRun_dropWhile (· != '\n') tail)
    rwa [List.cons_append, List.cons_append, List.takeWhile_append_dropWhile] at hLeads
  next tail =>
    obtain ⟨⟨inside, after⟩, hEnd, hSome⟩ := Option.map_eq_some_iff.1 hComment
    cases hSome
    obtain ⟨body, rfl, rfl, hBody⟩ := commentEnd?_eq_some hEnd
    exact .blockComment hBody
  next => cases hComment

/-! ## Lexemes -/

theorem Leads.lexeme?_eq {text rest : List Char} {l : Lexeme} (hLeads : Leads text l rest) :
    lexeme? text = some (l, rest) := by
  cases hLeads with
  | @blank run rest hSome hRun hEnd =>
    obtain ⟨c, run, rfl⟩ := List.exists_cons_of_ne_nil hSome
    obtain ⟨hFirst, hRun⟩ := List.forall_mem_cons.1 hRun
    rw [List.cons_append, lexeme?, if_pos hFirst, runLexeme, takeWhile_run hRun hEnd,
      dropWhile_run hRun hEnd]
  | @lineComment body rest hBody hEnd =>
    have hRun : ∀ c ∈ body, (c != '\n') = true := by
      intro c hc
      rw [bne_iff_ne]
      rintro rfl
      exact hBody hc
    rw [List.cons_append, List.cons_append, lexeme?, if_neg (by decide), if_pos rfl, commentLexeme?,
      takeWhile_run hRun hEnd, dropWhile_run hRun hEnd]
  | @blockComment body rest hBody =>
    rw [List.cons_append, List.cons_append, lexeme?, if_neg (by decide), if_pos rfl, commentLexeme?,
      commentEnd?_append hBody]
    rfl
  | @word first run rest hFirst hRun hEnd =>
    have hRange := isWordStart_range hFirst
    rw [List.cons_append, lexeme?, isBlank_eq_false (by omega) (by omega),
      if_neg Bool.false_ne_true, if_neg (ne_slash (by omega)), if_pos hFirst, runLexeme,
      takeWhile_run hRun hEnd, dropWhile_run hRun hEnd]
  | @number run rest hSome hRun hEnd =>
    obtain ⟨c, run, rfl⟩ := List.exists_cons_of_ne_nil hSome
    obtain ⟨hFirst, hRun⟩ := List.forall_mem_cons.1 hRun
    have hRange := isDigit_range hFirst
    rw [List.cons_append, lexeme?, isBlank_eq_false (by omega) (by omega),
      if_neg Bool.false_ne_true, if_neg (ne_slash (by omega)), isWordStart_eq_false hFirst,
      if_neg Bool.false_ne_true, if_pos hFirst, runLexeme, takeWhile_run hRun hEnd,
      dropWhile_run hRun hEnd]
  | symbol symbol =>
    obtain ⟨hBlank, hSlash, hStart, hDigit⟩ := symbol.char_classes
    rw [lexeme?, hBlank, if_neg Bool.false_ne_true, if_neg hSlash, hStart,
      if_neg Bool.false_ne_true, hDigit, if_neg Bool.false_ne_true, Symbol.ofChar?_char]
    rfl

theorem runLexeme_leads {kind : LexemeKind} {p : Char → Bool} {c : Char} {tail rest : List Char}
    {l : Lexeme} (hRun : runLexeme kind p c tail = (l, rest))
    (hLeads : ∀ {run after : List Char}, (∀ c ∈ run, p c = true) → EndsRun p after →
      Leads (c :: run ++ after) ⟨kind, c :: run⟩ after) : Leads (c :: tail) l rest := by
  obtain ⟨rfl, rfl⟩ := Prod.mk.inj hRun
  have hBoth := hLeads (forall_mem_takeWhile p tail) (endsRun_dropWhile p tail)
  rwa [List.cons_append, List.takeWhile_append_dropWhile] at hBoth

/-- The scanner takes exactly the lexeme that a text starts with. -/
theorem lexeme?_eq_some_iff {text rest : List Char} {l : Lexeme} :
    lexeme? text = some (l, rest) ↔ Leads text l rest := by
  refine ⟨fun hLexeme => ?_, Leads.lexeme?_eq⟩
  cases text with
  | nil => cases hLexeme
  | cons c tail =>
    simp only [lexeme?] at hLexeme
    split at hLexeme
    next hBlank =>
      refine runLexeme_leads (Option.some.inj hLexeme) fun hRun hEnd => ?_
      exact .blank (List.cons_ne_nil _ _) (List.forall_mem_cons.2 ⟨hBlank, hRun⟩) hEnd
    next =>
      split at hLexeme
      next hSlash =>
        subst hSlash
        exact commentLexeme?_eq_some hLexeme
      next =>
        split at hLexeme
        next hStart => exact runLexeme_leads (Option.some.inj hLexeme) (.word hStart)
        next =>
          split at hLexeme
          next hDigit =>
            refine runLexeme_leads (Option.some.inj hLexeme) fun hRun hEnd => ?_
            exact .number (List.cons_ne_nil _ _) (List.forall_mem_cons.2 ⟨hDigit, hRun⟩) hEnd
          next =>
            obtain ⟨symbol, hSymbol, hSome⟩ := Option.map_eq_some_iff.1 hLexeme
            have hChar := List.find?_some hSymbol
            obtain rfl : symbol.char = c := by simpa using hChar
            cases hSome
            exact .symbol symbol _

end Interchange.Schema

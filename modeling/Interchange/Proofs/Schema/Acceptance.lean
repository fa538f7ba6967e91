import Interchange.Proofs.Schema.Progress

/-!
# Texts of the grammar are read

A derivation of the grammar leads the machine through its tokens: from a state in which a construct
may stand, the text of the construct leads to the state in which the construct has been added. Types
may stand in three places, and everything about them is said for all three at once.

Keywords need care in one place: `template` behind the keyword of a declaration may be its name.

* `TypeText.runs`, `OptionText.runs`, `FieldText.runs`, `VariantText.runs`, `HeaderText.runs`,
  `StatementText.runs`: what each production leads to.
* `parseTokens_iff`: the parser accepts exactly the texts of the grammar that keep the rules, and
  every text has one derivation at most.
-/

namespace Interchange.Schema

open State (Moves Runs runs_nil)

/-! ## Repetition -/

section

variable {α : Type} {Text : List Located → α → Prop} {items : List Located} {as : List α}

theorem Repeated.runs (reached : List α → State) (hItems : Repeated Text items as)
    (hText : ∀ before last a, Text last a → Runs (reached before) last (reached (before ++ [a]))) :
    Runs (reached []) items (reached as) := by
  induction hItems with
  | nil => exact runs_nil _
  | snoc _ hLast ih => exact ih.append (hText _ _ _ hLast)

theorem Separated.runs (pending reached : List α → State) (hItems : Separated Text items as)
    (hText : ∀ before last a, Text last a → Runs (pending before) last (reached (before ++ [a])))
    (hComma : ∀ before comma, Moves (reached before) (mark .comma comma) (pending before)) :
    Runs (pending []) items (reached as) := by
  induction hItems with
  | one hFirst => exact hText [] _ _ hFirst
  | more _ hLast ih => exact (ih.snoc (hComma _ _)).append (hText _ _ _ hLast)

end

theorem readNumber_numeral {σ α : Type} (what : Expectation) (value : UInt32)
    (use : UInt32 → Step σ α) : readNumber what (.integer value.toNat) use = use value := by
  rw [readNumber, if_pos value.toNat_lt_size, UInt32.ofNat_toNat]

/-! ## Types -/

/-- All of a type has been read. -/
inductive TypeState.Complete : List OpenType → TypeExpr → TypeState → Prop
  | named (outer : List OpenType) (span : Span) (name : QualifiedName) :
      Complete outer (.mk name [] span) (.named outer span name)
  | closed (outer : List OpenType) (type : TypeExpr) : Complete outer type (.closed outer type)

/-- A token that does not go on with a name is behind the type. -/
theorem TypeState.Complete.step_eq {outer : List OpenType} {type : TypeExpr} {state : TypeState}
    {t : Located} (hComplete : Complete outer type state) (hDot : t.token ≠ .symbol .dot)
    (hAngle : t.token ≠ .symbol .leftAngle) : state.step t = stepClosed type t.token outer := by
  cases hComplete with
  | named span name =>
    rw [step]
    split
    next hToken => exact absurd hToken hDot
    next hToken => exact absurd hToken hAngle
    next => rfl
  | closed => rfl

/-- A place in which a type may stand. -/
def TypePlace (place : TypeState → State) : Prop :=
  ∀ {state next : TypeState} {t : Located}, state.step t = .next next →
    Moves (place state) t (place next)

section

variable {place : TypeState → State}

/-- The state from which a name leads into a place. -/
def Enters (state : State) (place : TypeState → State) (outer : List OpenType) : Prop :=
  ∀ segment span, Moves state (word segment span) (place (.named outer span ⟨segment, []⟩))

theorem TypePlace.enters (hPlace : TypePlace place) (outer : List OpenType) :
    Enters (place (.start outer)) place outer :=
  fun _ _ => hPlace rfl

theorem NameText.runs {items : List Located} {span : Span} {name : QualifiedName} {state : State}
    {outer : List OpenType} (hName : NameText items span name) (hPlace : TypePlace place)
    (hEnters : Enters state place outer) : Runs state items (place (.named outer span name)) := by
  induction hName with
  | first segment span => exact (hEnters segment span).runs
  | push _ segment ih =>
    exact (ih.snoc (hPlace rfl)).snoc (hPlace rfl)

mutual

theorem TypeText.runs (hPlace : TypePlace place) : ∀ {items : List Located} {type : TypeExpr},
    TypeText items type → ∀ {state : State} {outer : List OpenType}, Enters state place outer →
      ∃ next, TypeState.Complete outer type next ∧ Runs state items (place next)
  | _, _, .bare hName, state, outer, hEnters => ⟨_, .named _ _ _, hName.runs hPlace hEnters⟩
  | _, _, @TypeText.applied items _ span left _ name _ hName hArgs, state, outer, hEnters => by
    have hOpen : Runs state (items ++ [mark .leftAngle left])
      (place (.start (⟨name, span, []⟩ :: outer))) := (hName.runs hPlace hEnters).snoc (hPlace rfl)
    -- The last argument is complete, but not closed yet: the angle goes to the application.
    obtain ⟨args, last, next, rfl, hComplete, hRuns⟩ := typesRun hPlace hArgs name span outer
    refine ⟨_, .closed outer _, (hOpen.append hRuns).snoc (hPlace ?_)⟩
    rw [hComplete.step_eq (by simp) (by simp)]
    simp [TypeState.stepClosed, OpenType.close]

/-- The arguments of an application lead to the end of the last of them. -/
theorem typesRun (hPlace : TypePlace place) : ∀ {items : List Located} {types : List TypeExpr},
    Separated TypeText items types → ∀ (name : QualifiedName) (span : Span) (outer : List OpenType),
      ∃ before last next, types = before ++ [last] ∧
        TypeState.Complete (⟨name, span, before.reverse⟩ :: outer) last next ∧
        Runs (place (.start (⟨name, span, []⟩ :: outer))) items (place next)
  | _, _, .one hFirst, name, span, outer => by
    obtain ⟨next, hComplete, hRuns⟩ :=
      hFirst.runs hPlace (hPlace.enters (⟨name, span, []⟩ :: outer))
    exact ⟨[], _, next, rfl, hComplete, hRuns⟩
  | _, _, .more hItems hLast, name, span, outer => by
    obtain ⟨before, last, middle, rfl, hComplete, hFirst⟩ := typesRun hPlace hItems name span outer
    obtain ⟨next, hNext, hRuns⟩ := hLast.runs hPlace
      (hPlace.enters (⟨name, span, (before ++ [last]).reverse⟩ :: outer))
    refine ⟨before ++ [last], _, next, rfl, hNext, (hFirst.snoc (hPlace ?_)).append hRuns⟩
    rw [hComplete.step_eq (by simp) (by simp)]
    simp [TypeState.stepClosed]

end

end

/-! ## Members of a body -/

section

variable (blocks : List OpenBlock) (done : List Statement) {items : List Located}

theorem FieldText.runs {field : FieldDecl} (hField : FieldText items field) (header : Header)
    (members : List (Member FieldDecl)) :
    Runs ⟨blocks, done, .body (.message header members)⟩ items
      ⟨blocks, done, .body (.message header (.part field :: members))⟩ := by
  have hPlace : TypePlace fun state => ⟨blocks, done, .field header members (.type state)⟩ := by
    intro state next t hStep
    apply Moves.field
    rw [FieldState.step, hStep]
  cases hField with
  | @mk items type place equals digits _ hType name id =>
    obtain ⟨state, hComplete, hRuns⟩ := hType.runs hPlace (Moves.fieldStart header members)
    have hName : FieldState.step (word name place) (.type state) = .next (.equals type name) := by
      rw [FieldState.step, hComplete.step_eq (by simp) (by simp), TypeState.stepClosed]
    have hEquals : FieldState.step (mark .equals equals) (.equals type name) =
      .next (.number type name) := rfl
    have hNumber : FieldState.step (numeral id digits) (.number type name) =
        .next (.close ⟨type, name, id⟩) := by
      rw [FieldState.step, readNumber_numeral]
    have hClose := ((hRuns.snoc (.field hName)).snoc (.field hEquals)).snoc (.field hNumber)
    exact hClose.snoc (.fieldEnd rfl)

theorem CaseText.runs {name : String} {span : Span} {payload : Option TypeExpr}
    (hCase : CaseText items name span payload) (equals : Span) (header : Header)
    (members : List (Member VariantDecl)) :
    Runs ⟨blocks, done, .body (.tag header members)⟩ (items ++ [mark .equals equals])
      ⟨blocks, done, .variant header members (.number name span payload)⟩ := by
  have hStart : Runs ⟨blocks, done, .body (.tag header members)⟩ [word name span]
    ⟨blocks, done, .variant header members (.named name span)⟩ :=
    (Moves.variantStart header members name span).runs
  cases hCase with
  | bare => exact hStart.snoc (.variant rfl)
  | @payload items type left right _ _ hType =>
    have hPlace : TypePlace fun state =>
        ⟨blocks, done, .variant header members (.payload name span state)⟩ := by
      intro state next t hStep
      apply Moves.variant
      rw [VariantState.step, hStep]
    obtain ⟨state, hComplete, hRuns⟩ := hType.runs hPlace (hPlace.enters [])
    have hRight : VariantState.step (mark .rightParen right) (.payload name span state) =
        .next (.equals name span (some type)) := by
      rw [VariantState.step, hComplete.step_eq (by simp) (by simp), TypeState.stepClosed]
    have hLeft : VariantState.step (mark .leftParen left) (.named name span) =
      .next (.payload name span (.start [])) := rfl
    have hPayload := ((hStart.snoc (.variant hLeft)).append hRuns).snoc (.variant hRight)
    exact hPayload.snoc (.variant rfl)

theorem VariantText.runs {variant : VariantDecl} (hVariant : VariantText items variant)
    (header : Header) (members : List (Member VariantDecl)) :
    Runs ⟨blocks, done, .body (.tag header members)⟩ items
      ⟨blocks, done, .body (.tag header (.part variant :: members))⟩ := by
  cases hVariant with
  | @mk items name span equals digits _ payload hCase value =>
    have hNumber : VariantState.step (numeral value digits) (.number name span payload) =
        .next (.close ⟨name, payload, value, span⟩) := by
      rw [VariantState.step, readNumber_numeral]
    have hClose := (hCase.runs blocks done equals header members).snoc (.variant hNumber)
    exact hClose.snoc (.variantEnd rfl)

/-- The numbers of a list. -/
theorem numbersRun {values : List UInt32} (hValues : Separated NumberText items values)
    (body : OpenBody) (span : Span) (key : String) :
    Runs ⟨blocks, done, .option body (.item span key [])⟩ items
      ⟨blocks, done, .option body (.itemEnd span key values.reverse)⟩ := by
  apply hValues.runs (fun values => ⟨blocks, done, .option body (.item span key values.reverse)⟩)
    (fun values => ⟨blocks, done, .option body (.itemEnd span key values.reverse)⟩)
  · rintro before _ value ⟨_, digits⟩
    apply Moves.runs
    apply Moves.option
    rw [OptionState.step, readNumber_numeral, List.reverse_append]
    rfl
  · intro before comma
    exact .option rfl

theorem OptionText.runs {option : OptionDecl} (hOption : OptionText items option)
    (body : OpenBody) :
    Runs ⟨blocks, done, .body body⟩ items ⟨blocks, done, .body (body.addOption option)⟩ := by
  cases hOption with
  | @mk items value span place equals stop key hValue =>
    have hKey : OptionState.step (word key place) (.key span) = .next (.equals span key) := rfl
    have hEquals : OptionState.step (mark .equals equals) (.equals span key) =
      .next (.value span key) := rfl
    have hStart : Runs ⟨blocks, done, .body body⟩
      ([mark .atSign span] ++ [word key place] ++ [mark .equals equals])
      ⟨blocks, done, .option body (.value span key)⟩ :=
      ((Moves.optionStart body span).runs.snoc (.option hKey)).snoc (.option hEquals)
    cases hValue with
    | @integer value digits =>
      have hNumber : OptionState.step (numeral value digits) (.value span key) =
          .next (.close ⟨key, .integer value, span⟩) := by
        simp only [OptionState.step, readNumber_numeral]
      exact (hStart.snoc (.option hNumber)).snoc (.optionEnd rfl)
    | @list items values left right hValues =>
      have hLeft : OptionState.step (mark .leftBracket left) (.value span key) =
        .next (.item span key []) := rfl
      have hRight : OptionState.step (mark .rightBracket right) (.itemEnd span key values.reverse) =
          .next (.close ⟨key, .list values, span⟩) := by
        simp [OptionState.step]
      have hNumbers := numbersRun blocks done hValues body span key
      have hList := ((Moves.option hLeft).runs.append hNumbers).snoc (.option hRight)
      exact (hStart.append hList).snoc (.optionEnd rfl)
    | @type items type hType =>
      have hPlace : TypePlace fun state => ⟨blocks, done, .option body (.type span key state)⟩ := by
        intro state next t hStep
        apply Moves.option
        rw [OptionState.step, hStep]
      have hEnters : Enters ⟨blocks, done, .option body (.value span key)⟩
        (fun state => ⟨blocks, done, .option body (.type span key state)⟩) [] :=
        fun _ _ => .option rfl
      obtain ⟨state, hComplete, hRuns⟩ := hType.runs hPlace hEnters
      refine (hStart.append hRuns).snoc (.optionEnd ?_)
      rw [OptionState.step, hComplete.step_eq (by simp) (by simp), TypeState.stepClosed]

end

/-! ## Statements -/

section

variable (blocks : List OpenBlock) (done : List Statement) {items : List Located}

/-- The parameters of a template. -/
theorem paramsRun {params : List String} (hParams : Separated WordText items params)
    (kind : ModelKind) (span : Span) :
    Runs ⟨blocks, done, .head kind span (.param [])⟩ items
      ⟨blocks, done, .head kind span (.paramEnd params)⟩ := by
  apply hParams.runs (fun params => ⟨blocks, done, .head kind span (.param params)⟩)
    (fun params => ⟨blocks, done, .head kind span (.paramEnd params)⟩)
  · rintro before _ name ⟨_, place⟩
    exact (Moves.head kind span rfl).runs
  · intro before comma
    exact .head kind span rfl

/-- The header of a declaration behind its keyword. -/
theorem HeaderText.runs {params : List String} {name : String}
    (hHeader : HeaderText items params name) (left : Span) (kind : ModelKind) (span : Span) :
    Runs ⟨blocks, done, .statement⟩ ([word kind.keyword span] ++ items ++ [mark .leftBrace left])
      ⟨blocks, done, .body (.empty kind ⟨span, params, name⟩)⟩ := by
  have hStart : Runs ⟨blocks, done, .statement⟩ [word kind.keyword span]
    ⟨blocks, done, .head kind span .start⟩ := (Moves.modelStart kind span).runs
  cases hHeader with
  | @plain _ place =>
    -- A declaration named `template` looks like a template until the brace comes.
    by_cases hName : name = HeadState.templateKeyword
    · subst hName
      have hKeyword : HeadState.advance span (word HeadState.templateKeyword place) .start =
        .next .template := rfl
      exact (hStart.snoc (.head kind span hKeyword)).snoc (.headEnd kind span rfl)
    · have hWord : HeadState.advance span (word name place) .start = .next (.brace [] name) := by
        simp [HeadState.advance, HeadState.step, hName]
      exact (hStart.snoc (.head kind span hWord)).snoc (.headEnd kind span rfl)
  | @template items _ keyword bracket right place hParams _ =>
    have hKeyword : HeadState.advance span (word "template" keyword) .start = .next .template := rfl
    have hLeft : HeadState.advance span (mark .leftAngle bracket) .template =
        .next (.param []) := rfl
    have hRight : HeadState.advance span (mark .rightAngle right) (.paramEnd params) =
      .next (.name params) := rfl
    have hName : HeadState.advance span (word name place) (.name params) =
      .next (.brace params name) := rfl
    have hBrace : HeadState.advance span (mark .leftBrace left) (.brace params name) =
      .done ⟨span, params, name⟩ := rfl
    have hOpen := (hStart.snoc (.head kind span hKeyword)).snoc (.head kind span hLeft)
    have hClose := (hOpen.append (paramsRun blocks done hParams kind span)).snoc
      (.head kind span hRight)
    have hHeader := (hClose.snoc (.head kind span hName)).snoc (.headEnd kind span hBrace)
    simpa using hHeader

/-- The members of a message or a tag; `body` is the body with the members that have been read. -/
theorem membersRun {α : Type} {Text : List Located → α → Prop} {members : List (Member α)}
    (body : List (Member α) → OpenBody)
    (hPart : ∀ before last part, Text last part → Runs ⟨blocks, done, .body (body before)⟩ last
      ⟨blocks, done, .body (body (.part part :: before))⟩)
    (hOption : ∀ before option, (body before).addOption option = body (.option option :: before))
    (hMembers : Repeated (MemberText Text) items members) :
    Runs ⟨blocks, done, .body (body [])⟩ items ⟨blocks, done, .body (body members.reverse)⟩ := by
  apply hMembers.runs fun members => ⟨blocks, done, .body (body members.reverse)⟩
  intro before last member hMember
  rw [List.reverse_append]
  cases hMember with
  | part hText => exact hPart before.reverse last _ hText
  | option hText =>
    have hRuns := hText.runs blocks done (body before.reverse)
    rw [hOption] at hRuns
    exact hRuns

/-- The options of a service. -/
theorem optionsRun {options : List OptionDecl} (span : Span) (name : String)
    (hOptions : Repeated OptionText items options) :
    Runs ⟨blocks, done, .body (.service span name [])⟩ items
      ⟨blocks, done, .body (.service span name options.reverse)⟩ := by
  apply hOptions.runs fun options => ⟨blocks, done, .body (.service span name options.reverse)⟩
  intro before last option hOption
  rw [List.reverse_append]
  exact hOption.runs blocks done (.service span name before.reverse)

/-- The name of a namespace. -/
theorem namespaceRun {place : Span} {name : QualifiedName} (hName : NameText items place name)
    (span : Span) :
    Runs ⟨blocks, done, .statement⟩ ([word "namespace" span] ++ items)
      ⟨blocks, done, .namespaceNamed span name⟩ := by
  have hStart : Runs ⟨blocks, done, .statement⟩ [word "namespace" span]
    ⟨blocks, done, .namespaceSegment span none⟩ := (Moves.namespaceStart span).runs
  induction hName with
  | first segment place => exact hStart.snoc (.firstSegment span segment place)
  | @push items _ dot place name _ segment ih =>
    have hDot := ih.snoc (.dot span name dot)
    have hNext := hDot.snoc (.nextSegment span name segment place)
    simpa using hNext

end

mutual

/-- The text of a statement adds it. -/
theorem StatementText.runs : ∀ {items : List Located} {statement : Statement},
    StatementText items statement → ∀ (blocks : List OpenBlock) (done : List Statement),
      Runs ⟨blocks, done, .statement⟩ items ⟨blocks, statement :: done, .statement⟩
  | _, _, @StatementText.fileNamespace _ span _ stop name hName, blocks, done =>
    (namespaceRun blocks done hName span).snoc (.fileNamespace span name stop)
  | _, _, @StatementText.block _ _ span _ left right name body hName hBody, blocks, done => by
    have hStart := (namespaceRun blocks done hName span).snoc (.blockStart span name left)
    have hBody := hStart.append (statementsRun hBody (⟨name, span, done⟩ :: blocks) [])
    have hEnd : Moves ⟨⟨name, span, done⟩ :: blocks, body.reverse ++ [], .statement⟩
        (mark .rightBrace right) ⟨blocks, .block name body span :: done, .statement⟩ := by
      have hEnd := @Moves.blockEnd blocks body.reverse ⟨name, span, done⟩ right
      rw [List.reverse_reverse] at hEnd
      rw [List.append_nil]
      exact hEnd
    exact hBody.snoc hEnd
  | _, _, @StatementText.message _ _ span left right params name members hHeader hMembers, blocks,
      done => by
    have hInner := membersRun blocks done (.message ⟨span, params, name⟩)
      (fun before _ _ hField => hField.runs blocks done _ before) (fun _ _ => rfl) hMembers
    have hBody := (hHeader.runs blocks done left .message span).append hInner
    have hEnd := @Moves.bodyEnd blocks done (.message ⟨span, params, name⟩ members.reverse) right
    rw [OpenBody.close, List.reverse_reverse] at hEnd
    exact hBody.snoc hEnd
  | _, _, @StatementText.tag _ _ span left right params name members hHeader hMembers, blocks,
      done => by
    have hInner := membersRun blocks done (.tag ⟨span, params, name⟩)
      (fun before _ _ hVariant => hVariant.runs blocks done _ before) (fun _ _ => rfl) hMembers
    have hBody := (hHeader.runs blocks done left .tag span).append hInner
    have hEnd := @Moves.bodyEnd blocks done (.tag ⟨span, params, name⟩ members.reverse) right
    rw [OpenBody.close, List.reverse_reverse] at hEnd
    exact hBody.snoc hEnd
  | _, _, @StatementText.service _ span place left right options name hOptions, blocks, done => by
    have hName := (@Moves.serviceStart blocks done span).runs.snoc (.serviceName span name place)
    have hBody := (hName.snoc (.serviceBrace span name left)).append
      (optionsRun blocks done span name hOptions)
    have hEnd := @Moves.bodyEnd blocks done (.service span name options.reverse) right
    rw [OpenBody.close, List.reverse_reverse] at hEnd
    exact hBody.snoc hEnd

/-- The text of statements adds them. -/
theorem statementsRun : ∀ {items : List Located} {statements : List Statement},
    Repeated StatementText items statements → ∀ (blocks : List OpenBlock) (done : List Statement),
      Runs ⟨blocks, done, .statement⟩ items ⟨blocks, statements.reverse ++ done, .statement⟩
  | _, _, .nil, blocks, done => runs_nil _
  | _, _, .snoc hItems hLast, blocks, done => by
    rw [List.reverse_append]
    exact (statementsRun hItems blocks done).append (hLast.runs blocks _)

end

/-! ## Files -/

/-- Without rules, a text is read to its end exactly if it is the text of a file. -/
theorem runs_iff_file {items : List Located} {file : List Statement} :
    Runs State.start items ⟨[], file.reverse, .statement⟩ ↔ FileText items file := by
  constructor
  · intro hRuns
    have hFile := hRuns.file
    rwa [List.reverse_reverse] at hFile
  · intro hFile
    have hRuns := statementsRun hFile [] []
    rwa [List.append_nil] at hRuns

/-- A text is the text of one file at most. -/
theorem FileText.unique {items : List Located} {file other : List Statement}
    (hFile : FileText items file) (hOther : FileText items other) : file = other := by
  have hSame := (runs_iff_file.2 hFile).unique (runs_iff_file.2 hOther)
  exact List.reverse_injective (congrArg State.done hSame)

theorem State.finish_eq_ok {state : State} {stop : Span} {file : List Statement} :
    state.finish stop = .ok file ↔ state = ⟨[], file.reverse, .statement⟩ := by
  obtain ⟨blocks, done, phase⟩ := state
  cases phase with
  | statement =>
    cases blocks with
    | nil => simp [finish, List.reverse_eq_iff]
    | cons => simp [finish]
  | _ => simp [finish]

/-- The parser accepts exactly the texts of the grammar that keep the rules, and the statements that
it gives are the only ones that the text stands for. -/
theorem parseTokens_iff (tokens : Tokens) (file : List Statement) :
    (parseTokens tokens = .ok file ↔ FileText tokens.items file ∧ Admissible file) ∧
      (FileText tokens.items file → ∀ other, FileText tokens.items other → other = file) := by
  refine ⟨?_, fun hFile other hOther => hOther.unique hFile⟩
  have hLawful : State.Lawful ⟨[], file.reverse, .statement⟩ ↔ Admissible file := by
    rw [State.lawful_iff, Orderly, List.reverse_reverse]
    exact and_iff_right .nil
  have hRuns := @State.foldlM_step_iff_runs State.start ⟨[], file.reverse, .statement⟩ tokens.items
  rw [and_iff_right State.lawful_start, runs_iff_file, hLawful] at hRuns
  rw [← hRuns, parseTokens, bind_eq_ok]
  constructor
  · rintro ⟨state, hState, hFinish⟩
    rw [State.finish_eq_ok] at hFinish
    rw [← hFinish]
    exact hState
  · intro hState
    exact ⟨_, hState, State.finish_eq_ok.2 rfl⟩

/-- A namespace named `tag` with a message named `template` that has a field of type
`message.tag`. -/
def keywords : Tokens where
  items := [word "namespace" ⟨1, 1⟩, word "tag" ⟨1, 11⟩, mark .leftBrace ⟨1, 15⟩,
    word "message" ⟨1, 17⟩, word "template" ⟨1, 25⟩, mark .leftBrace ⟨1, 34⟩,
    word "message" ⟨1, 36⟩, mark .dot ⟨1, 43⟩, word "tag" ⟨1, 44⟩, word "template" ⟨1, 48⟩,
    mark .equals ⟨1, 57⟩, numeral 1 ⟨1, 59⟩, mark .semicolon ⟨1, 60⟩, mark .rightBrace ⟨1, 62⟩,
    mark .rightBrace ⟨1, 64⟩]
  stop := ⟨1, 65⟩

def keywordsFile : List Statement :=
  [.block ⟨"tag", []⟩ [.message ⟨⟨⟨1, 17⟩, [], "template"⟩,
    [.part ⟨.mk ⟨"message", ["tag"]⟩ [] ⟨1, 36⟩, "template", 1⟩]⟩] ⟨1, 1⟩]

theorem keywords_unique : FileText keywords.items keywordsFile ∧ Admissible keywordsFile ∧
    ∀ other, FileText keywords.items other → other = keywordsFile := by
  have hParse : parseTokens keywords = .ok keywordsFile := by cbv
  obtain ⟨hAccepts, hUnique⟩ := parseTokens_iff keywords keywordsFile
  obtain ⟨hFile, hAdmissible⟩ := hAccepts.1 hParse
  exact ⟨hFile, hAdmissible, hUnique hFile⟩

end Interchange.Schema

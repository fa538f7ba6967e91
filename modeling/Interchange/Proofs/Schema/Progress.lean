import Interchange.Proofs.Schema.Lenient

/-!
# What has been read

A state of the parser stands for the tokens that have been read so far: complete constructs with
their derivations, and of each construct that is still open the part of its production that is
behind. A step adds its token to the innermost of them. So where a text is read to its end, it is
derived by the grammar.

* `TypeState.Read`, `FieldState.Read`, `VariantState.Read`, `OptionState.Read`, `HeadState.Read`,
  `Phase.Read`, `State.Read`: what has been read in a state.
* `State.Moves.read`: a step reads one token more.
* `State.Runs.file`: what leads to the end of a file is the text of a file.
-/

namespace Interchange.Schema

/-- What a step leads to has one property, and what it completes another. -/
def Step.Yields {σ α : Type} (P : σ → Prop) (Q : α → Prop) : Step σ α → Prop
  | next state => P state
  | done result => Q result
  | broken _ => True
  | unfit => True

theorem yields_readNumber {σ α : Type} {P : σ → Prop} {Q : α → Prop} {what : Expectation}
    {t : Located} {use : UInt32 → Step σ α}
    (hUse : ∀ value digits, t = numeral value digits → (use value).Yields P Q) :
    (readNumber what t.token use).Yields P Q := by
  obtain ⟨token, span⟩ := t
  unfold readNumber
  split
  next value hToken =>
    cases hToken
    split
    next hValue =>
      apply hUse _ span
      rw [numeral, UInt32.toNat_ofNat_of_lt' hValue]
    next => trivial
  next => trivial

/-- A list with commas in which something must follow: nothing has been read, or a comma. -/
def Pending {α : Type} (Text : List Located → α → Prop) (items : List Located)
    (as : List α) : Prop :=
  items = [] ∧ as = [] ∨ ∃ before comma, items = before ++ [mark .comma comma] ∧
    Separated Text before as

section

variable {α : Type} {Text : List Located → α → Prop} {items last : List Located}
  {as : List α} {a : α}

theorem pending_nil : Pending Text [] [] :=
  Or.inl ⟨rfl, rfl⟩

theorem Pending.snoc (hPending : Pending Text items as) (hLast : Text last a) :
    Separated Text (items ++ last) (as ++ [a]) := by
  rcases hPending with ⟨rfl, rfl⟩ | ⟨before, comma, rfl, hItems⟩
  · exact .one hLast
  · exact .more hItems hLast

theorem Separated.pending (hItems : Separated Text items as) (comma : Span) :
    Pending Text (items ++ [mark .comma comma]) as :=
  Or.inr ⟨items, comma, rfl, hItems⟩

end

/-! ## Types -/

/-- An application up to its next argument. -/
def OpenType.Read (app : OpenType) (items : List Located) : Prop :=
  ∃ name left inner, items = name ++ [mark .leftAngle left] ++ inner ∧
    NameText name app.span app.name ∧ Pending TypeText inner app.args.reverse

/-- The applications around a place. -/
def OuterRead : List OpenType → List Located → Prop
  | [], items => items = []
  | app :: outer, items => ∃ before inner, items = before ++ inner ∧ OuterRead outer before ∧
      app.Read inner

def TypeState.Read : TypeState → List Located → Prop
  | start outer, items => OuterRead outer items
  | dotted outer span name, items =>
    ∃ before inner dot, items = before ++ inner ++ [mark .dot dot] ∧
      OuterRead outer before ∧ NameText inner span name
  | named outer span name, items => ∃ before inner, items = before ++ inner ∧
      OuterRead outer before ∧ NameText inner span name
  | closed outer type, items => ∃ before inner, items = before ++ inner ∧ OuterRead outer before ∧
      TypeText inner type

theorem OpenType.Read.comma {app : OpenType} {items last : List Located} {type : TypeExpr}
    (hApp : app.Read items) (hType : TypeText last type) (comma : Span) :
    OpenType.Read ⟨app.name, app.span, type :: app.args⟩
      (items ++ last ++ [mark .comma comma]) := by
  obtain ⟨name, left, inner, rfl, hName, hArgs⟩ := hApp
  refine ⟨name, left, inner ++ last ++ [mark .comma comma], by simp, hName, ?_⟩
  rw [List.reverse_cons]
  exact (hArgs.snoc hType).pending comma

theorem OpenType.Read.close {app : OpenType} {items last : List Located} {type : TypeExpr}
    (hApp : app.Read items) (hType : TypeText last type) (right : Span) :
    TypeText (items ++ last ++ [mark .rightAngle right]) (app.close type) := by
  obtain ⟨name, left, inner, rfl, hName, hArgs⟩ := hApp
  rw [OpenType.close, List.reverse_cons, List.append_assoc _ inner]
  exact .applied hName (hArgs.snoc hType)

/-- The token behind a type goes to the application around it. -/
theorem TypeState.stepClosed_read {outer : List OpenType} {before inner : List Located}
    {type : TypeExpr} (hOuter : OuterRead outer before)
    (hType : TypeText inner type) (t : Located) :
    (stepClosed type t.token outer).Yields (Read · (before ++ inner ++ [t]))
      (TypeText (before ++ inner)) := by
  obtain ⟨token, span⟩ := t
  cases outer with
  | nil =>
    obtain rfl : before = [] := hOuter
    exact hType
  | cons app outer =>
    obtain ⟨before, open', rfl, hOuter, hApp⟩ := hOuter
    cases token with
    | symbol symbol =>
      cases symbol with
      | comma =>
        exact ⟨before, open' ++ inner ++ [mark .comma span], by simp, hOuter, hApp.comma hType span⟩
      | rightAngle =>
        exact ⟨before, open' ++ inner ++ [mark .rightAngle span], by simp, hOuter,
          hApp.close hType span⟩
      | _ => trivial
    | _ => trivial

/-- A token adds to a type, or it is the token behind it. -/
theorem TypeState.step_read {state : TypeState} {items : List Located} (hRead : state.Read items)
    (t : Located) :
    (state.step t).Yields (Read · (items ++ [t])) (TypeText items) := by
  obtain ⟨token, span⟩ := t
  cases state with
  | start outer =>
    cases token with
    | identifier segment => exact ⟨items, _, rfl, hRead, .first segment span⟩
    | _ => trivial
  | dotted outer place name =>
    obtain ⟨before, inner, dot, rfl, hOuter, hName⟩ := hRead
    cases token with
    | identifier segment =>
      exact ⟨before, inner ++ [mark .dot dot] ++ [word segment span], by simp, hOuter,
        hName.push segment⟩
    | _ => trivial
  | named outer place name =>
    obtain ⟨before, inner, rfl, hOuter, hName⟩ := hRead
    -- A name that does not go on is a type without arguments.
    have hClosed := stepClosed_read hOuter (.bare hName) ⟨token, span⟩
    cases token with
    | symbol symbol =>
      cases symbol with
      | dot => exact ⟨before, inner, span, rfl, hOuter, hName⟩
      | leftAngle =>
        refine ⟨before, inner ++ [mark .leftAngle span], by simp, hOuter, ?_⟩
        exact ⟨inner, span, [], by simp, hName, pending_nil⟩
      | _ => exact hClosed
    | _ => exact hClosed
  | closed outer type =>
    obtain ⟨before, inner, rfl, hOuter, hType⟩ := hRead
    exact stepClosed_read hOuter hType _

/-- A type of which the first segment has been read. -/
theorem TypeState.read_named (segment : String) (span : Span) :
    (named [] span ⟨segment, []⟩).Read [word segment span] :=
  ⟨[], _, rfl, rfl, .first segment span⟩

/-! ## Members of a body -/

def FieldState.Read : FieldState → List Located → Prop
  | type state, items => state.Read items
  | equals written name, items => ∃ inner place, items = inner ++ [word name place] ∧
      TypeText inner written
  | number written name, items => ∃ inner place equals,
      items = inner ++ [word name place] ++ [mark .equals equals] ∧ TypeText inner written
  | close field, items => ∃ inner place equals digits,
      items = inner ++ [word field.name place] ++ [mark .equals equals] ++
        [numeral field.id digits] ∧
        TypeText inner field.type

theorem FieldState.step_read {state : FieldState} {items : List Located} (hRead : state.Read items)
    (t : Located) :
    (state.step t).Yields (Read · (items ++ [t])) (FieldText (items ++ [t])) := by
  cases state with
  | type state =>
    have hType := TypeState.step_read hRead t
    simp only [step]
    cases hStep : state.step t with
    | next state =>
      rw [hStep] at hType
      exact hType
    | done written =>
      rw [hStep] at hType
      obtain ⟨token, span⟩ := t
      cases token with
      | identifier name => exact ⟨items, span, rfl, hType⟩
      | _ => trivial
    | broken => trivial
    | unfit => trivial
  | equals type name =>
    obtain ⟨inner, place, rfl, hType⟩ := hRead
    obtain ⟨token, span⟩ := t
    cases token with
    | symbol symbol =>
      cases symbol with
      | equals => exact ⟨inner, place, span, rfl, hType⟩
      | _ => trivial
    | _ => trivial
  | number type name =>
    obtain ⟨inner, place, equals, rfl, hType⟩ := hRead
    rw [step]
    apply yields_readNumber
    rintro id digits rfl
    exact ⟨inner, place, equals, digits, rfl, hType⟩
  | close field =>
    obtain ⟨inner, place, equals, digits, rfl, hType⟩ := hRead
    obtain ⟨token, span⟩ := t
    cases token with
    | symbol symbol =>
      cases symbol with
      | semicolon => exact .mk hType field.name field.id
      | _ => trivial
    | _ => trivial

def VariantState.Read : VariantState → List Located → Prop
  | named name span, items => items = [word name span]
  | payload name span state, items => ∃ left inner,
      items = [word name span] ++ [mark .leftParen left] ++ inner ∧ state.Read inner
  | equals name span content, items => CaseText items name span content
  | number name span content, items => ∃ inner equals, items = inner ++ [mark .equals equals] ∧
      CaseText inner name span content
  | close variant, items => ∃ inner equals digits,
      items = inner ++ [mark .equals equals] ++ [numeral variant.value digits] ∧
        CaseText inner variant.name variant.span variant.payload

theorem VariantState.step_read {state : VariantState} {items : List Located}
    (hRead : state.Read items) (t : Located) :
    (state.step t).Yields (Read · (items ++ [t])) (VariantText (items ++ [t])) := by
  cases state with
  | named name span =>
    obtain rfl : items = [word name span] := hRead
    obtain ⟨token, place⟩ := t
    cases token with
    | symbol symbol =>
      cases symbol with
      | leftParen => exact ⟨place, [], rfl, rfl⟩
      | equals => exact ⟨_, place, rfl, .bare name span⟩
      | _ => trivial
    | _ => trivial
  | payload name span state =>
    obtain ⟨left, inner, rfl, hState⟩ := hRead
    have hType := TypeState.step_read hState t
    simp only [step]
    cases hStep : state.step t with
    | next state =>
      rw [hStep] at hType
      exact ⟨left, inner ++ [t], List.append_assoc _ _ _, hType⟩
    | done type =>
      rw [hStep] at hType
      obtain ⟨token, right⟩ := t
      cases token with
      | symbol symbol =>
        cases symbol with
        | rightParen => exact .payload name span hType
        | _ => trivial
      | _ => trivial
    | broken => trivial
    | unfit => trivial
  | equals name span payload =>
    obtain ⟨token, place⟩ := t
    cases token with
    | symbol symbol =>
      cases symbol with
      | equals => exact ⟨items, place, rfl, hRead⟩
      | _ => trivial
    | _ => trivial
  | number name span payload =>
    obtain ⟨inner, equals, rfl, hCase⟩ := hRead
    rw [step]
    apply yields_readNumber
    rintro value digits rfl
    exact ⟨inner, equals, digits, rfl, hCase⟩
  | close variant =>
    obtain ⟨inner, equals, digits, rfl, hCase⟩ := hRead
    obtain ⟨token, stop⟩ := t
    cases token with
    | symbol symbol =>
      cases symbol with
      | semicolon => exact .mk hCase variant.value
      | _ => trivial
    | _ => trivial

/-- An option up to its value. -/
def KeyRead (span : Span) (key : String) (items : List Located) : Prop :=
  ∃ place equals, items = [mark .atSign span] ++ [word key place] ++ [mark .equals equals]

def OptionState.Read : OptionState → List Located → Prop
  | key span, items => items = [mark .atSign span]
  | equals span name, items => ∃ place, items = [mark .atSign span] ++ [word name place]
  | value span name, items => KeyRead span name items
  | type span name state, items => ∃ before inner, items = before ++ inner ∧
      KeyRead span name before ∧ state.Read inner
  | item span name values, items => ∃ before left inner,
      items = before ++ [mark .leftBracket left] ++ inner ∧ KeyRead span name before ∧
        Pending NumberText inner values.reverse
  | itemEnd span name values, items => ∃ before left inner,
      items = before ++ [mark .leftBracket left] ++ inner ∧ KeyRead span name before ∧
        Separated NumberText inner values.reverse
  | close option, items => ∃ before inner, items = before ++ inner ∧
      KeyRead option.span option.key before ∧ ValueText inner option.value

theorem KeyRead.option {span stop : Span} {key : String} {before inner : List Located}
    {value : OptionValue} (hKey : KeyRead span key before) (hValue : ValueText inner value) :
    OptionText (before ++ inner ++ [mark .semicolon stop]) ⟨key, value, span⟩ := by
  obtain ⟨place, equals, rfl⟩ := hKey
  exact .mk key hValue

theorem OptionState.step_read {state : OptionState} {items : List Located}
    (hRead : state.Read items) (t : Located) :
    (state.step t).Yields (Read · (items ++ [t])) (OptionText (items ++ [t])) := by
  cases state with
  | key span =>
    obtain rfl : items = [mark .atSign span] := hRead
    obtain ⟨token, place⟩ := t
    cases token with
    | identifier name => exact ⟨place, rfl⟩
    | _ => trivial
  | equals span key =>
    obtain ⟨place, rfl⟩ := hRead
    obtain ⟨token, equals⟩ := t
    cases token with
    | symbol symbol =>
      cases symbol with
      | equals => exact ⟨place, equals, rfl⟩
      | _ => trivial
    | _ => trivial
  | value span key =>
    obtain ⟨token, place⟩ := t
    cases token with
    | integer number =>
      rw [step]
      apply yields_readNumber (t := ⟨.integer number, place⟩)
      rintro number digits hNumber
      refine ⟨items, _, rfl, hRead, ?_⟩
      rw [hNumber]
      exact .integer number
    | symbol symbol =>
      cases symbol with
      | leftBracket => exact ⟨items, place, [], by simp, hRead, pending_nil⟩
      | _ => trivial
    | identifier segment => exact ⟨items, _, rfl, hRead, TypeState.read_named segment place⟩
  | type span key state =>
    obtain ⟨before, inner, rfl, hKey, hState⟩ := hRead
    have hType := TypeState.step_read hState t
    simp only [step]
    cases hStep : state.step t with
    | next state =>
      rw [hStep] at hType
      exact ⟨before, inner ++ [t], List.append_assoc _ _ _, hKey, hType⟩
    | done type =>
      rw [hStep] at hType
      obtain ⟨token, stop⟩ := t
      cases token with
      | symbol symbol =>
        cases symbol with
        | semicolon => exact hKey.option (.type hType)
        | _ => trivial
      | _ => trivial
    | broken => trivial
    | unfit => trivial
  | item span key values =>
    obtain ⟨before, left, inner, rfl, hKey, hValues⟩ := hRead
    rw [step]
    apply yields_readNumber
    rintro number digits rfl
    refine ⟨before, left, inner ++ [numeral number digits], List.append_assoc _ _ _, hKey, ?_⟩
    rw [List.reverse_cons]
    exact hValues.snoc (.mk number digits)
  | itemEnd span key values =>
    obtain ⟨before, left, inner, rfl, hKey, hValues⟩ := hRead
    obtain ⟨token, place⟩ := t
    cases token with
    | symbol symbol =>
      cases symbol with
      | comma =>
        exact ⟨before, left, inner ++ [mark .comma place], List.append_assoc _ _ _, hKey,
          hValues.pending place⟩
      | rightBracket =>
        refine ⟨before, [mark .leftBracket left] ++ inner ++ [mark .rightBracket place],
          by simp, hKey, ?_⟩
        exact .list hValues
      | _ => trivial
    | _ => trivial
  | close option =>
    obtain ⟨before, inner, rfl, hKey, hValue⟩ := hRead
    obtain ⟨token, stop⟩ := t
    cases token with
    | symbol symbol =>
      cases symbol with
      | semicolon => exact hKey.option hValue
      | _ => trivial
    | _ => trivial

/-! ## Heads and bodies -/

/-- What has been read behind the keyword. -/
def HeadState.Read : HeadState → List Located → Prop
  | start, items => items = []
  | template, items => ∃ keyword, items = [word "template" keyword]
  | param params, items => ∃ keyword left inner,
      items = [word "template" keyword] ++ [mark .leftAngle left] ++ inner ∧
        Pending WordText inner params
  | paramEnd params, items => ∃ keyword left inner,
      items = [word "template" keyword] ++ [mark .leftAngle left] ++ inner ∧
        Separated WordText inner params
  | name params, items => ∃ keyword left inner right,
      items = [word "template" keyword] ++ [mark .leftAngle left] ++ inner ++
        [mark .rightAngle right] ∧ Separated WordText inner params
  | brace params title, items => HeaderText items params title

theorem HeadState.advance_read {state : HeadState} {items : List Located} (hRead : state.Read items)
    (span : Span) (t : Located) :
    (state.advance span t).Yields (Read · (items ++ [t])) fun header =>
      header.span = span ∧ (∃ left, t = mark .leftBrace left) ∧
        HeaderText items header.params header.name := by
  obtain ⟨token, place⟩ := t
  cases state with
  | start =>
    obtain rfl : items = [] := hRead
    cases token with
    | identifier text =>
      show Read (if text = templateKeyword then template else brace [] text) [word text place]
      split
      next hText =>
        subst hText
        exact ⟨place, rfl⟩
      next => exact .plain text
    | _ => trivial
  | template =>
    obtain ⟨keyword, rfl⟩ := hRead
    cases token with
    | symbol symbol =>
      cases symbol with
      | leftAngle => exact ⟨keyword, place, [], rfl, pending_nil⟩
      | leftBrace => exact ⟨rfl, ⟨place, rfl⟩, .plain "template"⟩
      | _ => trivial
    | _ => trivial
  | param params =>
    obtain ⟨keyword, left, inner, rfl, hParams⟩ := hRead
    cases token with
    | identifier text =>
      exact ⟨keyword, left, inner ++ [word text place], rfl, hParams.snoc (.mk text place)⟩
    | _ => trivial
  | paramEnd params =>
    obtain ⟨keyword, left, inner, rfl, hParams⟩ := hRead
    cases token with
    | symbol symbol =>
      cases symbol with
      | comma => exact ⟨keyword, left, inner ++ [mark .comma place], rfl, hParams.pending place⟩
      | rightAngle => exact ⟨keyword, left, inner, place, rfl, hParams⟩
      | _ => trivial
    | _ => trivial
  | name params =>
    obtain ⟨keyword, left, inner, right, rfl, hParams⟩ := hRead
    cases token with
    | identifier text => exact .template hParams text
    | _ => trivial
  | brace params title =>
    cases token with
    | symbol symbol =>
      cases symbol with
      | leftBrace => exact ⟨rfl, ⟨place, rfl⟩, hRead⟩
      | _ => trivial
    | _ => trivial

/-- The head of a message or a tag and the members that have been read. -/
def ModelRead {α : Type} (keyword : String) (Text : List Located → α → Prop) (header : Header)
    (members : List (Member α)) (items : List Located) : Prop :=
  ∃ head left inner, items = [word keyword header.span] ++ head ++ [mark .leftBrace left] ++ inner ∧
    HeaderText head header.params header.name ∧ Repeated (MemberText Text) inner members.reverse

section

variable {α : Type} {keyword : String} {Text : List Located → α → Prop} {header : Header}

theorem modelRead_nil {head : List Located} (left : Span)
    (hHeader : HeaderText head header.params header.name) :
    ModelRead keyword Text header []
      ([word keyword header.span] ++ head ++ [mark .leftBrace left]) :=
  ⟨head, left, [], (List.append_nil _).symm, hHeader, .nil⟩

theorem ModelRead.member {members : List (Member α)} {items last : List Located} {member : Member α}
    (hModel : ModelRead keyword Text header members items) (hMember : MemberText Text last member) :
    ModelRead keyword Text header (member :: members) (items ++ last) := by
  obtain ⟨head, left, inner, rfl, hHeader, hMembers⟩ := hModel
  refine ⟨head, left, inner ++ last, List.append_assoc _ _ _, hHeader, ?_⟩
  rw [List.reverse_cons]
  exact .snoc hMembers hMember

end

def OpenBody.Read : OpenBody → List Located → Prop
  | message header members, items => ModelRead "message" FieldText header members items
  | tag header members, items => ModelRead "tag" VariantText header members items
  | service span name options, items => ∃ place left inner,
      items = [word "service" span] ++ [word name place] ++ [mark .leftBrace left] ++ inner ∧
        Repeated OptionText inner options.reverse

namespace OpenBody

theorem read_empty {kind : ModelKind} {header : Header} {head : List Located} (left : Span)
    (hHeader : HeaderText head header.params header.name) :
    (empty kind header).Read
      ([word kind.keyword header.span] ++ head ++ [mark .leftBrace left]) := by
  cases kind with
  | message => exact modelRead_nil left hHeader
  | tag => exact modelRead_nil left hHeader

theorem Read.option {body : OpenBody} {items last : List Located} {option : OptionDecl}
    (hBody : body.Read items) (hOption : OptionText last option) :
    (body.addOption option).Read (items ++ last) := by
  cases body with
  | message header members => exact ModelRead.member hBody (.option hOption)
  | tag header members => exact ModelRead.member hBody (.option hOption)
  | service span name options =>
    obtain ⟨place, left, inner, rfl, hOptions⟩ := hBody
    refine ⟨place, left, inner ++ last, List.append_assoc _ _ _, ?_⟩
    rw [List.reverse_cons]
    exact .snoc hOptions hOption

theorem Read.close {body : OpenBody} {items : List Located} (hBody : body.Read items)
    (right : Span) :
    StatementText (items ++ [mark .rightBrace right]) body.close := by
  cases body with
  | message header members =>
    obtain ⟨head, left, inner, rfl, hHeader, hMembers⟩ := hBody
    exact .message hHeader hMembers
  | tag header members =>
    obtain ⟨head, left, inner, rfl, hHeader, hMembers⟩ := hBody
    exact .tag hHeader hMembers
  | service span name options =>
    obtain ⟨place, left, inner, rfl, hOptions⟩ := hBody
    exact .service name hOptions

end OpenBody

/-! ## Files -/

/-- What has been read of the statement that is open. -/
def Phase.Read : Phase → List Located → Prop
  | .statement, items => items = []
  | .namespaceSegment span none, items => items = [word "namespace" span]
  | .namespaceSegment span (some name), items => ∃ inner place dot,
      items = [word "namespace" span] ++ inner ++ [mark .dot dot] ∧ NameText inner place name
  | .namespaceNamed span name, items => ∃ inner place, items = [word "namespace" span] ++ inner ∧
      NameText inner place name
  | .head kind span state, items => ∃ inner, items = [word kind.keyword span] ++ inner ∧
      state.Read inner
  | .serviceName span, items => items = [word "service" span]
  | .serviceBrace span name, items => ∃ place, items = [word "service" span] ++ [word name place]
  | .body state, items => state.Read items
  | .field header members state, items => ∃ before inner, items = before ++ inner ∧
      (OpenBody.message header members).Read before ∧ state.Read inner
  | .variant header members state, items => ∃ before inner, items = before ++ inner ∧
      (OpenBody.tag header members).Read before ∧ state.Read inner
  | .option owner state, items => ∃ before inner, items = before ++ inner ∧ owner.Read before ∧
      state.Read inner

/-- What has been read before the statement that is open, block by block. -/
def BlocksRead : List OpenBlock → List Statement → List Located → Prop
  | [], done, items => FileText items done.reverse
  | block :: outer, done, items => ∃ before name place left inner,
      items = before ++ ([word "namespace" block.span] ++ name ++ [mark .leftBrace left] ++ inner) ∧
        BlocksRead outer block.before before ∧ NameText name place block.name ∧
        Repeated StatementText inner done.reverse

theorem BlocksRead.snoc {blocks : List OpenBlock} {done : List Statement}
    {items last : List Located} {statement : Statement} (hBlocks : BlocksRead blocks done items)
    (hStatement : StatementText last statement) :
    BlocksRead blocks (statement :: done) (items ++ last) := by
  cases blocks with
  | nil =>
    show FileText (items ++ last) (statement :: done).reverse
    rw [List.reverse_cons]
    exact .snoc hBlocks hStatement
  | cons block outer =>
    obtain ⟨before, name, place, left, inner, rfl, hOuter, hName, hDone⟩ := hBlocks
    refine ⟨before, name, place, left, inner ++ last, by simp, hOuter, hName, ?_⟩
    rw [List.reverse_cons]
    exact .snoc hDone hStatement

namespace State

def Read (state : State) (items : List Located) : Prop :=
  ∃ before inner, items = before ++ inner ∧ BlocksRead state.blocks state.done before ∧
    state.phase.Read inner

section

variable {blocks : List OpenBlock} {done : List Statement} {before items : List Located}

/-- Going on in the statement that is open. -/
theorem read_phase {phase : Phase} (hBlocks : BlocksRead blocks done before)
    (hPhase : phase.Read items) :
    Read ⟨blocks, done, phase⟩ (before ++ items) :=
  ⟨before, items, rfl, hBlocks, hPhase⟩

/-- Completing the statement that is open. -/
theorem read_statement {statement : Statement} (hBlocks : BlocksRead blocks done before)
    (hStatement : StatementText items statement) :
    Read ⟨blocks, statement :: done, .statement⟩ (before ++ items) :=
  ⟨before ++ items, [], by simp, hBlocks.snoc hStatement, rfl⟩

end

/-- A step reads one token more. -/
theorem Moves.read {state next : State} {t : Located} {items : List Located}
    (hMoves : Moves state t next) (hRead : state.Read items) : next.Read (items ++ [t]) := by
  obtain ⟨before, inner, rfl, hBlocks, hPhase⟩ := hRead
  rw [List.append_assoc]
  cases hMoves with
  | namespaceStart span =>
    obtain rfl : inner = [] := hPhase
    exact read_phase hBlocks rfl
  | modelStart kind span =>
    obtain rfl : inner = [] := hPhase
    exact read_phase hBlocks ⟨[], rfl, rfl⟩
  | serviceStart span =>
    obtain rfl : inner = [] := hPhase
    exact read_phase hBlocks rfl
  | blockEnd block right =>
    obtain rfl : inner = [] := hPhase
    obtain ⟨before, name, place, left, inner, rfl, hOuter, hName, hBody⟩ := hBlocks
    rw [List.append_assoc, List.nil_append]
    exact read_statement hOuter (.block hName hBody)
  | firstSegment span segment place =>
    obtain rfl : inner = [word "namespace" span] := hPhase
    exact read_phase hBlocks ⟨[word segment place], place, rfl, .first segment place⟩
  | nextSegment span name segment place =>
    obtain ⟨inner, first, dot, rfl, hName⟩ := hPhase
    refine read_phase hBlocks ⟨inner ++ [mark .dot dot] ++ [word segment place], first, by simp, ?_⟩
    exact hName.push segment
  | dot span name dot =>
    obtain ⟨inner, place, rfl, hName⟩ := hPhase
    exact read_phase hBlocks ⟨inner, place, dot, rfl, hName⟩
  | fileNamespace span name stop =>
    obtain ⟨inner, place, rfl, hName⟩ := hPhase
    exact read_statement hBlocks (.fileNamespace hName)
  | blockStart span name left =>
    obtain ⟨inner, place, rfl, hName⟩ := hPhase
    refine ⟨before ++ ([word "namespace" span] ++ inner ++ [mark .leftBrace left]), [],
      by simp, ?_, rfl⟩
    exact ⟨before, inner, place, left, [], by simp, hBlocks, hName, .nil⟩
  | head kind span hStep =>
    obtain ⟨inner, rfl, hHead⟩ := hPhase
    have hNext := HeadState.advance_read hHead span t
    rw [hStep] at hNext
    exact read_phase hBlocks ⟨inner ++ [t], List.append_assoc _ _ _, hNext⟩
  | headEnd kind span hStep =>
    obtain ⟨inner, rfl, hHead⟩ := hPhase
    have hDone := HeadState.advance_read hHead span t
    rw [hStep] at hDone
    obtain ⟨rfl, ⟨left, rfl⟩, hHeader⟩ := hDone
    exact read_phase hBlocks (OpenBody.read_empty left hHeader)
  | serviceName span name place =>
    obtain rfl : inner = [word "service" span] := hPhase
    exact read_phase hBlocks ⟨place, rfl⟩
  | serviceBrace span name left =>
    obtain ⟨place, rfl⟩ := hPhase
    exact read_phase hBlocks ⟨place, left, [], rfl, .nil⟩
  | bodyEnd body right => exact read_statement hBlocks (OpenBody.Read.close hPhase right)
  | optionStart body span => exact read_phase hBlocks ⟨inner, [mark .atSign span], rfl, hPhase, rfl⟩
  | fieldStart header members text span =>
    exact read_phase hBlocks ⟨inner, _, rfl, hPhase, TypeState.read_named text span⟩
  | variantStart header members text span =>
    exact read_phase hBlocks ⟨inner, [word text span], rfl, hPhase, rfl⟩
  | field hStep =>
    obtain ⟨body, inner, rfl, hBody, hField⟩ := hPhase
    have hNext := FieldState.step_read hField t
    rw [hStep] at hNext
    exact read_phase hBlocks ⟨body, inner ++ [t], List.append_assoc _ _ _, hBody, hNext⟩
  | fieldEnd hStep =>
    obtain ⟨body, inner, rfl, hBody, hField⟩ := hPhase
    have hDone := FieldState.step_read hField t
    rw [hStep] at hDone
    rw [List.append_assoc]
    exact read_phase hBlocks (ModelRead.member hBody (.part hDone))
  | variant hStep =>
    obtain ⟨body, inner, rfl, hBody, hVariant⟩ := hPhase
    have hNext := VariantState.step_read hVariant t
    rw [hStep] at hNext
    exact read_phase hBlocks ⟨body, inner ++ [t], List.append_assoc _ _ _, hBody, hNext⟩
  | variantEnd hStep =>
    obtain ⟨body, inner, rfl, hBody, hVariant⟩ := hPhase
    have hDone := VariantState.step_read hVariant t
    rw [hStep] at hDone
    rw [List.append_assoc]
    exact read_phase hBlocks (ModelRead.member hBody (.part hDone))
  | option hStep =>
    obtain ⟨body, inner, rfl, hBody, hOption⟩ := hPhase
    have hNext := OptionState.step_read hOption t
    rw [hStep] at hNext
    exact read_phase hBlocks ⟨body, inner ++ [t], List.append_assoc _ _ _, hBody, hNext⟩
  | optionEnd hStep =>
    obtain ⟨body, inner, rfl, hBody, hOption⟩ := hPhase
    have hDone := OptionState.step_read hOption t
    rw [hStep] at hDone
    rw [List.append_assoc]
    exact read_phase hBlocks (hBody.option hDone)

theorem Runs.read {state next : State} {before items : List Located} (hRuns : Runs state items next)
    (hRead : state.Read before) : next.Read (before ++ items) := by
  induction items generalizing state before with
  | nil =>
    rw [Runs, List.foldlM_nil, pure_eq_ok] at hRuns
    rw [← hRuns, List.append_nil]
    exact hRead
  | cons t items ih =>
    rw [Runs, List.foldlM_cons, bind_eq_ok] at hRuns
    obtain ⟨middle, hFirst, hRest⟩ := hRuns
    rw [List.append_cons]
    exact ih hRest ((advance_iff_moves.1 hFirst).read hRead)

/-- What leads to the end of a file is the text of a file. -/
theorem Runs.file {items : List Located} {done : List Statement}
    (hRuns : Runs start items ⟨[], done, .statement⟩) : FileText items done.reverse := by
  have hStart : start.Read [] := ⟨[], [], rfl, .nil, rfl⟩
  obtain ⟨before, inner, hItems, hFile, hEnd⟩ := hRuns.read hStart
  obtain rfl : inner = [] := hEnd
  rw [List.nil_append, List.append_nil] at hItems
  rw [hItems]
  exact hFile

end State

end Interchange.Schema

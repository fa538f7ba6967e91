import Interchange.Schema.Scan
import Interchange.Schema.Statement

/-!
# From tokens to statements

The grammar is read one token at a time. A state is the list of constructs that are still open, and
a step adds one token to the innermost of them. So reading is a fold over the tokens, and where it
stops is the first token that no continuation of the text could have made right: what has been read
before it can always be completed.

Each kind of construct has its states, a function `wanted` that says what it asks for next, and a
function `step` that takes a token.

* `TypeState`: a type, with the applications around it.
* `FieldState`, `VariantState`, `OptionState`: the members of a body.
* `State`: a file.
* `parseTokens`, `parse`: the statements of a file.

`template` is a keyword only where a `<` follows it: until that token comes, a declaration named
`template` is possible as well.
-/

namespace Interchange.Schema

/-- What a token does to a state: it leads on, it completes a construct, it breaks a rule, or it
does not fit. -/
inductive Step (σ α : Type) where
  | next (state : σ)
  | done (result : α)
  | broken (fault : Fault)
  | unfit

/-- Reads an id or value: it must be a number of at most 32 bits. -/
def readNumber {σ α : Type} (what : Expectation) (token : Token) (use : UInt32 → Step σ α) :
    Step σ α :=
  match token with
  | .integer value =>
    if value < UInt32.size then use (UInt32.ofNat value) else .broken (.tooWide what value)
  | _ => .unfit

/-! ## Types -/

/-- An application whose closing `>` has not come yet. -/
structure OpenType where
  name : QualifiedName
  span : Span
  /-- The complete arguments, the latest first. -/
  args : List TypeExpr

/-- The type with its last argument. -/
def OpenType.close (app : OpenType) (last : TypeExpr) : TypeExpr :=
  .mk app.name (last :: app.args).reverse app.span

/-- A type that is being read. `outer` holds the applications around it, the innermost first. -/
inductive TypeState where
  /-- Nothing of it has been read. -/
  | start (outer : List OpenType)
  /-- A dot has been read, and a segment must follow. -/
  | dotted (outer : List OpenType) (span : Span) (name : QualifiedName)
  /-- A name that may go on with a dot or with arguments. -/
  | named (outer : List OpenType) (span : Span) (name : QualifiedName)
  /-- A complete application. -/
  | closed (outer : List OpenType) (type : TypeExpr)

namespace TypeState

/-- What is asked for after a complete type: the end of the application around it, or `after`. -/
def wantedAfter (after : Expectation) : List OpenType → Expectation
  | [] => after
  | _ :: _ => .symbol .rightAngle

/-- What is asked for; `after` is what must follow the whole type. -/
def wanted (after : Expectation) : TypeState → Expectation
  | start _ => .typeName
  | dotted _ _ _ => .typeName
  | named outer _ _ => wantedAfter after outer
  | closed outer _ => wantedAfter after outer

/-- The token behind a complete type. Outside all applications the type is done, and the token
belongs to what is around it. -/
def stepClosed (type : TypeExpr) (token : Token) : List OpenType → Step TypeState TypeExpr
  | [] => .done type
  | app :: outer =>
    match token with
    | .symbol .comma => .next (start (⟨app.name, app.span, type :: app.args⟩ :: outer))
    | .symbol .rightAngle => .next (closed outer (app.close type))
    | _ => .unfit

def step (t : Located) : TypeState → Step TypeState TypeExpr
  | start outer =>
    match t.token with
    | .identifier segment => .next (named outer t.span ⟨segment, []⟩)
    | _ => .unfit
  | dotted outer span name =>
    match t.token with
    | .identifier segment => .next (named outer span (name.push segment))
    | _ => .unfit
  | named outer span name =>
    match t.token with
    | .symbol .dot => .next (dotted outer span name)
    | .symbol .leftAngle => .next (start (⟨name, span, []⟩ :: outer))
    | _ => stepClosed (.mk name [] span) t.token outer
  | closed outer type => stepClosed type t.token outer

end TypeState

/-! ## Members of a body -/

/-- A message field that is being read. -/
inductive FieldState where
  | type (state : TypeState)
  | equals (type : TypeExpr) (name : String)
  | number (type : TypeExpr) (name : String)
  | close (field : FieldDecl)

namespace FieldState

def wanted : FieldState → Expectation
  | type state => state.wanted .fieldName
  | equals _ _ => .symbol .equals
  | number _ _ => .fieldId
  | close _ => .symbol .semicolon

def step (t : Located) : FieldState → Step FieldState FieldDecl
  | type state =>
    match state.step t with
    | .next state => .next (type state)
    | .done written =>
      match t.token with
      | .identifier name => .next (equals written name)
      | _ => .unfit
    | .broken fault => .broken fault
    | .unfit => .unfit
  | equals written name =>
    match t.token with
    | .symbol .equals => .next (number written name)
    | _ => .unfit
  | number written name => readNumber .fieldId t.token fun id => .next (close ⟨written, name, id⟩)
  | close field =>
    match t.token with
    | .symbol .semicolon => .done field
    | _ => .unfit

end FieldState

/-- A variant of a tag that is being read; its name has been read. -/
inductive VariantState where
  | named (name : String) (span : Span)
  | payload (name : String) (span : Span) (state : TypeState)
  | equals (name : String) (span : Span) (payload : Option TypeExpr)
  | number (name : String) (span : Span) (payload : Option TypeExpr)
  | close (variant : VariantDecl)

namespace VariantState

def wanted : VariantState → Expectation
  | named _ _ => .symbol .equals
  | payload _ _ state => state.wanted (.symbol .rightParen)
  | equals _ _ _ => .symbol .equals
  | number _ _ _ => .variantValue
  | close _ => .symbol .semicolon

def step (t : Located) : VariantState → Step VariantState VariantDecl
  | named name span =>
    match t.token with
    | .symbol .leftParen => .next (payload name span (.start []))
    | .symbol .equals => .next (number name span none)
    | _ => .unfit
  | payload name span state =>
    match state.step t with
    | .next state => .next (payload name span state)
    | .done type =>
      match t.token with
      | .symbol .rightParen => .next (equals name span (some type))
      | _ => .unfit
    | .broken fault => .broken fault
    | .unfit => .unfit
  | equals name span content =>
    match t.token with
    | .symbol .equals => .next (number name span content)
    | _ => .unfit
  | number name span content =>
    readNumber .variantValue t.token fun value => .next (close ⟨name, content, value, span⟩)
  | close variant =>
    match t.token with
    | .symbol .semicolon => .done variant
    | _ => .unfit

end VariantState

/-- An option that is being read; its `@` has been read. -/
inductive OptionState where
  | key (span : Span)
  | equals (span : Span) (key : String)
  | value (span : Span) (key : String)
  | type (span : Span) (key : String) (state : TypeState)
  /-- A list in which a number must follow; the numbers read so far, the latest first. -/
  | item (span : Span) (key : String) (values : List UInt32)
  /-- A list in which a number has just been read. -/
  | itemEnd (span : Span) (key : String) (values : List UInt32)
  | close (option : OptionDecl)

namespace OptionState

def wanted : OptionState → Expectation
  | key _ => .optionName
  | equals _ _ => .symbol .equals
  | value _ _ => .optionContent
  | type _ _ state => state.wanted (.symbol .semicolon)
  | item _ _ _ => .optionNumber
  | itemEnd _ _ _ => .symbol .rightBracket
  | close _ => .symbol .semicolon

def step (t : Located) : OptionState → Step OptionState OptionDecl
  | key span =>
    match t.token with
    | .identifier name => .next (equals span name)
    | _ => .unfit
  | equals span name =>
    match t.token with
    | .symbol .equals => .next (value span name)
    | _ => .unfit
  | value span name =>
    match t.token with
    | .integer _ =>
      readNumber .optionNumber t.token fun number => .next (close ⟨name, .integer number, span⟩)
    | .symbol .leftBracket => .next (item span name [])
    | .identifier segment => .next (type span name (.named [] t.span ⟨segment, []⟩))
    | _ => .unfit
  | type span name state =>
    match state.step t with
    | .next state => .next (type span name state)
    | .done written =>
      match t.token with
      | .symbol .semicolon => .done ⟨name, .type written, span⟩
      | _ => .unfit
    | .broken fault => .broken fault
    | .unfit => .unfit
  | item span name values =>
    readNumber .optionNumber t.token fun number => .next (itemEnd span name (number :: values))
  | itemEnd span name values =>
    match t.token with
    | .symbol .comma => .next (item span name values)
    | .symbol .rightBracket => .next (close ⟨name, .list values.reverse, span⟩)
    | _ => .unfit
  | close option =>
    match t.token with
    | .symbol .semicolon => .done option
    | _ => .unfit

end OptionState

/-! ## Declarations -/

/-- The two kinds of models. -/
inductive ModelKind where
  | message
  | tag
deriving DecidableEq, Repr

/-- The head of a message or tag that is being read; its keyword has been read. -/
inductive HeadState where
  /-- The keyword alone. -/
  | start
  /-- `template`, which is a keyword or the name. -/
  | template
  /-- A parameter must follow; the parameters read so far. -/
  | param (params : List String)
  /-- A parameter has just been read. -/
  | paramEnd (params : List String)
  /-- The name must follow. -/
  | name (params : List String)
  /-- The body must be opened. -/
  | brace (params : List String) (name : String)

namespace HeadState

def wanted : HeadState → Expectation
  | start => .declarationName
  | template => .symbol .leftBrace
  | param _ => .parameterName
  | paramEnd _ => .symbol .rightAngle
  | name _ => .declarationName
  | brace _ _ => .symbol .leftBrace

/-- The keyword before template parameters. -/
def templateKeyword : String := "template"

def step (span : Span) (t : Located) : HeadState → Step HeadState Header
  | start =>
    match t.token with
    | .identifier text => .next (if text = templateKeyword then template else brace [] text)
    | _ => .unfit
  | template =>
    match t.token with
    | .symbol .leftAngle => .next (param [])
    | .symbol .leftBrace => .done ⟨span, [], templateKeyword⟩
    | _ => .unfit
  | param params =>
    match t.token with
    | .identifier text =>
      if text ∈ params then .broken (.duplicateParameter text)
      else .next (paramEnd (params ++ [text]))
    | _ => .unfit
  | paramEnd params =>
    match t.token with
    | .symbol .comma => .next (param params)
    | .symbol .rightAngle => .next (name params)
    | _ => .unfit
  | name params =>
    match t.token with
    | .identifier text => .next (brace params text)
    | _ => .unfit
  | brace params title =>
    match t.token with
    | .symbol .leftBrace => .done ⟨span, params, title⟩
    | _ => .unfit

end HeadState

/-- A body whose closing brace has not come yet; its complete members, the latest first. -/
inductive OpenBody where
  | message (header : Header) (members : List (Member FieldDecl))
  | tag (header : Header) (members : List (Member VariantDecl))
  | service (span : Span) (name : String) (options : List OptionDecl)

namespace OpenBody

def empty (kind : ModelKind) (header : Header) : OpenBody :=
  match kind with
  | .message => message header []
  | .tag => tag header []

def addOption (option : OptionDecl) : OpenBody → OpenBody
  | message header members => message header (.option option :: members)
  | tag header members => tag header (.option option :: members)
  | service span name options => service span name (option :: options)

/-- The declaration with all its members. -/
def close : OpenBody → Statement
  | message header members => .message ⟨header, members.reverse⟩
  | tag header members => .tag ⟨header, members.reverse⟩
  | service span name options => .service ⟨span, name, options.reverse⟩

/-- What is asked for between two members. At the end of the text it is the end of the body. -/
def wanted (found : Option Token) : OpenBody → Expectation
  | message _ _ => if found.isNone then .symbol .rightBrace else .typeName
  | tag _ _ => if found.isNone then .symbol .rightBrace else .variantName
  | service _ _ _ => .serviceMember

end OpenBody

/-! ## Files -/

/-- The innermost construct that is open. -/
inductive Phase where
  /-- A statement must follow, or the end of what holds it. -/
  | statement
  /-- A segment of a namespace's name must follow; the segments before it. -/
  | namespaceSegment (span : Span) (name : Option QualifiedName)
  | namespaceNamed (span : Span) (name : QualifiedName)
  | head (kind : ModelKind) (span : Span) (state : HeadState)
  | serviceName (span : Span)
  | serviceBrace (span : Span) (name : String)
  /-- Between two members of a body. -/
  | body (body : OpenBody)
  | field (header : Header) (members : List (Member FieldDecl)) (state : FieldState)
  | variant (header : Header) (members : List (Member VariantDecl)) (state : VariantState)
  | option (body : OpenBody) (state : OptionState)

/-- A namespace block whose closing brace has not come yet. -/
structure OpenBlock where
  name : QualifiedName
  span : Span
  /-- The statements before the block, the latest first. -/
  before : List Statement

/-- What has been read of a file. -/
structure State where
  /-- The blocks around the present place, the innermost first. -/
  blocks : List OpenBlock
  /-- The complete statements of the innermost block, the latest first. -/
  done : List Statement
  phase : Phase

namespace State

/-- Nothing has been read. -/
def start : State :=
  ⟨[], [], .statement⟩

/-- What is asked for when `found` comes instead. -/
def wanted (state : State) (found : Option Token) : Expectation :=
  match state.phase with
  | .statement =>
    if found.isNone && !state.blocks.isEmpty then .symbol .rightBrace else .statement
  | .namespaceSegment _ _ => .namespaceName
  | .namespaceNamed _ _ => .symbol .leftBrace
  | .head _ _ head => head.wanted
  | .serviceName _ => .serviceName
  | .serviceBrace _ _ => .symbol .leftBrace
  | .body body => body.wanted found
  | .field _ _ field => field.wanted
  | .variant _ _ variant => variant.wanted
  | .option _ option => option.wanted

/-- Ends the reading at a fault. -/
def fail (span : Span) (fault : Fault) : Except FaultAt State :=
  .error ⟨span, fault⟩

/-- Ends the reading at a token that does not fit. -/
def unfit (state : State) (t : Located) : Except FaultAt State :=
  fail t.span (.expected (state.wanted (some t.token)) (some t.token))

/-- Goes on in another phase. -/
def goto (state : State) (phase : Phase) : Except FaultAt State :=
  .ok { state with phase }

/-- Adds a complete statement. -/
def push (state : State) (statement : Statement) : Except FaultAt State :=
  .ok ⟨state.blocks, statement :: state.done, .statement⟩

/-- A statement for the rest of the file: at the top, once, and first. -/
def pushFileNamespace (state : State) (span : Span) (name : QualifiedName) : Except FaultAt State :=
  if !state.blocks.isEmpty then fail span .nestedFileNamespace
  else if state.done.any Statement.isFileNamespace then fail span .repeatedFileNamespace
  else if !state.done.isEmpty then fail span .lateFileNamespace
  else state.push (.fileNamespace name span)

/-- The first token of a statement, or the end of the block. -/
def stepStatement (state : State) (t : Located) : Except FaultAt State :=
  match t.token with
  | .identifier "namespace" => state.goto (.namespaceSegment t.span none)
  | .identifier "message" => state.goto (.head .message t.span .start)
  | .identifier "tag" => state.goto (.head .tag t.span .start)
  | .identifier "service" => state.goto (.serviceName t.span)
  | .symbol .rightBrace =>
    match state.blocks with
    | [] => state.unfit t
    | block :: outer =>
      .ok ⟨outer, .block block.name state.done.reverse block.span :: block.before, .statement⟩
  | _ => state.unfit t

/-- The first token of a member, or the end of the body. -/
def stepBody (state : State) (body : OpenBody) (t : Located) : Except FaultAt State :=
  match t.token with
  | .symbol .rightBrace => state.push body.close
  | .symbol .atSign => state.goto (.option body (.key t.span))
  | .identifier text =>
    match body with
    | .message header members =>
      state.goto (.field header members (.type (.named [] t.span ⟨text, []⟩)))
    | .tag header members => state.goto (.variant header members (.named text t.span))
    | .service _ _ _ => state.unfit t
  | _ => state.unfit t

/-- Takes one token. -/
def step (state : State) (t : Located) : Except FaultAt State :=
  match state.phase with
  | .statement => state.stepStatement t
  | .namespaceSegment span before =>
    match t.token with
    | .identifier segment =>
      state.goto (.namespaceNamed span
        (match before with
        | none => ⟨segment, []⟩
        | some name => name.push segment))
    | _ => state.unfit t
  | .namespaceNamed span name =>
    match t.token with
    | .symbol .dot => state.goto (.namespaceSegment span (some name))
    | .symbol .semicolon => state.pushFileNamespace span name
    | .symbol .leftBrace => .ok ⟨⟨name, span, state.done⟩ :: state.blocks, [], .statement⟩
    | _ => state.unfit t
  | .head kind span head =>
    match head.step span t with
    | .next head => state.goto (.head kind span head)
    | .done header => state.goto (.body (.empty kind header))
    | .broken fault => fail t.span fault
    | .unfit => state.unfit t
  | .serviceName span =>
    match t.token with
    | .identifier name => state.goto (.serviceBrace span name)
    | _ => state.unfit t
  | .serviceBrace span name =>
    match t.token with
    | .symbol .leftBrace => state.goto (.body (.service span name []))
    | _ => state.unfit t
  | .body body => state.stepBody body t
  | .field header members field =>
    match field.step t with
    | .next field => state.goto (.field header members field)
    | .done field => state.goto (.body (.message header (.part field :: members)))
    | .broken fault => fail t.span fault
    | .unfit => state.unfit t
  | .variant header members variant =>
    match variant.step t with
    | .next variant => state.goto (.variant header members variant)
    | .done variant => state.goto (.body (.tag header (.part variant :: members)))
    | .broken fault => fail t.span fault
    | .unfit => state.unfit t
  | .option body option =>
    match option.step t with
    | .next option => state.goto (.option body option)
    | .done option => state.goto (.body (body.addOption option))
    | .broken fault => fail t.span fault
    | .unfit => state.unfit t

/-- Takes the end of the text at `stop`. -/
def finish (state : State) (stop : Span) : Except FaultAt (List Statement) :=
  match state.phase, state.blocks with
  | .statement, [] => .ok state.done.reverse
  | _, _ => .error ⟨stop, .expected (state.wanted none) none⟩

end State

/-- The statements that the tokens of a file make up, or the first fault. -/
def parseTokens (tokens : Tokens) : Except FaultAt (List Statement) := do
  let state ← tokens.items.foldlM State.step State.start
  state.finish tokens.stop

/-- The statements of a text: all faults of its tokens, or else the first fault of its grammar. -/
def parse (text : String) : Except (List FaultAt) (List Statement) := do
  let tokens ← tokenize text
  match parseTokens tokens with
  | .ok statements => .ok statements
  | .error fault => .error [fault]

end Interchange.Schema

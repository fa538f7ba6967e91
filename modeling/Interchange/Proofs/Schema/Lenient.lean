import Interchange.Proofs.Result
import Interchange.Proofs.Schema.Grammar
import Interchange.Schema.Parse
import Mathlib.Data.List.Nodup

/-!
# Reading without rules

The parser checks two rules while it reads: the parameters of a template are distinct, and a
namespace for the rest of the file is the first statement of the file. Here is the same machine
without them. What it reads depends on the grammar alone, and the parser reads the same as long as
the rules are kept.

* `State.advance`: a step that checks no rule.
* `State.Moves`, `State.advance_iff_moves`: the steps, one by one.
* `State.Lawful`: what has been read keeps the rules.
* `State.step_iff_advance`: the parser takes the steps that keep the rules.
* `State.Runs`, `State.foldlM_step_iff_runs`: the same for all tokens of a text.
-/

namespace Interchange.Schema

/-! ## Steps without rules -/

/-- A step in a head; a parameter may come twice. -/
def HeadState.advance (span : Span) (t : Located) (head : HeadState) : Step HeadState Header :=
  match head, t.token with
  | param params, .identifier text => .next (paramEnd (params ++ [text]))
  | _, _ => head.step span t

/-- A step; a namespace for the rest of the file may stand anywhere. -/
def State.advance (state : State) (t : Located) : Except FaultAt State :=
  match state.phase, t.token with
  | .namespaceNamed span name, .symbol .semicolon => state.push (.fileNamespace name span)
  | .head kind span head, _ =>
    match head.advance span t with
    | .next head => state.goto (.head kind span head)
    | .done header => state.goto (.body (.empty kind header))
    | .broken fault => fail t.span fault
    | .unfit => state.unfit t
  | _, _ => state.step t

/-- The keyword of a model. -/
def ModelKind.keyword : ModelKind → String
  | message => "message"
  | tag => "tag"

/-- What a token does to a state when no rule is checked. -/
inductive State.Moves : State → Located → State → Prop
  | namespaceStart {blocks : List OpenBlock} {done : List Statement} (span : Span) :
      Moves ⟨blocks, done, .statement⟩ (word "namespace" span)
        ⟨blocks, done, .namespaceSegment span none⟩
  | modelStart {blocks : List OpenBlock} {done : List Statement} (kind : ModelKind) (span : Span) :
      Moves ⟨blocks, done, .statement⟩ (word kind.keyword span) ⟨blocks, done,
        .head kind span .start⟩
  | serviceStart {blocks : List OpenBlock} {done : List Statement} (span : Span) :
      Moves ⟨blocks, done, .statement⟩ (word "service" span) ⟨blocks, done, .serviceName span⟩
  | blockEnd {blocks : List OpenBlock} {done : List Statement} (block : OpenBlock) (right : Span) :
      Moves ⟨block :: blocks, done, .statement⟩ (mark .rightBrace right)
        ⟨blocks, .block block.name done.reverse block.span :: block.before, .statement⟩
  | firstSegment {blocks : List OpenBlock} {done : List Statement} (span : Span) (segment : String)
      (place : Span) : Moves ⟨blocks, done, .namespaceSegment span none⟩ (word segment place)
        ⟨blocks, done, .namespaceNamed span ⟨segment, []⟩⟩
  | nextSegment {blocks : List OpenBlock} {done : List Statement} (span : Span)
      (name : QualifiedName) (segment : String) (place : Span) :
      Moves ⟨blocks, done, .namespaceSegment span (some name)⟩ (word segment place)
        ⟨blocks, done, .namespaceNamed span (name.push segment)⟩
  | dot {blocks : List OpenBlock} {done : List Statement} (span : Span) (name : QualifiedName)
      (dot : Span) : Moves ⟨blocks, done, .namespaceNamed span name⟩ (mark .dot dot)
        ⟨blocks, done, .namespaceSegment span (some name)⟩
  | fileNamespace {blocks : List OpenBlock} {done : List Statement} (span : Span)
      (name : QualifiedName) (stop : Span) :
      Moves ⟨blocks, done, .namespaceNamed span name⟩ (mark .semicolon stop)
        ⟨blocks, .fileNamespace name span :: done, .statement⟩
  | blockStart {blocks : List OpenBlock} {done : List Statement} (span : Span)
      (name : QualifiedName) (left : Span) :
      Moves ⟨blocks, done, .namespaceNamed span name⟩ (mark .leftBrace left)
        ⟨⟨name, span, done⟩ :: blocks, [], .statement⟩
  | head {blocks : List OpenBlock} {done : List Statement} (kind : ModelKind) (span : Span)
      {t : Located} {head next : HeadState} (hStep : head.advance span t = .next next) :
      Moves ⟨blocks, done, .head kind span head⟩ t ⟨blocks, done, .head kind span next⟩
  | headEnd {blocks : List OpenBlock} {done : List Statement} (kind : ModelKind) (span : Span)
      {t : Located} {head : HeadState} {header : Header}
      (hStep : head.advance span t = .done header) :
      Moves ⟨blocks, done, .head kind span head⟩ t ⟨blocks, done, .body (.empty kind header)⟩
  | serviceName {blocks : List OpenBlock} {done : List Statement} (span : Span) (name : String)
      (place : Span) : Moves ⟨blocks, done, .serviceName span⟩ (word name place)
        ⟨blocks, done, .serviceBrace span name⟩
  | serviceBrace {blocks : List OpenBlock} {done : List Statement} (span : Span) (name : String)
      (left : Span) : Moves ⟨blocks, done, .serviceBrace span name⟩ (mark .leftBrace left)
        ⟨blocks, done, .body (.service span name [])⟩
  | bodyEnd {blocks : List OpenBlock} {done : List Statement} (body : OpenBody) (right : Span) :
      Moves ⟨blocks, done, .body body⟩ (mark .rightBrace right)
        ⟨blocks, body.close :: done, .statement⟩
  | optionStart {blocks : List OpenBlock} {done : List Statement} (body : OpenBody) (span : Span) :
      Moves ⟨blocks, done, .body body⟩ (mark .atSign span) ⟨blocks, done, .option body (.key span)⟩
  | fieldStart {blocks : List OpenBlock} {done : List Statement} (header : Header)
      (members : List (Member FieldDecl)) (text : String) (span : Span) :
      Moves ⟨blocks, done, .body (.message header members)⟩ (word text span)
        ⟨blocks, done, .field header members (.type (.named [] span ⟨text, []⟩))⟩
  | variantStart {blocks : List OpenBlock} {done : List Statement} (header : Header)
      (members : List (Member VariantDecl)) (text : String) (span : Span) :
      Moves ⟨blocks, done, .body (.tag header members)⟩ (word text span)
        ⟨blocks, done, .variant header members (.named text span)⟩
  | field {blocks : List OpenBlock} {done : List Statement} {header : Header}
      {members : List (Member FieldDecl)} {t : Located} {field next : FieldState}
      (hStep : field.step t = .next next) : Moves ⟨blocks, done, .field header members field⟩ t
        ⟨blocks, done, .field header members next⟩
  | fieldEnd {blocks : List OpenBlock} {done : List Statement} {header : Header}
      {members : List (Member FieldDecl)} {t : Located} {field : FieldState} {decl : FieldDecl}
      (hStep : field.step t = .done decl) : Moves ⟨blocks, done, .field header members field⟩ t
        ⟨blocks, done, .body (.message header (.part decl :: members))⟩
  | variant {blocks : List OpenBlock} {done : List Statement} {header : Header}
      {members : List (Member VariantDecl)} {t : Located} {variant next : VariantState}
      (hStep : variant.step t = .next next) :
      Moves ⟨blocks, done, .variant header members variant⟩ t
        ⟨blocks, done, .variant header members next⟩
  | variantEnd {blocks : List OpenBlock} {done : List Statement} {header : Header}
      {members : List (Member VariantDecl)} {t : Located} {variant : VariantState}
      {decl : VariantDecl} (hStep : variant.step t = .done decl) :
      Moves ⟨blocks, done, .variant header members variant⟩ t
        ⟨blocks, done, .body (.tag header (.part decl :: members))⟩
  | option {blocks : List OpenBlock} {done : List Statement} {body : OpenBody} {t : Located}
      {option next : OptionState} (hStep : option.step t = .next next) :
      Moves ⟨blocks, done, .option body option⟩ t ⟨blocks, done, .option body next⟩
  | optionEnd {blocks : List OpenBlock} {done : List Statement} {body : OpenBody} {t : Located}
      {option : OptionState} {decl : OptionDecl} (hStep : option.step t = .done decl) :
      Moves ⟨blocks, done, .option body option⟩ t ⟨blocks, done, .body (body.addOption decl)⟩

namespace State

theorem Moves.advance {state next : State} {t : Located} (hMoves : Moves state t next) :
    state.advance t = .ok next := by
  cases hMoves with
  | modelStart kind => cases kind <;> rfl
  | head kind span hStep => simp only [State.advance, hStep, goto]
  | headEnd kind span hStep => simp only [State.advance, hStep, goto]
  | field hStep => simp only [State.advance, step, hStep, goto]
  | fieldEnd hStep => simp only [State.advance, step, hStep, goto]
  | variant hStep => simp only [State.advance, step, hStep, goto]
  | variantEnd hStep => simp only [State.advance, step, hStep, goto]
  | option hStep => simp only [State.advance, step, hStep, goto]
  | optionEnd hStep => simp only [State.advance, step, hStep, goto]
  | _ => rfl

theorem moves_of_stepStatement {blocks : List OpenBlock} {done : List Statement} {next : State}
    {t : Located} (hStep : stepStatement ⟨blocks, done, .statement⟩ t = .ok next) :
    Moves ⟨blocks, done, .statement⟩ t next := by
  obtain ⟨token, span⟩ := t
  unfold stepStatement at hStep
  split at hStep
  next hToken =>
    cases hToken
    cases hStep
    exact .namespaceStart span
  next hToken =>
    cases hToken
    cases hStep
    exact .modelStart .message span
  next hToken =>
    cases hToken
    cases hStep
    exact .modelStart .tag span
  next hToken =>
    cases hToken
    cases hStep
    exact .serviceStart span
  next hToken =>
    cases hToken
    cases blocks with
    | nil => cases hStep
    | cons block outer =>
      cases hStep
      exact .blockEnd block span
  next => cases hStep

theorem moves_of_stepBody {blocks : List OpenBlock} {done : List Statement} {body : OpenBody}
    {next : State} {t : Located} (hStep : stepBody ⟨blocks, done, .body body⟩ body t = .ok next) :
    Moves ⟨blocks, done, .body body⟩ t next := by
  obtain ⟨token, span⟩ := t
  unfold stepBody at hStep
  split at hStep
  next hToken =>
    cases hToken
    cases hStep
    exact .bodyEnd body span
  next hToken =>
    cases hToken
    cases hStep
    exact .optionStart body span
  next text hToken =>
    cases hToken
    cases body with
    | message header members =>
      cases hStep
      exact .fieldStart header members text span
    | tag header members =>
      cases hStep
      exact .variantStart header members text span
    | service => cases hStep
  next => cases hStep

/-- Without rules, these are the steps. -/
theorem advance_iff_moves {state next : State} {t : Located} :
    state.advance t = .ok next ↔ Moves state t next := by
  refine ⟨fun hStep => ?_, Moves.advance⟩
  obtain ⟨blocks, done, phase⟩ := state
  cases phase with
  | statement => exact moves_of_stepStatement hStep
  | body body => exact moves_of_stepBody hStep
  | namespaceSegment span name =>
    obtain ⟨token, place⟩ := t
    cases token with
    | identifier segment =>
      cases hStep
      cases name with
      | none => exact .firstSegment span segment place
      | some name => exact .nextSegment span name segment place
    | integer => cases hStep
    | symbol => cases hStep
  | namespaceNamed span name =>
    obtain ⟨token, place⟩ := t
    cases token with
    | identifier => cases hStep
    | integer => cases hStep
    | symbol symbol =>
      cases symbol with
      | dot =>
        cases hStep
        exact .dot span name place
      | semicolon =>
        cases hStep
        exact .fileNamespace span name place
      | leftBrace =>
        cases hStep
        exact .blockStart span name place
      | _ => cases hStep
  | head kind span head =>
    simp only [advance] at hStep
    split at hStep
    next hHead =>
      cases hStep
      exact .head kind span hHead
    next hHead =>
      cases hStep
      exact .headEnd kind span hHead
    next => cases hStep
    next => cases hStep
  | serviceName span =>
    obtain ⟨token, place⟩ := t
    cases token with
    | identifier name =>
      cases hStep
      exact .serviceName span name place
    | integer => cases hStep
    | symbol => cases hStep
  | serviceBrace span name =>
    obtain ⟨token, place⟩ := t
    cases token with
    | identifier => cases hStep
    | integer => cases hStep
    | symbol symbol =>
      cases symbol with
      | leftBrace =>
        cases hStep
        exact .serviceBrace span name place
      | _ => cases hStep
  | field header members field =>
    simp only [advance, step] at hStep
    split at hStep
    next hField =>
      cases hStep
      exact .field hField
    next hField =>
      cases hStep
      exact .fieldEnd hField
    next => cases hStep
    next => cases hStep
  | variant header members variant =>
    simp only [advance, step] at hStep
    split at hStep
    next hVariant =>
      cases hStep
      exact .variant hVariant
    next hVariant =>
      cases hStep
      exact .variantEnd hVariant
    next => cases hStep
    next => cases hStep
  | option body option =>
    simp only [advance, step] at hStep
    split at hStep
    next hOption =>
      cases hStep
      exact .option hOption
    next hOption =>
      cases hStep
      exact .optionEnd hOption
    next => cases hStep
    next => cases hStep

end State

/-! ## Rules -/

def HeadState.params : HeadState → List String
  | start => []
  | template => []
  | param params => params
  | paramEnd params => params
  | name params => params
  | brace params _ => params

def OpenBody.params : OpenBody → List String
  | message header _ => header.params
  | tag header _ => header.params
  | service _ _ _ => []

/-- The parameters of the declaration that is being read. -/
def Phase.params : Phase → List String
  | .head _ _ state => state.params
  | .body state => state.params
  | .field header _ _ => header.params
  | .variant header _ _ => header.params
  | .option state _ => state.params
  | _ => []

/-- The statements before a place keep the rules; the latest come first. -/
def Orderly : List OpenBlock → List Statement → Prop
  | [], done => Admissible done.reverse
  | block :: outer, done => (∀ statement ∈ done, statement.Regular) ∧ Orderly outer block.before

/-- What has been read keeps the rules. -/
structure State.Lawful (state : State) : Prop where
  params : state.phase.params.Nodup
  orderly : Orderly state.blocks state.done

theorem not_regular_of_isFileNamespace {statement : Statement}
    (hStatement : statement.isFileNamespace = true) : ¬ statement.Regular := by
  intro hRegular
  cases hRegular <;> cases hStatement

theorem admissible_snoc {file : List Statement} {statement : Statement} :
    Admissible (file ++ [statement]) ↔
      Admissible file ∧ (statement.Regular ∨ file = [] ∧ statement.isFileNamespace = true) := by
  cases file with
  | nil => simp [Admissible, or_comm]
  | cons first rest => simp [Admissible, and_assoc, or_imp, forall_and]

/-- A further statement is regular or, at the top and first, a namespace for the rest of the
file. -/
theorem orderly_cons {blocks : List OpenBlock} {done : List Statement} {statement : Statement} :
    Orderly blocks (statement :: done) ↔ Orderly blocks done ∧ (statement.Regular ∨
      blocks = [] ∧ done = [] ∧ statement.isFileNamespace = true) := by
  cases blocks with
  | nil => simp [Orderly, admissible_snoc]
  | cons block outer =>
    simp only [Orderly, List.forall_mem_cons]
    tauto

/-- The rules that a step checks. -/
def State.Permits (state : State) (t : Located) : Prop :=
  match state.phase, t.token with
  | .head _ _ (.param params), .identifier text => text ∉ params
  | .namespaceNamed _ _, .symbol .semicolon => state.blocks = [] ∧ state.done = []
  | _, _ => True

namespace State

theorem pushFileNamespace_eq_ok {state next : State} {span : Span} {name : QualifiedName} :
    state.pushFileNamespace span name = .ok next ↔
      state.push (.fileNamespace name span) = .ok next ∧ state.blocks = [] ∧ state.done = [] := by
  unfold pushFileNamespace
  split
  next hBlocks =>
    have hBlocks : state.blocks ≠ [] := by simpa using hBlocks
    simp [fail, hBlocks]
  next hBlocks =>
    split
    next hRepeated =>
      have hDone : state.done ≠ [] := by
        intro hDone
        simp [hDone] at hRepeated
      simp [fail, hDone]
    next =>
      split
      next hDone =>
        have hDone : state.done ≠ [] := by simpa using hDone
        simp [fail, hDone]
      next hDone =>
        have hBlocks : state.blocks = [] := by simpa using hBlocks
        have hDone : state.done = [] := by simpa using hDone
        simp [hBlocks, hDone]

theorem step_head_eq_advance {blocks : List OpenBlock} {done : List Statement} {kind : ModelKind}
    {span : Span} {head : HeadState} {t : Located}
    (hSame : head.advance span t = head.step span t) :
    step ⟨blocks, done, .head kind span head⟩ t =
      advance ⟨blocks, done, .head kind span head⟩ t := by
  cases hStep : head.step span t <;> simp only [step, advance, hSame, hStep]

theorem step_eq_ok_iff {state next : State} {t : Located} :
    state.step t = .ok next ↔ state.advance t = .ok next ∧ state.Permits t := by
  obtain ⟨blocks, done, phase⟩ := state
  obtain ⟨token, span⟩ := t
  cases phase with
  | head kind place head =>
    cases head with
    | param params =>
      cases token with
      | identifier text =>
        by_cases hMem : text ∈ params
        · simp [step, Permits, HeadState.step, hMem, fail]
        · simp [step, advance, Permits, HeadState.step, HeadState.advance, hMem]
      | _ =>
        rw [step_head_eq_advance rfl]
        simp [Permits]
    | _ =>
      rw [step_head_eq_advance rfl]
      simp [Permits]
  | namespaceNamed place name =>
    cases token with
    | symbol symbol =>
      cases symbol with
      | semicolon => exact pushFileNamespace_eq_ok
      | _ => simp [advance, Permits]
    | _ => simp [advance, Permits]
  | _ => simp [advance, Permits]

end State

/-- Parameters stay distinct as long as no parameter comes twice. -/
theorem HeadState.nodup_params_iff {blocks : List OpenBlock} {done : List Statement}
    {kind : ModelKind} {span : Span} {t : Located} {head next : HeadState}
    (hStep : head.advance span t = .next next) :
    next.params.Nodup ↔
      head.params.Nodup ∧ State.Permits ⟨blocks, done, .head kind span head⟩ t := by
  obtain ⟨token, place⟩ := t
  cases head with
  | start =>
    cases token with
    | identifier text =>
      cases hStep
      split <;> simp [params, State.Permits]
    | _ => cases hStep
  | template =>
    cases token with
    | symbol symbol =>
      cases symbol with
      | leftAngle =>
        cases hStep
        simp [params, State.Permits]
      | _ => cases hStep
    | _ => cases hStep
  | param params =>
    cases token with
    | identifier text =>
      cases hStep
      show (params ++ [text]).Nodup ↔ params.Nodup ∧ text ∉ params
      rw [List.nodup_append_comm, List.singleton_append, List.nodup_cons, and_comm]
    | _ => cases hStep
  | paramEnd params =>
    cases token with
    | symbol symbol =>
      cases symbol with
      | comma =>
        cases hStep
        simp [HeadState.params, State.Permits]
      | rightAngle =>
        cases hStep
        simp [HeadState.params, State.Permits]
      | _ => cases hStep
    | _ => cases hStep
  | name params =>
    cases token with
    | identifier text =>
      cases hStep
      simp [HeadState.params, State.Permits]
    | _ => cases hStep
  | brace params title =>
    cases token with
    | symbol symbol => cases symbol <;> cases hStep
    | _ => cases hStep

/-- The header has the parameters of the head. -/
theorem HeadState.nodup_header_iff {blocks : List OpenBlock} {done : List Statement}
    {kind : ModelKind} {span : Span} {t : Located} {head : HeadState} {header : Header}
    (hStep : head.advance span t = .done header) : header.params.Nodup ↔
      head.params.Nodup ∧ State.Permits ⟨blocks, done, .head kind span head⟩ t := by
  obtain ⟨token, place⟩ := t
  cases head with
  | template =>
    cases token with
    | symbol symbol =>
      cases symbol with
      | leftBrace =>
        cases hStep
        simp [params, State.Permits]
      | _ => cases hStep
    | _ => cases hStep
  | paramEnd =>
    cases token with
    | symbol symbol => cases symbol <;> cases hStep
    | _ => cases hStep
  | brace params title =>
    cases token with
    | symbol symbol =>
      cases symbol with
      | leftBrace =>
        cases hStep
        simp [HeadState.params, State.Permits]
      | _ => cases hStep
    | _ => cases hStep
  | _ => cases token <;> cases hStep

theorem OpenBody.params_empty (kind : ModelKind) (header : Header) :
    (empty kind header).params = header.params := by
  cases kind <;> rfl

theorem OpenBody.params_addOption (option : OptionDecl) (body : OpenBody) :
    (body.addOption option).params = body.params := by
  cases body <;> rfl

theorem OpenBody.regular_close_iff (body : OpenBody) : body.close.Regular ↔ body.params.Nodup := by
  cases body with
  | message header members =>
    refine ⟨fun hRegular => ?_, fun hParams => .message hParams⟩
    cases hRegular with
    | message hParams => exact hParams
  | tag header members =>
    refine ⟨fun hRegular => ?_, fun hParams => .tag hParams⟩
    cases hRegular with
    | tag hParams => exact hParams
  | service span name options => exact ⟨fun _ => .nil, fun _ => .service _⟩

theorem OpenBody.isFileNamespace_close (body : OpenBody) : body.close.isFileNamespace = false := by
  cases body <;> rfl

theorem regular_block_iff {name : QualifiedName} {body : List Statement} {span : Span} :
    (Statement.block name body span).Regular ↔ ∀ statement ∈ body, statement.Regular := by
  refine ⟨fun hRegular => ?_, fun hBody => .block hBody⟩
  cases hRegular with
  | block hBody => exact hBody

namespace State

theorem lawful_iff {blocks : List OpenBlock} {done : List Statement} {phase : Phase} :
    Lawful ⟨blocks, done, phase⟩ ↔ phase.params.Nodup ∧ Orderly blocks done :=
  ⟨fun hLawful => ⟨hLawful.params, hLawful.orderly⟩, fun hBoth => ⟨hBoth.1, hBoth.2⟩⟩

/-- The rules are kept after a step exactly if they were kept before it and the step keeps them. -/
theorem Moves.lawful_iff {state next : State} {t : Located} (hMoves : Moves state t next) :
    next.Lawful ↔ state.Lawful ∧ state.Permits t := by
  cases hMoves with
  | blockEnd block right =>
    simp [State.lawful_iff, Permits, Phase.params, Orderly, orderly_cons, regular_block_iff,
      Statement.isFileNamespace, and_comm]
  | fileNamespace span name stop =>
    have hRegular : ¬ (Statement.fileNamespace name span).Regular :=
      not_regular_of_isFileNamespace rfl
    simp [State.lawful_iff, Permits, Phase.params, orderly_cons, hRegular,
      Statement.isFileNamespace]
  | blockStart span name left => simp [State.lawful_iff, Permits, Phase.params, Orderly]
  | head kind span hStep =>
    rw [State.lawful_iff, State.lawful_iff, and_right_comm]
    exact and_congr_left' (HeadState.nodup_params_iff hStep)
  | @headEnd _ _ kind span _ _ header hStep =>
    rw [State.lawful_iff, State.lawful_iff, and_right_comm]
    refine and_congr_left' ?_
    show (OpenBody.empty kind header).params.Nodup ↔ _
    rw [OpenBody.params_empty]
    exact HeadState.nodup_header_iff hStep
  | bodyEnd body right =>
    simp [State.lawful_iff, Permits, Phase.params, orderly_cons, OpenBody.isFileNamespace_close,
      OpenBody.regular_close_iff, and_comm]
  | optionEnd => simp [State.lawful_iff, Permits, Phase.params, OpenBody.params_addOption]
  | _ => simp [State.lawful_iff, Permits, Phase.params, HeadState.params, OpenBody.params]

/-- The parser takes the steps that keep the rules. -/
theorem step_iff_advance {state next : State} {t : Located} :
    state.Lawful ∧ state.step t = .ok next ↔ state.advance t = .ok next ∧ next.Lawful := by
  rw [step_eq_ok_iff, advance_iff_moves]
  constructor
  · rintro ⟨hLawful, hMoves, hPermits⟩
    exact ⟨hMoves, hMoves.lawful_iff.2 ⟨hLawful, hPermits⟩⟩
  · rintro ⟨hMoves, hLawful⟩
    obtain ⟨hBefore, hPermits⟩ := hMoves.lawful_iff.1 hLawful
    exact ⟨hBefore, hMoves, hPermits⟩

theorem lawful_start : start.Lawful :=
  lawful_iff.2 ⟨.nil, by simp [Orderly, Admissible]⟩

/-! ## All tokens -/

/-- Without rules, a text leads from one state to another. -/
def Runs (state : State) (items : List Located) (next : State) : Prop :=
  items.foldlM advance state = .ok next

theorem runs_nil (state : State) : Runs state [] state :=
  rfl

theorem Runs.append {state middle next : State} {items others : List Located}
    (hFirst : Runs state items middle) (hRest : Runs middle others next) :
    Runs state (items ++ others) next := by
  rw [Runs, List.foldlM_append, bind_eq_ok]
  exact ⟨middle, hFirst, hRest⟩

theorem Moves.runs {state next : State} {t : Located} (hMoves : Moves state t next) :
    Runs state [t] next := by
  rw [Runs, List.foldlM_cons, bind_eq_ok]
  exact ⟨next, hMoves.advance, rfl⟩

theorem Runs.snoc {state middle next : State} {items : List Located} {t : Located}
    (hFirst : Runs state items middle) (hLast : Moves middle t next) :
    Runs state (items ++ [t]) next :=
  hFirst.append hLast.runs

theorem Runs.unique {state next other : State} {items : List Located}
    (hNext : Runs state items next) (hOther : Runs state items other) : next = other :=
  Except.ok.inj (hNext.symm.trans hOther)

/-- What the parser reads is what is read without rules, if it keeps the rules. -/
theorem foldlM_step_iff_runs {state next : State} {items : List Located} :
    state.Lawful ∧ items.foldlM step state = .ok next ↔ Runs state items next ∧ next.Lawful := by
  induction items generalizing state with
  | nil =>
    simp only [Runs, List.foldlM_nil, pure_eq_ok]
    constructor
    · rintro ⟨hLawful, rfl⟩
      exact ⟨rfl, hLawful⟩
    · rintro ⟨rfl, hLawful⟩
      exact ⟨hLawful, rfl⟩
  | cons t items ih =>
    simp only [Runs, List.foldlM_cons, bind_eq_ok]
    constructor
    · rintro ⟨hLawful, middle, hFirst, hRest⟩
      obtain ⟨hFirst, hMiddle⟩ := step_iff_advance.1 ⟨hLawful, hFirst⟩
      obtain ⟨hRest, hNext⟩ := ih.1 ⟨hMiddle, hRest⟩
      exact ⟨⟨middle, hFirst, hRest⟩, hNext⟩
    · rintro ⟨⟨middle, hFirst, hRest⟩, hNext⟩
      -- A rule that is broken once stays broken, so the rules at the end hold all along.
      obtain ⟨hMiddle, hRest⟩ := ih.2 ⟨hRest, hNext⟩
      obtain ⟨hLawful, hFirst⟩ := step_iff_advance.2 ⟨hFirst, hMiddle⟩
      exact ⟨hLawful, middle, hFirst, hRest⟩

end State

end Interchange.Schema

import Interchange.Proofs.Schema.Acceptance
import Interchange.Proofs.Schema.Segmentation
import Mathlib.Data.Fintype.EquivFin

/-!
# The first token that does not fit

A fault that names what was asked for and what was found points at the first token that no text of
the grammar could have at its place. Two facts make this up. Whatever has been read without a fault
can be completed: each state of the machine leads to the end of a file, once the constructs that are
open are closed from the inside out. And where a token does not fit, what comes behind it is not
looked at.

* `State.completable`: every state leads to the end of a file.
* `State.step_eq_expected`: what a step reports is the token that it took.
* `Viable`: tokens with which a file that is accepted may start.
* `parseTokens_expected`, `parse_expected`: what is before the fault is viable, and not with the
  token there.
-/

namespace Interchange.Schema

/-! ## Closing what is open -/

namespace State

/-- Some tokens lead from the state to the end of a file. -/
def Completable (state : State) : Prop :=
  ∃ (items : List Located) (file : List Statement),
    items.foldlM step state = .ok ⟨[], file, .statement⟩

theorem completable_of_step {state next : State} (t : Located) (hStep : state.step t = .ok next)
    (hNext : next.Completable) : state.Completable := by
  obtain ⟨items, file, hRun⟩ := hNext
  refine ⟨t :: items, file, ?_⟩
  rw [List.foldlM_cons, hStep]
  exact hRun

theorem completable_statement (blocks : List OpenBlock) (done : List Statement) :
    Completable ⟨blocks, done, .statement⟩ := by
  induction blocks generalizing done with
  | nil => exact ⟨[], done, rfl⟩
  | cons block outer ih => exact completable_of_step (mark .rightBrace .start) rfl (ih _)

/-- A place in which a type may stand; the token `close` leads on from it. -/
structure Leaves (place : TypeState → State) (close : Located) (after : TypeExpr → State) :
    Prop where
  step_next : ∀ {state next t}, TypeState.step t state = .next next →
    (place state).step t = .ok (place next)
  step_done : ∀ {state type}, TypeState.step close state = .done type →
    (place state).step close = .ok (after type)
  not_dot : close.token ≠ .symbol .dot
  not_angle : close.token ≠ .symbol .leftAngle
  completable_after : ∀ type, (after type).Completable

section

variable {place : TypeState → State} {close : Located} {after : TypeExpr → State}

/-- The applications around a complete type are closed one by one. -/
theorem Leaves.completable_complete (hLeaves : Leaves place close after) {outer : List OpenType}
    {type : TypeExpr} {state : TypeState} (hComplete : TypeState.Complete outer type state) :
    (place state).Completable := by
  induction outer generalizing type state with
  | nil =>
    have hDone := hComplete.step_eq hLeaves.not_dot hLeaves.not_angle
    exact completable_of_step close (hLeaves.step_done hDone) (hLeaves.completable_after type)
  | cons app outer ih =>
    have hStep : state.step (mark .rightAngle .start) = .next (.closed outer (app.close type)) := by
      rw [hComplete.step_eq (by simp) (by simp), TypeState.stepClosed]
    exact completable_of_step _ (hLeaves.step_next hStep) (ih (.closed outer _))

theorem Leaves.completable (hLeaves : Leaves place close after) (state : TypeState) :
    (place state).Completable := by
  cases state with
  | start outer =>
    exact completable_of_step (word "t" .start) (hLeaves.step_next rfl)
      (hLeaves.completable_complete (.named outer _ _))
  | dotted outer span name =>
    exact completable_of_step (word "t" .start) (hLeaves.step_next rfl)
      (hLeaves.completable_complete (.named outer _ _))
  | named outer span name => exact hLeaves.completable_complete (.named outer span name)
  | closed outer type => exact hLeaves.completable_complete (.closed outer type)

end

section

variable (blocks : List OpenBlock) (done : List Statement)

theorem completable_body (body : OpenBody) : Completable ⟨blocks, done, .body body⟩ :=
  completable_of_step (mark .rightBrace .start) rfl (completable_statement _ _)

theorem completable_field (header : Header) (members : List (Member FieldDecl))
    (field : FieldState) :
    Completable ⟨blocks, done, .field header members field⟩ := by
  have hClose (field : FieldDecl) :
      Completable ⟨blocks, done, .field header members (.close field)⟩ :=
    completable_of_step (mark .semicolon .start) rfl (completable_body _ _ _)
  have hNumber (type : TypeExpr) (name : String) :
      Completable ⟨blocks, done, .field header members (.number type name)⟩ :=
    completable_of_step (numeral 0 .start) rfl (hClose _)
  have hEquals (type : TypeExpr) (name : String) :
      Completable ⟨blocks, done, .field header members (.equals type name)⟩ :=
    completable_of_step (mark .equals .start) rfl (hNumber _ _)
  cases field with
  | close field => exact hClose field
  | number type name => exact hNumber type name
  | equals type name => exact hEquals type name
  | type state =>
    have hLeaves : Leaves (fun state => ⟨blocks, done, .field header members (.type state)⟩)
        (word "f" .start)
          (fun type => ⟨blocks, done, .field header members (.equals type "f")⟩) := by
      refine ⟨fun hStep => ?_, fun hStep => ?_, by simp, by simp, fun type => hEquals type "f"⟩
      · simp only [step, FieldState.step, hStep, goto]
      · simp only [step, FieldState.step, hStep, goto]
    exact hLeaves.completable state

theorem completable_variant (header : Header) (members : List (Member VariantDecl))
    (variant : VariantState) : Completable ⟨blocks, done, .variant header members variant⟩ := by
  have hClose (variant : VariantDecl) :
      Completable ⟨blocks, done, .variant header members (.close variant)⟩ :=
    completable_of_step (mark .semicolon .start) rfl (completable_body _ _ _)
  have hNumber (name : String) (span : Span) (payload : Option TypeExpr) :
      Completable ⟨blocks, done, .variant header members (.number name span payload)⟩ :=
    completable_of_step (numeral 0 .start) rfl (hClose _)
  have hEquals (name : String) (span : Span) (payload : Option TypeExpr) :
      Completable ⟨blocks, done, .variant header members (.equals name span payload)⟩ :=
    completable_of_step (mark .equals .start) rfl (hNumber _ _ _)
  cases variant with
  | close variant => exact hClose variant
  | number name span payload => exact hNumber name span payload
  | equals name span payload => exact hEquals name span payload
  | named name span => exact completable_of_step (mark .equals .start) rfl (hNumber _ _ _)
  | payload name span state =>
    have hLeaves :
        Leaves (fun state => ⟨blocks, done, .variant header members (.payload name span state)⟩)
        (mark .rightParen .start)
        (fun type => ⟨blocks, done, .variant header members (.equals name span (some type))⟩) := by
      refine ⟨fun hStep => ?_, fun hStep => ?_,
        by simp, by simp, fun type => hEquals name span (some type)⟩
      · simp only [step, VariantState.step, hStep, goto]
      · simp only [step, VariantState.step, hStep, goto]
    exact hLeaves.completable state

theorem completable_option (body : OpenBody) (option : OptionState) :
    Completable ⟨blocks, done, .option body option⟩ := by
  have hClose (option : OptionDecl) : Completable ⟨blocks, done, .option body (.close option)⟩ :=
    completable_of_step (mark .semicolon .start) rfl (completable_body _ _ _)
  have hItemEnd (span : Span) (key : String) (values : List UInt32) :
      Completable ⟨blocks, done, .option body (.itemEnd span key values)⟩ :=
    completable_of_step (mark .rightBracket .start) rfl (hClose _)
  have hValue (span : Span) (key : String) :
      Completable ⟨blocks, done, .option body (.value span key)⟩ :=
    completable_of_step (numeral 0 .start) rfl (hClose _)
  have hEquals (span : Span) (key : String) :
      Completable ⟨blocks, done, .option body (.equals span key)⟩ :=
    completable_of_step (mark .equals .start) rfl (hValue _ _)
  cases option with
  | close option => exact hClose option
  | itemEnd span key values => exact hItemEnd span key values
  | item span key values => exact completable_of_step (numeral 0 .start) rfl (hItemEnd _ _ _)
  | value span key => exact hValue span key
  | equals span key => exact hEquals span key
  | key span => exact completable_of_step (word "k" .start) rfl (hEquals _ _)
  | type span key state =>
    have hLeaves : Leaves (fun state => ⟨blocks, done, .option body (.type span key state)⟩)
        (mark .semicolon .start)
        (fun type => ⟨blocks, done, .body (body.addOption ⟨key, .type type, span⟩)⟩) := by
      refine ⟨fun hStep => ?_, fun hStep => ?_,
        by simp, by simp, fun type => completable_body _ _ _⟩
      · simp only [step, OptionState.step, hStep, goto]
      · simp only [step, OptionState.step, hStep, goto]
    exact hLeaves.completable state

theorem completable_head (kind : ModelKind) (span : Span) (head : HeadState) :
    Completable ⟨blocks, done, .head kind span head⟩ := by
  have hBrace (params : List String) (name : String) :
      Completable ⟨blocks, done, .head kind span (.brace params name)⟩ :=
    completable_of_step (mark .leftBrace .start) rfl (completable_body _ _ _)
  have hName (params : List String) : Completable ⟨blocks, done, .head kind span (.name params)⟩ :=
    completable_of_step (word "m" .start) rfl (hBrace _ _)
  have hParamEnd (params : List String) :
      Completable ⟨blocks, done, .head kind span (.paramEnd params)⟩ :=
    completable_of_step (mark .rightAngle .start) rfl (hName _)
  cases head with
  | brace params name => exact hBrace params name
  | name params => exact hName params
  | paramEnd params => exact hParamEnd params
  | param params =>
    -- Parameters may not repeat, but names do not run out.
    obtain ⟨fresh, hFresh⟩ := Infinite.exists_notMem_finset params.toFinset
    rw [List.mem_toFinset] at hFresh
    refine completable_of_step (word fresh .start) ?_ (hParamEnd (params ++ [fresh]))
    simp only [step, HeadState.step, if_neg hFresh, goto]
  | template => exact completable_of_step (mark .leftBrace .start) rfl (completable_body _ _ _)
  | start =>
    refine completable_of_step (word "m" .start) ?_ (hBrace [] "m")
    simp [step, HeadState.step, HeadState.templateKeyword, goto]

end

/-- What has been read without a fault is the front of a file. -/
theorem completable (state : State) : state.Completable := by
  obtain ⟨blocks, done, phase⟩ := state
  -- A namespace is opened with a brace: a semicolon may break the rule on namespaces of files.
  have hNamed (span : Span) (name : QualifiedName) :
      Completable ⟨blocks, done, .namespaceNamed span name⟩ :=
    completable_of_step (mark .leftBrace .start) rfl (completable_statement _ _)
  have hBrace (span : Span) (name : String) : Completable ⟨blocks, done, .serviceBrace span name⟩ :=
    completable_of_step (mark .leftBrace .start) rfl (completable_body _ _ _)
  cases phase with
  | statement => exact completable_statement blocks done
  | namespaceSegment span name =>
    exact completable_of_step (word "n" .start) rfl (hNamed _ _)
  | namespaceNamed span name => exact hNamed span name
  | head kind span head => exact completable_head blocks done kind span head
  | serviceName span => exact completable_of_step (word "s" .start) rfl (hBrace _ _)
  | serviceBrace span name => exact hBrace span name
  | body body => exact completable_body blocks done body
  | field header members field => exact completable_field blocks done header members field
  | variant header members variant => exact completable_variant blocks done header members variant
  | option body option => exact completable_option blocks done body option

end State

/-! ## What a step reports -/

/-- A rule that a token breaks is not that something else was asked for. -/
def Step.Ruled {σ α : Type} : Step σ α → Prop
  | .broken fault => ∀ wanted found, fault ≠ .expected wanted found
  | _ => True

theorem Step.Ruled.of_broken {σ α τ β : Type} {result : Step σ α} {fault : Fault}
    (hRuled : result.Ruled) (hBroken : result = .broken fault) :
    (Step.broken fault : Step τ β).Ruled := by
  subst hBroken
  exact hRuled

theorem readNumber_ruled {σ α : Type} (what : Expectation) (token : Token) (use : UInt32 → σ) :
    (readNumber what token fun number => (.next (use number) : Step σ α)).Ruled := by
  unfold readNumber
  split
  · split
    · trivial
    · intro _ _ hSame
      cases hSame
  · trivial

theorem TypeState.stepClosed_ruled (type : TypeExpr) (token : Token) (outer : List OpenType) :
    (stepClosed type token outer).Ruled := by
  fun_cases stepClosed <;> trivial

theorem TypeState.step_ruled (t : Located) (state : TypeState) : (state.step t).Ruled := by
  cases state with
  | named outer span name =>
    simp only [TypeState.step]
    split
    next => trivial
    next => trivial
    next => exact stepClosed_ruled _ _ _
  | closed outer type => exact stepClosed_ruled _ _ _
  | _ =>
    simp only [TypeState.step]
    split <;> trivial

theorem FieldState.step_ruled (t : Located) (state : FieldState) : (state.step t).Ruled := by
  cases state with
  | type state =>
    have hType := TypeState.step_ruled t state
    simp only [FieldState.step]
    split
    next => trivial
    next => split <;> trivial
    next hBroken => exact hType.of_broken hBroken
    next => trivial
  | number =>
    rw [FieldState.step]
    exact readNumber_ruled _ _ _
  | equals =>
    simp only [FieldState.step]
    split <;> trivial
  | close =>
    simp only [FieldState.step]
    split <;> trivial

theorem VariantState.step_ruled (t : Located) (state : VariantState) : (state.step t).Ruled := by
  cases state with
  | payload name span state =>
    have hType := TypeState.step_ruled t state
    simp only [VariantState.step]
    split
    next => trivial
    next => split <;> trivial
    next hBroken => exact hType.of_broken hBroken
    next => trivial
  | number =>
    rw [VariantState.step]
    exact readNumber_ruled _ _ _
  | _ =>
    simp only [VariantState.step]
    split <;> trivial

theorem OptionState.step_ruled (t : Located) (state : OptionState) : (state.step t).Ruled := by
  cases state with
  | type span key state =>
    have hType := TypeState.step_ruled t state
    simp only [OptionState.step]
    split
    next => trivial
    next => split <;> trivial
    next hBroken => exact hType.of_broken hBroken
    next => trivial
  | value =>
    simp only [OptionState.step]
    split
    next => exact readNumber_ruled _ _ _
    all_goals trivial
  | item =>
    rw [OptionState.step]
    exact readNumber_ruled _ _ _
  | _ =>
    simp only [OptionState.step]
    split <;> trivial

theorem HeadState.step_ruled (span : Span) (t : Located) (state : HeadState) :
    (state.step span t).Ruled := by
  cases state with
  | param params =>
    simp only [HeadState.step]
    split
    next =>
      split
      · intro _ _ hSame
        cases hSame
      · trivial
    next => trivial
  | _ =>
    simp only [HeadState.step]
    split <;> trivial

namespace State

section

variable {state : State} {t : Located} {span : Span} {wanted : Expectation} {found : Option Token}

theorem unfit_eq_expected (hUnfit : state.unfit t = .error ⟨span, .expected wanted found⟩) :
    span = t.span ∧ found = some t.token := by
  cases hUnfit
  exact ⟨rfl, rfl⟩

theorem fail_ne_expected {σ α : Type} {result : Step σ α} {fault : Fault} (hRuled : result.Ruled)
    (hBroken : result = .broken fault) :
    fail t.span fault ≠ .error ⟨span, .expected wanted found⟩ := by
  subst hBroken
  intro hFail
  cases hFail
  exact hRuled wanted found rfl

theorem stepStatement_eq_expected
    (hStep : state.stepStatement t = .error ⟨span, .expected wanted found⟩) :
    span = t.span ∧ found = some t.token := by
  unfold stepStatement at hStep
  split at hStep
  next => cases hStep
  next => cases hStep
  next => cases hStep
  next => cases hStep
  next =>
    split at hStep
    · exact unfit_eq_expected hStep
    · cases hStep
  next => exact unfit_eq_expected hStep

theorem stepBody_eq_expected {body : OpenBody}
    (hStep : state.stepBody body t = .error ⟨span, .expected wanted found⟩) :
    span = t.span ∧ found = some t.token := by
  unfold stepBody at hStep
  split at hStep
  next => cases hStep
  next => cases hStep
  next =>
    split at hStep
    · cases hStep
    · cases hStep
    · exact unfit_eq_expected hStep
  next => exact unfit_eq_expected hStep

theorem pushFileNamespace_ne_expected {name : QualifiedName} {place : Span} :
    state.pushFileNamespace place name ≠ .error ⟨span, .expected wanted found⟩ := by
  intro hPush
  unfold pushFileNamespace at hPush
  split at hPush
  · cases hPush
  · split at hPush
    · cases hPush
    · split at hPush <;> cases hPush

/-- Where a step asks for something else, it names the token that it took. -/
theorem step_eq_expected (hStep : state.step t = .error ⟨span, .expected wanted found⟩) :
    span = t.span ∧ found = some t.token := by
  obtain ⟨blocks, done, phase⟩ := state
  cases phase with
  | statement => exact stepStatement_eq_expected hStep
  | body body => exact stepBody_eq_expected hStep
  | namespaceNamed place name =>
    simp only [step] at hStep
    split at hStep
    next => cases hStep
    next => exact absurd hStep pushFileNamespace_ne_expected
    next => cases hStep
    next => exact unfit_eq_expected hStep
  | head kind place head =>
    simp only [step] at hStep
    split at hStep
    next => cases hStep
    next => cases hStep
    next hBroken => exact absurd hStep (fail_ne_expected (head.step_ruled place t) hBroken)
    next => exact unfit_eq_expected hStep
  | field header members field =>
    simp only [step] at hStep
    split at hStep
    next => cases hStep
    next => cases hStep
    next hBroken => exact absurd hStep (fail_ne_expected (field.step_ruled t) hBroken)
    next => exact unfit_eq_expected hStep
  | variant header members variant =>
    simp only [step] at hStep
    split at hStep
    next => cases hStep
    next => cases hStep
    next hBroken => exact absurd hStep (fail_ne_expected (variant.step_ruled t) hBroken)
    next => exact unfit_eq_expected hStep
  | option body option =>
    simp only [step] at hStep
    split at hStep
    next => cases hStep
    next => cases hStep
    next hBroken => exact absurd hStep (fail_ne_expected (option.step_ruled t) hBroken)
    next => exact unfit_eq_expected hStep
  | _ =>
    simp only [step] at hStep
    split at hStep
    · cases hStep
    · exact unfit_eq_expected hStep

/-- Where the end of the text comes too early, the fault is there. -/
theorem finish_eq_error {stop : Span} {fault : FaultAt}
    (hFinish : state.finish stop = .error fault) :
    fault = ⟨stop, .expected (state.wanted none) none⟩ := by
  unfold finish at hFinish
  split at hFinish
  · cases hFinish
  · cases hFinish
    rfl

end

end State

/-! ## The front of a file -/

/-- A token as it stands in the list of all tokens. -/
def Located.entry (t : Located) : Option Token × Span :=
  (some t.token, t.span)

theorem Located.entry_injective : Function.Injective Located.entry := by
  rintro ⟨token, span⟩ ⟨other, place⟩ hSame
  cases hSame
  rfl

theorem end_notMem_entries (items : List Located) (stop : Span) :
    (none, stop) ∉ items.map Located.entry := by
  simp [Located.entry]

/-- The tokens, and behind them the end of the text, each with its place. -/
def Tokens.listed (tokens : Tokens) : List (Option Token × Span) :=
  tokens.items.map Located.entry ++ [(none, tokens.stop)]

theorem items_prefix_of_listed {items : List Located} {tokens : Tokens}
    (hPrefix : items.map Located.entry <+: tokens.listed) : items <+: tokens.items := by
  rcases List.prefix_concat_iff.1 hPrefix with hAll | hFront
  · have hMem : (none, tokens.stop) ∈ items.map Located.entry := by simp [hAll]
    exact absurd hMem (end_notMem_entries _ _)
  · exact (List.prefix_map_iff_of_injective Located.entry_injective).1 hFront

theorem eq_of_listed_prefix {tokens other : Tokens} (hPrefix : tokens.listed <+: other.listed) :
    tokens.items = other.items := by
  rcases List.prefix_concat_iff.1 hPrefix with hAll | hFront
  · obtain ⟨hItems, -⟩ := List.append_inj' hAll rfl
    exact List.map_injective_iff.2 Located.entry_injective hItems
  · have hMem : (none, tokens.stop) ∈ other.items.map Located.entry :=
      hFront.subset (by simp [Tokens.listed])
    exact absurd hMem (end_notMem_entries _ _)

/-- A file that is accepted may start like this. -/
def Viable (front : List (Option Token × Span)) : Prop :=
  ∃ (tokens : Tokens) (file : List Statement), front <+: tokens.listed ∧
    parseTokens tokens = .ok file

/-- What leads to a state is the front of a file. -/
theorem viable_of_run {items : List Located} {state : State}
    (hRun : items.foldlM State.step .start = .ok state) : Viable (items.map Located.entry) := by
  obtain ⟨more, file, hMore⟩ := state.completable
  refine ⟨⟨items ++ more, .start⟩, file.reverse,
    ⟨more.map Located.entry ++ [(none, .start)], ?_⟩, ?_⟩
  · simp [Tokens.listed]
  · rw [parseTokens, List.foldlM_append, hRun]
    show more.foldlM State.step state >>= _ = _
    rw [hMore]
    rfl

/-- What leads to no state is not the front of a file. -/
theorem not_viable_of_run {items : List Located} {fault : FaultAt}
    (hRun : items.foldlM State.step .start = .error fault) :
    ¬ Viable (items.map Located.entry) := by
  rintro ⟨tokens, file, hPrefix, hParse⟩
  obtain ⟨more, hItems⟩ := items_prefix_of_listed hPrefix
  rw [parseTokens, ← hItems, List.foldlM_append, hRun] at hParse
  cases hParse

theorem not_viable_listed {tokens : Tokens} {fault : FaultAt}
    (hParse : parseTokens tokens = .error fault) : ¬ Viable tokens.listed := by
  rintro ⟨other, file, hPrefix, hOther⟩
  rw [parseTokens, bind_eq_ok] at hOther
  obtain ⟨state, hState, hFinish⟩ := hOther
  rw [State.finish_eq_ok] at hFinish
  rw [parseTokens, eq_of_listed_prefix hPrefix, hState, hFinish] at hParse
  cases hParse

/-- What is before the token at the fault is the front of a file, and it is not with that token. -/
theorem parseTokens_expected {tokens : Tokens} {span : Span} {wanted : Expectation}
    {found : Option Token} (hParse : parseTokens tokens = .error ⟨span, .expected wanted found⟩) :
    ∃ k, tokens.listed[k]? = some (found, span) ∧ Viable (tokens.listed.take k) ∧
      ¬ Viable (tokens.listed.take (k + 1)) := by
  have hAll := not_viable_listed hParse
  rw [parseTokens, bind_eq_error] at hParse
  rcases hParse with hRun | ⟨state, hRun, hFinish⟩
  · obtain ⟨done, t, later, middle, hItems, hDone, hStep⟩ := foldlM_eq_error hRun
    obtain ⟨rfl, rfl⟩ := State.step_eq_expected hStep
    have hListed : tokens.listed =
        done.map Located.entry ++ t.entry ::
          (later.map Located.entry ++ [(none, tokens.stop)]) := by
      simp [Tokens.listed, hItems]
    have hHere : (done ++ [t]).foldlM State.step .start =
        .error ⟨t.span, .expected wanted t.token⟩ := by
      rw [List.foldlM_append, hDone]
      show [t].foldlM State.step middle = _
      rw [List.foldlM_cons, hStep]
      rfl
    have hFront : tokens.listed.take (done.length + 1) = (done ++ [t]).map Located.entry := by
      rw [hListed, List.append_cons, List.take_left' (by simp), List.map_append]
      rfl
    refine ⟨done.length, ?_, ?_, ?_⟩
    · simp [hListed, Located.entry]
    · rw [hListed, List.take_left' (by simp)]
      exact viable_of_run hDone
    · rw [hFront]
      exact not_viable_of_run hHere
  · -- The end of the text does not fit: all tokens are before it, and nothing is behind it.
    have hFault := State.finish_eq_error hFinish
    cases hFault
    refine ⟨tokens.items.length, ?_, ?_, ?_⟩
    · simp [Tokens.listed]
    · rw [Tokens.listed, List.take_left' (by simp)]
      exact viable_of_run hRun
    · rwa [List.take_of_length_le (by simp [Tokens.listed])]

/-! ## Messages -/

theorem Expectation.head_text (wanted : Expectation) :
    ∃ c ≠ 'e', wanted.text.toList.head? = some c := by
  cases wanted <;> simp [Expectation.text, Token.text]

/-- No other message starts like the one about what was expected. -/
theorem Fault.eq_expected_of_head {fault : Fault} (hHead : fault.message.toList.head? = some 'e') :
    ∃ wanted found, fault = .expected wanted found := by
  rw [Fault.message.eq_def] at hHead
  cases fault with
  | expected wanted found => exact ⟨wanted, found, rfl⟩
  | tooWide what value =>
    obtain ⟨c, hOther, hText⟩ := what.head_text
    simp [hText, hOther] at hHead
  | _ => simp at hHead

theorem parse_eq_error {text : String} {tokens : Tokens} {faults : List FaultAt}
    (hTokens : tokenize text = .ok tokens) (hParse : parse text = .error faults) :
    ∃ fault, faults = [fault] ∧ parseTokens tokens = .error fault := by
  rw [parse, hTokens, bind_eq_error] at hParse
  rcases hParse with hError | ⟨_, hSame, hParse⟩
  · cases hError
  · cases hSame
    split at hParse
    next => cases hParse
    next fault hFault =>
      cases hParse
      exact ⟨fault, rfl, hFault⟩

/-- If the tokens of a text are fine and a fault says what was expected and what was found, then it
is at a token, and this is the one that was found. What is before the token is the front of a file
that is accepted, and no such file goes on with the token. -/
theorem parse_expected {text : String} {tokens : Tokens} {faults : List FaultAt} {fault : FaultAt}
    {wanted found : String} (hTokens : tokenize text = .ok tokens)
    (hParse : parse text = .error faults) (hFault : fault ∈ faults)
    (hMessage : fault.fault.message = "expected " ++ wanted ++ ", found " ++ found) :
    ∃ k token, tokens.listed[k]? = some (token, fault.span) ∧
      (∃ asked, fault.fault = .expected asked token) ∧
      Viable (tokens.listed.take k) ∧ ¬ Viable (tokens.listed.take (k + 1)) := by
  obtain ⟨only, rfl, hTokens⟩ := parse_eq_error hTokens hParse
  cases List.mem_singleton.1 hFault
  have hHead : fault.fault.message.toList.head? = some 'e' := by simp [hMessage]
  obtain ⟨asked, token, hExpected⟩ := Fault.eq_expected_of_head hHead
  obtain ⟨span, fault⟩ := fault
  cases hExpected
  obtain ⟨k, hToken, hViable, hStop⟩ := parseTokens_expected hTokens
  exact ⟨k, token, hToken, ⟨asked, rfl⟩, hViable, hStop⟩

/-- A field whose type is not closed and whose name is missing. -/
def openField : String :=
  "message M \x7b list<T = 1; \x7d"

def openFieldLexemes : List Lexeme :=
  [⟨.word, "message".toList⟩, ⟨.blank, [' ']⟩, ⟨.word, ['M']⟩, ⟨.blank, [' ']⟩,
    ⟨.symbol .leftBrace, ['\x7b']⟩, ⟨.blank, [' ']⟩, ⟨.word, "list".toList⟩,
    ⟨.symbol .leftAngle, ['<']⟩, ⟨.word, ['T']⟩, ⟨.blank, [' ']⟩, ⟨.symbol .equals, ['=']⟩,
    ⟨.blank, [' ']⟩, ⟨.number, ['1']⟩, ⟨.symbol .semicolon, [';']⟩, ⟨.blank, [' ']⟩,
    ⟨.symbol .rightBrace, ['\x7d']⟩]

def openFieldTokens : Tokens where
  items := [word "message" ⟨1, 1⟩, word "M" ⟨1, 9⟩, mark .leftBrace ⟨1, 11⟩, word "list" ⟨1, 13⟩,
    mark .leftAngle ⟨1, 17⟩, word "T" ⟨1, 18⟩, mark .equals ⟨1, 20⟩, numeral 1 ⟨1, 22⟩,
    mark .semicolon ⟨1, 23⟩, mark .rightBrace ⟨1, 25⟩]
  stop := ⟨1, 26⟩

def openFieldFault : FaultAt :=
  ⟨⟨1, 20⟩, .expected (.symbol .rightAngle) (some (.symbol .equals))⟩

theorem parse_openField : tokenize openField = .ok openFieldTokens ∧
    parse openField = .error [openFieldFault] ∧
    openFieldFault.fault.message = "expected '>', found '='" ∧
    ∃ k token, openFieldTokens.listed[k]? = some (token, ⟨1, 20⟩) ∧
      (∃ asked, openFieldFault.fault = .expected asked token) ∧
      Viable (openFieldTokens.listed.take k) ∧ ¬ Viable (openFieldTokens.listed.take (k + 1)) := by
  have hSegments : Segments openField.toList openFieldLexemes [] := by decide +kernel
  have hTokens : tokenize openField = .ok openFieldTokens :=
    tokenize_of_segments hSegments (by decide +kernel)
  have hFault : parseTokens openFieldTokens = .error openFieldFault := by cbv
  have hParse : parse openField = .error [openFieldFault] := by
    rw [parse, hTokens]
    simp only [bind, Except.bind, hFault]
  have hMessage : openFieldFault.fault.message = "expected " ++ "'>'" ++ ", found " ++ "'='" := rfl
  exact ⟨hTokens, hParse, hMessage,
    parse_expected hTokens hParse (List.mem_singleton_self _) hMessage⟩

end Interchange.Schema

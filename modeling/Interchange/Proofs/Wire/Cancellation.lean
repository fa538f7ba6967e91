import Interchange.Wire.Stream

/-!
# Cancellation

Every region has the token of the stream that it was read from, so the streams of a session share
the token of the source. The signal to cancel comes between two steps or while a request waits,
alone or with other things. A step that reads is answered with `cancelled` exactly if its stream is
cancelled after it, and no step takes anything from a stream that is cancelled.

* `Reading.Obeys`: a reading that asks the stream first and leaves it to the stream to be cancelled.
* `Session.serve_served`: what a request may do to the streams.
* `Session.step_of_isCancelled`, `Session.step_cancelled_iff`: when a step is answered with
  `cancelled`.
* `Session.Uniform.stepAt`, `Session.Uniform.still_stepAt`: a step on any stream of the stack.
-/

namespace Interchange.Wire

/-! ## Readings that need the stream -/

namespace Reading

variable {α β : Type} {reading : Reading α} {f : α → Reading β}

/-- The reading starts with a request. -/
def Asks : Reading α → Prop
  | take _ _ => True
  | _ => False

/-- Only the stream says that it is cancelled. The failures of the reading itself are others. -/
def Heeds : Reading α → Prop
  | done _ => True
  | fail error => error ≠ .cancelled
  | take _ next => ∀ block, (next block).Heeds

theorem Heeds.bind (hHeeds : reading.Heeds) (hNext : ∀ value, (f value).Heeds) :
    (reading >>= f).Heeds := by
  induction reading with
  | done value => exact hNext value
  | fail error => exact hHeeds
  | take n next ih => exact fun block => ih block (hHeeds block)

/-- The reading leaves it to the stream whether it is cancelled, and asks it before anything
else. -/
structure Obeys (reading : Reading α) : Prop where
  asks : reading.Asks
  heeds : reading.Heeds

theorem Obeys.bind (hObeys : reading.Obeys) (hNext : ∀ value, (f value).Heeds) :
    (reading >>= f).Obeys := by
  refine ⟨?_, hObeys.heeds.bind hNext⟩
  cases reading with
  | done value => exact hObeys.asks.elim
  | fail error => exact hObeys.asks.elim
  | take n next => trivial

theorem obeys_block (n : Nat) : (block n).Obeys :=
  ⟨trivial, fun _ => trivial⟩

theorem obeys_byte : byte.Obeys := by
  refine ⟨trivial, ?_⟩
  rintro ⟨bytes, hLength⟩
  obtain ⟨byte, rfl⟩ := List.length_eq_one_iff.1 hLength
  trivial

end Reading

theorem Varint.heeds_readGroups (left weight sum : Nat) : (readGroups left weight sum).Heeds := by
  induction left generalizing weight sum with
  | zero => exact WireError.noConfusion
  | succ left ih =>
    refine Reading.obeys_byte.heeds.bind fun byte => ?_
    dsimp only
    split
    · exact WireError.noConfusion
    · split
      · trivial
      · exact ih _ _

theorem Varint.obeys_read : read.Obeys :=
  ⟨trivial, heeds_readGroups maxLength 1 0⟩

theorem Reading.obeys_region : region.Obeys :=
  Varint.obeys_read.bind fun length => (obeys_block length).heeds.bind fun _ => trivial

theorem Layout.obeys_skip (layout : Layout) : layout.skip.Obeys := by
  cases layout with
  | varint => exact Varint.obeys_read.bind fun _ => trivial
  | lengthPrefixed => exact Reading.obeys_region.bind fun _ => trivial
  | fixed32 => exact (Reading.obeys_block 4).bind fun _ => trivial
  | fixed64 => exact (Reading.obeys_block 8).bind fun _ => trivial
  | fixed128 => exact (Reading.obeys_block 16).bind fun _ => trivial

/-! ## Requests -/

theorem Region.serve_ne_cancelled (n : Nat) (region : Region) :
    (region.serve n).1 ≠ .error .cancelled := by
  unfold serve
  split <;> simp

theorem Slice.serve_ne_cancelled (n : Nat) (slice : Slice) :
    (slice.serve n).1 ≠ .error .cancelled := by
  unfold serve
  split <;> simp

namespace Pipe

theorem serveNow_ne_cancelled {n : Nat} {pipe after : Pipe} {got : Bytes}
    {result : Except Halt (Block n)} (hNow : pipe.serveNow n got = some (result, after)) :
    result ≠ .error (.failed .cancelled) := by
  unfold serveNow at hNow
  rintro rfl
  split at hNow
  · simp at hNow
  · split at hNow <;> simp at hNow

/-- A request that waits is answered with `cancelled` exactly if the signal comes meanwhile. -/
theorem serve_cancelled_iff (n : Nat) (pipe : Pipe) (got : Bytes) (events : List Event) :
    (pipe.serve n got events).1 = .error (.failed .cancelled) ↔
      (pipe.serve n got events).2.2.2 = true := by
  induction events generalizing pipe got with
  | nil =>
    simp only [serve]
    split
    next result after hNow => simp [serveNow_ne_cancelled hNow]
    next => simp
  | cons event later ih =>
    simp only [serve]
    split
    next result after hNow => simp [serveNow_ne_cancelled hNow]
    next =>
      split
      next => simp
      next => exact ih _ _

end Pipe

namespace Session

variable {token : Token} {session : Session} {events : List Event}

theorem prompt_ne_cancelled {α : Type} {result : Except WireError α}
    (hOther : result ≠ .error .cancelled) : prompt result ≠ .error (.failed .cancelled) := by
  cases result with
  | ok value => simp [prompt]
  | error error => simpa [prompt] using hOther

theorem serve_of_isCancelled (hCancelled : session.isCancelled = true) (n : Nat)
    (events : List Event) :
    serve n (session, events) = (.error (.failed .cancelled), session, events) := by
  simp only [serve, hCancelled, if_true]

/-- What a request may do to a session: the streams keep their tokens, and the answer is `cancelled`
exactly if the stream on top is cancelled after that. -/
structure Served {α : Type} (before : Session) (result : Except Halt α)
    (after : Session) : Prop where
  source : after.source.token = before.source.token
  regions : after.regions.map Layer.token = before.regions.map Layer.token
  cancelled : result = .error (.failed .cancelled) ↔ after.isCancelled = true

theorem serve_served (n : Nat) (session : Session) (events : List Event) :
    Served session (serve n (session, events)).1 (serve n (session, events)).2.1 := by
  cases hCancelled : session.isCancelled with
  | true =>
    rw [serve_of_isCancelled hCancelled]
    exact ⟨rfl, rfl, by simp [hCancelled]⟩
  | false =>
    obtain ⟨source, regions, signalled⟩ := session
    simp only [serve, hCancelled, Bool.false_eq_true, if_false]
    cases regions with
    | cons layer below =>
      have hOther := prompt_ne_cancelled (layer.region.serve_ne_cancelled n)
      exact ⟨rfl, rfl, iff_of_false hOther (Bool.eq_false_iff.1 hCancelled)⟩
    | nil =>
      cases source with
      | region region =>
        have hOther := prompt_ne_cancelled (region.serve_ne_cancelled n)
        exact ⟨rfl, rfl, iff_of_false hOther (Bool.eq_false_iff.1 hCancelled)⟩
      | slice slice deaf =>
        have hOther := prompt_ne_cancelled (slice.serve_ne_cancelled n)
        refine ⟨?_, rfl, iff_of_false hOther ?_⟩
        · cases deaf <;> rfl
        · cases deaf <;> exact Bool.eq_false_iff.1 hCancelled
      | pipe pipe =>
        -- Only here may the signal come in between: while the request waits.
        have hSignal : signalled = false := hCancelled
        refine ⟨rfl, rfl, (pipe.serve_cancelled_iff n [] events).trans ?_⟩
        rw [hSignal]
        rfl

theorem perform_of_isCancelled {α : Type} {reading : Reading α} (hAsks : reading.Asks)
    (hCancelled : session.isCancelled = true) (events : List Event) :
    session.perform reading events = (.error (.failed .cancelled), session) := by
  cases reading with
  | done value => exact hAsks.elim
  | fail error => exact hAsks.elim
  | take n next => simp only [perform, Reading.runWith, serve_of_isCancelled hCancelled]

/-- A reading fails with `cancelled` exactly if the stream is cancelled after it. -/
theorem runWith_cancelled_iff {α : Type} {reading : Reading α} (hHeeds : reading.Heeds)
    {state : Session × List Event} (hStart : reading.Asks ∨ state.1.isCancelled = false) :
    (reading.runWith .failed serve state).1 = .error (.failed .cancelled) ↔
      (reading.runWith .failed serve state).2.1.isCancelled = true := by
  induction reading generalizing state with
  | done value =>
    have hActive := hStart.resolve_left id
    simp [Reading.runWith, hActive]
  | fail error =>
    have hActive := hStart.resolve_left id
    have hOther : error ≠ .cancelled := hHeeds
    simp [Reading.runWith, hActive, hOther]
  | take n next ih =>
    -- The first request decides, so nothing is needed about the state before it.
    have hServed := (serve_served n state.1 state.2).cancelled
    simp only [Reading.runWith]
    split
    next block after hServe =>
      rw [hServe] at hServed
      -- It was met, so the stream is active for the rest of the reading.
      have hActive : after.1.isCancelled = false := by simpa using hServed
      exact ih block (hHeeds block) (.inr hActive)
    next halt after hServe =>
      rw [hServe] at hServed
      simpa using hServed

theorem perform_cancelled_iff {α : Type} {reading : Reading α} (hObeys : reading.Obeys)
    (session : Session) (events : List Event) :
    (session.perform reading events).1 = .error (.failed .cancelled) ↔
      (session.perform reading events).2.isCancelled = true :=
  runWith_cancelled_iff hObeys.heeds (.inl hObeys.asks)

/-- All streams of the session have this token. -/
structure Uniform (token : Token) (session : Session) : Prop where
  source : session.source.token = token
  regions : ∀ layer ∈ session.regions, layer.token = token

theorem Uniform.token_eq (hUniform : session.Uniform token) : session.token = token := by
  unfold Session.token
  split
  next layer below hRegions => exact hUniform.regions layer (by simp [hRegions])
  next => exact hUniform.source

theorem Uniform.isCancelled_eq (hUniform : session.Uniform token) :
    session.isCancelled = session.cancels token :=
  congrArg session.cancels hUniform.token_eq

theorem Served.uniform {α : Type} {result : Except Halt α} {after : Session}
    (hServed : Served session result after) (hUniform : session.Uniform token) :
    after.Uniform token := by
  refine ⟨hServed.source.trans hUniform.source, fun layer hLayer => ?_⟩
  have hToken := List.mem_map_of_mem (f := Layer.token) hLayer
  rw [hServed.regions] at hToken
  obtain ⟨old, hOld, hEq⟩ := List.mem_map.1 hToken
  exact hEq ▸ hUniform.regions old hOld

theorem Uniform.runWith {α : Type} (reading : Reading α) {state : Session × List Event}
    (hUniform : state.1.Uniform token) :
    (reading.runWith .failed serve state).2.1.Uniform token := by
  induction reading generalizing state with
  | done value => exact hUniform
  | fail error => exact hUniform
  | take n next ih =>
    have hAfter := (serve_served n state.1 state.2).uniform hUniform
    simp only [Reading.runWith]
    split
    next block after hServe =>
      rw [hServe] at hAfter
      exact ih block hAfter
    next halt after hServe =>
      rw [hServe] at hAfter
      exact hAfter

theorem Uniform.perform {α : Type} (hUniform : session.Uniform token) (reading : Reading α)
    (events : List Event) : (session.perform reading events).2.Uniform token :=
  Uniform.runWith reading hUniform

end Session

/-! ## Sources from which nothing is taken -/

/-- Nothing was taken from the pipe. Bytes may have come behind those that were there, unless it was
closed. -/
structure Pipe.Untouched (before after : Pipe) : Prop where
  held : before.available <+: after.available
  closed : before.closed = true → after = before

theorem Pipe.Untouched.trans {before middle after : Pipe} (hFirst : before.Untouched middle)
    (hRest : middle.Untouched after) : before.Untouched after where
  held := hFirst.held.trans hRest.held
  closed := by
    intro hClosed
    obtain rfl := hFirst.closed hClosed
    exact hRest.closed hClosed

theorem Pipe.untouched_feed (pipe : Pipe) (bytes : Bytes) : pipe.Untouched (pipe.feed bytes) := by
  unfold feed
  split
  next => exact ⟨List.prefix_rfl, fun _ => rfl⟩
  next hOpen => exact ⟨List.prefix_append _ _, fun hClosed => absurd hClosed hOpen⟩

theorem Pipe.untouched_close (pipe : Pipe) : pipe.Untouched pipe.close :=
  ⟨List.prefix_rfl, fun hClosed => by simp [close, ← hClosed]⟩

/-- Nothing was taken from the source. -/
inductive Source.Untouched : Source → Source → Prop
  | same (source : Source) : Untouched source source
  | pipe {before after : Pipe} (pipe : before.Untouched after) :
      Untouched (.pipe before) (.pipe after)

namespace Source.Untouched

variable {before middle after : Source}

theorem trans (hFirst : before.Untouched middle) (hRest : middle.Untouched after) :
    before.Untouched after := by
  cases hFirst with
  | same => exact hRest
  | pipe hFirst =>
    cases hRest with
    | same => exact .pipe hFirst
    | pipe hRest => exact .pipe (hFirst.trans hRest)

theorem token_eq (hUntouched : before.Untouched after) : after.token = before.token := by
  cases hUntouched with
  | same => rfl
  | pipe => rfl

end Source.Untouched

namespace Session

variable {token : Token} {session : Session} {events : List Event}

/-! ## Steps -/

/-- The step reads from the stream. -/
inductive Step.Reads : Step → Prop
  | read (n : Nat) : Reads (.read n)
  | byte : Reads .byte
  | varint : Reads .varint
  | skip (layout : Layout) : Reads (.skip layout)
  | region : Reads .region

section

variable {α : Type} {reading : Reading α} {finish : α → Session → Answer × Session}

theorem answer_of_isCancelled (hObeys : reading.Obeys) (hCancelled : session.isCancelled = true)
    (events : List Event) (finish : α → Session → Answer × Session) :
    session.answer events reading finish = (.halted (.failed .cancelled), session) := by
  simp only [answer, perform_of_isCancelled hObeys.asks hCancelled]

theorem answer_cancelled_iff (hObeys : reading.Obeys)
    (hAnswer : ∀ value after halt, (finish value after).1 ≠ .halted halt)
    (hFinish : ∀ value after, (finish value after).2.isCancelled = after.isCancelled)
    (session : Session) (events : List Event) :
    (session.answer events reading finish).1 = .halted (.failed .cancelled) ↔
      (session.answer events reading finish).2.isCancelled = true := by
  have hResult := perform_cancelled_iff hObeys session events
  simp only [answer]
  split
  next value after hPerform =>
    rw [hPerform] at hResult
    have hActive : after.isCancelled = false := by simpa using hResult
    simp [hAnswer, hFinish, hActive]
  next halt after hPerform =>
    rw [hPerform] at hResult
    simpa using hResult

theorem Uniform.answer (hUniform : session.Uniform token)
    (hFinish : ∀ value after, after.Uniform token → (finish value after).2.Uniform token)
    (events : List Event) : (session.answer events reading finish).2.Uniform token := by
  have hAfter := hUniform.perform reading events
  simp only [Session.answer]
  split
  next value after hPerform =>
    rw [hPerform] at hAfter
    exact hFinish value after hAfter
  next halt after hPerform =>
    rw [hPerform] at hAfter
    exact hAfter

end

theorem Uniform.push (hUniform : session.Uniform token) (bytes : Bytes) :
    (session.push bytes).Uniform token :=
  ⟨hUniform.source, List.forall_mem_cons.2 ⟨hUniform.token_eq, hUniform.regions⟩⟩

theorem step_of_isCancelled {step : Step} (hReads : step.Reads)
    (hCancelled : session.isCancelled = true) (events : List Event) :
    session.step events step = (.halted (.failed .cancelled), session) := by
  cases hReads with
  | read n => exact answer_of_isCancelled (Reading.obeys_block n) hCancelled events _
  | byte => exact answer_of_isCancelled Reading.obeys_byte hCancelled events _
  | varint => exact answer_of_isCancelled Varint.obeys_read hCancelled events _
  | skip layout => exact answer_of_isCancelled layout.obeys_skip hCancelled events _
  | region => exact answer_of_isCancelled Reading.obeys_region hCancelled events _

/-- A reading step is answered with `cancelled` exactly if the stream on top is cancelled after it,
also if the signal came while it was waiting. -/
theorem step_cancelled_iff {step : Step} (hReads : step.Reads) (session : Session)
    (events : List Event) :
    (session.step events step).1 = .halted (.failed .cancelled) ↔
      (session.step events step).2.isCancelled = true := by
  cases hReads with
  | read n => exact answer_cancelled_iff (Reading.obeys_block n) (by simp) (fun _ _ => rfl) _ _
  | byte => exact answer_cancelled_iff Reading.obeys_byte (by simp) (fun _ _ => rfl) _ _
  | varint => exact answer_cancelled_iff Varint.obeys_read (by simp) (fun _ _ => rfl) _ _
  | skip layout => exact answer_cancelled_iff layout.obeys_skip (by simp) (fun _ _ => rfl) _ _
  | region => exact answer_cancelled_iff Reading.obeys_region (by simp) (fun _ _ => rfl) _ _

/-- Nothing is taken from any stream between the two. Regions may have been dropped. -/
structure Still (before after : Session) : Prop where
  source : before.source.Untouched after.source
  regions : after.regions.Sublist before.regions
  signalled : before.signalled = true → after.signalled = true

namespace Still

variable {before middle after : Session}

theorem refl (session : Session) : Still session session :=
  ⟨.same _, .refl _, id⟩

theorem trans (hFirst : Still before middle) (hRest : Still middle after) : Still before after :=
  ⟨hFirst.source.trans hRest.source, hRest.regions.trans hFirst.regions,
    hRest.signalled ∘ hFirst.signalled⟩

theorem uniform (hStill : Still before after) (hUniform : before.Uniform token) :
    after.Uniform token where
  source := hStill.source.token_eq.trans hUniform.source
  regions := fun layer hLayer => hUniform.regions layer (hStill.regions.subset hLayer)

theorem cancels (hStill : Still before after) (hCancels : before.cancels token = true) :
    after.cancels token = true := by
  cases token with
  | shared => exact hStill.signalled hCancels
  | idle => exact hCancels

theorem changePipe (session : Session) {change : Pipe → Pipe}
    (hChange : ∀ pipe, Pipe.Untouched pipe (change pipe)) :
    Still session (session.changePipe change) := by
  unfold Session.changePipe
  split
  next pipe hSource =>
    refine ⟨?_, .refl _, id⟩
    rw [hSource]
    exact .pipe (hChange pipe)
  next => exact .refl session

end Still

theorem still_of_not_reads {step : Step} (hReads : ¬step.Reads) (session : Session)
    (events : List Event) : Still session (session.step events step).2 := by
  cases step with
  | read n => exact absurd (.read n) hReads
  | byte => exact absurd .byte hReads
  | varint => exact absurd .varint hReads
  | skip layout => exact absurd (.skip layout) hReads
  | region => exact absurd .region hReads
  | pop => exact ⟨.same _, List.tail_sublist _, id⟩
  | peek =>
    simp only [step]
    split
    · exact .refl session
    · exact .refl session
  | isCancelled => exact .refl session
  | cancel => exact ⟨.same _, .refl _, fun _ => rfl⟩
  | feed bytes => exact .changePipe session fun pipe => pipe.untouched_feed bytes
  | close => exact .changePipe session Pipe.untouched_close

/-- On a cancelled stream, no step takes anything. -/
theorem still_of_isCancelled (hCancelled : session.isCancelled = true) (events : List Event)
    (step : Step) : Still session (session.step events step).2 := by
  by_cases hReads : step.Reads
  · rw [step_of_isCancelled hReads hCancelled]
    exact .refl session
  · exact still_of_not_reads hReads session events

/-- A step leaves all streams with one token: regions get it from the stream that they are read
from. -/
theorem Uniform.step (hUniform : session.Uniform token) (events : List Event) (step : Step) :
    (session.step events step).2.Uniform token := by
  by_cases hReads : step.Reads
  · cases hReads with
    | read n => exact hUniform.answer (fun _ _ hAfter => hAfter) events
    | byte => exact hUniform.answer (fun _ _ hAfter => hAfter) events
    | varint => exact hUniform.answer (fun _ _ hAfter => hAfter) events
    | skip layout => exact hUniform.answer (fun _ _ hAfter => hAfter) events
    | region => exact hUniform.answer (fun bytes _ hAfter => hAfter.push bytes) events
  · exact (still_of_not_reads hReads session events).uniform hUniform

/-! ## Any stream of the stack -/

/-- The session without the regions above a level. -/
def below (level : Nat) (session : Session) : Session :=
  { session with regions := session.regions.drop level }

/-- One step on the stream at a level. The stream on top is at level 0, and the source is below all
regions. -/
def stepAt (session : Session) (level : Nat) (events : List Event) (step : Step) :
    Answer × Session :=
  let (answer, after) := (session.below level).step events step
  (answer, { after with regions := session.regions.take level ++ after.regions })

theorem Uniform.below (hUniform : session.Uniform token) (level : Nat) :
    (session.below level).Uniform token :=
  ⟨hUniform.source, fun layer hLayer => hUniform.regions layer (List.mem_of_mem_drop hLayer)⟩

theorem Uniform.isCancelled_below (hUniform : session.Uniform token) (level : Nat) :
    (session.below level).isCancelled = session.cancels token :=
  (hUniform.below level).isCancelled_eq

theorem Uniform.stepAt (hUniform : session.Uniform token) (level : Nat) (events : List Event)
    (step : Step) : (session.stepAt level events step).2.Uniform token := by
  have hAfter := (hUniform.below level).step events step
  refine ⟨hAfter.source, fun layer hLayer => ?_⟩
  rcases List.mem_append.1 hLayer with hAbove | hBelow
  · exact hUniform.regions layer (List.mem_of_mem_take hAbove)
  · exact hAfter.regions layer hBelow

theorem Uniform.stepAt_of_cancels (hUniform : session.Uniform token)
    (hCancels : session.cancels token = true) {step : Step} (hReads : step.Reads) (level : Nat)
    (events : List Event) :
    session.stepAt level events step = (.halted (.failed .cancelled), session) := by
  have hCancelled := (hUniform.isCancelled_below level).trans hCancels
  simp only [Session.stepAt, step_of_isCancelled hReads hCancelled]
  simp only [Session.below, List.take_append_drop]

theorem Uniform.stepAt_cancelled_iff (hUniform : session.Uniform token) {step : Step}
    (hReads : step.Reads) (level : Nat) (events : List Event) :
    (session.stepAt level events step).1 = .halted (.failed .cancelled) ↔
      (session.stepAt level events step).2.cancels token = true := by
  have hAfter := (hUniform.below level).step events step
  refine (step_cancelled_iff hReads (session.below level) events).trans ?_
  rw [hAfter.isCancelled_eq]
  exact Iff.rfl

theorem Uniform.still_stepAt (hUniform : session.Uniform token)
    (hCancels : session.cancels token = true) (level : Nat) (events : List Event) (step : Step) :
    Still session (session.stepAt level events step).2 := by
  have hCancelled := (hUniform.isCancelled_below level).trans hCancels
  have hStill := still_of_isCancelled hCancelled events step
  refine ⟨hStill.source, ?_, hStill.signalled⟩
  have hRegions := hStill.regions.append_left (session.regions.take level)
  rwa [Session.below, List.take_append_drop] at hRegions

end Session

end Interchange.Wire

import Interchange.Proofs.Wire.Cancellation
import Interchange.Proofs.Wire.Outlet

/-!
# Exchanges

Streams over a source, a sink and an outlet share a token. They are used in any order, level by
level or not, and the signal to cancel comes between two steps or while a request, a write or a
flush waits. From then on nothing is read or written any more, at any depth. Bytes may still come to
the source and be taken out of the outlet, and regions may be dropped.

* `Exchange.Shares.step`, `Exchange.Shares.run`: streams, sink and outlet keep one token.
* `Exchange.Shares.still_step`, `Exchange.Shares.still_run`: nothing moves after the cancellation.
* `Exchange.cancellation_final`: cancellation reaches every stream and is final.
-/

namespace Interchange.Wire

/-! ## Sinks -/

namespace Sink

/-- The step puts bytes into the sink or makes sure that they are there. -/
inductive Step.Writes : Step → Prop
  | write (bytes : Bytes) : Writes (.write bytes)
  | varint (value : Nat) : Writes (.varint value)
  | flush : Writes .flush

theorem Step.eq_cancel {step : Step} (hWrites : ¬ step.Writes) : step = .cancel := by
  cases step with
  | write bytes => exact absurd (.write bytes) hWrites
  | varint value => exact absurd (.varint value) hWrites
  | flush => exact absurd .flush hWrites
  | cancel => rfl

theorem cancel_eq {sink : Sink} (hCancelled : sink.cancelled = true) : sink.cancel = sink := by
  rw [cancel, ← hCancelled]

theorem write_of_cancelled {sink : Sink} (hCancelled : sink.cancelled = true) (bytes : Bytes) :
    sink.write bytes = (.error .cancelled, sink) :=
  if_pos hCancelled

theorem write_cancelled (sink : Sink) (bytes : Bytes) :
    (sink.write bytes).2.cancelled = sink.cancelled := by
  unfold write
  split
  · rfl
  · split
    · rfl
    · rfl

theorem write_cancelled_iff (sink : Sink) (bytes : Bytes) :
    (sink.write bytes).1 = .error .cancelled ↔ sink.cancelled = true := by
  unfold write
  split
  next hCancelled => simp [hCancelled]
  next hActive =>
    split
    · simp [hActive]
    · simp [hActive]

theorem step_of_cancelled {sink : Sink} {step : Step} (hWrites : step.Writes)
    (hCancelled : sink.cancelled = true) (deaf : Bool) :
    sink.step deaf step = (.error .cancelled, sink) := by
  cases hWrites with
  | write bytes => exact write_of_cancelled hCancelled bytes
  | varint value => exact write_of_cancelled hCancelled (Varint.encode value)
  | flush => simp only [step, Sink.flush, hCancelled, if_true]

theorem step_keeps {sink : Sink} (hCancelled : sink.cancelled = true) (deaf : Bool) (step : Step) :
    (sink.step deaf step).2 = sink := by
  by_cases hWrites : step.Writes
  · rw [step_of_cancelled hWrites hCancelled]
  · obtain rfl := Step.eq_cancel hWrites
    simp [Sink.step, cancel_eq hCancelled]

/-- A step that writes or flushes is refused exactly if the sink is cancelled after it. -/
theorem step_cancelled_iff {step : Step} (hWrites : step.Writes) (sink : Sink) (deaf : Bool) :
    (sink.step deaf step).1 = .error .cancelled ↔ (sink.step deaf step).2.cancelled = true := by
  cases hWrites with
  | write bytes => exact (sink.write_cancelled_iff bytes).trans (by rw [Sink.step, write_cancelled])
  | varint value => exact (sink.write_cancelled_iff _).trans (by rw [Sink.step, write_cancelled])
  | flush =>
    simp only [Sink.step, Sink.flush]
    split
    next hCancelled => simp [hCancelled]
    next hActive => simp [hActive]

theorem step_deaf (sink : Sink) (step : Step) :
    (sink.step true step).2.cancelled = sink.cancelled := by
  cases step with
  | write bytes => exact sink.write_cancelled bytes
  | varint value => exact sink.write_cancelled _
  | flush => rfl
  | cancel => rfl

end Sink

/-! ## Outlets -/

namespace Outlet

variable {outlet : Outlet} {step : Sink.Step}

theorem step_eq_perform (hWrites : step.Writes) (deaf : Bool) (outlet : Outlet)
    (events : List Event) :
    ∃ transfer, outlet.step deaf events step = outlet.perform deaf transfer events := by
  cases hWrites with
  | write bytes => exact ⟨_, rfl⟩
  | varint value => exact ⟨_, rfl⟩
  | flush => exact ⟨_, rfl⟩

theorem step_of_cancelled (hWrites : step.Writes)
    (hCancelled : outlet.cancelled = true) (deaf : Bool) (events : List Event) :
    outlet.step deaf events step = (.error (.failed .cancelled), outlet) := by
  obtain ⟨transfer, hStep⟩ := step_eq_perform hWrites deaf outlet events
  rw [hStep, perform_of_cancelled hCancelled]

theorem step_cancelled_iff (hWrites : step.Writes) (deaf : Bool) (outlet : Outlet)
    (events : List Event) :
    (outlet.step deaf events step).1 = .error (.failed .cancelled) ↔
      (outlet.step deaf events step).2.cancelled = true := by
  obtain ⟨transfer, hStep⟩ := step_eq_perform hWrites deaf outlet events
  rw [hStep]
  exact perform_cancelled_iff deaf outlet transfer events

theorem step_keeps (hCancelled : outlet.cancelled = true) (deaf : Bool) (events : List Event)
    (step : Sink.Step) : (outlet.step deaf events step).2 = outlet := by
  by_cases hWrites : step.Writes
  · rw [step_of_cancelled hWrites hCancelled]
  · obtain rfl := Sink.Step.eq_cancel hWrites
    simp [Outlet.step, absorb, cancel_eq hCancelled]

theorem step_deaf (outlet : Outlet) (events : List Event) (step : Sink.Step) :
    (outlet.step true events step).2.cancelled = outlet.cancelled := by
  by_cases hWrites : step.Writes
  · obtain ⟨transfer, hStep⟩ := step_eq_perform hWrites true outlet events
    rw [hStep, perform_deaf]
  · obtain rfl := Sink.Step.eq_cancel hWrites
    rfl

end Outlet

/-! ## Exchanges -/

/-- Streams over a source, and a sink and an outlet with the token of the source. -/
structure Exchange where
  session : Session
  sink : Sink
  outlet : Outlet
deriving DecidableEq, Repr

namespace Exchange

/-- A step on one of the streams, on the sink or on the outlet. -/
inductive Action where
  | stream (level : Nat) (events : List Event) (step : Session.Step)
  | sink (step : Sink.Step)
  | outlet (events : List Outlet.Event) (step : Sink.Step)
  /-- Takes bytes out of the outlet. -/
  | take (n : Nat)
deriving DecidableEq, Repr

/-- What an action is answered. -/
inductive Reply where
  | stream (answer : Session.Answer)
  | sink (result : Except WireError Unit)
  | outlet (result : Except Halt Unit)
  | taken (bytes : Bytes)

def start (source : Source) (limit capacity : Nat) : Exchange :=
  ⟨.ofSource source, .ofLimit limit, .ofCapacity capacity⟩

/-- The token of the source is cancelled. -/
def isCancelled (exchange : Exchange) : Bool :=
  exchange.session.cancels exchange.session.source.token

/-- The sink and the outlet are deaf to the signal exactly if the source is. -/
def deaf (exchange : Exchange) : Bool :=
  exchange.session.source.token = .idle

/-- Cancels the sink and the outlet if their token was cancelled. -/
def inform (exchange : Exchange) : Exchange :=
  if exchange.isCancelled then
    { exchange with sink := exchange.sink.cancel, outlet := exchange.outlet.cancel }
  else exchange

/-- A signal that the sink or the outlet has heard reaches the streams. -/
def heed (session : Session) (heard : Bool) : Session :=
  { session with signalled := session.signalled || heard }

/-- One action. -/
def step (exchange : Exchange) : Action → Reply × Exchange
  | .stream level events step =>
    let (answer, after) := exchange.session.stepAt level events step
    (.stream answer, inform { exchange with session := after })
  | .sink step =>
    let (result, after) := exchange.sink.step exchange.deaf step
    (.sink result,
      inform { exchange with session := heed exchange.session after.cancelled, sink := after })
  | .outlet events step =>
    let (result, after) := exchange.outlet.step exchange.deaf events step
    (.outlet result,
      inform { exchange with session := heed exchange.session after.cancelled, outlet := after })
  | .take n =>
    (.taken (exchange.outlet.held.take n), { exchange with outlet := exchange.outlet.take n })

def run (exchange : Exchange) (actions : List Action) : Exchange :=
  actions.foldl (fun exchange action => (exchange.step action).2) exchange

/-- The action reads from a stream, writes or flushes. -/
inductive Action.Transfers : Action → Prop
  | reads (level : Nat) (events : List Event) {step : Session.Step} (reads : step.Reads) :
      Transfers (.stream level events step)
  | writes {step : Sink.Step} (writes : step.Writes) : Transfers (.sink step)
  | outlet (events : List Outlet.Event) {step : Sink.Step} (writes : step.Writes) :
      Transfers (.outlet events step)

/-- The action gives the signal to cancel. -/
inductive Action.Signals : Action → Prop
  | stream (level : Nat) (events : List Event) : Signals (.stream level events .cancel)
  | sink : Signals (.sink .cancel)
  | outlet (events : List Outlet.Event) : Signals (.outlet events .cancel)

/-- The answer that the token is cancelled. -/
def Action.refusal : Action → Reply
  | .stream _ _ _ => .stream (.halted (.failed .cancelled))
  | .sink _ => .sink (.error .cancelled)
  | .outlet _ _ => .outlet (.error (.failed .cancelled))
  -- Taking out is not refused. There is nothing to take at worst.
  | .take _ => .taken []

/-! ### What every run keeps -/

variable {token : Token} {exchange : Exchange}

/-- All streams, the sink and the outlet have this token. -/
structure Shares (token : Token) (exchange : Exchange) : Prop where
  streams : exchange.session.Uniform token
  sink : exchange.sink.cancelled = exchange.session.cancels token
  outlet : exchange.outlet.cancelled = exchange.session.cancels token

theorem shares_start (source : Source) (limit capacity : Nat) :
    Shares source.token (start source limit capacity) := by
  have hActive : (start source limit capacity).session.cancels source.token = false := by
    cases source.token with
    | shared => rfl
    | idle => rfl
  exact ⟨⟨rfl, by simp [start, Session.ofSource]⟩, hActive.symm, hActive.symm⟩

theorem Shares.isCancelled_eq (hShares : Shares token exchange) :
    exchange.isCancelled = exchange.session.cancels token :=
  congrArg exchange.session.cancels hShares.streams.source

theorem Shares.deaf_eq (hShares : Shares token exchange) :
    exchange.deaf = decide (token = .idle) := by
  rw [deaf, hShares.streams.source]

theorem inform_session (exchange : Exchange) : exchange.inform.session = exchange.session := by
  unfold inform
  split
  · rfl
  · rfl

theorem inform_eq {sink : Sink} {outlet : Outlet} (hSink : sink.cancelled = true)
    (hOutlet : outlet.cancelled = true) (session : Session) :
    inform ⟨session, sink, outlet⟩ = ⟨session, sink, outlet⟩ := by
  unfold inform
  split
  · rw [Sink.cancel_eq hSink, Outlet.cancel_eq hOutlet]
  · rfl

/-- The streams are cancelled after a step on the sink or on the outlet exactly if what the step was
made on is, since it had their token before. -/
theorem heed_cancels {session : Session} {before heard : Bool}
    (hBefore : before = session.cancels token) (hKept : before = true → heard = true)
    (hDeaf : token = .idle → heard = before) : (heed session heard).cancels token = heard := by
  cases token with
  | idle => exact ((hDeaf rfl).trans hBefore).symm
  | shared =>
    cases hSignalled : session.signalled with
    | false => simp [heed, Session.cancels, hSignalled]
    | true => simp [heed, Session.cancels, hKept (hBefore.trans hSignalled)]

theorem still_heed (session : Session) (heard : Bool) : session.Still (heed session heard) :=
  ⟨.same _, .refl _, fun hSignalled => by simp [heed, hSignalled]⟩

/-- The sink and the outlet hear of a cancellation at the step at which it happens. They cannot be
cancelled before the streams. -/
theorem shares_inform (hUniform : exchange.session.Uniform token)
    (hSink : exchange.sink.cancelled = true → exchange.session.cancels token = true)
    (hOutlet : exchange.outlet.cancelled = true → exchange.session.cancels token = true) :
    Shares token exchange.inform := by
  have hEq : exchange.isCancelled = exchange.session.cancels token :=
    congrArg exchange.session.cancels hUniform.source
  unfold inform
  rw [hEq]
  cases hCancels : exchange.session.cancels token with
  | true => exact ⟨hUniform, hCancels.symm, hCancels.symm⟩
  | false =>
    have hSink : exchange.sink.cancelled = false := by simpa [hCancels] using hSink
    have hOutlet : exchange.outlet.cancelled = false := by simpa [hCancels] using hOutlet
    exact ⟨hUniform, hSink.trans hCancels.symm, hOutlet.trans hCancels.symm⟩

theorem Shares.heed_sink (hShares : Shares token exchange) (step : Sink.Step) :
    (heed exchange.session (exchange.sink.step exchange.deaf step).2.cancelled).cancels token =
      (exchange.sink.step exchange.deaf step).2.cancelled := by
  refine heed_cancels hShares.sink (fun hCancelled => ?_) fun hIdle => ?_
  · rw [Sink.step_keeps hCancelled, hCancelled]
  · rw [hShares.deaf_eq, decide_eq_true hIdle, Sink.step_deaf]

theorem Shares.heed_outlet (hShares : Shares token exchange) (events : List Outlet.Event)
    (step : Sink.Step) :
    (heed exchange.session
        (exchange.outlet.step exchange.deaf events step).2.cancelled).cancels token =
      (exchange.outlet.step exchange.deaf events step).2.cancelled := by
  refine heed_cancels hShares.outlet (fun hCancelled => ?_) fun hIdle => ?_
  · rw [Outlet.step_keeps hCancelled, hCancelled]
  · rw [hShares.deaf_eq, decide_eq_true hIdle, Outlet.step_deaf]

/-- An action leaves the streams, the sink and the outlet with one token. -/
theorem Shares.step (hShares : Shares token exchange) (action : Action) :
    Shares token (exchange.step action).2 := by
  have hSink : exchange.sink.cancelled = true → exchange.session.cancels token = true :=
    hShares.sink.symm.trans
  have hOutlet : exchange.outlet.cancelled = true → exchange.session.cancels token = true :=
    hShares.outlet.symm.trans
  cases action with
  | stream level events step =>
    have hKept (hCancels : exchange.session.cancels token = true) :
        (exchange.session.stepAt level events step).2.cancels token = true :=
      (hShares.streams.still_stepAt hCancels level events step).cancels hCancels
    exact shares_inform (hShares.streams.stepAt level events step)
      (fun hCancelled => hKept (hSink hCancelled)) fun hCancelled => hKept (hOutlet hCancelled)
  | sink step =>
    have hStill := still_heed exchange.session (exchange.sink.step exchange.deaf step).2.cancelled
    exact shares_inform (hStill.uniform hShares.streams) (hShares.heed_sink step).trans
      fun hCancelled => hStill.cancels (hOutlet hCancelled)
  | outlet events step =>
    have hStill :=
      still_heed exchange.session (exchange.outlet.step exchange.deaf events step).2.cancelled
    exact shares_inform (hStill.uniform hShares.streams)
      (fun hCancelled => hStill.cancels (hSink hCancelled)) (hShares.heed_outlet events step).trans
  | take n => exact ⟨hShares.streams, hShares.sink, hShares.outlet⟩

theorem Shares.run (hShares : Shares token exchange) (actions : List Action) :
    Shares token (exchange.run actions) := by
  induction actions generalizing exchange with
  | nil => exact hShares
  | cons action actions ih => exact ih (hShares.step action)

/-! ### After the cancellation -/

/-- The signal was given, and the sink and the outlet are cancelled with the streams. -/
structure Stopped (exchange : Exchange) : Prop where
  signalled : exchange.session.signalled = true
  sink : exchange.sink.cancelled = true
  outlet : exchange.outlet.cancelled = true

theorem Shares.stopped (hShares : Shares token exchange)
    (hCancelled : exchange.isCancelled = true) : exchange.Stopped := by
  rw [hShares.isCancelled_eq] at hCancelled
  refine ⟨?_, hShares.sink.trans hCancelled, hShares.outlet.trans hCancelled⟩
  cases token with
  | shared => exact hCancelled
  | idle => cases hCancelled

theorem Stopped.inform_heed (hStopped : exchange.Stopped) (heard : Bool) :
    inform { exchange with session := heed exchange.session heard } = exchange := by
  obtain ⟨⟨source, regions, signalled⟩, sink, outlet⟩ := exchange
  obtain ⟨hSignalled, hSink, hOutlet⟩ := hStopped
  cases hSignalled
  exact inform_eq hSink hOutlet _

theorem Shares.step_of_isCancelled (hShares : Shares token exchange)
    (hCancelled : exchange.isCancelled = true) {action : Action} (hTransfers : action.Transfers) :
    exchange.step action = (action.refusal, exchange) := by
  have hStopped := hShares.stopped hCancelled
  rw [hShares.isCancelled_eq] at hCancelled
  cases hTransfers with
  | reads level events hReads =>
    simp only [Exchange.step, hShares.streams.stepAt_of_cancels hCancelled hReads]
    exact congrArg _ (inform_eq hStopped.sink hStopped.outlet _)
  | writes hWrites =>
    simp only [Exchange.step, Sink.step_of_cancelled hWrites hStopped.sink]
    exact congrArg _ (hStopped.inform_heed _)
  | outlet events hWrites =>
    simp only [Exchange.step, Outlet.step_of_cancelled hWrites hStopped.outlet]
    exact congrArg _ (hStopped.inform_heed _)

/-- A transfer is refused exactly if the token is cancelled after it. -/
theorem Shares.refusal_iff (hShares : Shares token exchange) {action : Action}
    (hTransfers : action.Transfers) :
    (exchange.step action).1 = action.refusal ↔ (exchange.step action).2.isCancelled = true := by
  rw [(hShares.step action).isCancelled_eq]
  cases hTransfers with
  | reads level events hReads =>
    simp only [Exchange.step, inform_session]
    rw [← hShares.streams.stepAt_cancelled_iff hReads]
    simp [Action.refusal]
  | @writes step hWrites =>
    simp only [Exchange.step, inform_session]
    rw [hShares.heed_sink, ← Sink.step_cancelled_iff hWrites]
    simp [Action.refusal]
  | @outlet events step hWrites =>
    simp only [Exchange.step, inform_session]
    rw [hShares.heed_outlet, ← Outlet.step_cancelled_iff hWrites]
    simp [Action.refusal]

/-- The signal cancels the token that listens to it. -/
theorem Shares.signal_iff (hShares : Shares token exchange) {action : Action}
    (hSignals : action.Signals) :
    (exchange.step action).2.isCancelled = true ↔ token = .shared := by
  rw [(hShares.step action).isCancelled_eq]
  cases token with
  | idle => exact iff_of_false Bool.false_ne_true Token.noConfusion
  | shared =>
    refine iff_of_true ?_ rfl
    cases hSignals with
    | stream level events =>
      simp only [Exchange.step, inform_session]
      rfl
    | sink =>
      simp only [Exchange.step, inform_session]
      rw [hShares.heed_sink, hShares.deaf_eq]
      rfl
    | outlet events =>
      simp only [Exchange.step, inform_session]
      rw [hShares.heed_outlet, hShares.deaf_eq]
      rfl

/-- A stream at any level tells that it is cancelled. -/
theorem Shares.step_isCancelled (hShares : Shares token exchange)
    (hCancelled : exchange.isCancelled = true) (level : Nat) (events : List Event) :
    exchange.step (.stream level events .isCancelled) = (.stream (.flag true), exchange) := by
  have hStopped := hShares.stopped hCancelled
  rw [hShares.isCancelled_eq] at hCancelled
  have hBelow := (hShares.streams.isCancelled_below level).trans hCancelled
  simp only [Exchange.step, Session.stepAt, Session.step, hBelow]
  simp only [Session.below, List.take_append_drop]
  exact congrArg _ (inform_eq hStopped.sink hStopped.outlet _)

/-- Nothing is taken from a stream and nothing is put into the sink or the outlet between the two.
Bytes may have been taken out of the outlet. -/
structure Still (before after : Exchange) : Prop where
  session : before.session.Still after.session
  sink : after.sink = before.sink
  outlet : after.outlet.written = before.outlet.written

theorem Shares.still_step (hShares : Shares token exchange)
    (hCancelled : exchange.isCancelled = true) (action : Action) :
    Still exchange (exchange.step action).2 := by
  have hStopped := hShares.stopped hCancelled
  rw [hShares.isCancelled_eq] at hCancelled
  cases action with
  | stream level events step =>
    have hStill := hShares.streams.still_stepAt hCancelled level events step
    simp only [Exchange.step]
    rw [inform_eq hStopped.sink hStopped.outlet]
    exact ⟨hStill, rfl, rfl⟩
  | sink step =>
    simp only [Exchange.step, Sink.step_keeps hStopped.sink, hStopped.inform_heed]
    exact ⟨.refl _, rfl, rfl⟩
  | outlet events step =>
    simp only [Exchange.step, Outlet.step_keeps hStopped.outlet, hStopped.inform_heed]
    exact ⟨.refl _, rfl, rfl⟩
  | take n => exact ⟨.refl _, rfl, exchange.outlet.take_written n⟩

/-- Whatever is done after the cancellation, the token stays cancelled and nothing is
transferred. -/
theorem Shares.still_run (hShares : Shares token exchange)
    (hCancelled : exchange.isCancelled = true) (actions : List Action) :
    (exchange.run actions).isCancelled = true ∧ Still exchange (exchange.run actions) := by
  induction actions generalizing exchange with
  | nil => exact ⟨hCancelled, .refl _, rfl, rfl⟩
  | cons action actions ih =>
    have hStep := hShares.still_step hCancelled action
    have hNext := hShares.step action
    have hStays : (exchange.step action).2.isCancelled = true := by
      rw [hNext.isCancelled_eq]
      exact hStep.session.cancels (hShares.isCancelled_eq.symm.trans hCancelled)
    obtain ⟨hAfter, hRest⟩ := ih hNext hStays
    exact ⟨hAfter, hStep.session.trans hRest.session, hRest.sink.trans hStep.sink,
      hRest.outlet.trans hStep.outlet⟩

/-- What a write adds to the outlet, also if the signal stops it. -/
theorem written_step (exchange : Exchange) (events : List Outlet.Event) (bytes : Bytes) :
    ∃ front, front <+: bytes ∧
      (exchange.step (.outlet events (.write bytes))).2.outlet.written =
        exchange.outlet.written ++ front := by
  obtain ⟨front, hFront, hWritten, _⟩ :=
    exchange.outlet.perform_written exchange.deaf (.write bytes) events
  refine ⟨front, hFront, ?_⟩
  rw [← hWritten]
  simp only [Exchange.step, inform]
  split
  · rfl
  · rfl

/-- Cancellation reaches every stream and is final. The streams over a source, a sink and an outlet
share a token, and any steps are made on any of them. A transfer is refused exactly if the token is
cancelled after it, and a signal cancels the token unless the source is deaf to it. Of a write to
the outlet, a front is put in, also if the signal comes while it waits. If the token is cancelled at
some time, it stays so whatever is done then, every stream tells so, and every transfer on every
stream is refused and changes nothing. Between that time and any later one nothing is taken from the
source, no region that is still there has moved, the sink is the same, and nothing is put into the
outlet. -/
theorem cancellation_final {source : Source} {limit capacity : Nat} {before later : List Action}
    {stopped now : Exchange} (hStopped : (start source limit capacity).run before = stopped)
    (hNow : stopped.run later = now) :
    (∀ action, action.Transfers →
      ((stopped.step action).1 = action.refusal ↔ (stopped.step action).2.isCancelled = true)) ∧
    (∀ action, action.Signals →
      ((stopped.step action).2.isCancelled = true ↔ source.token = .shared)) ∧
    (∀ events bytes, ∃ front, front <+: bytes ∧
      (stopped.step (.outlet events (.write bytes))).2.outlet.written =
        stopped.outlet.written ++ front) ∧
    (stopped.isCancelled = true →
      now.isCancelled = true ∧
      (∀ action, action.Transfers → now.step action = (action.refusal, now)) ∧
      (∀ level events, now.step (.stream level events .isCancelled) = (.stream (.flag true), now)) ∧
      stopped.session.source.Untouched now.session.source ∧
      now.session.regions.Sublist stopped.session.regions ∧
      now.sink = stopped.sink ∧
      now.outlet.written = stopped.outlet.written) := by
  subst hStopped hNow
  have hStopped := (shares_start source limit capacity).run before
  have hNow := hStopped.run later
  refine ⟨fun _ => hStopped.refusal_iff, fun _ => hStopped.signal_iff, written_step _,
    fun hCancelled => ?_⟩
  obtain ⟨hStays, hStill⟩ := hStopped.still_run hCancelled later
  exact ⟨hStays, fun _ => hNow.step_of_isCancelled hStays, hNow.step_isCancelled hStays,
    hStill.session.source, hStill.session.regions, hStill.sink, hStill.outlet⟩

/-- A region within a region of a pipe is read, one byte is written, a write to the outlet waits for
room, and the signal comes, right behind another byte, while a request to the pipe waits for its
second byte. -/
def untilSignal : List Action :=
  [.stream 0 [] .region, .stream 0 [] .region, .sink (.write [0x07]),
    .outlet [.take 2] (.write [0x01, 0x02, 0x03]),
    .stream 2 [.feed [], .both (.feed [0x06]) .cancel] (.read 2)]

/-- A byte comes to the pipe, all sides try to go on, a byte is taken out of the outlet, and the
inner region is dropped. -/
def afterSignal : List Action :=
  [.stream 0 [] (.feed [0x09]), .stream 1 [] .varint, .sink (.write [0x08]),
    .outlet [.take 1] .flush, .take 1, .stream 0 [] .pop]

/-- The byte that came with the signal is not taken. -/
def atSignal : Exchange :=
  ⟨⟨.pipe ⟨[0x06], false⟩, [⟨⟨0, [0x07]⟩, .shared⟩, ⟨⟨2, [0x2a]⟩, .shared⟩], true⟩,
    ⟨[0x07], 3, true⟩, ⟨[0x01, 0x02], [0x03], 2, true, by decide⟩⟩

/-- Neither is the byte that came later, and the outer region is where it was. -/
def atEnd : Exchange :=
  ⟨⟨.pipe ⟨[0x06, 0x09], false⟩, [⟨⟨2, [0x2a]⟩, .shared⟩], true⟩, ⟨[0x07], 3, true⟩,
    ⟨[0x01, 0x02, 0x03], [], 2, true, by decide⟩⟩

/-- The signal comes while a write to the outlet waits, right behind another byte that is taken
out. -/
def stalled : List Action :=
  [.outlet [.take 1, .both (.take 1) .cancel] (.write [0x01, 0x02, 0x03, 0x04, 0x05])]

/-- Three of the five bytes were put in. -/
def atStall : Exchange :=
  ⟨⟨.pipe ⟨[0x2a], false⟩, [], true⟩, ⟨[], 4, true⟩, ⟨[0x01, 0x02], [0x03], 2, true, by decide⟩⟩

theorem atEnd_refuses :
    (start (.pipe ⟨[0x83, 0x81, 0x07, 0x2a, 0x05], false⟩) 4 2).run untilSignal = atSignal ∧
      atSignal.isCancelled = true ∧ atSignal.run afterSignal = atEnd ∧
      atEnd.step (.stream 0 [] (.read 0)) = (.stream (.halted (.failed .cancelled)), atEnd) ∧
      atEnd.step (.stream 1 [.feed [0x01]] .byte) =
        (.stream (.halted (.failed .cancelled)), atEnd) ∧
      atEnd.step (.sink .flush) = (.sink (.error .cancelled), atEnd) ∧
      atEnd.step (.outlet [] .flush) = (.outlet (.error (.failed .cancelled)), atEnd) ∧
      (start (.pipe ⟨[0x2a], false⟩) 4 2).run stalled = atStall ∧
      atStall.step (.stream 0 [] .byte) = (.stream (.halted (.failed .cancelled)), atStall) := by
  have hStopped :
      (start (.pipe ⟨[0x83, 0x81, 0x07, 0x2a, 0x05], false⟩) 4 2).run untilSignal = atSignal := by
    decide
  have hNow : atSignal.run afterSignal = atEnd := by decide
  have hStalled : (start (.pipe ⟨[0x2a], false⟩) 4 2).run stalled = atStall := by decide
  obtain ⟨-, hRefused, -⟩ := (cancellation_final hStopped hNow).2.2.2 rfl
  have hThere : atStall.run [] = atStall := rfl
  obtain ⟨-, hAlso, -⟩ := (cancellation_final hStalled hThere).2.2.2 rfl
  exact ⟨hStopped, rfl, hNow, hRefused _ (.reads 0 [] (.read 0)), hRefused _ (.reads 1 _ .byte),
    hRefused _ (.writes .flush), hRefused _ (.outlet [] .flush), hStalled,
    hAlso _ (.reads 0 [] .byte)⟩

end Exchange

end Interchange.Wire

import Interchange.Proofs.Wire.Cancellation

/-!
# What a region hands out

A region is read in any order of requests for blocks and for single bytes, with looks at whether
more is there and signals to cancel in between. The bytes that come out are those of the region from
the front on, none is left out and none comes twice, and the region counts them. A request that
fails takes nothing: it fails if the region is cancelled, or else if too few bytes are left, and
then it tells how many were asked for and how many there are.

* `Session.run`: steps one after the other, with their answers.
* `Session.Step.Requests`: the steps that ask for a number of bytes.
* `Session.step_of_fits`, `Session.step_of_short`: meeting a request on the region on top.
* `Session.Delivered`: some bytes of a region are handed out, and the others are left.
* `Session.Delivered.step`, `Session.Delivered.run`: every step, and so every run, keeps to this.
* `Session.run_region`: a region hands out its bytes once and in order.
-/

namespace Interchange.Wire

/-! ## Cutting off blocks -/

theorem split?_of_le {n : Nat} {bytes : Bytes} (hFits : n ≤ bytes.length) :
    split? n bytes = some (⟨bytes.take n, List.length_take_of_le hFits⟩, bytes.drop n) := by
  have hSplit := split?_append n ⟨bytes.take n, List.length_take_of_le hFits⟩ (bytes.drop n)
  rwa [List.take_append_drop] at hSplit

theorem split?_of_lt {n : Nat} {bytes : Bytes} (hShort : bytes.length < n) :
    split? n bytes = none := by
  cases hSplit : split? n bytes with
  | none => rfl
  | some pair =>
    obtain ⟨block, rest⟩ := pair
    have hBlock := block.property
    rw [split?_eq_some hSplit, List.length_append] at hShort
    omega

namespace Session

/-! ## The region on top -/

/-- Another region in the place of the one on top. -/
def putTop : Session → Region → Session
  | ⟨source, layer :: below, signalled⟩, region =>
    ⟨source, { layer with region } :: below, signalled⟩
  | ⟨.region _, [], signalled⟩, region => ⟨.region region, [], signalled⟩
  | session, _ => session

section

variable {session : Session} {region : Region}

/-- A session with a region on top: the latest layer, or the source itself. -/
theorem top?_cases (hTop : session.top? = some region) :
    (∃ source token below signalled, session = ⟨source, ⟨region, token⟩ :: below, signalled⟩) ∨
      ∃ signalled, session = ⟨.region region, [], signalled⟩ := by
  obtain ⟨source, regions, signalled⟩ := session
  cases regions with
  | cons layer below =>
    cases hTop
    exact Or.inl ⟨source, layer.token, below, signalled, rfl⟩
  | nil =>
    cases source with
    | region other =>
      cases hTop
      exact Or.inr ⟨signalled, rfl⟩
    | slice slice deaf => cases hTop
    | pipe pipe => cases hTop

theorem top?_putTop (hTop : session.top? = some region) (next : Region) :
    (session.putTop next).top? = some next := by
  rcases top?_cases hTop with ⟨source, token, below, signalled, rfl⟩ | ⟨signalled, rfl⟩
  · rfl
  · rfl

theorem putTop_self (hTop : session.top? = some region) : session.putTop region = session := by
  rcases top?_cases hTop with ⟨source, token, below, signalled, rfl⟩ | ⟨signalled, rfl⟩
  · rfl
  · rfl

theorem token_putTop (hTop : session.top? = some region) (next : Region) :
    (session.putTop next).token = session.token := by
  rcases top?_cases hTop with ⟨source, token, below, signalled, rfl⟩ | ⟨signalled, rfl⟩
  · rfl
  · rfl

theorem signalled_putTop (hTop : session.top? = some region) (next : Region) :
    (session.putTop next).signalled = session.signalled := by
  rcases top?_cases hTop with ⟨source, token, below, signalled, rfl⟩ | ⟨signalled, rfl⟩
  · rfl
  · rfl

theorem serve_of_top (hTop : session.top? = some region)
    (hActive : session.isCancelled = false) (n : Nat) (events : List Event) :
    serve n (session, events) =
      (prompt (region.serve n).1, session.putTop (region.serve n).2, events) := by
  rw [serve, hActive]
  rcases top?_cases hTop with ⟨source, token, below, signalled, rfl⟩ | ⟨signalled, rfl⟩
  · rfl
  · rfl

end

/-! ## Requests -/

/-- The step asks for so many bytes. -/
inductive Step.Requests : Step → (n : Nat) → Prop
  | read (n : Nat) : Requests (.read n) n
  | byte : Requests .byte 1

theorem Step.Requests.reads {step : Step} {n : Nat} (hRequests : step.Requests n) : step.Reads := by
  cases hRequests with
  | read => exact .read n
  | byte => exact .byte

/-- The bytes that an answer hands out. -/
def Answer.handed : Answer → Bytes
  | .bytes content => content
  | .byte value => [value]
  | _ => []

section

variable {session : Session} {region : Region} {step : Step} {n : Nat}

/-- A request for no more bytes than there are is met with the first of them. -/
theorem step_of_fits (hTop : session.top? = some region) (hActive : session.isCancelled = false)
    (hRequests : step.Requests n) (hFits : n ≤ region.remaining) (events : List Event) :
    ∃ answer, session.step events step =
        (answer, session.putTop ⟨region.position + n, region.rest.drop n⟩) ∧
      answer.handed = region.rest.take n ∧ ∀ halt, answer ≠ .halted halt := by
  have hServe : ∃ block : Block n, block.val = region.rest.take n ∧
      region.serve n = (.ok block, ⟨region.position + n, region.rest.drop n⟩) :=
    ⟨_, rfl, by rw [Region.serve, split?_of_le hFits]⟩
  obtain ⟨block, hBlock, hServe⟩ := hServe
  have hStream := serve_of_top hTop hActive n events
  rw [hServe] at hStream
  cases hRequests with
  | read =>
    refine ⟨.bytes block.val, ?_, hBlock, fun _ hHalted => by cases hHalted⟩
    simp only [step, answer, perform, Reading.block, Reading.runWith, hStream, prompt]
  | byte =>
    obtain ⟨content, hLength⟩ := block
    obtain ⟨byte, rfl⟩ := List.length_eq_one_iff.1 hLength
    refine ⟨.byte byte, ?_, hBlock, fun _ hHalted => by cases hHalted⟩
    simp only [step, answer, perform, Reading.byte, Reading.runWith, hStream, prompt]

/-- A request for more bytes than there are takes none of them. -/
theorem step_of_short (hTop : session.top? = some region) (hActive : session.isCancelled = false)
    (hRequests : step.Requests n) (hShort : region.remaining < n) (events : List Event) :
    session.step events step = (.halted (.failed (.streamClosed n region.remaining)), session) := by
  have hStream := serve_of_top hTop hActive n events
  rw [Region.serve, split?_of_lt hShort, putTop_self hTop] at hStream
  cases hRequests with
  | read => simp only [step, answer, perform, Reading.block, Reading.runWith, hStream, prompt]
  | byte => simp only [step, answer, perform, Reading.byte, Reading.runWith, hStream, prompt]

theorem step_peek (hTop : session.top? = some region) (events : List Event) :
    session.step events .peek = (.more region.hasMore, session) := by
  simp only [step, hTop]

/-! ## Steps on a region -/

/-- The step asks a region for bytes or for whether there are more, or gives the signal to
cancel. -/
inductive Step.OnRegion : Step → Prop
  | request {step : Step} {n : Nat} (requests : step.Requests n) : OnRegion step
  | peek : OnRegion .peek
  | cancel : OnRegion .cancel

/-- All that a step can do to a region: it hands out the first bytes, gives the signal or does
nothing. -/
theorem step_cases (hTop : session.top? = some region) (hStep : step.OnRegion)
    (events : List Event) :
    (∃ n ≤ region.remaining, step ≠ .cancel ∧
      (session.step events step).1.handed = region.rest.take n ∧
      (session.step events step).2 = session.putTop ⟨region.position + n, region.rest.drop n⟩) ∨
    (step = .cancel ∧ session.step events step = (.ok, { session with signalled := true })) ∨
    (step ≠ .cancel ∧ (session.step events step).1.handed = [] ∧
      (session.step events step).2 = session) := by
  cases hStep with
  | peek =>
    rw [step_peek hTop]
    exact Or.inr (Or.inr ⟨Step.noConfusion, rfl, rfl⟩)
  | cancel => exact Or.inr (Or.inl ⟨rfl, rfl⟩)
  | @request _ n hRequests =>
    have hOther : step ≠ .cancel := by
      rintro rfl
      cases hRequests
    cases hCancelled : session.isCancelled with
    | true =>
      rw [step_of_isCancelled hRequests.reads hCancelled]
      exact Or.inr (Or.inr ⟨hOther, rfl, rfl⟩)
    | false =>
      by_cases hFits : n ≤ region.remaining
      · obtain ⟨answer, hMet, hHanded, _⟩ := step_of_fits hTop hCancelled hRequests hFits events
        rw [hMet]
        exact Or.inl ⟨n, hFits, hOther, hHanded, rfl⟩
      · rw [step_of_short hTop hCancelled hRequests (Nat.lt_of_not_le hFits)]
        exact Or.inr (Or.inr ⟨hOther, rfl, rfl⟩)

end

/-! ## Runs -/

/-- Steps one after the other, each with what happens if it waits: their answers, and the session
after them. -/
def run (session : Session) : List (List Event × Step) → List Answer × Session
  | [] => ([], session)
  | (events, step) :: later =>
    let (answer, after) := session.step events step
    let (answers, last) := after.run later
    (answer :: answers, last)

section

variable {session : Session} {bytes handed : Bytes} {steps : List (List Event × Step)}

/-- The region on top had these bytes; some are handed out, and the others are left. -/
structure Delivered (bytes handed : Bytes) (session : Session) : Prop where
  front : handed <+: bytes
  top : session.top? = some ⟨handed.length, bytes.drop handed.length⟩

theorem delivered_nil (hTop : session.top? = some (.ofBytes bytes)) : Delivered bytes [] session :=
  ⟨List.nil_prefix, hTop⟩

theorem Delivered.step (hDelivered : Delivered bytes handed session) {step : Step}
    (hStep : step.OnRegion) (events : List Event) :
    Delivered bytes (handed ++ (session.step events step).1.handed)
      (session.step events step).2 := by
  obtain ⟨⟨rest, rfl⟩, hTop⟩ := hDelivered
  rcases step_cases hTop hStep events with
    ⟨n, hFits, _, hHanded, hAfter⟩ | ⟨_, hAnswer⟩ | ⟨_, hHanded, hAfter⟩
  · rw [hHanded, hAfter]
    rw [Region.remaining, List.drop_left] at hFits
    refine ⟨⟨rest.drop n, ?_⟩, ?_⟩
    · rw [List.drop_left, List.append_assoc, List.take_append_drop]
    · rw [top?_putTop hTop, List.length_append, List.drop_left, List.length_take_of_le hFits,
        ← List.drop_drop, List.drop_left]
  · have hNone : (session.step events step).1.handed = [] := by
      rw [hAnswer]
      rfl
    rw [hNone, List.append_nil, hAnswer]
    exact ⟨⟨rest, rfl⟩, hTop⟩
  · rw [hHanded, hAfter, List.append_nil]
    exact ⟨⟨rest, rfl⟩, hTop⟩

theorem Delivered.run (hDelivered : Delivered bytes handed session)
    (hSteps : ∀ entry ∈ steps, entry.2.OnRegion) :
    Delivered bytes (handed ++ (session.run steps).1.flatMap Answer.handed)
      (session.run steps).2 := by
  induction steps generalizing session handed with
  | nil =>
    show Delivered bytes (handed ++ []) session
    rwa [List.append_nil]
  | cons entry later ih =>
    obtain ⟨hFirst, hLater⟩ := List.forall_mem_cons.1 hSteps
    have hRest := ih (hDelivered.step hFirst entry.1) hLater
    rwa [List.append_assoc] at hRest

/-! ## The signal to cancel -/

theorem isCancelled_iff (session : Session) :
    session.isCancelled = true ↔ session.token = .shared ∧ session.signalled = true := by
  rw [isCancelled]
  cases session.token with
  | shared => simp [cancels]
  | idle => simp [cancels]

/-- A step on a region leaves it its token. -/
theorem Delivered.token_step (hDelivered : Delivered bytes handed session) {step : Step}
    (hStep : step.OnRegion) (events : List Event) :
    (session.step events step).2.token = session.token := by
  rcases step_cases hDelivered.top hStep events with ⟨n, _, _, _, hAfter⟩ |
    ⟨_, hAnswer⟩ | ⟨_, _, hAfter⟩
  · rw [hAfter, token_putTop hDelivered.top]
  · rw [hAnswer]
    rfl
  · rw [hAfter]

/-- Only the signal itself gives the signal. -/
theorem Delivered.signalled_step (hDelivered : Delivered bytes handed session) {step : Step}
    (hStep : step.OnRegion) (events : List Event) :
    (session.step events step).2.signalled = true ↔ session.signalled = true ∨ step = .cancel := by
  rcases step_cases hDelivered.top hStep events with
    ⟨n, _, hOther, _, hAfter⟩ | ⟨hCancel, hAnswer⟩ | ⟨hOther, _, hAfter⟩
  · rw [hAfter, signalled_putTop hDelivered.top, or_iff_left hOther]
  · rw [hAnswer]
    exact iff_of_true rfl (Or.inr hCancel)
  · rw [hAfter, or_iff_left hOther]

theorem Delivered.isCancelled_run (hDelivered : Delivered bytes handed session)
    (hSteps : ∀ entry ∈ steps, entry.2.OnRegion) :
    (session.run steps).2.isCancelled = true ↔ session.token = .shared ∧
      (session.signalled = true ∨ ∃ entry ∈ steps, entry.2 = .cancel) := by
  induction steps generalizing session handed with
  | nil => simpa [Session.run] using isCancelled_iff session
  | cons entry later ih =>
    obtain ⟨hFirst, hLater⟩ := List.forall_mem_cons.1 hSteps
    refine (ih (hDelivered.step hFirst entry.1) hLater).trans ?_
    rw [hDelivered.token_step hFirst, hDelivered.signalled_step hFirst, or_assoc]
    simp only [List.mem_cons, exists_eq_or_imp]

/-! ## Every point of a run -/

/-- What a region with these bytes answers to every step, and how far it is after that. -/
structure Answers (bytes : Bytes) (session : Session) (region : Region) : Prop where
  peek : ∀ events, session.step events .peek = (.more (decide (region.remaining ≠ 0)), session)
  cancelled : ∀ events step n, step.Requests n → session.isCancelled = true →
    session.step events step = (.halted (.failed .cancelled), session)
  short : ∀ events step n, step.Requests n → session.isCancelled = false → region.remaining < n →
    session.step events step = (.halted (.failed (.streamClosed n region.remaining)), session)
  met : ∀ events step n, step.Requests n → session.isCancelled = false → n ≤ region.remaining →
    ∃ answer after, session.step events step = (answer, after) ∧
      answer.handed = (bytes.drop region.position).take n ∧ (∀ halt, answer ≠ .halted halt) ∧
      after.top? = some ⟨region.position + n, bytes.drop (region.position + n)⟩

theorem Delivered.answers (hDelivered : Delivered bytes handed session) :
    Answers bytes session ⟨handed.length, bytes.drop handed.length⟩ where
  peek events := by
    rw [step_peek hDelivered.top, Region.hasMore, Region.remaining]
    cases bytes.drop handed.length with
    | nil => rfl
    | cons byte rest => rfl
  cancelled events step n hRequests hCancelled :=
    step_of_isCancelled hRequests.reads hCancelled events
  short events step n hRequests hActive hShort :=
    step_of_short hDelivered.top hActive hRequests hShort events
  met events step n hRequests hActive hFits := by
    obtain ⟨answer, hMet, hHanded, hOther⟩ :=
      step_of_fits hDelivered.top hActive hRequests hFits events
    refine ⟨answer, _, hMet, hHanded, hOther, ?_⟩
    rw [top?_putTop hDelivered.top, List.drop_drop]

/-- A region hands out its bytes once and in order, and failures change nothing. It may stand on any
stream, and any requests, looks and signals are made on it. At every point the bytes taken and the
bytes left are all of them, the answers so far hold exactly the bytes taken, and the region is
cancelled exactly if the signal was given to its token. A look tells whether bytes are left. A
request on a cancelled region is refused, and one for more than what is left tells both numbers, and
the streams are as before; any other request gets the next bytes, as many as it asks for. -/
theorem run_region (hTop : session.top? = some (.ofBytes bytes))
    (hSteps : ∀ entry ∈ steps, entry.2.OnRegion) :
    ∃ region, (session.run steps).2.top? = some region ∧
      region.position + region.remaining = bytes.length ∧
      (session.run steps).1.flatMap Answer.handed = bytes.take region.position ∧
      ((session.run steps).2.isCancelled = true ↔ session.token = .shared ∧
        (session.signalled = true ∨ ∃ entry ∈ steps, entry.2 = .cancel)) ∧
      Answers bytes (session.run steps).2 region := by
  have hStart := delivered_nil hTop
  have hRun := hStart.run hSteps
  rw [List.nil_append] at hRun
  refine ⟨_, hRun.top, ?_, ?_, hStart.isCancelled_run hSteps, hRun.answers⟩
  · rw [Region.remaining, List.length_drop]
    exact Nat.add_sub_cancel' hRun.front.length_le
  · exact List.prefix_iff_eq_take.1 hRun.front

/-- A region of three bytes that was read from a pipe. -/
def parcel : Session :=
  ⟨.pipe ⟨[0x2a], false⟩, [⟨.ofBytes [0x01, 0x02, 0x03], .shared⟩], false⟩

/-- Two bytes, too many bytes, a look and the signal. -/
def partly : List (List Event × Step) :=
  [([], .read 2), ([.feed [0x07]], .read 2), ([], .peek), ([], .cancel)]

/-- The byte that is left stays where it is: neither a request that was too long nor one behind the
signal takes it. -/
theorem run_parcel :
    parcel.top? = some (.ofBytes [0x01, 0x02, 0x03]) ∧
      parcel.run partly =
        ([.bytes [0x01, 0x02], .halted (.failed (.streamClosed 2 1)), .more true, .ok],
        ⟨.pipe ⟨[0x2a], false⟩, [⟨⟨2, [0x03]⟩, .shared⟩], true⟩) ∧
      (parcel.run partly).1.flatMap Answer.handed = [0x01, 0x02, 0x03].take 2 ∧
      (parcel.run partly).2.step [] .byte =
        (.halted (.failed .cancelled), (parcel.run partly).2) := by
  have hSteps : ∀ entry ∈ partly, entry.2.OnRegion := by
    simp only [partly, List.forall_mem_cons]
    exact ⟨.request (.read 2), .request (.read 2), .peek, .cancel, List.forall_mem_nil _⟩
  have hTop : parcel.top? = some (.ofBytes [0x01, 0x02, 0x03]) := rfl
  have hRun : parcel.run partly =
      ([.bytes [0x01, 0x02], .halted (.failed (.streamClosed 2 1)), .more true, .ok],
        ⟨.pipe ⟨[0x2a], false⟩, [⟨⟨2, [0x03]⟩, .shared⟩], true⟩) := by
    decide
  obtain ⟨region, hRegion, _, hHanded, hCancelled, hAnswers⟩ := run_region hTop hSteps
  have hEnd : region = ⟨2, [0x03]⟩ := by
    rw [hRun] at hRegion
    exact (Option.some.inj hRegion).symm
  refine ⟨hTop, hRun, ?_, hAnswers.cancelled [] .byte 1 .byte (hCancelled.2 ?_)⟩
  · rw [hHanded, hEnd]
  · exact ⟨rfl, Or.inr ⟨_, List.mem_of_getLast? rfl, rfl⟩⟩

end

end Session

end Interchange.Wire

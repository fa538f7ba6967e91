import Interchange.Proofs.Wire.Reads
import Interchange.Wire.Transfer

/-!
# Reading while bytes arrive

It does not matter to a reading where its bytes come from. A source gives some bytes if it meets
every request from the front of them and fails where they run out, with the number of bytes that
were left. A region gives its bytes, a slice does, and so does a pipe to which they come over time.

* `Gives.runWith`: a reading from a source that gives some bytes is a reading from these bytes.
* `Pipe.Brings.serve`: a request to a pipe while events happen.
* `Gives.region`, `Gives.slice`, `Gives.pipe`: what the sources give.
* `readFromPipe_eq`: a value is read in the same way from a region, from a slice and from a pipe.
-/

namespace Interchange.Wire

open Schema (Models)

/-! ## Cutting off blocks -/

theorem split?_append_of_some {n : Nat} {bytes rest : Bytes} {block : Block n}
    (hSplit : split? n bytes = some (block, rest)) (more : Bytes) :
    split? n (bytes ++ more) = some (block, rest ++ more) := by
  rw [split?_eq_some hSplit, List.append_assoc]
  exact split?_append n block (rest ++ more)

/-! ## Sources that give bytes -/

theorem mapError_id {α : Type} (result : Except WireError α) : result.mapError id = result := by
  cases result <;> rfl

theorem Session.mapError_failed {α : Type} (result : Except WireError α) :
    result.mapError Halt.failed = Session.prompt result := by
  cases result <;> rfl

section

variable {ε σ : Type}

/-- Requests are met from the front of the bytes that a source has left, and fail where these run
out. -/
structure Gives (raise : WireError → ε) (serve : (n : Nat) → σ → Except ε (Block n) × σ)
    (left : σ → Bytes → Prop) : Prop where
  met : ∀ {n : Nat} {source : σ} {bytes rest : Bytes} {block : Block n}, left source bytes →
    split? n bytes = some (block, rest) →
      ∃ after, serve n source = (.ok block, after) ∧ left after rest
  failed : ∀ {n : Nat} {source : σ} {bytes : Bytes}, left source bytes → split? n bytes = none →
    ∃ after, serve n source = (.error (raise (.streamClosed n bytes.length)), after)

variable {raise : WireError → ε} {serve : (n : Nat) → σ → Except ε (Block n) × σ}
  {left : σ → Bytes → Prop}

/-- A reading from a source that gives some bytes is a reading from these bytes. -/
theorem Gives.runWith (hGives : Gives raise serve left) {α : Type} (reading : Reading α)
    {source : σ} {bytes : Bytes} (hLeft : left source bytes) :
    (reading.runWith raise serve source).1 = (reading.run bytes).1.mapError raise ∧
      ∀ value, (reading.run bytes).1 = .ok value →
        left (reading.runWith raise serve source).2 (reading.run bytes).2 := by
  induction reading generalizing source bytes with
  | done value => exact ⟨rfl, fun _ _ => hLeft⟩
  | fail error => exact ⟨rfl, fun _ hRun => by cases hRun⟩
  | take n next ih =>
    simp only [Reading.run, Reading.runWith, Reading.serveBytes]
    cases hSplit : split? n bytes with
    | none =>
      obtain ⟨after, hServe⟩ := hGives.failed hLeft hSplit
      rw [hServe]
      exact ⟨rfl, fun _ hRun => by cases hRun⟩
    | some pair =>
      obtain ⟨block, rest⟩ := pair
      obtain ⟨after, hServe, hRest⟩ := hGives.met hLeft hSplit
      rw [hServe]
      exact ih block hRest

/-- These bytes are left of the whole in a source that holds what is left and counts what was
taken. -/
def Counted (hold : Nat → Bytes → σ) (whole : Bytes) (source : σ) (bytes : Bytes) : Prop :=
  ∃ taken, whole = taken ++ bytes ∧ source = hold taken.length bytes

theorem Gives.counted {hold : Nat → Bytes → σ}
    (hMet : ∀ {n : Nat} {bytes rest : Bytes} {block : Block n}, split? n bytes =
      some (block, rest) →
      ∀ count, serve n (hold count bytes) = (.ok block, hold (count + n) rest))
    (hFailed : ∀ {n : Nat} {bytes : Bytes}, split? n bytes = none → ∀ count,
      ∃ after, serve n (hold count bytes) = (.error (raise (.streamClosed n bytes.length)), after))
    (whole : Bytes) : Gives raise serve (Counted hold whole) where
  met := by
    rintro n _ bytes rest block ⟨taken, hWhole, rfl⟩ hSplit
    refine ⟨_, hMet hSplit taken.length, taken ++ block.val, ?_, ?_⟩
    · rw [hWhole, split?_eq_some hSplit, List.append_assoc]
    · rw [List.length_append, block.property]
  failed := by
    rintro n _ bytes ⟨taken, _, rfl⟩ hSplit
    exact hFailed hSplit taken.length

end

theorem Gives.region (whole : Bytes) : Gives id Region.serve (Counted Region.mk whole) := by
  refine .counted ?_ ?_ whole
  · intro n bytes rest block hSplit count
    simp only [Region.serve, hSplit]
  · intro n bytes hSplit count
    exact ⟨⟨count, bytes⟩, by simp only [Region.serve, hSplit, Region.remaining, id]⟩

theorem Gives.slice (whole : Bytes) :
    Gives id (unlessCancelled false Slice.serve) (Counted Slice.mk whole) := by
  refine .counted ?_ ?_ whole
  · intro n bytes rest block hSplit count
    simp [unlessCancelled, Slice.serve, hSplit]
  · intro n bytes hSplit count
    exact ⟨⟨count + bytes.length, []⟩, by simp [unlessCancelled, Slice.serve, hSplit]⟩

/-! ## Pipes -/

/-- Chunks come one after the other, and then the pipe is closed. -/
def arrivals (chunks : List Bytes) : List Event :=
  chunks.map .feed ++ [.close]

/-- The bytes that are in a pipe or still to come. A pipe that is not closed yet is going to be, and
the signal to cancel is not given. -/
inductive Pipe.Brings : Pipe → List Event → Bytes → Prop
  | closed (held : Bytes) (events : List Event) : Brings ⟨held, true⟩ events held
  | opened (held : Bytes) {event : Event} {later : List Event} {rest : Bytes}
      (quiet : event.signals = false) (coming : Brings (absorb ⟨[], false⟩ event) later rest) :
      Brings ⟨held, false⟩ (event :: later) (held ++ rest)

/-- The pipe at the bottom of a session without regions brings these bytes, and nothing was
cancelled. Some of the events have happened. -/
def Session.Brings (events : List Event) (state : Session × List Event) (bytes : Bytes) : Prop :=
  state.2 <:+ events ∧ ∃ pipe, state.1 = .ofSource (.pipe pipe) ∧ pipe.Brings state.2 bytes

namespace Pipe

theorem brings_arrivals (held : Bytes) (chunks : List Bytes) :
    Brings ⟨held, false⟩ (arrivals chunks) (held ++ chunks.flatten) := by
  induction chunks generalizing held with
  | nil => exact .opened held rfl (.closed [] [])
  | cons chunk chunks ih => exact .opened held rfl (ih chunk)

theorem serve_of_split {n : Nat} {got held rest : Bytes} {block : Block n}
    (hSplit : split? n (got ++ held) = some (block, rest)) (closed : Bool) (events : List Event) :
    serve n ⟨held, closed⟩ got events = (.ok block, ⟨rest, closed⟩, events, false) := by
  cases events with
  | nil => simp only [serve, serveNow, hSplit]
  | cons event later => simp only [serve, serveNow, hSplit]

/-- A closed pipe does not wait for more. -/
theorem serve_of_closed {n : Nat} {got held : Bytes} (hSplit : split? n (got ++ held) = none)
    (events : List Event) :
    serve n ⟨held, true⟩ got events =
      (.error (.failed (.streamClosed n (got ++ held).length)), ⟨[], true⟩, events, false) := by
  cases events with
  | nil => simp only [serve, serveNow, hSplit, if_true, drain]
  | cons event later => simp only [serve, serveNow, hSplit, if_true, drain]

/-- While too few bytes are there, an open pipe waits for the next event. -/
theorem serve_of_waits {n : Nat} {got held : Bytes} (hSplit : split? n (got ++ held) = none)
    {event : Event} (hQuiet : event.signals = false) (later : List Event) :
    serve n ⟨held, false⟩ got (event :: later) =
      serve n (absorb ⟨[], false⟩ event) (got ++ held) later := by
  simp [serve, serveNow, hSplit, hQuiet, drain]

/-- A request takes the bytes that it got before first, and then those that are there and those that
come. -/
theorem Brings.serve {n : Nat} {pipe : Pipe} {events : List Event} {bytes : Bytes}
    (hBrings : pipe.Brings events bytes) (got : Bytes) :
    (∀ {block : Block n} {rest : Bytes}, split? n (got ++ bytes) = some (block, rest) →
      ∃ after later, pipe.serve n got events = (.ok block, after, later, false) ∧
        after.Brings later rest ∧ later <:+ events) ∧
    (split? n (got ++ bytes) = none →
      ∃ after later, pipe.serve n got events =
        (.error (.failed (.streamClosed n (got ++ bytes).length)), after, later, false)) := by
  induction hBrings generalizing got with
  | closed held events =>
    constructor
    · intro block rest hSplit
      exact ⟨_, _, serve_of_split hSplit true events, .closed rest events, List.suffix_rfl⟩
    · intro hSplit
      exact ⟨_, _, serve_of_closed hSplit events⟩
  | @opened held event later rest hQuiet hComing ih =>
    cases hNow : split? n (got ++ held) with
    | some pair =>
      obtain ⟨block, left⟩ := pair
      have hWhole := split?_append_of_some hNow rest
      rw [List.append_assoc] at hWhole
      rw [hWhole]
      constructor
      · intro _ _ hSplit
        cases hSplit
        exact ⟨_, _, serve_of_split hNow false _, .opened left hQuiet hComing, List.suffix_rfl⟩
      · intro hSplit
        cases hSplit
    | none =>
      -- The bytes that are there belong to the request now, and what the event brings is there.
      rw [serve_of_waits hNow hQuiet, ← List.append_assoc]
      obtain ⟨hMet, hFailed⟩ := ih (got ++ held)
      refine ⟨fun hSplit => ?_, hFailed⟩
      obtain ⟨after, last, hServe, hAfter, hLast⟩ := hMet hSplit
      exact ⟨after, last, hServe, hAfter, hLast.trans (List.suffix_cons event later)⟩

end Pipe

theorem Session.serve_pipe {n : Nat} {pipe after : Pipe} {events later : List Event}
    {result : Except Halt (Block n)}
    (hServe : pipe.serve n [] events = (result, after, later, false)) :
    Session.serve n (.ofSource (.pipe pipe), events) =
      (result, .ofSource (.pipe after), later) := by
  simp only [Session.serve, Session.ofSource, hServe]
  rfl

theorem Gives.pipe (events : List Event) : Gives .failed Session.serve (Session.Brings events) where
  met := by
    rintro n ⟨_, now⟩ bytes rest block ⟨hNow, pipe, rfl, hBrings⟩ hSplit
    obtain ⟨after, later, hServe, hAfter, hLater⟩ := (hBrings.serve []).1 hSplit
    exact ⟨_, Session.serve_pipe hServe, hLater.trans hNow, after, rfl, hAfter⟩
  failed := by
    rintro n ⟨_, now⟩ bytes ⟨_, pipe, rfl, hBrings⟩ hSplit
    obtain ⟨after, later, hServe⟩ := (hBrings.serve []).2 hSplit
    exact ⟨_, Session.serve_pipe hServe⟩

/-! ## Values -/

/-- Reads a value from a pipe as `Session.perform` does, while events happen if it waits. After that
come the session and the events that did not happen. -/
def readFromPipe (models : Models) (type : ClosedType) (pipe : Pipe) (events : List Event) :
    Except Halt Value × Session × List Event :=
  (decode models type).runWith .failed Session.serve (.ofSource (.pipe pipe), events)

/-- However the bytes of a value come, all at once or chunk by chunk to a pipe that is closed in the
end, reading gives the same value or the same error. Where it gives a value, it takes the same
bytes, and the same bytes are left or still to come. Chunks may also come together, or the last one
with the end. -/
theorem readFromPipe_eq (models : Models) (type : ClosedType) (held : Bytes) (chunks : List Bytes) :
    (readFromPipe models type ⟨held, false⟩ (arrivals chunks)).1 =
        Session.prompt (ofBytes models type (held ++ chunks.flatten)) ∧
      (readFrom models type false (.ofBytes (held ++ chunks.flatten))).1 =
        ofBytes models type (held ++ chunks.flatten) ∧
      ((decode models type).runWith id Region.serve (.ofBytes (held ++ chunks.flatten))).1 =
        ofBytes models type (held ++ chunks.flatten) ∧
      (∀ value, ofBytes models type (held ++ chunks.flatten) = .ok value →
        ∃ taken rest, held ++ chunks.flatten = taken ++ rest ∧
          (decode models type).runWith id Region.serve (.ofBytes (held ++ chunks.flatten)) =
            (.ok value, ⟨taken.length, rest⟩) ∧
          readFrom models type false (.ofBytes (held ++ chunks.flatten)) =
            (.ok value, ⟨taken.length, rest⟩) ∧
          ∃ pipe later, readFromPipe models type ⟨held, false⟩ (arrivals chunks) =
            (.ok value, .ofSource (.pipe pipe), later) ∧ pipe.Brings later rest ∧
              later <:+ arrivals chunks) ∧
      ∀ events, Pipe.Brings ⟨held, false⟩ events (held ++ chunks.flatten) →
        (readFromPipe models type ⟨held, false⟩ events).1 =
          Session.prompt (ofBytes models type (held ++ chunks.flatten)) := by
  have hArrive := Pipe.brings_arrivals held chunks
  generalize held ++ chunks.flatten = bytes at hArrive ⊢
  have hFromPipe {events : List Event} (hBrings : Pipe.Brings ⟨held, false⟩ events bytes) :=
    (Gives.pipe events).runWith (decode models type)
      (show Session.Brings events (.ofSource (.pipe ⟨held, false⟩), events) bytes from
        ⟨List.suffix_rfl, _, rfl, hBrings⟩)
  have hRegionLeft : Counted Region.mk bytes (.ofBytes bytes) bytes := ⟨[], rfl, rfl⟩
  have hSliceLeft : Counted Slice.mk bytes (.ofBytes bytes) bytes := ⟨[], rfl, rfl⟩
  obtain ⟨hPiped, hPipe⟩ := hFromPipe hArrive
  obtain ⟨hRead, hRegion⟩ := (Gives.region bytes).runWith (decode models type) hRegionLeft
  obtain ⟨hSliced, hSlice⟩ := (Gives.slice bytes).runWith (decode models type) hSliceLeft
  rw [mapError_id] at hRead hSliced
  refine ⟨hPiped.trans (Session.mapError_failed _), hSliced, hRead, fun value hValue => ?_,
    fun events hBrings => (hFromPipe hBrings).1.trans (Session.mapError_failed _)⟩
  obtain ⟨taken, hTaken, hRegion⟩ := hRegion value hValue
  obtain ⟨also, hAlso, hSlice⟩ := hSlice value hValue
  obtain rfl : also = taken := List.append_cancel_right (hAlso.symm.trans hTaken)
  obtain ⟨hLater, pipe, hSession, hPipe⟩ := hPipe value hValue
  have hValue : ((decode models type).run bytes).1 = .ok value := hValue
  rw [hValue] at hRead hSliced hPiped
  exact ⟨also, _, hTaken, Prod.ext hRead hRegion, Prod.ext hSliced hSlice, pipe, _,
    Prod.ext hPiped (Prod.ext hSession rfl), hPipe, hLater⟩

end Interchange.Wire

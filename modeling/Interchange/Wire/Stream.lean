import Interchange.Wire.Varint

/-!
# Streams

Where readings get their bytes from. A region holds all of its bytes from the start, and a request
that it cannot meet takes nothing. A slice also holds them from the start, but a request that it
cannot meet takes what there is. A pipe gets its bytes over time: a request takes what is there and
waits for the rest, until the pipe is closed.

A session is a stack of streams over one source. Regions are read from the stream below them and put
on top. Every stream has a token by which it is cancelled, and a region gets the token of the stream
that it was read from.

* `Region.serve`, `Slice.serve`, `Pipe.serve`: meeting a request.
* `Session.step`: one step of a session.
-/

namespace Interchange.Wire

/-! ## Sources -/

/-- Bytes that are all there. `position` counts the bytes taken. -/
structure Region where
  position : Nat
  rest : Bytes
deriving DecidableEq, Repr

namespace Region

/-- A region from which nothing is taken yet. -/
def ofBytes (bytes : Bytes) : Region :=
  ⟨0, bytes⟩

def remaining (region : Region) : Nat :=
  region.rest.length

/-- Bytes are left. -/
def hasMore (region : Region) : Bool :=
  !region.rest.isEmpty

/-- Meets a request from a region. If there are too few bytes, none is taken. -/
def serve (n : Nat) (region : Region) : Except WireError (Block n) × Region :=
  match split? n region.rest with
  | some (block, rest) => (.ok block, ⟨region.position + n, rest⟩)
  | none => (.error (.streamClosed n region.remaining), region)

end Region

/-- Bytes that are all there, of which a failing request takes what is left. -/
structure Slice where
  consumed : Nat
  rest : Bytes
deriving DecidableEq, Repr

namespace Slice

def ofBytes (bytes : Bytes) : Slice :=
  ⟨0, bytes⟩

/-- Meets a request from a slice. If there are too few bytes, all of them are gone. -/
def serve (n : Nat) (slice : Slice) : Except WireError (Block n) × Slice :=
  match split? n slice.rest with
  | some (block, rest) => (.ok block, ⟨slice.consumed + n, rest⟩)
  | none =>
    (.error (.streamClosed n slice.rest.length), ⟨slice.consumed + slice.rest.length, []⟩)

end Slice

/-- Bytes that arrive over time. -/
structure Pipe where
  available : Bytes
  closed : Bool
deriving DecidableEq, Repr

/-- What may happen while a request waits. -/
inductive Event where
  | feed (bytes : Bytes)
  | close
  | cancel
  /-- Two things, one after the other, before the request is looked at again. -/
  | both (first second : Event)
deriving DecidableEq, Repr

/-- The signal to cancel is among what happens. -/
def Event.signals : Event → Bool
  | .cancel => true
  | .both first second => first.signals || second.signals
  | _ => false

/-- Why a request to a pipe is not met. -/
inductive Halt where
  | failed (error : WireError)
  /-- The request still waits after the last event. -/
  | waiting
deriving DecidableEq, Repr

namespace Pipe

/-- Bytes written into a pipe. A closed pipe takes none. -/
def feed (pipe : Pipe) (bytes : Bytes) : Pipe :=
  if pipe.closed then pipe else { pipe with available := pipe.available ++ bytes }

def close (pipe : Pipe) : Pipe :=
  { pipe with closed := true }

/-- What an event does to a pipe. The signal to cancel leaves it as it is. -/
def absorb (pipe : Pipe) : Event → Pipe
  | .feed bytes => pipe.feed bytes
  | .close => pipe.close
  | .cancel => pipe
  | .both first second => (pipe.absorb first).absorb second

/-- The pipe after all bytes that were there are taken. -/
def drain (pipe : Pipe) : Pipe :=
  { pipe with available := [] }

/-- Meets a request for `n` bytes, of which `got` were taken before, if it does not have to wait. -/
def serveNow (n : Nat) (pipe : Pipe) (got : Bytes) : Option (Except Halt (Block n) × Pipe) :=
  match split? n (got ++ pipe.available) with
  | some (block, rest) => some (.ok block, { pipe with available := rest })
  | none =>
    if pipe.closed then
      some (.error (.failed (.streamClosed n (got ++ pipe.available).length)), pipe.drain)
    else none

/-- Meets a request for `n` bytes, of which `got` were taken before. Each time it has to wait, the
next event happens. The signal to cancel ends it, whatever else came with it. After the result come
the pipe, the events that did not happen and whether the signal was given. -/
def serve (n : Nat) (pipe : Pipe) (got : Bytes) :
    List Event → Except Halt (Block n) × Pipe × List Event × Bool
  | [] =>
    match pipe.serveNow n got with
    | some (result, after) => (result, after, [], false)
    | none => (.error .waiting, pipe.drain, [], false)
  | event :: later =>
    match pipe.serveNow n got with
    | some (result, after) => (result, after, event :: later, false)
    | none =>
      let after := pipe.drain.absorb event
      if event.signals then (.error (.failed .cancelled), after, later, true)
      else after.serve n (got ++ pipe.available) later

end Pipe

/-- By which a stream is cancelled. -/
inductive Token where
  /-- The token of the session, which the signal to cancel cancels. -/
  | shared
  /-- A token that nobody cancels. -/
  | idle
deriving DecidableEq, Repr

/-- The stream at the bottom of a session. -/
inductive Source where
  | region (region : Region)
  /-- A slice, which may be deaf to the signal to cancel. -/
  | slice (slice : Slice) (deaf : Bool)
  | pipe (pipe : Pipe)
deriving DecidableEq, Repr

/-- The token of a source. -/
def Source.token : Source → Token
  | .slice _ true => .idle
  | _ => .shared

/-! ## Sessions -/

/-- A region with the token of the stream that it was read from. -/
structure Layer where
  region : Region
  token : Token
deriving DecidableEq, Repr

/-- A stack of streams over a source, the latest region first, and whether the signal to cancel was
given. -/
structure Session where
  source : Source
  regions : List Layer
  signalled : Bool
deriving DecidableEq, Repr

namespace Session

def ofSource (source : Source) : Session :=
  ⟨source, [], false⟩

/-- Whether a token is cancelled. -/
def cancels (session : Session) : Token → Bool
  | .shared => session.signalled
  | .idle => false

/-- The token of the stream on top. -/
def token (session : Session) : Token :=
  match session.regions with
  | layer :: _ => layer.token
  | [] => session.source.token

/-- The stream on top is cancelled. -/
def isCancelled (session : Session) : Bool :=
  session.cancels session.token

/-- The height of the stack. -/
def depth (session : Session) : Nat :=
  session.regions.length + 1

/-- The region on top, if there is one. -/
def top? (session : Session) : Option Region :=
  match session.regions, session.source with
  | layer :: _, _ => some layer.region
  | [], .region region => some region
  | [], _ => none

/-- Keeps the result of a stream that cannot wait. -/
def prompt {α : Type} : Except WireError α → Except Halt α
  | .ok value => .ok value
  | .error error => .error (.failed error)

/-- Meets a request from the stream on top. -/
def serve (n : Nat) : Session × List Event → Except Halt (Block n) × Session × List Event
  | (session, events) =>
    if session.isCancelled then (.error (.failed .cancelled), session, events)
    else
      match session.regions, session.source with
      | layer :: below, _ =>
        let (result, after) := layer.region.serve n
        (prompt result, { session with regions := { layer with region := after } :: below }, events)
      | [], .region region =>
        let (result, after) := region.serve n
        (prompt result, { session with source := .region after }, events)
      | [], .slice slice deaf =>
        let (result, after) := slice.serve n
        (prompt result, { session with source := .slice after deaf }, events)
      | [], .pipe pipe =>
        let (result, after, later, cancelled) := pipe.serve n [] events
        (result, { session with
          source := .pipe after
          signalled := session.signalled || cancelled }, later)

/-- Performs a reading on the stream on top, while events happen if it waits. -/
def perform {α : Type} (reading : Reading α) (session : Session) (events : List Event) :
    Except Halt α × Session :=
  let (result, after) := reading.runWith .failed serve (session, events)
  (result, after.1)

/-- A step of a session. -/
inductive Step where
  | read (n : Nat)
  | byte
  | varint
  | skip (layout : Layout)
  | region
  | pop
  | peek
  | isCancelled
  | cancel
  | feed (bytes : Bytes)
  | close
deriving DecidableEq, Repr

/-- What a step answers. -/
inductive Answer where
  | bytes (bytes : Bytes)
  | byte (byte : UInt8)
  | number (value : Nat)
  /-- A region of some length is on top now. -/
  | pushed (length : Nat)
  /-- Whether the region on top has more bytes. -/
  | more (more : Bool)
  | flag (flag : Bool)
  | ok
  | halted (halt : Halt)
  /-- The step asks a region where there is none. -/
  | notARegion
deriving DecidableEq, Repr

/-- Performs a reading. For its value, `finish` gives the answer and the session after that. -/
def answer {α : Type} (session : Session) (events : List Event) (reading : Reading α)
    (finish : α → Session → Answer × Session) : Answer × Session :=
  match session.perform reading events with
  | (.ok value, after) => finish value after
  | (.error halt, after) => (.halted halt, after)

/-- Puts a region that was read from the stream on top above it. -/
def push (session : Session) (bytes : Bytes) : Session :=
  { session with regions := ⟨.ofBytes bytes, session.token⟩ :: session.regions }

/-- Applies a change to the pipe at the bottom. -/
def changePipe (session : Session) (change : Pipe → Pipe) : Session :=
  match session.source with
  | .pipe pipe => { session with source := .pipe (change pipe) }
  | _ => session

/-- One step. `events` are what happens if it waits. -/
def step (session : Session) (events : List Event) : Step → Answer × Session
  | .read n =>
    session.answer events (Reading.block n) fun block after => (.bytes block.val, after)
  | .byte => session.answer events Reading.byte fun byte after => (.byte byte, after)
  | .varint => session.answer events Varint.read fun value after => (.number value, after)
  | .skip layout => session.answer events layout.skip fun _ after => (.ok, after)
  | .region =>
    session.answer events Reading.region fun bytes after => (.pushed bytes.length, after.push bytes)
  | .pop => (.ok, { session with regions := session.regions.tail })
  | .peek =>
    match session.top? with
    | some region => (.more region.hasMore, session)
    | none => (.notARegion, session)
  | .isCancelled => (.flag session.isCancelled, session)
  | .cancel => (.ok, { session with signalled := true })
  | .feed bytes => (.ok, session.changePipe fun pipe => pipe.feed bytes)
  | .close => (.ok, session.changePipe Pipe.close)

end Session

end Interchange.Wire

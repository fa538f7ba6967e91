import Interchange.Wire.Varint
import Interchange.Wire.Writing

/-!
# Sinks

Where writings put their bytes. A sink takes a limited number of bytes; of a piece that does not
fit, it keeps the part that does. A cancelled sink takes nothing.

* `Sink.write`, `Sink.flush`: using a sink.
* `Writing.into`: a whole writing and a final flush.
-/

namespace Interchange.Wire

/-- The bytes written so far, the room that is left, and whether the sink is cancelled. -/
structure Sink where
  written : Bytes
  room : Nat
  cancelled : Bool
deriving DecidableEq, Repr

namespace Sink

/-- An empty sink with room for `limit` bytes. -/
def ofLimit (limit : Nat) : Sink :=
  ⟨[], limit, false⟩

def cancel (sink : Sink) : Sink :=
  { sink with cancelled := true }

/-- Takes as many bytes as there is room for. -/
def keep (sink : Sink) (bytes : Bytes) : Sink :=
  { sink with
    written := sink.written ++ bytes.take sink.room
    room := sink.room - bytes.length }

/-- Writes a piece. -/
def write (bytes : Bytes) (sink : Sink) : Except WireError Unit × Sink :=
  if sink.cancelled then (.error .cancelled, sink)
  else if bytes.length ≤ sink.room then (.ok (), sink.keep bytes)
  else (.error .sinkFull, sink.keep bytes)

/-- Makes sure that all is written. -/
def flush (sink : Sink) : Except WireError Unit :=
  if sink.cancelled then .error .cancelled else .ok ()

/-- A step on a sink. -/
inductive Step where
  | write (bytes : Bytes)
  | varint (value : Nat)
  | flush
  | cancel
deriving DecidableEq, Repr

/-- One step. A sink that is `deaf` is not cancelled by the signal. -/
def step (deaf : Bool) (sink : Sink) : Step → Except WireError Unit × Sink
  | .write bytes => sink.write bytes
  | .varint value => sink.write (Varint.encode value)
  | .flush => (sink.flush, sink)
  | .cancel => (.ok (), if deaf then sink else sink.cancel)

end Sink

/-- Writes all pieces into a sink and flushes it. -/
def Writing.into (writing : Writing) (sink : Sink) : Except WireError Unit × Sink :=
  match writing.runWith Sink.write sink with
  | (.ok (), after) => (after.flush, after)
  | (.error error, after) => (.error error, after)

end Interchange.Wire

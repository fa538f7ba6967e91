import Interchange.Bytes
import Interchange.Wire.Error

/-!
# Writings

A writing is a program that hands out bytes, piece by piece, and may fail in between. It does not
say where the bytes go.

* `Writing.runWith`: passing the pieces to any sink.
* `Writing.onto`: appending them to a byte string.
* `Writing.toBytes`: all bytes, if nothing fails.
-/

namespace Interchange.Wire

/-- A program that hands out bytes. -/
inductive Writing where
  | done
  | fail (error : WireError)
  | put (bytes : Bytes) (next : Writing)

namespace Writing

/-- Hands out one piece. -/
def piece (bytes : Bytes) : Writing :=
  put bytes done

/-- The second writing after the first. -/
def andThen : Writing → Writing → Writing
  | done, second => second
  | fail error, _ => fail error
  | put bytes next, second => put bytes (next.andThen second)

/-- Passes every piece to a sink: `accept` takes the bytes and gives the state of the sink after
that. -/
def runWith {σ : Type} (accept : Bytes → σ → Except WireError Unit × σ) :
    Writing → σ → Except WireError Unit × σ
  | done, sink => (.ok (), sink)
  | fail error, sink => (.error error, sink)
  | put bytes next, sink =>
    match accept bytes sink with
    | (.ok (), after) => next.runWith accept after
    | (.error error, after) => (.error error, after)

/-- Appends every piece to a byte string. -/
def onto (writing : Writing) (bytes : Bytes) : Except WireError Unit × Bytes :=
  writing.runWith (fun piece sofar => (.ok (), sofar ++ piece)) bytes

/-- All bytes of a writing, if it does not fail. -/
def toBytes : Writing → Except WireError Bytes
  | done => .ok []
  | fail error => .error error
  | put bytes next =>
    match next.toBytes with
    | .ok rest => .ok (bytes ++ rest)
    | .error error => .error error

end Writing

end Interchange.Wire

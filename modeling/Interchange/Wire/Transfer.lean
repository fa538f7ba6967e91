import Interchange.Wire.Resolve
import Interchange.Wire.Shelf
import Interchange.Wire.Sink
import Interchange.Wire.Stream

/-!
# Transferring values

Writing and reading the values of the types of a project.

* `encode`, `decode`: a value as a writing and as a reading.
* `toBytes`, `ofBytes`: to and from byte strings.
* `writeTo`, `readFrom`: to a sink and from a slice.
-/

namespace Interchange.Wire

open Schema

/-- The writing of a value of a type. -/
def encode (models : Models) (type : ClosedType) (value : Value) : Writing :=
  match shelvedCodecOf models.definitions type with
  | some codec => codec.encode value
  | none => .fail .unboundParameter

/-- The reading of a value of a type. -/
def decode (models : Models) (type : ClosedType) : Reading Value :=
  match shelvedCodecOf models.definitions type with
  | some codec => codec.decode
  | none => .fail .unboundParameter

/-- The value of a type that is left out. -/
def defaultOf (models : Models) (type : ClosedType) : Except WireError Value :=
  match shelvedCodecOf models.definitions type with
  | some codec => .ok codec.default
  | none => .error .unboundParameter

/-- How the written values of a type are delimited. -/
def layoutOf (models : Models) (type : ClosedType) : Option Layout :=
  (shelvedCodecOf models.definitions type).map Codec.layout

/-- The bytes of a value. -/
def toBytes (models : Models) (type : ClosedType) (value : Value) : Except WireError Bytes :=
  (encode models type value).toBytes

/-- The value at the front of a byte string; what follows it is ignored. -/
def ofBytes (models : Models) (type : ClosedType) (bytes : Bytes) : Except WireError Value :=
  ((decode models type).run bytes).1

/-- Writes a value to a sink and flushes it. -/
def writeTo (models : Models) (type : ClosedType) (value : Value) (sink : Sink) :
    Except WireError Unit × Sink :=
  (encode models type value).into sink

/-- Meets requests from a source unless it is cancelled. -/
def unlessCancelled {σ : Type} (cancelled : Bool)
    (serve : (n : Nat) → σ → Except WireError (Block n) × σ) (n : Nat) (source : σ) :
    Except WireError (Block n) × σ :=
  if cancelled then (.error .cancelled, source) else serve n source

/-- Reads a value from a slice. -/
def readFrom (models : Models) (type : ClosedType) (cancelled : Bool) (slice : Slice) :
    Except WireError Value × Slice :=
  (decode models type).runWith id (unlessCancelled cancelled Slice.serve) slice

end Interchange.Wire

import Interchange.Proofs.Wire.Accepted

/-!
# Sinks that run out of room

A value reaches a sink in several pieces: the length of a region first, then the region. Of the
piece at which the room ends the sink keeps what fits, and no piece follows. So what is kept is the
front of all bytes, wherever the pieces end, and an empty piece is never refused.

* `Sink.keep_keep`, `Sink.keep_append_of_room_lt`: pieces one after the other.
* `Writing.runWith_write`, `Writing.into_eq`: a writing that does not fail by itself.
* `writeTo_of_error`, `writeTo_of_ok`: values without and with an encoding.
* `writeTo_ofLimit`: values in a sink with limited room.
-/

namespace Interchange.Wire

open Schema (Models)

namespace Sink

variable {sink : Sink} {bytes : Bytes}

theorem keep_nil (sink : Sink) : sink.keep [] = sink := by
  simp [keep]

/-- Two pieces that are kept one after the other are kept like one. -/
theorem keep_keep (sink : Sink) (first second : Bytes) :
    (sink.keep first).keep second = sink.keep (first ++ second) := by
  simp only [keep, List.take_append, List.append_assoc, List.length_append, Nat.sub_sub]

/-- Once the room has ended inside a piece, nothing is kept of what comes behind it. -/
theorem keep_append_of_room_lt (hRoom : sink.room < bytes.length) (more : Bytes) :
    sink.keep (bytes ++ more) = sink.keep bytes := by
  have hFront : (bytes ++ more).take sink.room = bytes.take sink.room :=
    List.take_append_of_le_length (Nat.le_of_lt hRoom)
  have hFull : sink.room - (bytes ++ more).length = sink.room - bytes.length := by
    rw [List.length_append]
    omega
  rw [keep, keep, hFront, hFull]

theorem write_of_active (hActive : sink.cancelled = false) (bytes : Bytes) :
    sink.write bytes =
      (if bytes.length ≤ sink.room then .ok () else .error .sinkFull, sink.keep bytes) := by
  rw [write, if_neg (Bool.eq_false_iff.1 hActive)]
  split <;> rfl

theorem flush_of_active (hActive : sink.cancelled = false) : sink.flush = .ok () :=
  if_neg (Bool.eq_false_iff.1 hActive)

end Sink

namespace Writing

variable {writing : Writing} {sink : Sink} {bytes : Bytes}

/-- The pieces of a writing are kept like all of its bytes at once. -/
theorem runWith_write (hActive : sink.cancelled = false) (hBytes : writing.toBytes = .ok bytes) :
    writing.runWith Sink.write sink =
      (if bytes.length ≤ sink.room then .ok () else .error .sinkFull, sink.keep bytes) := by
  induction writing generalizing bytes sink with
  | done =>
    cases hBytes
    rw [Sink.keep_nil, if_pos (show [].length ≤ sink.room from Nat.zero_le _)]
    rfl
  | fail error => cases hBytes
  | put piece next ih =>
    rw [toBytes] at hBytes
    split at hBytes
    next rest hNext =>
      cases hBytes
      rw [runWith, Sink.write_of_active hActive]
      by_cases hFits : piece.length ≤ sink.room
      · -- The rest goes into what is left of the room.
        have hRest := ih (show (sink.keep piece).cancelled = false from hActive) hNext
        have hRoom : rest.length ≤ (sink.keep piece).room ↔
            (piece ++ rest).length ≤ sink.room := by
          rw [Sink.keep, List.length_append]
          show rest.length ≤ sink.room - piece.length ↔ _
          omega
        rw [if_pos hFits]
        simpa only [hRoom, Sink.keep_keep] using hRest
      · have hLess : sink.room < piece.length := Nat.lt_of_not_le hFits
        have hLonger : ¬ (piece ++ rest).length ≤ sink.room := by
          rw [List.length_append]
          omega
        rw [if_neg hFits, if_neg hLonger, Sink.keep_append_of_room_lt hLess]
    next => cases hBytes

theorem into_eq (hActive : sink.cancelled = false) (hBytes : writing.toBytes = .ok bytes) :
    writing.into sink =
      (if bytes.length ≤ sink.room then .ok () else .error .sinkFull, sink.keep bytes) := by
  rw [into, runWith_write hActive hBytes]
  by_cases hFits : bytes.length ≤ sink.room
  · rw [if_pos hFits]
    have hFlush : (sink.keep bytes).flush = .ok () := Sink.flush_of_active hActive
    simp only [hFlush]
  · rw [if_neg hFits]

end Writing

theorem encode_whole (models : Models) (type : ClosedType) (value : Value) :
    (encode models type value).Whole := by
  rw [encode]
  split
  next codec _ => exact codec.encode_whole value
  next => exact Or.inl ⟨_, rfl⟩

section

variable {models : Models} {type : ClosedType} {value : Value} {sink : Sink}

/-- The encoding fails at once or not at all, so a value without one leaves the sink as it was. -/
theorem writeTo_of_error {error : WireError} (hError : toBytes models type value = .error error)
    (sink : Sink) : writeTo models type value sink = (.error error, sink) := by
  rw [toBytes] at hError
  rw [writeTo]
  rcases encode_whole models type value with ⟨other, hFail⟩ | ⟨bytes, hBytes⟩
  · rw [hFail] at hError ⊢
    cases hError
    rfl
  · cases hBytes.symm.trans hError

theorem writeTo_of_ok {bytes : Bytes} (hActive : sink.cancelled = false)
    (hBytes : toBytes models type value = .ok bytes) :
    writeTo models type value sink =
      (if bytes.length ≤ sink.room then .ok () else .error .sinkFull, sink.keep bytes) :=
  Writing.into_eq hActive hBytes

end

/-- Writing a value to a sink with room for `limit` bytes. It succeeds exactly if the value has an
encoding that fits. A value without an encoding leaves the sink empty, and its error is that of the
encoding. Of every other value the sink holds the front of the encoding, as much as fits, and where
that is not all, the error is that the sink is full. -/
theorem writeTo_ofLimit (models : Models) (type : ClosedType) (value : Value) (limit : Nat) :
    ((writeTo models type value (.ofLimit limit)).1 = .ok () ↔
      ∃ bytes, toBytes models type value = .ok bytes ∧ bytes.length ≤ limit) ∧
    (∀ error, toBytes models type value = .error error →
      (writeTo models type value (.ofLimit limit)).1 = .error error ∧
        (writeTo models type value (.ofLimit limit)).2.written = []) ∧
    ∀ bytes, toBytes models type value = .ok bytes →
      (writeTo models type value (.ofLimit limit)).2.written =
          bytes.take (min limit bytes.length) ∧
        (limit < bytes.length →
          (writeTo models type value (.ofLimit limit)).1 = .error .sinkFull) := by
  cases hBytes : toBytes models type value with
  | error error =>
    rw [writeTo_of_error hBytes]
    refine ⟨by simp, ?_, by simp⟩
    intro other hOther
    cases hOther
    exact ⟨rfl, rfl⟩
  | ok bytes =>
    have hKept : ((Sink.ofLimit limit).keep bytes).written = bytes.take (min limit bytes.length) :=
      List.take_eq_take_min
    have hRoom : (Sink.ofLimit limit).room = limit := rfl
    rw [writeTo_of_ok rfl hBytes, hRoom]
    refine ⟨?_, by simp, ?_⟩
    · by_cases hFits : bytes.length ≤ limit
      · simp [hFits]
      · simp [hFits]
    · intro other hOther
      cases hOther
      refine ⟨hKept, ?_⟩
      intro hLonger
      exact if_neg (Nat.not_le_of_lt hLonger)

section

open Schema.Luggage (models)

/-- Two bags in a sink that is one byte too small for them: all but the last of their bytes are
there. Of the bags that are mixed up not even the first is. -/
theorem writeTo_bags :
    (∃ bytes, toBytes models stringBags packed = .ok bytes ∧ bytes.length = 15 ∧
      (writeTo models stringBags packed (.ofLimit 14)).1 = .error .sinkFull ∧
      (writeTo models stringBags packed (.ofLimit 14)).2.written = bytes.take 14) ∧
    (writeTo models stringBags mixedUp (.ofLimit 14)).1 =
        .error (.typeMismatch "string" "bool") ∧
      (writeTo models stringBags mixedUp (.ofLimit 14)).2.written = [] := by
  have hLength : ((toBytes models stringBags packed).map List.length).toOption = some 15 := by cbv
  have hError : toBytes models stringBags mixedUp = .error (.typeMismatch "string" "bool") := by cbv
  obtain ⟨_, _, hKept⟩ := writeTo_ofLimit models stringBags packed 14
  obtain ⟨_, hRefused, _⟩ := writeTo_ofLimit models stringBags mixedUp 14
  refine ⟨?_, hRefused _ hError⟩
  cases hBytes : toBytes models stringBags packed with
  | error error =>
    rw [hBytes] at hLength
    cases hLength
  | ok bytes =>
    rw [hBytes] at hLength
    have hLength : bytes.length = 15 := Option.some.inj hLength
    obtain ⟨hWritten, hFull⟩ := hKept bytes hBytes
    rw [hLength] at hWritten hFull
    exact ⟨bytes, rfl, hLength, hFull (by decide), hWritten⟩

end

end Interchange.Wire

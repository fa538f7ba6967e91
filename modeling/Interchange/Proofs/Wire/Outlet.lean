import Interchange.Wire.Outlet

/-!
# Transfers to an outlet

A transfer may wait several times, and bytes are taken out meanwhile. Taking out moves bytes but
does not change what was written. So all that a write adds, whether it ends, still waits or is
stopped by the signal, is a front of its piece.

* `perform_cancelled_iff`: a transfer is refused exactly if the outlet is cancelled after it.
* `perform_written`: what a transfer adds.
-/

namespace Interchange.Wire.Outlet

variable {outlet : Outlet}

/-! ## Events -/

theorem take_written (outlet : Outlet) (n : Nat) : (outlet.take n).written = outlet.written := by
  simp [take, written]

theorem cancel_eq (hCancelled : outlet.cancelled = true) : outlet.cancel = outlet := by
  obtain ⟨taken, held, capacity, cancelled, fits⟩ := outlet
  cases hCancelled
  rfl

theorem absorb_written (deaf : Bool) (outlet : Outlet) (event : Event) :
    (outlet.absorb deaf event).written = outlet.written := by
  induction event generalizing outlet with
  | take n => exact outlet.take_written n
  | cancel => cases deaf <;> rfl
  | both first second hFirst hSecond => exact (hSecond _).trans (hFirst _)

theorem absorb_deaf (outlet : Outlet) (event : Event) :
    (outlet.absorb true event).cancelled = outlet.cancelled := by
  induction event generalizing outlet with
  | take n => rfl
  | cancel => rfl
  | both first second hFirst hSecond => exact (hSecond _).trans (hFirst _)

/-! ## Transfers -/

/-- The bytes that a transfer puts in. -/
def Transfer.bytes : Transfer → Bytes
  | .write bytes => bytes
  | .flush => []

theorem poll_cancelled {transfer : Transfer} {left : Option Transfer} {after : Outlet}
    (hPoll : outlet.poll transfer = (left, after)) : after.cancelled = outlet.cancelled := by
  cases transfer with
  | write bytes =>
    cases hPoll
    rfl
  | flush =>
    cases hPoll
    rfl

/-- What is put in now and what is left make up the bytes of the transfer. -/
theorem poll_written {transfer : Transfer} {left : Option Transfer} {after : Outlet}
    (hPoll : outlet.poll transfer = (left, after)) :
    ∃ front, after.written = outlet.written ++ front ∧
      transfer.bytes = front ++ left.elim [] Transfer.bytes := by
  cases transfer with
  | write bytes =>
    cases hPoll
    refine ⟨bytes.take outlet.room, by simp [fill, written], ?_⟩
    simp only [Transfer.bytes]
    split
    next hRoom => simp [List.take_of_length_le hRoom]
    next => exact (List.take_append_drop _ _).symm
  | flush =>
    cases hPoll
    refine ⟨[], by simp, ?_⟩
    split <;> rfl

theorem perform_of_cancelled (hCancelled : outlet.cancelled = true) (deaf : Bool)
    (transfer : Transfer) (events : List Event) :
    outlet.perform deaf transfer events = (.error (.failed .cancelled), outlet) := by
  rw [perform.eq_def, if_pos hCancelled]

/-- A transfer is refused exactly if the outlet is cancelled after it, also if the signal came while
it was waiting. -/
theorem perform_cancelled_iff (deaf : Bool) (outlet : Outlet) (transfer : Transfer)
    (events : List Event) :
    (outlet.perform deaf transfer events).1 = .error (.failed .cancelled) ↔
      (outlet.perform deaf transfer events).2.cancelled = true := by
  fun_induction perform deaf outlet transfer events with
  | case1 events outlet transfer hCancelled => simp [hCancelled]
  | case2 events outlet transfer hActive after hPoll => simp [poll_cancelled hPoll, hActive]
  | case3 outlet transfer hActive rest after hPoll => simp [poll_cancelled hPoll, hActive]
  | case4 outlet transfer hActive rest after event later hPoll ih => exact ih

theorem perform_deaf (outlet : Outlet) (transfer : Transfer) (events : List Event) :
    (outlet.perform true transfer events).2.cancelled = outlet.cancelled := by
  fun_induction perform true outlet transfer events with
  | case1 events outlet transfer hCancelled => rfl
  | case2 events outlet transfer hActive after hPoll => exact poll_cancelled hPoll
  | case3 outlet transfer hActive rest after hPoll => exact poll_cancelled hPoll
  | case4 outlet transfer hActive rest after event later hPoll ih =>
    rw [ih, absorb_deaf, poll_cancelled hPoll]

/-- A transfer adds a front of its bytes, and all of them if it is done. -/
theorem perform_written (deaf : Bool) (outlet : Outlet) (transfer : Transfer)
    (events : List Event) :
    ∃ front, front <+: transfer.bytes ∧
      (outlet.perform deaf transfer events).2.written = outlet.written ++ front ∧
      ((outlet.perform deaf transfer events).1 = .ok () → front = transfer.bytes) := by
  fun_induction perform deaf outlet transfer events with
  | case1 events outlet transfer hCancelled => exact ⟨[], List.nil_prefix, by simp, by simp⟩
  | case2 events outlet transfer hActive after hPoll =>
    obtain ⟨front, hWritten, hBytes⟩ := poll_written hPoll
    have hAll : transfer.bytes = front := by simpa using hBytes
    exact ⟨front, ⟨_, hBytes.symm⟩, hWritten, fun _ => hAll.symm⟩
  | case3 outlet transfer hActive rest after hPoll =>
    obtain ⟨front, hWritten, hBytes⟩ := poll_written hPoll
    exact ⟨front, ⟨_, hBytes.symm⟩, hWritten, by simp⟩
  | case4 outlet transfer hActive rest after event later hPoll ih =>
    -- What was put in before the wait stands before what is put in after it.
    obtain ⟨front, hWritten, hBytes⟩ := poll_written hPoll
    obtain ⟨more, hMore, hLater, hDone⟩ := ih
    refine ⟨front ++ more, ?_, ?_, fun hOk => ?_⟩
    · rw [hBytes]
      exact (List.prefix_append_right_inj front).2 hMore
    · rw [hLater, absorb_written, hWritten, List.append_assoc]
    · rw [hBytes, hDone hOk]
      rfl

end Interchange.Wire.Outlet

import Interchange.Wire.Sink
import Interchange.Wire.Stream

/-!
# Outlets

Where bytes are written that somebody takes out over time. An outlet holds a limited number of
bytes. A write puts in as many as there is room for and waits until there is room for the others,
and a flush waits until all bytes are taken out. The signal to cancel ends the wait. What was put in
before stays.

* `Outlet.poll`: as much of a transfer as is possible now.
* `Outlet.perform`: a transfer with its waits.
* `Outlet.step`: one step on an outlet.
-/

namespace Interchange.Wire

/-- The bytes taken out so far, those that are held, for how many there is place, and whether the
outlet is cancelled. -/
structure Outlet where
  taken : Bytes
  held : Bytes
  capacity : Nat
  cancelled : Bool
  fits : held.length ≤ capacity
deriving DecidableEq, Repr

namespace Outlet

/-- An empty outlet for `capacity` bytes at a time. -/
def ofCapacity (capacity : Nat) : Outlet :=
  ⟨[], [], capacity, false, Nat.zero_le capacity⟩

/-- All bytes that were put in. -/
def written (outlet : Outlet) : Bytes :=
  outlet.taken ++ outlet.held

def room (outlet : Outlet) : Nat :=
  outlet.capacity - outlet.held.length

def cancel (outlet : Outlet) : Outlet :=
  { outlet with cancelled := true }

/-- Takes `n` bytes out, or all if there are fewer. -/
def take (outlet : Outlet) (n : Nat) : Outlet :=
  { outlet with
    taken := outlet.taken ++ outlet.held.take n
    held := outlet.held.drop n
    fits := by
      have hFits := outlet.fits
      rw [List.length_drop]
      omega }

/-- Puts in as many bytes as there is room for. -/
def fill (outlet : Outlet) (bytes : Bytes) : Outlet :=
  { outlet with
    held := outlet.held ++ bytes.take outlet.room
    fits := by
      have hFits := outlet.fits
      rw [List.length_append, List.length_take, room]
      omega }

/-- What may happen while a transfer waits. -/
inductive Event where
  | take (n : Nat)
  | cancel
  /-- Two things, one after the other, before the transfer is looked at again. -/
  | both (first second : Event)
deriving DecidableEq, Repr

/-- What an event does to an outlet. One that is `deaf` is not cancelled by the signal. -/
def absorb (deaf : Bool) (outlet : Outlet) : Event → Outlet
  | .take n => outlet.take n
  | .cancel => if deaf then outlet else outlet.cancel
  | .both first second => (outlet.absorb deaf first).absorb deaf second

/-- What is to be done. -/
inductive Transfer where
  | write (bytes : Bytes)
  | flush
deriving DecidableEq, Repr

/-- Does as much as is possible now. What is left has to wait. -/
def poll (outlet : Outlet) : Transfer → Option Transfer × Outlet
  | .write bytes =>
    (if bytes.length ≤ outlet.room then none else some (.write (bytes.drop outlet.room)),
      outlet.fill bytes)
  | .flush => (if outlet.held.isEmpty then none else some .flush, outlet)

/-- Does a transfer. Each time it has to wait, the next event happens. It is refused if the outlet
is cancelled. -/
def perform (deaf : Bool) (outlet : Outlet) (transfer : Transfer) (events : List Event) :
    Except Halt Unit × Outlet :=
  if outlet.cancelled then (.error (.failed .cancelled), outlet)
  else
    match outlet.poll transfer, events with
    | (none, after), _ => (.ok (), after)
    | (some _, after), [] => (.error .waiting, after)
    | (some rest, after), event :: later => (after.absorb deaf event).perform deaf rest later

/-- One step. `events` are what happens if it waits. -/
def step (deaf : Bool) (outlet : Outlet) (events : List Event) :
    Sink.Step → Except Halt Unit × Outlet
  | .write bytes => outlet.perform deaf (.write bytes) events
  | .varint value => outlet.perform deaf (.write (Varint.encode value)) events
  | .flush => outlet.perform deaf .flush events
  | .cancel => (.ok (), outlet.absorb deaf .cancel)

end Outlet

end Interchange.Wire

import Interchange.Bytes
import Interchange.Wire.Error

/-!
# Readings

A reading is a program that asks for bytes: so many at a time, and the next request may depend on
what came. It does not say where the bytes come from. `Reading.runWith` answers the requests from
any source, and `Reading.run` from a byte string.

* `split?_append`, `split?_eq_some`: cutting a block off a byte string.
* `run_bind`: a sequence of readings takes its bytes one after the other.
* `run_length_le`: what is left is never longer than what there was.
-/

namespace Interchange.Wire

/-- A program that asks for bytes. -/
inductive Reading (α : Type) where
  | done (value : α)
  | fail (error : WireError)
  | take (n : Nat) (next : Block n → Reading α)

/-- The first `n` bytes and the rest, if there are so many. -/
def split? : (n : Nat) → Bytes → Option (Block n × Bytes)
  | 0, bytes => some (⟨[], rfl⟩, bytes)
  | _ + 1, [] => none
  | n + 1, byte :: bytes =>
    match split? n bytes with
    | some (block, rest) => some (⟨byte :: block.val, by simp [block.property]⟩, rest)
    | none => none

theorem split?_append (n : Nat) (block : Block n) (rest : Bytes) :
    split? n (block.val ++ rest) = some (block, rest) := by
  induction n with
  | zero =>
    obtain ⟨bytes, hLength⟩ := block
    obtain rfl := List.length_eq_zero_iff.1 hLength
    rfl
  | succ n ih =>
    obtain ⟨bytes, hLength⟩ := block
    match bytes, hLength with
    | byte :: bytes, hLength =>
      have hTail := ih ⟨bytes, by simpa using hLength⟩
      simp only [List.cons_append, split?, hTail]

theorem split?_eq_some {n : Nat} {bytes rest : Bytes} {block : Block n}
    (hSplit : split? n bytes = some (block, rest)) : bytes = block.val ++ rest := by
  induction n generalizing bytes rest with
  | zero =>
    simp only [split?, Option.some.injEq, Prod.mk.injEq] at hSplit
    obtain ⟨rfl, rfl⟩ := hSplit
    rfl
  | succ n ih =>
    match bytes with
    | [] => simp [split?] at hSplit
    | byte :: bytes =>
      simp only [split?] at hSplit
      split at hSplit
      next inner after hInner =>
        simp only [Option.some.injEq, Prod.mk.injEq] at hSplit
        obtain ⟨rfl, rfl⟩ := hSplit
        simp [ih hInner]
      next => simp at hSplit

namespace Reading

variable {α β : Type}

def bind : Reading α → (α → Reading β) → Reading β
  | done value, f => f value
  | fail error, _ => fail error
  | take n next, f => take n fun block => (next block).bind f

instance : Monad Reading where
  pure := done
  bind := bind

/-- A result or an error as a reading that takes nothing. -/
def ofExcept : Except WireError α → Reading α
  | .ok value => done value
  | .error error => fail error

/-- Exactly `n` bytes. -/
def block (n : Nat) : Reading (Block n) :=
  take n done

/-- One byte. -/
def byte : Reading UInt8 :=
  take 1 fun
    | ⟨[byte], _⟩ => done byte

/-- Answers the requests of a reading from a source: `serve` hands out bytes and gives the state of
the source after that. A source may have failures of its own; `raise` says how they hold an error of
the reading. -/
def runWith {ε σ : Type} (raise : WireError → ε)
    (serve : (n : Nat) → σ → Except ε (Block n) × σ) : Reading α → σ → Except ε α × σ
  | done value, source => (.ok value, source)
  | fail error, source => (.error (raise error), source)
  | take n next, source =>
    match serve n source with
    | (.ok block, after) => (next block).runWith raise serve after
    | (.error failure, after) => (.error failure, after)

/-- Serves from a byte string. A request that cannot be met takes nothing. -/
def serveBytes (n : Nat) (bytes : Bytes) : Except WireError (Block n) × Bytes :=
  match split? n bytes with
  | some (block, rest) => (.ok block, rest)
  | none => (.error (.streamClosed n bytes.length), bytes)

/-- The result of a reading from a byte string, and the bytes that are left. -/
def run (reading : Reading α) (bytes : Bytes) : Except WireError α × Bytes :=
  reading.runWith id serveBytes bytes

theorem serveBytes_length_le (n : Nat) (bytes : Bytes) :
    (serveBytes n bytes).2.length ≤ bytes.length := by
  unfold serveBytes
  split
  next block rest hSplit =>
    simp [split?_eq_some hSplit]
  next => exact Nat.le_refl _

theorem run_length_le (reading : Reading α) (bytes : Bytes) :
    (reading.run bytes).2.length ≤ bytes.length := by
  induction reading generalizing bytes with
  | done value => exact Nat.le_refl _
  | fail error => exact Nat.le_refl _
  | take n next ih =>
    have hServe := serveBytes_length_le n bytes
    simp only [run, runWith]
    split
    next block after hServed =>
      have hRest := ih block after
      simp only [run] at hRest
      rw [hServed] at hServe
      exact Nat.le_trans hRest hServe
    next error after hServed =>
      rw [hServed] at hServe
      exact hServe

theorem runWith_bind {ε σ : Type} (raise : WireError → ε)
    (serve : (n : Nat) → σ → Except ε (Block n) × σ) (reading : Reading α) (f : α → Reading β)
    (source : σ) :
    (reading.bind f).runWith raise serve source =
      match reading.runWith raise serve source with
      | (.ok value, after) => (f value).runWith raise serve after
      | (.error failure, after) => (.error failure, after) := by
  induction reading generalizing source with
  | done value => rfl
  | fail error => rfl
  | take n next ih =>
    simp only [bind, runWith]
    split
    next block after hServed => exact ih block after
    next error after hServed => rfl

theorem run_bind (reading : Reading α) (f : α → Reading β) (bytes : Bytes) :
    (reading >>= f).run bytes =
      match reading.run bytes with
      | (.ok value, after) => (f value).run after
      | (.error error, after) => (.error error, after) := by
  show (reading.bind f).runWith id serveBytes bytes = _
  rw [runWith_bind]
  simp only [run]
  rcases reading.runWith id serveBytes bytes with ⟨result, after⟩
  cases result <;> rfl

end Reading

/-! ## Repetition -/

/-- Repeats a reading until a region is used up. Every round has to take a byte at least, so that
the repetition ends. -/
def elements {α : Type} (item : Reading α) (region : Bytes) : Except WireError (List α) :=
  if region.isEmpty then .ok []
  else
    match item.run region with
    | (.error error, _) => .error error
    | (.ok value, rest) =>
      if _hLess : rest.length < region.length then
        match elements item rest with
        | .ok values => .ok (value :: values)
        | .error error => .error error
      else .error (.emptyElement rest.length)
termination_by region.length

end Interchange.Wire

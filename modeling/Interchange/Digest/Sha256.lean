import Interchange.Bytes

/-!
# SHA-256

The digest of a byte string. The message is padded to whole blocks of 64 bytes, and each block is
mixed into eight 32-bit words in 64 rounds. The words of the message schedule are produced as the
rounds use them: a window of sixteen words slides along.
-/

namespace Interchange.Sha256

/-- The eight words that are carried from block to block. -/
structure State where
  a : UInt32
  b : UInt32
  c : UInt32
  d : UInt32
  e : UInt32
  f : UInt32
  g : UInt32
  h : UInt32

/-- The words before the first block. -/
def State.initial : State :=
  ⟨0x6a09e667, 0xbb67ae85, 0x3c6ef372, 0xa54ff53a, 0x510e527f, 0x9b05688c, 0x1f83d9ab, 0x5be0cd19⟩

/-- The word-wise sum of two states. -/
def State.add (s t : State) : State :=
  ⟨s.a + t.a, s.b + t.b, s.c + t.c, s.d + t.d, s.e + t.e, s.f + t.f, s.g + t.g, s.h + t.h⟩

/-- The constants of the 64 rounds. -/
def roundConstants : List UInt32 := [
  0x428a2f98, 0x71374491, 0xb5c0fbcf, 0xe9b5dba5, 0x3956c25b, 0x59f111f1, 0x923f82a4, 0xab1c5ed5,
  0xd807aa98, 0x12835b01, 0x243185be, 0x550c7dc3, 0x72be5d74, 0x80deb1fe, 0x9bdc06a7, 0xc19bf174,
  0xe49b69c1, 0xefbe4786, 0x0fc19dc6, 0x240ca1cc, 0x2de92c6f, 0x4a7484aa, 0x5cb0a9dc, 0x76f988da,
  0x983e5152, 0xa831c66d, 0xb00327c8, 0xbf597fc7, 0xc6e00bf3, 0xd5a79147, 0x06ca6351, 0x14292967,
  0x27b70a85, 0x2e1b2138, 0x4d2c6dfc, 0x53380d13, 0x650a7354, 0x766a0abb, 0x81c2c92e, 0x92722c85,
  0xa2bfe8a1, 0xa81a664b, 0xc24b8b70, 0xc76c51a3, 0xd192e819, 0xd6990624, 0xf40e3585, 0x106aa070,
  0x19a4c116, 0x1e376c08, 0x2748774c, 0x34b0bcb5, 0x391c0cb3, 0x4ed8aa4a, 0x5b9cca4f, 0x682e6ff3,
  0x748f82ee, 0x78a5636f, 0x84c87814, 0x8cc70208, 0x90befffa, 0xa4506ceb, 0xbef9a3f7, 0xc67178f2]

/-- Rotation to the right by `n` bits, for `0 < n < 32`. -/
def rotateRight (x n : UInt32) : UInt32 :=
  (x >>> n) ||| (x <<< (32 - n))

/-- One round with its constant and its word of the schedule. -/
def State.round (s : State) (constant word : UInt32) : State :=
  let mixE := rotateRight s.e 6 ^^^ rotateRight s.e 11 ^^^ rotateRight s.e 25
  let choice := (s.e &&& s.f) ^^^ ((~~~ s.e) &&& s.g)
  let t1 := s.h + mixE + choice + constant + word
  let mixA := rotateRight s.a 2 ^^^ rotateRight s.a 13 ^^^ rotateRight s.a 22
  let majority := (s.a &&& s.b) ^^^ (s.a &&& s.c) ^^^ (s.b &&& s.c)
  ⟨t1 + mixA + majority, s.a, s.b, s.c, s.d + t1, s.e, s.f, s.g⟩

/-- The next sixteen words of the schedule. -/
def slide (window : Vector UInt32 16) : Vector UInt32 16 :=
  let x := window[1]
  let y := window[14]
  let low := rotateRight x 7 ^^^ rotateRight x 18 ^^^ (x >>> 3)
  let high := rotateRight y 17 ^^^ rotateRight y 19 ^^^ (y >>> 10)
  let next := window[0] + low + window[9] + high
  Vector.ofFn fun i => if h : i.val + 1 < 16 then window[i.val + 1] else next

/-- The big-endian word that starts at byte `4 * i` of a block. -/
def wordAt (block : Bytes) (i : Nat) : UInt32 :=
  ((block.drop (4 * i)).take 4).foldl (fun word byte => (word <<< 8) ||| byte.toUInt32) 0

/-- Mixes one block of 64 bytes into the state. -/
def State.absorb (s : State) (block : Bytes) : State :=
  let window : Vector UInt32 16 := Vector.ofFn fun i => wordAt block i.val
  let rounds := roundConstants.foldl
    (fun (s, window) constant => (s.round constant window[0], slide window)) (s, window)
  s.add rounds.1

/-- The message, a set bit, zeros up to eight bytes before the end of a block, and the length in
bits. -/
def padded (message : Bytes) : Bytes :=
  message ++ 0x80 :: List.replicate ((119 - message.length % 64) % 64) 0
    ++ (leBytes 8 (8 * message.length)).reverse

/-- The state after all whole blocks of 64 bytes. -/
def absorbAll (s : State) (bytes : Bytes) : State :=
  if 64 ≤ bytes.length then absorbAll (s.absorb (bytes.take 64)) (bytes.drop 64) else s
termination_by bytes.length
decreasing_by simp; omega

/-- The four bytes of a word, highest first. -/
def wordBytes (word : UInt32) : Bytes :=
  (leBytes 4 word.toNat).reverse

/-- The 32 bytes of the digest. -/
def digest (message : Bytes) : Bytes :=
  let s := absorbAll State.initial (padded message)
  [s.a, s.b, s.c, s.d, s.e, s.f, s.g, s.h].flatMap wordBytes

end Interchange.Sha256

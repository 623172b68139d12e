import FlowGate.Hash.Digest

/-!
# SHA-256

## Main definitions

* `Sha256.compress` — the compression function on one block of sixteen words
* `Sha256.hash` — the digest of a message
-/

namespace FlowGate.Sha256

/-- The eight words of the running hash. -/
structure State where
  (a b c d e f g h : UInt32)

/-- The hash of nothing yet. -/
def initial : State :=
  ⟨0x6a09e667, 0xbb67ae85, 0x3c6ef372, 0xa54ff53a, 0x510e527f, 0x9b05688c, 0x1f83d9ab, 0x5be0cd19⟩

/-- The constants of the 64 rounds. -/
def constants : List UInt32 :=
  [0x428a2f98, 0x71374491, 0xb5c0fbcf, 0xe9b5dba5, 0x3956c25b, 0x59f111f1, 0x923f82a4, 0xab1c5ed5,
   0xd807aa98, 0x12835b01, 0x243185be, 0x550c7dc3, 0x72be5d74, 0x80deb1fe, 0x9bdc06a7, 0xc19bf174,
   0xe49b69c1, 0xefbe4786, 0x0fc19dc6, 0x240ca1cc, 0x2de92c6f, 0x4a7484aa, 0x5cb0a9dc, 0x76f988da,
   0x983e5152, 0xa831c66d, 0xb00327c8, 0xbf597fc7, 0xc6e00bf3, 0xd5a79147, 0x06ca6351, 0x14292967,
   0x27b70a85, 0x2e1b2138, 0x4d2c6dfc, 0x53380d13, 0x650a7354, 0x766a0abb, 0x81c2c92e, 0x92722c85,
   0xa2bfe8a1, 0xa81a664b, 0xc24b8b70, 0xc76c51a3, 0xd192e819, 0xd6990624, 0xf40e3585, 0x106aa070,
   0x19a4c116, 0x1e376c08, 0x2748774c, 0x34b0bcb5, 0x391c0cb3, 0x4ed8aa4a, 0x5b9cca4f, 0x682e6ff3,
   0x748f82ee, 0x78a5636f, 0x84c87814, 0x8cc70208, 0x90befffa, 0xa4506ceb, 0xbef9a3f7, 0xc67178f2]

/-- Rotates a word to the right. -/
@[inline] def rotate (x n : UInt32) : UInt32 := (x >>> n) ||| (x <<< (32 - n))

/-- The next word of the message schedule. -/
def nextWord (w : Array UInt32) : UInt32 :=
  let n := w.size
  let x := w.getD (n - 15) 0
  let y := w.getD (n - 2) 0
  let s₀ := rotate x 7 ^^^ rotate x 18 ^^^ (x >>> 3)
  let s₁ := rotate y 17 ^^^ rotate y 19 ^^^ (y >>> 10)
  w.getD (n - 16) 0 + s₀ + w.getD (n - 7) 0 + s₁

/-- A block of sixteen words extended to the words of all 64 rounds. -/
def schedule (block : Array UInt32) : Array UInt32 :=
  (List.range 48).foldl (fun w _ => w.push (nextWord w)) block

/-- One round with its constant and schedule word. -/
def round (s : State) (k w : UInt32) : State :=
  let s₁ := rotate s.e 6 ^^^ rotate s.e 11 ^^^ rotate s.e 25
  let choice := (s.e &&& s.f) ^^^ (~~~ s.e &&& s.g)
  let t₁ := s.h + s₁ + choice + k + w
  let s₀ := rotate s.a 2 ^^^ rotate s.a 13 ^^^ rotate s.a 22
  let majority := (s.a &&& s.b) ^^^ (s.a &&& s.c) ^^^ (s.b &&& s.c)
  ⟨t₁ + (s₀ + majority), s.a, s.b, s.c, s.d + t₁, s.e, s.f, s.g⟩

/-- Takes a block into the running hash. -/
def compress (s : State) (block : Array UInt32) : State :=
  let t := (constants.zip (schedule block).toList).foldl (fun t (k, w) => round t k w) s
  ⟨s.a + t.a, s.b + t.b, s.c + t.c, s.d + t.d, s.e + t.e, s.f + t.f, s.g + t.g, s.h + t.h⟩

/-- The message followed by a one bit, zeros and its length in bits, in whole blocks. -/
def pad (message : Bytes) : Bytes :=
  let size := message.length
  -- The one bit takes a byte and the length eight, and the whole fills its last block.
  let zeros := (119 - size % 64) % 64
  message ++ 0x80 :: List.replicate zeros 0 ++ (Bytes.ofNat 8 (8 * size)).reverse

/-- The word of four bytes, most significant first. -/
def word (bs : Bytes) : UInt32 := UInt32.ofNat (Bytes.toNat bs.reverse)

/-- The words of a block. -/
def blockWords (bs : Bytes) : Array UInt32 :=
  (Array.range 16).map fun i => word ((bs.drop (4 * i)).take 4)

/-- Takes the given number of blocks into the running hash. -/
def absorb : (blocks : Nat) → State → Bytes → State
  | 0, s, _ => s
  | n + 1, s, bs => absorb n (compress s (blockWords (bs.take 64))) (bs.drop 64)

/-- The digest of a message. -/
def hash (message : Bytes) : Digest :=
  let padded := pad message
  let s := absorb (padded.length / 64) initial padded
  .ofWords Digest.bigEndian Digest.length_bigEndian s.a s.b s.c s.d s.e s.f s.g s.h

end FlowGate.Sha256

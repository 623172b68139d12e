import FlowGate.Flow.Odds
import FlowGate.Flow.Prefix
import FlowGate.Machine.Operation

/-!
# Flow puzzles

An input and a nonce make a message, whose digest selects a flow: the low bits of its first word are
the flow id, if they are below the size of the id space.

## Main definitions

* `Flow.message` — the message of an input and a nonce
* `Selection` — a nonce with the digest and the flow id that it gives
* `Puzzle` — an input with the widths of prefix and flow id
* `Puzzle.attempt` — what a nonce gives
* `Flow.select` — the flow that an input and a nonce select
-/

namespace FlowGate

namespace Flow

/-- The largest nonce. -/
def maxNonce : Nat := 2 ^ 64 - 1

/-- The message of an input and a nonce: four and eight bytes, least significant first. -/
def message (input nonce : Nat) : Bytes :=
  Bytes.ofNat 4 input ++ Bytes.ofNat 8 nonce

@[simp] theorem length_message (input nonce : Nat) : (message input nonce).length = 12 := by
  simp [message]

/-- The message of an input of 32 bits and a nonce of 64 bits. -/
def message? (input nonce : Int) : Except Error Bytes := do
  ensure (0 ≤ input && input < 2 ^ 32) (.invalid (.tooWide "input" 32))
  ensure (0 ≤ nonce && nonce ≤ maxNonce) (.invalid (.tooWide "nonce" 64))
  return message input.toNat nonce.toNat

/-- The mask of a prefix width. -/
def mask? (b : Int) : Except Error Nat := do
  ensure (0 ≤ b) (.invalid (.negative "b_bits"))
  return mask b.toNat

end Flow

/-- A nonce with the digest of its message and the flow id that the digest selects. -/
structure Selection where
  nonce : Nat
  digest : Digest
  flowId : Nat
  deriving DecidableEq

/-- What a nonce gives: a flow, or a value outside the id space. -/
inductive Attempt
  | hit (found : Selection)
  | miss (label : Nat) (digest : Digest)
  deriving DecidableEq

/-- The search for a nonce: the input, the width of the prefix and the width of the flow ids. -/
structure Puzzle where
  (input b l : Nat)
  deriving DecidableEq, Repr

namespace Puzzle

/-- The size of the id space. -/
def idSpace (p : Puzzle) : Nat := 2 ^ p.l

/-- The low bits of the first word of a digest, as many as the prefix has. -/
def labelOf (p : Puzzle) (digest : Digest) : Nat :=
  Bytes.toNat (digest.bytes.take 4) &&& Flow.mask p.b

/-- What a nonce gives. -/
def attempt (hash : Bytes → Digest) (p : Puzzle) (nonce : Nat) : Attempt :=
  let digest := hash (Flow.message p.input nonce)
  let label := p.labelOf digest
  if label < p.idSpace then .hit ⟨nonce, digest, label⟩ else .miss label digest

/-- Whether a nonce selects a flow. -/
def IsValid (hash : Bytes → Digest) (p : Puzzle) (nonce : Nat) : Prop :=
  p.labelOf (hash (Flow.message p.input nonce)) < p.idSpace

instance (hash : Bytes → Digest) (p : Puzzle) : DecidablePred (p.IsValid hash) := fun _ =>
  inferInstanceAs (Decidable (_ < _))

/-- A nonce is a hit if and only if it selects a flow. -/
theorem attempt_eq_hit_iff {hash : Bytes → Digest} {p : Puzzle} {nonce : Nat} {s : Selection} :
    p.attempt hash nonce = .hit s ↔ p.IsValid hash nonce ∧
      s = ⟨nonce, hash (Flow.message p.input nonce),
        p.labelOf (hash (Flow.message p.input nonce))⟩ := by
  unfold attempt IsValid
  by_cases h : p.labelOf (hash (Flow.message p.input nonce)) < p.idSpace
  · simp [h, eq_comm]
  · simp [h]

end Puzzle

/-- The checks that come before an attempt: the width of the flow ids, then input and nonce, and the
width of the prefix last. -/
def Flow.checkPuzzle (input nonce b l : Int) : Except Error Puzzle := do
  ensure (0 ≤ l) (.invalid (.negative "l_bits"))
  let _ ← Flow.message? input nonce
  let _ ← Flow.mask? b
  return ⟨input.toNat, b.toNat, l.toNat⟩

/-- The flow that an input and a nonce select. -/
def Flow.select (hash : Bytes → Digest) (input nonce b l : Int) : Except Error Selection := do
  let p ← Flow.checkPuzzle input nonce b l
  match p.attempt hash nonce.toNat with
  | .hit found => return found
  | .miss label digest => throw (.outOfRange label digest p.idSpace)

end FlowGate

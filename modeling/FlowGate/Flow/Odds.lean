import FlowGate.Power

/-!
# The odds of a nonce

A nonce is valid if the low `b` bits of a 32-bit word of the digest are below `2 ^ l`.

## Main definitions

* `Flow.mask` — the word whose set bits are the ones that count
* `Flow.expectedAttempts` — the reciprocal of the share of valid words
-/

namespace FlowGate.Flow

/-- The mask of the low `b` bits of a word of 32 bits. -/
def mask (b : Nat) : Nat :=
  if b ≥ 32 then 2 ^ 32 - 1 else 2 ^ b - 1

/-- The expected number of nonces tried: two to the power `b - l`, and one if `l` is not below
`b`. -/
def expectedAttempts (b l : Int) : Nat :=
  2 ^ (b - l).toNat

end FlowGate.Flow

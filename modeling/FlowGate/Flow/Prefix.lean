import FlowGate.Bytes.Nibbles
import FlowGate.Error

/-!
# The prefix of a flow id

A flow id is a word of 32 bits. A script sees it as the leading nibbles of its little-endian bytes,
as many as the prefix width has, which has to be a whole number of bytes.

## Main definitions

* `Flow.wholeBytes` — the number of bytes of a prefix width
* `Flow.idBytes`, `Flow.idNibbles` — the leading bytes and nibbles of a flow id
* `Flow.digestNibbles` — the leading nibbles of a digest
-/

namespace FlowGate.Flow

/-- The number of bytes of a prefix width, a multiple of 8 between 0 and 32. -/
def wholeBytes (b : Int) : Except Error Nat := do
  ensure (0 ≤ b && b ≤ 32) (.encoding .widthRange)
  ensure (b % 8 == 0) (.encoding .widthMultiple)
  return (b / 8).toNat

/-- The leading bytes of a flow id. -/
def idBytes (bytes : Nat) (flowId : Int) : Except Error Bytes := do
  ensure (0 ≤ flowId && flowId < 2 ^ 32) (.encoding .flowIdRange)
  return (Bytes.ofNat 4 flowId.toNat).take bytes

/-- The leading nibbles of a flow id for a prefix width. -/
def idNibbles (flowId b : Int) : Except Error (List Nat) := do
  return (← idBytes (← wholeBytes b) flowId).toNibbles

/-- The leading nibbles of a digest. -/
def digestNibbles (bytes : Nat) (digest : Bytes) : Except Error (List Nat) := do
  ensure (bytes ≤ digest.length) (.invalid .digestTooShort)
  return Bytes.toNibbles (digest.take bytes)

end FlowGate.Flow

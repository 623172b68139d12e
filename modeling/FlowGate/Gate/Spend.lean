import FlowGate.Flow.Puzzle
import FlowGate.Gate.Parts
import FlowGate.Machine.Run

/-!
# Spending from a gate

A witness pushes the message in limbs, the input as a number, and a signature. It spends a locking
script if witness and locking script, run as one script, leave a single true item.

## Main definitions

* `Gate.witness` — the witness of an input, a nonce and a signature
* `Gate.spends` — whether a witness spends a locking script
-/

namespace FlowGate.Gate

/-- The witness of an input and a nonce with a signature, the message pushed in limbs of the given
length. -/
def witness (t : OpTable) (input nonce : Int) (signature : Bytes) (limbLength : Int) :
    Except Error Script := do
  let message ← Flow.message? input nonce
  let limbs ← Script.ofCode t (← Fragment.pushMessage message limbLength)
  return limbs ++ (← ofSymbols t [toString input, "x" ++ Hex.encode signature])

/-- Whether a witness spends a locking script under the message that signatures have to sign. -/
def spends (p : Primitives) (t : OpTable) (locking witness : Bytes) (sighash : Value) : Bool :=
  authorizes p t (witness ++ locking) (.ofSighash sighash)

end FlowGate.Gate

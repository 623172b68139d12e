import FlowGate.Error
import FlowGate.Hash.Sha256

/-!
# Messages to sign

A toy message to sign commits to a locking script and a value.

## Main definitions

* `Sighash.preimage` — what is hashed for a locking script and a value
* `Sighash.ofOutput` — the message to sign for them
* `Sighash.ofSeed` — a message to sign made from arbitrary bytes
-/

namespace FlowGate.Sighash

/-- A locking script followed by a value in eight bytes, least significant first. -/
def preimage (code : Bytes) (value : Nat) : Bytes :=
  code ++ Bytes.ofNat 8 value

/-- The message to sign for a locking script and a value of 64 bits. -/
def ofOutput (code : Bytes) (value : Int) : Except Error Digest := do
  ensure (0 ≤ value && value < 2 ^ 64) (.invalid (.tooWide "value" 64))
  return Sha256.hash (preimage code value.toNat)

/-- A message to sign made from arbitrary bytes. -/
def ofSeed (seed : Bytes) : Digest := Sha256.hash seed

end FlowGate.Sighash

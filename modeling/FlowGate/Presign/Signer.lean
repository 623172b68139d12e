import FlowGate.Error
import FlowGate.Signature.Ed25519

/-!
# Signers

## Main definitions

* `Signer` — a public key with the means to sign
* `Signer.ofSeed` — the signer of a seed of 32 bytes
-/

namespace FlowGate

/-- A public key with the means to sign messages. -/
structure Signer where
  key : Bytes
  sign : Bytes → Bytes

namespace Signer

/-- The length of a seed. -/
def seedLength : Nat := 32

/-- The signer of a seed of 32 bytes. -/
def ofSeed (seed : Bytes) : Except Error Signer := do
  ensure (seed.length == seedLength) (.invalid (.wrongLength "seed" seedLength))
  return ⟨Ed25519.publicKey seed, Ed25519.sign seed⟩

end Signer

end FlowGate

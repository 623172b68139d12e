import FlowGate.Hash.Blake3
import FlowGate.Machine.Operation
import FlowGate.Signature.Ed25519

/-!
# The primitives in use

## Main definitions

* `Primitives.standard` — BLAKE3 and Ed25519
-/

namespace FlowGate

/-- BLAKE3 as the hash function and Ed25519 as the signature scheme. -/
def Primitives.standard : Primitives := ⟨Blake3.hash, Ed25519.verify⟩

end FlowGate

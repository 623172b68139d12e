import FlowGate.Gate.Sighash
import FlowGate.Machine.Operation
import FlowGate.Presign.Signer

/-!
# Presigned steps

A step locks a value to a script and collects signatures over its message. A signature is stored
only if it verifies.

## Main definitions

* `Template` — a locking script and a value
* `PresignedStep` — a template, the message to sign, and the signatures so far
* `PresignedStep.addSignature`, `PresignedStep.signAll` — storing signatures that verify
* `PresignedStep.isComplete` — whether every signer has signed
-/

namespace FlowGate

/-- What a step commits to: a locking script and a value. -/
structure Template where
  code : Bytes
  value : Int
  deriving DecidableEq, Repr

/-- A step with the signatures stored for it, by key. -/
structure PresignedStep where
  template : Template
  sighash : Bytes
  signatures : List (Bytes × Bytes)
  code : Bytes
  deriving DecidableEq, Repr

namespace PresignedStep

variable (p : Primitives)

/-- A step without signatures. -/
def unsigned (code : Bytes) (value : Int) (sighash : Bytes) : PresignedStep :=
  ⟨⟨code, value⟩, sighash, [], code⟩

/-- The step of a locking script and a value, whose message commits to both. -/
def ofOutput (code : Bytes) (value : Int) : Except Error PresignedStep := do
  return unsigned code value (← Sighash.ofOutput code value).bytes

/-- The signature stored for a key. -/
def signature? (s : PresignedStep) (key : Bytes) : Option Bytes :=
  s.signatures.lookup key

/-- Stores a signature for a key, in place of any stored before. -/
def store (s : PresignedStep) (key signature : Bytes) : PresignedStep :=
  { s with signatures := (key, signature) :: s.signatures.filter fun entry => entry.1 != key }

/-- Stores a signature that verifies over the message of the step. -/
def addSignature (s : PresignedStep) (key signature : Bytes) : Except Error PresignedStep := do
  ensure (p.verify key s.sighash signature) (.invalid .badSignature)
  return s.store key signature

/-- Adds the signature of each signer in turn, up to the first that does not verify. -/
def signAll (s : PresignedStep) : List Signer → Option Error × PresignedStep
  | [] => (none, s)
  | signer :: signers =>
    match s.addSignature p signer.key (signer.sign s.sighash) with
    | .ok s => signAll s signers
    | .error fault => (some fault, s)

/-- Whether every signer has stored a signature that verifies. -/
def isComplete (s : PresignedStep) (signers : List Signer) : Bool :=
  signers.all fun signer =>
    match s.signature? signer.key with
    | some signature => p.verify signer.key s.sighash signature
    | none => false

/-- The keys that have signed. -/
def keys (s : PresignedStep) : List Bytes := s.signatures.map Prod.fst

end PresignedStep

end FlowGate

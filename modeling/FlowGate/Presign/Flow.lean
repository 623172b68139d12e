import FlowGate.Flow.Prefix
import FlowGate.Gate.LockingCache
import FlowGate.Presign.Config
import FlowGate.Presign.Step

/-!
# Presigned flows

A flow is presigned by signing its two steps, one for each gate role.

## Main definitions

* `PresignedFlow` — a flow id with its steps
* `PresignedFlow.isActive` — whether the flow has steps and every signer has signed all of them
* `Presign.step` — the unsigned step of a gate
* `Presign.flow` — the signed steps of a flow
-/

namespace FlowGate

/-- A flow id with its steps. -/
structure PresignedFlow where
  flowId : Int
  steps : List PresignedStep
  deriving DecidableEq, Repr

namespace PresignedFlow

/-- A flow is active once it has steps and every signer has signed all of them. -/
def isActive (p : Primitives) (f : PresignedFlow) (signers : List Signer) : Bool :=
  !f.steps.isEmpty && f.steps.all fun s => s.isComplete p signers

end PresignedFlow

namespace Presign

/-- The unsigned step of a gate: its locking script, and the message that commits to the script and
a value. The value is given as the outcome of reading it. -/
def step (t : OpTable) (cache : LockingCache) (args : LockingArgs) (value : Except Error Int) :
    Except Error PresignedStep × LockingCache :=
  match cache.build t args with
  | (.ok script, cache) => (value.bind (PresignedStep.ofOutput script.code), cache)
  | (.error fault, cache) => (.error fault, cache)

/-- The signed step of a gate. -/
def signedStep (p : Primitives) (t : OpTable) (cache : LockingCache) (args : LockingArgs)
    (value : Except Error Int) (signers : List Signer) : Except Error PresignedStep × LockingCache :=
  match step t cache args value with
  | (.ok s, cache) =>
    match s.signAll p signers with
    | (none, s) => (.ok s, cache)
    -- The script was built and stays remembered, though the step is lost.
    | (some fault, _) => (.error fault, cache)
  | (.error fault, cache) => (.error fault, cache)

/-- The parameters are checked before the flow id, and the flow id before the signers. The nibbles of
the flow id are those that its locking scripts expect. -/
def checkFlow (config : Config) (flowId : Except Error Int) (signers : List Signer) :
    Except Error (Int × List Nat) := do
  config.validate
  let flowId ← flowId
  ensure (0 ≤ flowId && flowId < 2 ^ config.l.toNat) (.invalid .flowIdRange)
  ensure (!signers.isEmpty) (.invalid .noSigners)
  return (flowId, ← Flow.idNibbles flowId config.b)

/-- Builds and signs the steps of a flow, first `f1`, then `f2`. -/
def flow (p : Primitives) (t : OpTable) (cache : LockingCache) (config : Config)
    (flowId : Except Error Int) (signers : List Signer) (key : Value) (value : Except Error Int)
    (fragment : Fragment) : Except Error PresignedFlow × LockingCache :=
  match checkFlow config flowId signers with
  | .error fault => (.error fault, cache)
  | .ok (flowId, nibbles) =>
    -- The two gates differ in nothing but the role.
    let args (role : GateRole) : LockingArgs :=
      ⟨role, key, nibbles.map fun (n : Nat) => .int n, fragment⟩
    match signedStep p t cache (args .f1) value signers with
    | (.error fault, cache) => (.error fault, cache)
    | (.ok first, cache) =>
      match signedStep p t cache (args .f2) value signers with
      | (.error fault, cache) => (.error fault, cache)
      | (.ok second, cache) => (.ok ⟨flowId, [first, second]⟩, cache)

end Presign

end FlowGate

import FlowGate.Checked.Flow
import FlowGate.Checked.Gate
import FlowGate.Presign.Flow

/-!
# Presigning for values of any kind

Signers, steps and flows for arguments whose kind is checked when they are used, and the desk at
which steps are prepared. Steps lie on the desk in the order in which they were made; a flow under
preparation refers to them by position, so a signature on a step counts in every flow that has it.

## Main definitions

* `Checked.signer`, `Checked.signature`, `Checked.addSignature` — signers, what they sign, and
  signatures on a step
* `Checked.validate`, `Checked.config` — parameters
* `Desk` — the steps on the desk and the flow under preparation
* `Desk.presign`, `Desk.make`, `Desk.put` — new steps
* `Desk.sign`, `Desk.addSignature`, `Desk.storeSignature` — signatures on a step
* `Desk.enlist`, `Desk.isActive` — the flow
-/

namespace FlowGate

namespace Checked

/-- The signer of a seed. -/
def signer (seed : Value) : Except Error Signer := do
  Signer.ofSeed (← seed.toBytes "seed")

/-- The signature of a message, which may be a list of bytes. -/
def signature (s : Signer) (message : Value) : Except Error Bytes := do
  -- What has no length fails before the kinds are told apart.
  let _ ← message.length
  match message with
  | .text _ => throw (.wrongType .textNotBytes)
  | message => return s.sign (← message.asBytes)

/-- Adds a signature that verifies to a step; the kinds of key and signature are checked first. -/
def addSignature (p : Primitives) (s : PresignedStep) (key signature : Value) :
    Except Error PresignedStep := do
  let key ← key.toBytes "pubkey"
  let signature ← signature.toBytes "signature"
  s.addSignature p key signature

/-- The least of a number of values, the first of those that are least. -/
def least : Value → List Value → Except Error Value
  | v, [] => .ok v
  | v, w :: rest => do least (if ← w.compare .less v then w else v) rest

/-- Whether a number is a multiple of eight. -/
def isMultipleOfEight (x : Number) : Bool :=
  match x.extent with
  | .ratio n d => n % (8 * d) == 0
  | _ => false

/-- Refuses parameters that the protocol does not admit, in the order of `Config.validate`. -/
def validate (n m l b k : Value) : Except Error Unit := do
  Value.demand .atMost b (.int 32) (.encoding .configWidthRange)
  ensure (b.number?.any isMultipleOfEight) (.encoding .configWidthMultiple)
  Value.demand .atMost l b (.invalid .idSpaceTooLarge)
  Value.demand .atLeast (← least n [m, l, b, k]) (.int 0) (.invalid (.negative "parameters"))

/-- The number of flow ids of a width, which may be a number in floating point. -/
def idSpace (l : Value) : Value :=
  match l.number? with
  | some (.float pattern) => .float (Float.pow 2 (Float.ofBits pattern)).toBits
  | some (.whole n) => .int (2 ^ n.toNat)
  | none => .none

/-- The parameters that a value is, checked together with what they are to be used for: after the
parameters the flow id, then the signers, and then the width of the prefix. -/
def config (parameters : Value) (flowId : Except Error Int) (signers : List Signer) :
    Except Error Config :=
  match parameters with
  | .config (.int n) (.int m) (.int l) (.int b) (.int k) => .ok ⟨n, m, l, b, k⟩
  | .config n m l b k => do
    validate n m l b k
    let flowId ← flowId
    ensure (0 ≤ flowId) (.invalid .flowIdRange)
    Value.demand .less (.int flowId) (idSpace l) (.invalid .flowIdRange)
    ensure (!signers.isEmpty) (.invalid .noSigners)
    let b ← b.toInt "b_bits"
    -- What follows needs only the width of the prefix.
    return ⟨0, 0, b, b, 0⟩
  | v => .error (.lacks v.kindName "validate")

end Checked

/-- The steps on the desk, the flow id of the flow under preparation and the positions of its
steps, with the locking scripts that are remembered. -/
structure Desk where
  steps : List PresignedStep
  flowId : Int
  members : List Nat
  scripts : LockingCache

namespace Desk

/-- An empty desk with an empty flow. -/
def empty (flowId : Int) : Desk := ⟨[], flowId, [], .empty⟩

/-- The flow under preparation. -/
def flow (d : Desk) : PresignedFlow :=
  ⟨d.flowId, d.members.filterMap fun i => d.steps[i]?⟩

/-- Builds and signs a flow. If it succeeds, its steps replace those on the desk, and it becomes the
flow under preparation. -/
def presign (p : Primitives) (t : OpTable) (d : Desk) (config flowId : Value)
    (signers : List Signer) (key value fragment : Value) : Except Error PresignedFlow × Desk :=
  let flowId := flowId.toInt "flow_id"
  let checked : Except Error (Config × Fragment) := do
    let config ← Checked.config config flowId signers
    -- The fragment is asked for its order by the first script, behind all checks of the flow.
    let _ ← Presign.checkFlow config flowId signers
    return (config, ← Checked.fragmentOrDefault "nibble_order" fragment)
  match checked with
  | .error fault => (.error fault, d)
  | .ok (config, fragment) =>
    match Presign.flow p t d.scripts config flowId signers key (value.toInt "value") fragment with
    | (.ok flow, scripts) =>
      (.ok flow, ⟨flow.steps, flow.flowId, List.range flow.steps.length, scripts⟩)
    | (.error fault, scripts) => (.error fault, { d with scripts })

/-- Puts a step on the desk. -/
def put (d : Desk) (s : PresignedStep) : Desk := { d with steps := d.steps ++ [s] }

/-- Makes the unsigned step of a gate and puts it on the desk. -/
def make (t : OpTable) (d : Desk) (role key nibbles value fragment : Value) :
    Except Error PresignedStep × Desk :=
  match Checked.lockingArgs role key nibbles fragment with
  | .error fault => (.error fault, d)
  | .ok args =>
    match Presign.step t d.scripts args (value.toInt "value") with
    | (.ok s, scripts) => (.ok s, { d with scripts }.put s)
    | (.error fault, scripts) => (.error fault, { d with scripts })

/-- Replaces the step at a position. -/
def replace (d : Desk) (i : Nat) (s : PresignedStep) : Desk := { d with steps := d.steps.set i s }

/-- Adds the signature of each signer to a step, up to the first that does not verify. -/
def sign (p : Primitives) (d : Desk) (i : Nat) (s : PresignedStep) (signers : List Signer) :
    Except Error PresignedStep × Desk :=
  match s.signAll p signers with
  | (none, s) => (.ok s, d.replace i s)
  | (some fault, s) => (.error fault, d.replace i s)

/-- Adds a signature that verifies to a step. -/
def addSignature (p : Primitives) (d : Desk) (i : Nat) (s : PresignedStep) (key signature : Value) :
    Except Error Desk := do
  return d.replace i (← Checked.addSignature p s key signature)

/-- Stores a signature with a step without checking it. What is no byte string does not verify, just
as the empty one does not, and is stored as that. -/
def storeSignature (d : Desk) (i : Nat) (s : PresignedStep) (key signature : Value) :
    Except Error Desk := do
  let signature :=
    match signature with
    | .bytes bs => bs
    | _ => []
  return d.replace i (s.store (← key.toBytes "pubkey") signature)

/-- Takes a step of the desk into the flow. A negative position counts from the end. -/
def enlist (d : Desk) (step : Value) : Except Error Desk :=
  match step with
  | .int i =>
    -- As for any list, a position below zero is one from the end.
    let position := if i < 0 then i + d.steps.length else i
    if 0 ≤ position ∧ position < d.steps.length then
      .ok { d with members := d.members ++ [position.toNat] }
    else .error (.badIndex .outsideList)
  | _ => .error (.wrongType (.notStep "step"))

/-- Whether the flow is active for the signers. -/
def isActive (p : Primitives) (d : Desk) (signers : List Signer) : Bool :=
  d.flow.isActive p signers

/-- Whether a signer's witness of an input and a nonce spends a step. -/
def spends (p : Primitives) (t : OpTable) (s : PresignedStep) (signer : Signer)
    (input nonce : Value) : Except Error Bool := do
  let witness ← Checked.witness t input nonce (.bytes (signer.sign s.sighash)) .none
    (.int Fragment.limbLength)
  return Gate.spends p t s.code witness.code (.bytes s.sighash)

end Desk

end FlowGate

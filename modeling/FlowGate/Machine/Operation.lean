import FlowGate.Machine.Cache
import FlowGate.Machine.Tape
import FlowGate.Bytes.Nibbles

/-!
# Operations

What each opcode does to a machine: a tape, a stack and a cache. A step that fails leaves the
machine as it was when it failed, with what it took already taken.

## Main definitions

* `Primitives` — the hash function and the signature check that operations call
* `Operand` — the bytes of the tape that belong to an instruction
* `Machine`, `Exec` — the state of a run, and steps that may fail
* `Operation` — the operations
* `Operation.run` — what an operation does
-/

namespace FlowGate

/-- The hash function, and the check of a signature over a message by a key, that scripts use. -/
structure Primitives where
  hash : Bytes → Digest
  verify : (key message signature : Bytes) → Bool

namespace Primitives

/-- The length of a key. -/
def keyLength : Nat := 32

/-- The length of a signature. -/
def signatureLength : Nat := 64

/-- Whether a value is a message that the signature signs. Only byte strings are messages. -/
def verifyValue (p : Primitives) (key : Bytes) (message : Value) (signature : Bytes) : Bool :=
  match message with
  | .bytes message => p.verify key message signature
  | _ => false

end Primitives

/-- The part of an instruction behind its opcode: nothing, a fixed number of bytes, or a number of
bytes that is itself written in `width` bytes. -/
inductive Operand
  | none
  | fixed (size : Nat)
  | counted (width : Nat)
  deriving DecidableEq, Repr

/-- Cuts an operand from the start of a byte string. -/
def Operand.split? : Operand → Bytes → Option (Bytes × Bytes)
  | none, code => some ([], code)
  | fixed size, code =>
    let data := code.take size
    if data.length = size then some (data, code.drop size) else Option.none
  | counted width, code =>
    -- Either part may be cut short by the end of the code, and then there is no operand.
    let count := code.take width
    let data := (code.drop width).take (Bytes.toNat count)
    if count.length = width ∧ data.length = Bytes.toNat count then
      some (data, code.drop (width + Bytes.toNat count))
    else Option.none

/-- The rest behind an operand is not longer than the whole. -/
theorem Operand.length_le_of_split? {o : Operand} {code data rest : Bytes}
    (h : o.split? code = some (data, rest)) : rest.length ≤ code.length := by
  cases o with
  | none =>
    simp only [split?, Option.some.injEq, Prod.mk.injEq] at h
    simp [← h.2]
  | fixed size =>
    simp only [split?, Option.ite_none_right_eq_some, Option.some.injEq, Prod.mk.injEq] at h
    simp [← h.2.2, List.length_drop]
  | counted width =>
    simp only [split?, Option.ite_none_right_eq_some, Option.some.injEq, Prod.mk.injEq] at h
    simp [← h.2.2, List.length_drop]

/-- The state of a run. -/
structure Machine where
  tape : Tape
  stack : Stack
  cache : Cache

/-- A step of a run, which may fail and then leaves the state it had reached. -/
abbrev Exec := EStateM ExecFault Machine

namespace Exec

/-- Fails. -/
def fail {α : Type} (fault : ExecFault) : Exec α := fun m => .error fault m

/-- Fails unless the condition holds. -/
def require (condition : Bool) (fault : ExecFault) : Exec Unit :=
  if condition then pure () else fail fault

/-- A result that does not depend on the state. -/
def ofExcept {α : Type} (result : Except ExecFault α) : Exec α := fun m =>
  match result with
  | .ok a => .ok a m
  | .error fault => .error fault m

/-- Reads from the tape. -/
def read (size : Nat) : Exec Bytes := fun m =>
  match m.tape.read size with
  | .ok (bytes, tape) => .ok bytes { m with tape }
  | .error fault => .error fault m

/-- Puts an item onto the stack. -/
def push (item : Bytes) : Exec Unit := fun m =>
  match m.stack.push item with
  | .ok stack => .ok () { m with stack }
  | .error fault => .error fault m

/-- Takes the item on top of the stack. -/
def pop : Exec Bytes := fun m =>
  match m.stack.pop with
  | .ok (item, stack) => .ok item { m with stack }
  | .error fault => .error fault m

/-- Takes a number from the stack. -/
def popNumber : Exec Int := do
  ofExcept (ScriptNumber.decode ScriptNumber.operandSize (← pop))

/-- Makes an alternate stack if there is none. -/
def openAlt : Exec Unit := fun m => .ok () { m with cache := m.cache.openAlt }

/-- Puts an item onto the alternate stack. -/
def pushAlt (item : Bytes) : Exec Unit := fun m =>
  match m.cache.altStack.push item with
  | .ok alt => .ok () { m with cache := { m.cache with alt := some alt } }
  | .error fault => .error fault m

/-- Takes the item on top of the alternate stack. -/
def popAlt : Exec Bytes := fun m =>
  match m.cache.altStack.pop with
  | .ok (item, alt) => .ok item { m with cache := { m.cache with alt := some alt } }
  | .error _ => .error .emptyAltStack m

/-- The number of items on the stack. -/
def depth : Exec Nat := fun m => .ok m.stack.items.length m

/-- The message that signatures are checked against. -/
def sighash : Exec Value := fun m =>
  match m.cache.sighash? with
  | some message => .ok message m
  | none => .error .noSighash m

/-- Takes items from the stack and puts each in front of the bytes of those taken before. -/
def popLimbs : (count : Nat) → Bytes → Exec Bytes
  | 0, message => pure message
  | count + 1, message => do popLimbs count ((← pop) ++ message)

/-- Takes the key, then the signature, and checks it. -/
def checkSig (p : Primitives) : Exec Unit := do
  let key ← pop
  let signature ← pop
  -- Both items are gone by now, whatever the key looks like.
  require (key.length == Primitives.keyLength) .keyLength
  let message ← sighash
  push (Truth.encode (p.verifyValue key message signature))

/-- Takes two numbers, the second operand first, and puts the result of a comparison. -/
def compare (relation : Int → Int → Bool) : Exec Unit := do
  let b ← popNumber
  let a ← popNumber
  push (Truth.encode (relation a b))

/-- Takes the order flag, the limb length and the message length, then the limbs, the last one
first, and puts the nibbles of the digest of the message. -/
def digest (p : Primitives) : Exec Unit := do
  let flag ← popNumber
  let limbLength ← popNumber
  let messageLength ← popNumber
  -- All three numbers are off the stack before any of them is judged.
  match NibbleOrder.ofFlag? flag with
  | none => fail .orderFlag
  | some order => do
    require (limbLength > 0) .limbLength
    require (messageLength > 0) .messageLength
    -- The last limb may be shorter than the others.
    let limbs := (messageLength + limbLength - 1) / limbLength
    let message ← popLimbs limbs.toNat []
    require ((message.length : Int) == messageLength) .lengthMismatch
    (order.arrange (p.hash message).bytes.toNibbles).forM fun n => push (ScriptNumber.encode n)

end Exec

/-- The operations of the machine. -/
inductive Operation
  | push (item : Bytes)
  | pushOperand (operand : Operand)
  | nop
  | verify
  | return
  | toAlt
  | fromAlt
  | depth
  | drop
  | dup
  | swap
  | equal
  | equalVerify
  | lessThan
  | greaterThan
  | checkSig
  | checkSigVerify
  | digest
  | unassigned (code : Nat)
  deriving DecidableEq, Repr

namespace Operation

/-- The part of the tape that an operation reads. -/
def operand : Operation → Operand
  | pushOperand operand => operand
  | _ => .none

/-- Reads an operand from the tape. -/
def readOperand : Operand → Exec Bytes
  | .none => pure []
  | .fixed size => Exec.read size
  | .counted width => do Exec.read (Bytes.toNat (← Exec.read width))

/-- What an operation does once its operand is read. -/
def act (p : Primitives) (data : Bytes) : Operation → Exec Unit
  | push item => Exec.push item
  | pushOperand _ => Exec.push data
  | nop => pure ()
  | verify => do Exec.require (Truth.holds (← Exec.pop)) .verifyFailed
  | «return» => Exec.fail .returned
  | toAlt => do
    -- The alternate stack is there from now on, even if there is no item to put onto it.
    Exec.openAlt
    Exec.pushAlt (← Exec.pop)
  | fromAlt => do
    Exec.openAlt
    Exec.push (← Exec.popAlt)
  | depth => do Exec.push (ScriptNumber.encode (← Exec.depth))
  | drop => do let _ ← Exec.pop
  | dup => do
    let item ← Exec.pop
    Exec.push item
    Exec.push item
  | swap => do
    let first ← Exec.pop
    let second ← Exec.pop
    Exec.push first
    Exec.push second
  | equal => do
    let first ← Exec.pop
    let second ← Exec.pop
    Exec.push (Truth.encode (first == second))
  | equalVerify => do
    let first ← Exec.pop
    let second ← Exec.pop
    Exec.require (first == second) .equalVerifyFailed
  | lessThan => Exec.compare fun a b => a < b
  | greaterThan => Exec.compare fun a b => a > b
  | checkSig => Exec.checkSig p
  | checkSigVerify => do
    Exec.checkSig p
    Exec.require (Truth.holds (← Exec.pop)) .checkSigVerifyFailed
  | digest => Exec.digest p
  | unassigned code => Exec.fail (.unassigned code)

/-- What an operation does, its operand included. -/
def run (p : Primitives) (op : Operation) : Exec Unit := do
  let data ← readOperand op.operand
  op.act p data

end Operation

end FlowGate

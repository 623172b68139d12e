import FlowGate.Machine.OpTable

/-!
# Runs

A run takes one opcode after the other from the tape until the tape ends or a step fails. A script
that authorizes something is run on a stack of its own and has to leave a single true item.

## Main definitions

* `Machine.step` — one opcode
* `Machine.runTape` — opcodes until the tape ends
* `runScript` — a script on a stack, with a copy of a cache
* `authorizes` — whether a script leaves a single true item
-/

namespace FlowGate

namespace Machine

/-- Takes an opcode from the tape and does its operation. -/
def step (p : Primitives) (t : OpTable) : Exec Unit := do
  let lead ← Exec.read 1
  (t.operation (Bytes.toNat lead)).run p

/-- Whether the tape is at its end. -/
def isDone : Exec Bool := fun m => .ok m.tape.isDone m

/-- At most the given number of steps, ending with the tape. -/
def steps (p : Primitives) (t : OpTable) : Nat → Exec Unit
  | 0 => pure ()
  | n + 1 => do
    if ← isDone then pure ()
    else
      step p t
      steps p t n

/-- Steps until the tape ends. Every step reads at least its opcode, so there are not more steps
than bytes left. -/
def runTape (p : Primitives) (t : OpTable) : Exec Unit := fun m =>
  steps p t m.tape.remaining.toNat m

end Machine

/-- The outcome of the run of a script: the fault, if it failed, the state it reached, and what the
caller's cache holds afterwards. -/
structure ScriptRun where
  fault : Option ExecFault
  final : Machine
  caller : Cache

/-- Runs byte code on a stack, with a copy of the caller's cache. -/
def runScript (p : Primitives) (t : OpTable) (code : Bytes) (cache : Cache) (stack : Stack) :
    ScriptRun :=
  match Machine.runTape p t ⟨.ofBytes code, stack, cache⟩ with
  | .ok _ m => ⟨none, m, cache.afterCall m.cache⟩
  | .error fault m => ⟨some fault, m, cache.afterCall m.cache⟩

/-- Whether the run ended well. -/
def ScriptRun.isOk (r : ScriptRun) : Bool := r.fault.isNone

/-- The verdict on a run: it ended well and left a single true item. -/
def ScriptRun.verdict (r : ScriptRun) : Bool :=
  r.isOk &&
    match r.final.stack.items with
    -- A true item is not enough if others lie below it.
    | [item] => Truth.holds item
    | _ => false

/-- Whether byte code, run on an empty stack, leaves a single true item. -/
def authorizes (p : Primitives) (t : OpTable) (code : Bytes) (cache : Cache) : Bool :=
  (runScript p t code cache .empty).verdict

end FlowGate

import FlowGate.Checked.Script
import FlowGate.Checked.Stack
import FlowGate.Checked.Tape

/-!
# A bench for series of runs

A bench holds the opcodes, a stack and a cache through a series of runs, which may take tapes of any
kind. Entries that are no bytes can be counted and read as opcodes, but not be put onto the stack.

## Main definitions

* `Bench` — opcodes, stack and cache
* `BenchRun` — how a run on a tape ended
* `Bench.run`, `Bench.authorize` — a script on the stack of the bench, or on one of its own
* `Bench.runTape`, `Bench.operate` — the opcodes of a tape, or one operation

## Main results

* `Bench.dispatch_of_operand_eq_none` — an operation without an operand leaves its tape alone
-/

namespace FlowGate

/-- The opcodes, the stack and the cache that live through a series of runs. -/
structure Bench where
  table : OpTable
  stack : LimitedStack
  cache : Cache

/-- How a run on a tape ended: what failed, where the tape stands, and the bench afterwards. -/
structure BenchRun where
  result : Except Error Unit
  tape : ValueTape
  bench : Bench

namespace Bench

/-- The bench with the stack and the cache of a machine. -/
def keep (b : Bench) (m : Machine) : Bench :=
  { b with stack := { b.stack with stack := m.stack }, cache := m.cache }

/-- Does steps of a machine on a tape. -/
def exec (b : Bench) (tape : Tape) (step : Exec Unit) : BenchRun :=
  match step ⟨tape, b.stack.stack, b.cache⟩ with
  | .ok _ m => ⟨.ok (), .ofTape m.tape, b.keep m⟩
  | .error fault m => ⟨.error (b.stack.failure fault), .ofTape m.tape, b.keep m⟩

variable (p : Primitives)

/-- Runs a script on the stack with a copy of the cache, which replaces the cache if all went
well. -/
def run (b : Bench) (script : Value) : Except Error Unit × Bench :=
  match Checked.code script with
  | .error fault => (.error fault, b)
  | .ok code =>
    let r := runScript p b.table code b.cache b.stack.stack
    match r.fault with
    | none => (.ok (), b.keep r.final)
    -- The copy of the cache is lost, but not what it shares with the cache.
    | some fault => (.error (b.stack.failure fault), { b.keep r.final with cache := r.caller })

/-- Whether a script authorizes, on a stack of its own and with a copy of the cache. -/
def authorize (b : Bench) (script : Value) : Bool × Bench :=
  match Checked.code script with
  | .error _ => (false, b)
  | .ok code =>
    let r := runScript p b.table code b.cache .empty
    (r.verdict, { b with cache := r.caller })

/-! ### Tapes of any kind -/

/-- Does an operation on a tape whose entries are no bytes, so that an operand is read in vain. -/
def dispatch (b : Bench) (op : Operation) (tape : ValueTape) : BenchRun :=
  match op.operand with
  | .none => { b.exec (.ofBytes []) (op.act p []) with tape }
  | operand =>
    match ValueTape.takeOperand operand tape with
    | .ok _ tape => ⟨.error (.wrongType (.notBytes "Stack item")), tape, b⟩
    | .error fault tape => ⟨.error fault, tape, b⟩

/-- Takes at most the given number of opcodes from a tape whose entries are no bytes. -/
def runEntries : Nat → Bench → ValueTape → BenchRun
  | 0, b, tape => ⟨.ok (), tape, b⟩
  | n + 1, b, tape =>
    match tape.isDone with
    | .error fault => ⟨.error fault, tape, b⟩
    | .ok true => ⟨.ok (), tape, b⟩
    | .ok false =>
      match ValueTape.takeNumber 1 tape with
      | .error fault tape => ⟨.error fault, tape, b⟩
      | .ok lead tape =>
        let r := b.dispatch p (b.table.operation lead) tape
        match r.result with
        | .ok _ => runEntries n r.bench r.tape
        | .error _ => r

/-- A bound on the opcodes that a tape holds: every opcode takes an entry. -/
def opcodeBound (tape : ValueTape) : Nat :=
  match tape.remaining with
  | .ok (.int n) => n.toNat + 1
  | _ => 1

/-- Takes the opcodes of a tape. -/
def runTape (b : Bench) (tape : ValueTape) : BenchRun :=
  match tape.data, tape.pointer.number? with
  | .bytes data, some (.whole n) =>
    let start : Tape := { Tape.ofBytes data with pointer := n }
    -- A tape at its end is left as it is, whatever its position.
    if start.isDone then ⟨.ok (), tape, b⟩ else b.exec start (Machine.runTape p b.table)
  | _, _ => runEntries p (opcodeBound tape) b tape

/-- Does the operation of one opcode, with its operand at the start of the data. -/
def operate (b : Bench) (code : Nat) (data : Value) : BenchRun :=
  let op := b.table.operation code
  match data with
  | .bytes data => b.exec (.ofBytes data) (op.run p)
  | data => b.dispatch p op ⟨data, .int 0⟩

/-- An operation without an operand leaves its tape alone. -/
theorem dispatch_of_operand_eq_none {op : Operation} (h : op.operand = .none) (b : Bench)
    (tape : ValueTape) : (b.dispatch p op tape).tape = tape := by
  simp [dispatch, h]

end Bench

end FlowGate

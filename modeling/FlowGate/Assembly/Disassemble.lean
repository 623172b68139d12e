import FlowGate.Assembly.Assemble

/-!
# Disassembly

Byte code is cut into instructions, and each is written as one line that assembles to it again: the
name of its opcode, and the data behind it in hexadecimal.

## Main definitions

* `Instruction` — an opcode with the data behind it
* `Instruction.cut` — the instructions of byte code
* `Instruction.line` — the line of an instruction
* `disassemble` — the lines of byte code
* `Script.ofCode` — the script of byte code
-/

namespace FlowGate

/-- An opcode with the data that is pushed behind it. -/
structure Instruction where
  lead : UInt8
  data : Bytes
  deriving DecidableEq, Repr

namespace Instruction

/-- What is read behind an opcode: its own number of bytes for the direct pushes, a length and that
many bytes for the counted ones, which are known by their names. -/
def operandAfter (t : OpTable) (lead : UInt8) : Operand :=
  let code := lead.toNat
  if 0 < code ∧ code ≤ 75 then .fixed code
  else
    match Item.lengthWidth? (t.name code) with
    | some width => .counted width
    | none => .none

/-- The instructions of byte code; the last one may not be cut off. -/
def cut (t : OpTable) (code : Bytes) : Except ExecFault (List Instruction) :=
  match code with
  | [] => .ok []
  | lead :: rest =>
    match _h : (operandAfter t lead).split? rest with
    | none => .error .readPastEnd
    | some (data, rest) => do return ⟨lead, data⟩ :: (← cut t rest)
termination_by code.length
decreasing_by
  simp only [List.length_cons]
  exact Nat.lt_succ_of_le (Operand.length_le_of_split? _h)

/-- The line of an instruction. -/
def line (t : OpTable) (i : Instruction) : String :=
  let name := t.name i.lead.toNat
  match operandAfter t i.lead with
  | .none => name
  | .fixed _ => name ++ " " ++ Hex.encode i.data
  | .counted _ => name ++ " x" ++ Hex.encode i.data

end Instruction

/-- The lines of byte code. -/
def disassemble (t : OpTable) (code : Bytes) : Except ExecFault (List String) := do
  return (← Instruction.cut t code).map (Instruction.line t)

/-- The script of byte code, with one line for each instruction. -/
def Script.ofCode (t : OpTable) (code : Bytes) : Except Error Script := do
  return ⟨"\n".intercalate (← ofExec (disassemble t code)), code⟩

end FlowGate

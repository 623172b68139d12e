import FlowGate.Proofs.Assembly.Literal
import FlowGate.Proofs.Machine.Repetition
import FlowGate.Proofs.Script.Push

/-!
# Symbols and what they do

A part of a script is given as symbols, becomes byte code, and is run as actions of the machine.
This file ties the three together, symbol by symbol.

## Main definitions

* `Writes` — symbols with the byte code that they spell and the action that it does

## Main results

* `Writes.append`, `Writes.replicate`, `writes_flatMap` — longer lists of symbols
* `writes_toString`, `writes_hex`, `writes_of_mem` — single symbols
-/

namespace FlowGate

/-- Symbols that spell byte code, whose action depends on the primitives alone. -/
structure Writes (symbols : List String) (code : Bytes) (action : Primitives → Exec Unit) :
    Prop where
  spells : Spells .standard symbols code
  does : ∀ p, Machine.Does p .standard code (action p)

variable {symbols others : List String} {symbol : String} {code more : Bytes}
  {x y : Primitives → Exec Unit}

/-- Symbols put together do one action after the other. -/
theorem Writes.append (h : Writes symbols code x) (h' : Writes others more y) :
    Writes (symbols ++ others) (code ++ more) (fun p => do x p; y p) :=
  ⟨h.spells.append h'.spells, fun p => (h.does p).append OpTable.aligned_standard (h'.does p)⟩

/-- A symbol written several times does its action as often. -/
theorem Writes.replicate {b : UInt8} (h : Writes [symbol] [b] x) (n : Nat) :
    Writes (List.replicate n symbol) (List.replicate n b) (fun p => Exec.times n (x p)) := by
  refine ⟨?_, fun p => (h.does p).replicate OpTable.aligned_standard n⟩
  have hspells := h.spells.replicate n
  rwa [List.flatten_replicate_singleton] at hspells

/-- Symbols given for the entries of a list do the actions of the entries in order. -/
theorem writes_flatMap {α : Type} {xs : List α} {symbols : α → List String} {code : α → Bytes}
    {action : Primitives → α → Exec Unit}
    (h : ∀ x ∈ xs, Writes (symbols x) (code x) (fun p => action p x)) :
    Writes (xs.flatMap symbols) (xs.flatMap code) (fun p => forM xs (action p)) where
  spells := spells_flatMap fun x hx => (h x hx).spells
  does p := Machine.does_flatMap OpTable.aligned_standard fun x hx => (h x hx).does p

/-- The name of an operation without operand does the operation. -/
theorem writes_of_mem {row : Nat × String × Operation} (h : row ∈ OpTable.basicOperations)
    (hoperand : row.2.2.operand = .none) :
    Writes [row.2.1] [UInt8.ofNat row.1] (fun p => row.2.2.act p []) :=
  ⟨spells_of_mem h hoperand, fun _ => does_of_mem h hoperand⟩

/-- A numeral puts its number. -/
theorem writes_toString {n : Nat} (h : n < 2 ^ 32) :
    Writes [toString n] (Push.number n) (fun _ => Exec.push (ScriptNumber.encode n)) := by
  refine ⟨spells_toString ?_, fun _ => Push.does_number_of_lt h⟩
  calc
    n < 2 ^ 32 := h
    _ ≤ 10 ^ 10 := by decide
    _ ≤ 10 ^ maxLiteralDigits := Nat.pow_le_pow_right (by decide) (by decide)

/-- A literal behind an `x` puts its byte string. -/
theorem writes_hex {bs : Bytes} (h : bs.length ≤ Push.maxLength) :
    Writes ["x" ++ Hex.encode bs] (Push.data bs) (fun _ => Exec.push bs) :=
  ⟨spells_hex h, fun _ => Push.does_data h⟩

/-- The mark of success is the number one. -/
theorem writes_true :
    Writes ["OP_TRUE"] [0x51] (fun _ => Exec.push (ScriptNumber.encode (1 : Nat))) := by
  have hmem : (0x51, "OP_1", Operation.push (ScriptNumber.encode (1 : Nat))) ∈
      OpTable.basicOperations := by
    decide +kernel
  exact ⟨spells_true, fun _ => does_of_mem hmem rfl⟩

/-- Byte code of whole instructions is the byte code of a script. -/
theorem Machine.Does.exists_ofCode_eq {p : Primitives} {t : OpTable} {x : Exec Unit}
    (h : Does p t code x) : ∃ source, Script.ofCode t code = .ok ⟨source, code⟩ := by
  obtain ⟨instructions, hcut⟩ := h.exists_cut
  have hlines := disassemble_eq_ok_iff.mpr ⟨instructions, hcut, rfl⟩
  exact ⟨_, by rw [Script.ofCode, hlines]; rfl⟩

end FlowGate

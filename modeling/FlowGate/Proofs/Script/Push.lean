import FlowGate.Proofs.Assembly.StandardTable
import FlowGate.Proofs.Script.Number

/-!
# What pushes do

Under the standard table the push of a byte string puts that byte string onto the stack, and the
push of a number puts its shortest form, whichever of their forms the pushes have.

## Main results

* `Push.does_data` — what the push of a byte string does
* `Push.does_number` — what the push of a number does
* `Push.data?_eq_ok_iff`, `Push.number?_eq_ok_iff` — which data and numbers have a push
* `does_of_mem` — what an opcode without operand does
-/

namespace FlowGate

variable {p : Primitives}

/-- An opcode without operand does its operation. -/
theorem does_of_mem {row : Nat × String × Operation} (h : row ∈ OpTable.basicOperations)
    (hoperand : row.2.2.operand = .none) :
    Machine.Does p .standard [UInt8.ofNat row.1] (row.2.2.act p []) := by
  apply Machine.does_opcode OpTable.aligned_standard _ hoperand
  have hlt := OpTable.code_lt_of_mem (List.mem_append_left _ h)
  rw [UInt8.toNat_ofNat_of_lt' hlt, OpTable.operation_of_mem h]

namespace Push

/-- A push whose opcode is the length of the data puts the data. -/
theorem does_direct {bs : Bytes} (h : bs.length ≤ 75) :
    Machine.Does p .standard (direct bs) (Exec.push bs) := by
  have htoNat : (UInt8.ofNat bs.length).toNat = bs.length :=
    UInt8.toNat_ofNat_of_lt' (Nat.lt_of_le_of_lt h (by decide))
  by_cases hzero : bs.length = 0
  · -- The opcode zero is no push of bytes behind it, but puts the empty byte string by itself.
    obtain rfl := List.length_eq_zero_iff.mp hzero
    have hmem : (0x00, "OP_0", Operation.push []) ∈ OpTable.basicOperations := by decide +kernel
    exact does_of_mem hmem rfl
  · -- The other opcodes up to 75 take as many bytes as they say.
    have hop : OpTable.standard.operation (UInt8.ofNat bs.length).toNat =
        .pushOperand (.fixed bs.length) := by
      have hfixed : ∀ n < 75, ∃ row ∈ OpTable.basicOperations,
          row.1 = n + 1 ∧ row.2.2 = .pushOperand (.fixed (n + 1)) := by
        decide +kernel
      obtain ⟨row, hmem, hcode, hrow⟩ := hfixed (bs.length - 1) (by omega)
      rw [Nat.sub_add_cancel (Nat.pos_of_ne_zero hzero)] at hcode hrow
      rw [htoNat, ← hcode, OpTable.operation_of_mem hmem, hrow, hcode]
    exact Machine.does_of_split? OpTable.aligned_standard hop (Operand.split?_fixed rfl)

/-- A push with its length in a number of bytes puts the data. -/
theorem does_counted {width : Nat} {bs : Bytes}
    (hop : OpTable.standard.operation (countedLead width).toNat = .pushOperand (.counted width))
    (h : bs.length < 256 ^ width) : Machine.Does p .standard (counted width bs) (Exec.push bs) :=
  Machine.does_of_split? OpTable.aligned_standard hop (Operand.split?_counted h)

/-- The opcodes of pushes with their length in one, two or four bytes. -/
theorem operation_countedLead {width : Nat} (h : width = 1 ∨ width = 2 ∨ width = 4) :
    OpTable.standard.operation (countedLead width).toNat = .pushOperand (.counted width) := by
  have hrows : ∀ width ∈ [1, 2, 4], ∃ row ∈ OpTable.basicOperations,
      row.1 = (countedLead width).toNat ∧ row.2.2 = .pushOperand (.counted width) := by
    decide +kernel
  obtain ⟨row, hmem, hcode, hrow⟩ := hrows width (by simpa using h)
  rw [← hcode, OpTable.operation_of_mem hmem, hrow]

/-- The push of a byte string puts it onto the stack. -/
theorem does_data {bs : Bytes} (h : bs.length ≤ maxLength) :
    Machine.Does p .standard (data bs) (Exec.push bs) := by
  unfold data
  split
  · exact does_direct ‹_›
  · split
    · exact does_counted (operation_countedLead (.inl rfl)) (by omega)
    · split
      · exact does_counted (operation_countedLead (.inr (.inl rfl))) (by omega)
      · exact does_counted (operation_countedLead (.inr (.inr rfl)))
          (by simp only [maxLength] at h; omega)

/-- The push of a number puts its shortest form onto the stack. -/
theorem does_number {n : Int} (h : (ScriptNumber.encode n).length ≤ maxLength) :
    Machine.Does p .standard (number n) (Exec.push (ScriptNumber.encode n)) := by
  unfold number
  split
  · next hn =>
    subst hn
    have hmem : (0x4f, "OP_1NEGATE", Operation.push (ScriptNumber.encode (-1))) ∈
        OpTable.basicOperations := by
      decide +kernel
    exact does_of_mem hmem rfl
  · split
    · next hsmall =>
      -- The opcodes of the numbers from 1 to 16 follow each other.
      have hrows : ∀ n < 16, ∃ row ∈ OpTable.basicOperations,
          row.1 = 0x51 + n ∧ row.2.2 = .push (ScriptNumber.encode (n + 1 : Nat)) := by
        decide +kernel
      obtain ⟨row, hmem, hcode, hrow⟩ := hrows (n.toNat - 1) (by omega)
      rw [show 0x51 + (n.toNat - 1) = 0x50 + n.toNat by omega] at hcode
      rw [show ((n.toNat - 1 + 1 : Nat) : Int) = n by omega] at hrow
      have hdoes := does_of_mem (p := p) hmem (by rw [hrow]; rfl)
      rwa [hcode, hrow] at hdoes
    · exact does_data h

/-- A number of 32 bits has no more bytes than a push takes. -/
theorem length_encode_le_of_lt {n : Nat} (h : n < 2 ^ 32) :
    (ScriptNumber.encode n).length ≤ maxLength := by
  have hlength := (ScriptNumber.length_encode_le_iff n 4).mpr (by omega)
  simp only [maxLength]
  omega

/-- The push of a number of 32 bits puts its shortest form onto the stack. -/
theorem does_number_of_lt {n : Nat} (h : n < 2 ^ 32) :
    Machine.Does p .standard (number n) (Exec.push (ScriptNumber.encode n)) :=
  does_number (length_encode_le_of_lt h)

/-- Data has a push if its length fits into four bytes. -/
theorem data?_eq_ok_iff {bs code : Bytes} :
    data? bs = .ok code ↔ bs.length ≤ maxLength ∧ code = data bs := by
  rw [data?, ensure_bind_eq_ok_iff, decide_eq_true_iff]
  simp [pure, Except.pure, eq_comm]

/-- A number has a push if its bytes have one. -/
theorem number?_eq_ok_iff {n : Int} {code : Bytes} :
    number? n = .ok code ↔ (ScriptNumber.encode n).length ≤ maxLength ∧ code = number n := by
  rw [number?, ensure_bind_eq_ok_iff, decide_eq_true_iff]
  simp [pure, Except.pure, eq_comm]

/-- The push of a number of 32 bits is given. -/
theorem number?_of_lt {n : Nat} (h : n < 2 ^ 32) : number? n = .ok (number n) :=
  number?_eq_ok_iff.mpr ⟨length_encode_le_of_lt h, rfl⟩

end Push

end FlowGate

import FlowGate.Assembly.Disassemble
import FlowGate.Proofs.Machine.Effects
import FlowGate.Proofs.Machine.Interpret

/-!
# Instruction boundaries

Byte code that can be cut into whole instructions runs to its own end, whatever follows it. So
running it in front of other byte code is running it first and the other byte code then. The machine
and the disassembler have to agree on what belongs to an instruction, which is a property of the
opcode table.

## Main definitions

* `OpTable.Aligned` — the machine reads the operands that the disassembler cuts off
* `Machine.Does` — byte code of whole instructions that together do an action

## Main results

* `Machine.interpret_append` — whole instructions run before what follows them
* `Machine.exists_cut_eq_ok` — byte code that runs well consists of whole instructions
* `Machine.Does.append` — byte code put together does one action after the other
* `authorizes_append_iff` — when byte code behind whole instructions authorizes
-/

namespace FlowGate

/-- A table under which the machine reads the operands that the disassembler cuts off. -/
def OpTable.Aligned (t : OpTable) : Prop :=
  ∀ lead : UInt8, Instruction.operandAfter t lead = (t.operation lead.toNat).operand

/-- A fixed operand takes a byte string of its size whole. -/
theorem Operand.split?_fixed {size : Nat} {bs : Bytes} (h : bs.length = size) :
    (fixed size).split? bs = some (bs, []) := by
  subst h
  simp [split?]

/-- A counted operand takes the byte string whose length stands before it. -/
theorem Operand.split?_counted {width : Nat} {bs : Bytes} (h : bs.length < 256 ^ width) :
    (counted width).split? (Bytes.ofNat width bs.length ++ bs) = some (bs, []) := by
  have htake : (Bytes.ofNat width bs.length ++ bs).take width = Bytes.ofNat width bs.length :=
    List.take_left' (Bytes.length_ofNat width _)
  have hdrop : (Bytes.ofNat width bs.length ++ bs).drop width = bs :=
    List.drop_left' (Bytes.length_ofNat width _)
  have hcount : Bytes.toNat (Bytes.ofNat width bs.length) = bs.length := by
    rw [Bytes.toNat_ofNat, Nat.mod_eq_of_lt h]
  simp only [split?, htake, hdrop, hcount, List.take_length, Bytes.length_ofNat, and_self, if_true,
    Option.some.injEq, Prod.mk.injEq, true_and]
  apply List.drop_of_length_le
  simp

/-- What is cut off the front does not depend on what follows the rest. -/
theorem Operand.split?_append {o : Operand} {code data rest : Bytes}
    (h : o.split? code = some (data, rest)) (more : Bytes) :
    o.split? (code ++ more) = some (data, rest ++ more) := by
  cases o with
  | none =>
    obtain ⟨rfl, rfl⟩ : [] = data ∧ code = rest := by simpa [split?] using h
    rfl
  | fixed size =>
    simp only [split?, Option.ite_none_right_eq_some, Option.some.injEq, Prod.mk.injEq,
      List.length_take] at h
    obtain ⟨hsize, rfl, rfl⟩ := h
    have hle : size ≤ code.length := by omega
    simp [split?, List.take_append_of_le_length hle, List.drop_append_of_le_length hle, hle]
  | counted width =>
    simp only [split?, Option.ite_none_right_eq_some, Option.some.injEq, Prod.mk.injEq,
      List.length_take, List.length_drop] at h
    obtain ⟨⟨hwidth, hcount⟩, rfl, rfl⟩ := h
    -- Both the count and the data lie in front of what is added.
    have hle : width ≤ code.length := by omega
    have hdata : Bytes.toNat (code.take width) ≤ (code.drop width).length := by
      rw [List.length_drop]
      omega
    have hall : width + Bytes.toNat (code.take width) ≤ code.length := by omega
    simp only [split?, List.take_append_of_le_length hle, List.drop_append_of_le_length hle,
      List.take_append_of_le_length hdata, List.drop_append_of_le_length hall, List.length_take,
      List.length_drop]
    rw [if_pos ⟨hwidth, hcount⟩]

namespace Instruction

variable {t : OpTable} {lead : UInt8} {code data rest : Bytes}

@[simp] theorem cut_nil : cut t [] = .ok [] := by
  rw [cut]

theorem cut_cons_of_some (h : (operandAfter t lead).split? code = some (data, rest)) :
    cut t (lead :: code) = (cut t rest).map (⟨lead, data⟩ :: ·) := by
  rw [cut]
  split
  · next h' => rw [h] at h'; cases h'
  · next h' =>
    rw [h] at h'
    cases h'
    cases cut t rest <;> rfl

theorem cut_cons_of_none (h : (operandAfter t lead).split? code = none) :
    cut t (lead :: code) = .error .readPastEnd := by
  rw [cut]
  split
  · rfl
  · next h' => rw [h] at h'; cases h'

/-- The instructions of byte code in front of other byte code come first. -/
theorem cut_append {a : Bytes} {instructions : List Instruction} (h : cut t a = .ok instructions)
    (b : Bytes) : cut t (a ++ b) = (cut t b).map (instructions ++ ·) := by
  fun_induction cut t a generalizing instructions with
  | case1 =>
    obtain rfl := Except.ok.inj h
    cases hb : cut t b <;> simp [hb, Except.map]
  | case2 lead code hsplit => cases h
  | case3 lead code data rest hsplit ih =>
    cases hrest : cut t rest with
    | error fault => simp [hrest, bind, Except.bind] at h
    | ok others =>
      obtain rfl : ⟨lead, data⟩ :: others = instructions := by
        simpa [hrest, bind, Except.bind, pure, Except.pure] using h
      -- The operand of the first instruction is cut off the whole just the same.
      rw [List.cons_append, cut_cons_of_some (Operand.split?_append hsplit b), ih hrest]
      cases cut t b <;> rfl

end Instruction

/-- Byte code can be disassembled if it consists of whole instructions. -/
theorem disassemble_eq_ok_iff {t : OpTable} {code : Bytes} {lines : List String} :
    disassemble t code = .ok lines ↔ ∃ instructions, Instruction.cut t code = .ok instructions ∧
      lines = instructions.map (Instruction.line t) := by
  unfold disassemble
  cases Instruction.cut t code <;> simp [bind, Except.bind, pure, Except.pure, eq_comm]

namespace Machine

variable {p : Primitives} {t : OpTable} {a b : Bytes}

/-- Whole instructions run before what follows them. -/
theorem interpret_append (ht : t.Aligned) {instructions : List Instruction}
    (h : Instruction.cut t a = .ok instructions) (b : Bytes) :
    interpret p t (a ++ b) = (do
      interpret p t a
      interpret p t b) := by
  -- The induction follows the cutting of the first part: what is cut off it is cut off the whole.
  fun_induction Instruction.cut t a generalizing instructions with
  | case1 => simp
  | case2 lead code hsplit => cases h
  | case3 lead code data rest hsplit ih =>
    cases hrest : Instruction.cut t rest with
    | error fault => simp [hrest, bind, Except.bind] at h
    | ok others =>
      rw [ht lead] at hsplit
      rw [List.cons_append, interpret_cons_of_some (Operand.split?_append hsplit b),
        interpret_cons_of_some hsplit, ih hrest, bind_assoc]

/-- Byte code that runs well consists of whole instructions. -/
theorem exists_cut_eq_ok (ht : t.Aligned) {code : Bytes} {m m' : Machine}
    (h : interpret p t code m = .ok () m') :
    ∃ instructions, Instruction.cut t code = .ok instructions := by
  fun_induction interpret p t code generalizing m with
  | case1 => exact ⟨[], Instruction.cut_nil⟩
  | case2 lead code hsplit =>
    -- An instruction that is cut off fails.
    exact (Exec.fail_ne_ok h).elim
  | case3 lead code data rest hsplit ih =>
    obtain ⟨-, n, -, hrest⟩ := Exec.bind_eq_ok_iff.mp h
    obtain ⟨others, hothers⟩ := ih hrest
    rw [← ht lead] at hsplit
    exact ⟨⟨lead, data⟩ :: others, by rw [Instruction.cut_cons_of_some hsplit, hothers]; rfl⟩

/-- Byte code of whole instructions that together do an action. -/
structure Does (p : Primitives) (t : OpTable) (code : Bytes) (action : Exec Unit) : Prop where
  exists_cut : ∃ instructions, Instruction.cut t code = .ok instructions
  interpret_eq : interpret p t code = action

theorem does_nil (p : Primitives) (t : OpTable) : Does p t [] (pure ()) :=
  ⟨⟨[], Instruction.cut_nil⟩, interpret_nil⟩

variable {x y : Exec Unit}

/-- Byte code put together does one action after the other. -/
theorem Does.append (ht : t.Aligned) (ha : Does p t a x) (hb : Does p t b y) :
    Does p t (a ++ b) (do x; y) := by
  obtain ⟨as, has⟩ := ha.exists_cut
  obtain ⟨bs, hbs⟩ := hb.exists_cut
  refine ⟨⟨as ++ bs, by rw [Instruction.cut_append has, hbs]; rfl⟩, ?_⟩
  rw [interpret_append ht has, ha.interpret_eq, hb.interpret_eq]

/-- A single instruction does its operation. -/
theorem does_of_split? (ht : t.Aligned) {lead : UInt8} {code data : Bytes} {op : Operation}
    (hop : t.operation lead.toNat = op) (h : op.operand.split? code = some (data, [])) :
    Does p t (lead :: code) (op.act p data) := by
  subst hop
  refine ⟨⟨[⟨lead, data⟩], ?_⟩, ?_⟩
  · rw [Instruction.cut_cons_of_some (by rw [ht lead]; exact h), Instruction.cut_nil]
    rfl
  · rw [interpret_cons_of_some h, interpret_nil]
    exact bind_pure_unit

/-- An opcode without operand does its operation. -/
theorem does_opcode (ht : t.Aligned) {lead : UInt8} {op : Operation}
    (hop : t.operation lead.toNat = op) (hoperand : op.operand = .none) :
    Does p t [lead] (op.act p []) :=
  does_of_split? ht hop (by rw [hoperand]; rfl)

/-- Byte code repeated for the entries of a list does the action of each entry in order. -/
theorem does_flatMap {α : Type} (ht : t.Aligned) {xs : List α} {code : α → Bytes}
    {action : α → Exec Unit} (h : ∀ x ∈ xs, Does p t (code x) (action x)) :
    Does p t (xs.flatMap code) (forM xs action) := by
  induction xs with
  | nil => exact does_nil p t
  | cons x xs ih =>
    rw [List.flatMap_cons, List.forM_cons]
    exact (h x List.mem_cons_self).append ht
      (ih fun y hy => h y (List.mem_cons_of_mem x hy))

end Machine

open Machine in
/-- Byte code behind whole instructions authorizes if those run well and it leaves a single true
item on the stack that they leave. -/
theorem authorizes_append_iff {p : Primitives} {t : OpTable} (ht : t.Aligned) {a : Bytes}
    {instructions : List Instruction} (h : Instruction.cut t a = .ok instructions) (b : Bytes)
    (cache : Cache) :
    authorizes p t (a ++ b) cache = true ↔
      ∃ m, interpret p t a (start a .empty cache) = .ok () m ∧ ∃ m', interpret p t b m = .ok () m' ∧
        ∃ item, m'.stack.items = [item] ∧ Truth.holds item = true := by
  -- The run of the whole has the longer tape, which it does not see.
  have htape := (tapeFree_interpret p t (a ++ b)).exists_eq_ok_iff (start a .empty cache)
    (.ofBytes (a ++ b)) (a := ())
    (Q := fun stack => ∃ item, stack.items = [item] ∧ Truth.holds item = true)
  rw [authorizes_iff]
  refine htape.trans ?_
  simp only [interpret_append ht h, Exec.bind_eq_ok_iff]
  constructor
  · rintro ⟨m', ⟨u, m, ha, hb⟩, hitem⟩
    exact ⟨m, ha, m', hb, hitem⟩
  · rintro ⟨m, ha, m', hb, hitem⟩
    exact ⟨m', ⟨(), m, ha, hb⟩, hitem⟩

end FlowGate

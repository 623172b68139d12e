import FlowGate.Proofs.Assembly.WellNamed

/-!
# Disassembling and assembling

Disassembling byte code and assembling the lines gives the byte code back. There are lines exactly
if the byte code consists of whole instructions, that is, if it does not end inside the length or
the data of a push.

## Main definitions

* `IsInstruction` — byte strings that are a whole instruction
* `IsCutOff` — byte strings that are the start of a push, cut off in its length or data
* `EndsInsidePush` — whole instructions with such a start behind them

## Main results

* `OpTable.WellNamed.split?_eq_none_iff` — no operand can be cut off exactly if a push is cut off
* `OpTable.WellNamed.cut_eq_error_iff` — byte code cannot be cut exactly if it ends inside a push
* `Checked.compile_disassemble` — disassembling and assembling with the standard table
-/

namespace FlowGate

/-- A whole instruction: an opcode alone, a push whose opcode is the length of the data behind it,
or a push with the length of the data in one, two or four bytes. -/
inductive IsInstruction : Bytes → Prop
  | opcode (lead : UInt8) (h : lead.toNat = 0 ∨ 78 < lead.toNat) : IsInstruction [lead]
  | direct (lead : UInt8) (data : Bytes) (hpos : 0 < lead.toNat) (hle : lead.toNat ≤ 75)
      (h : data.length = lead.toNat) : IsInstruction (lead :: data)
  | counted (width : Nat) (data : Bytes) (hwidth : width = 1 ∨ width = 2 ∨ width = 4)
      (h : data.length < 256 ^ width) : IsInstruction (Push.counted width data)

/-- The start of a push that ends inside the length or inside the data. -/
inductive IsCutOff : Bytes → Prop
  | direct (lead : UInt8) (data : Bytes) (hpos : 0 < lead.toNat) (hle : lead.toNat ≤ 75)
      (h : data.length < lead.toNat) : IsCutOff (lead :: data)
  | length (width : Nat) (count : Bytes) (hwidth : width = 1 ∨ width = 2 ∨ width = 4)
      (h : count.length < width) : IsCutOff (Push.countedLead width :: count)
  | counted (width size : Nat) (data : Bytes) (hwidth : width = 1 ∨ width = 2 ∨ width = 4)
      (hsize : size < 256 ^ width) (h : data.length < size) :
      IsCutOff (Push.countedLead width :: (Bytes.ofNat width size ++ data))

/-- Byte code of whole instructions and behind them the start of a push. -/
def EndsInsidePush (code : Bytes) : Prop :=
  ∃ (whole : List Bytes) (rest : Bytes),
    (∀ x ∈ whole, IsInstruction x) ∧ IsCutOff rest ∧ code = whole.flatten ++ rest

/-- A counted operand cannot be cut off exactly if its count or its data is too short. -/
theorem Operand.split?_counted_eq_none_iff {width : Nat} {code : Bytes} :
    (counted width).split? code = Option.none ↔
      code.length < width ∨ ∃ size data, size < 256 ^ width ∧ data.length < size ∧
        code = Bytes.ofNat width size ++ data := by
  constructor
  · intro h
    by_cases hwidth : width ≤ code.length
    · right
      have htake : (code.take width).length = width := by
        rw [List.length_take, Nat.min_eq_left hwidth]
      have hcount := Bytes.ofNat_toNat (code.take width)
      have hlt := Bytes.toNat_lt (code.take width)
      rw [htake] at hcount hlt
      refine ⟨_, code.drop width, hlt, ?_, by rw [hcount, List.take_append_drop]⟩
      by_contra hle
      -- Otherwise there are enough bytes for the data.
      have hdata : ((code.drop width).take (Bytes.toNat (code.take width))).length =
          Bytes.toNat (code.take width) := by
        rw [List.length_take, Nat.min_eq_left (Nat.le_of_not_lt hle)]
      simp only [split?] at h
      rw [if_pos ⟨htake, hdata⟩] at h
      cases h
    · exact .inl (Nat.lt_of_not_le hwidth)
  · intro h
    rw [Option.eq_none_iff_forall_ne_some]
    rintro ⟨bs, rest⟩ hsplit
    obtain ⟨hfits, hbytes⟩ := split?_eq_some_iff.mp hsplit
    rcases h with hshort | ⟨size, data, hsize, hdata, rfl⟩
    · rw [← hbytes, bytes, List.length_append, List.length_append, Bytes.length_ofNat] at hshort
      omega
    · -- The count is that of the bytes that were cut off, which are at least as many as the data.
      rw [bytes, List.append_assoc] at hbytes
      obtain ⟨hcount, hrest⟩ := List.append_inj hbytes (by simp)
      have hsame := congrArg Bytes.toNat hcount
      rw [Bytes.toNat_ofNat, Bytes.toNat_ofNat, Nat.mod_eq_of_lt hfits, Nat.mod_eq_of_lt hsize]
        at hsame
      rw [← hrest, List.length_append] at hdata
      omega

theorem Operand.split?_fixed_eq_none_iff {size : Nat} {code : Bytes} :
    (fixed size).split? code = Option.none ↔ code.length < size := by
  simp only [split?, ite_eq_right_iff, reduceCtorEq, imp_false, List.length_take]
  omega

/-- Every opcode stands alone, is a direct push or is a counted push. -/
theorem Instruction.lead_cases (lead : UInt8) :
    (lead.toNat = 0 ∨ 78 < lead.toNat) ∨ (0 < lead.toNat ∧ lead.toNat ≤ 75) ∨
      ∃ width, (width = 1 ∨ width = 2 ∨ width = 4) ∧ lead = Push.countedLead width := by
  have hcounted : ∀ code ∈ [76, 77, 78], ∃ width ∈ [1, 2, 4],
      code = (Push.countedLead width).toNat := by
    decide
  by_cases hrange : 75 < lead.toNat ∧ lead.toNat ≤ 78
  · obtain ⟨width, hwidth, hlead⟩ := hcounted lead.toNat (by simp; omega)
    exact .inr (.inr ⟨width, by simpa using hwidth, UInt8.toNat_inj.mp hlead⟩)
  · omega

namespace OpTable

variable {t : OpTable} {lead : UInt8} {width : Nat}

theorem operandAfter_direct (hpos : 0 < lead.toNat) (hle : lead.toNat ≤ 75) :
    Instruction.operandAfter t lead = .fixed lead.toNat :=
  if_pos ⟨hpos, hle⟩

/-- Where names can be told apart, the other opcodes stand alone. -/
theorem WellNamed.operandAfter_none (h : t.WellNamed) (hlead : lead.toNat = 0 ∨ 78 < lead.toNat) :
    Instruction.operandAfter t lead = .none := by
  simp only [Instruction.operandAfter]
  rw [if_neg (by omega)]
  cases hwidth : Item.lengthWidth? (t.name lead.toNat) with
  | none => rfl
  | some width =>
    have hrange := h.le_of_takesArgument _ lead.toNat_lt
      (Item.takesArgument_iff.mpr (.inl (by rw [hwidth]; rfl)))
    omega

section Reachable

variable (ht : t.Reachable)
include ht

/-- The counted pushes stay counted pushes, whatever has been registered. -/
theorem Reachable.operandAfter_countedLead (hwidth : width = 1 ∨ width = 2 ∨ width = 4) :
    Instruction.operandAfter t (Push.countedLead width) = .counted width := by
  have hrows : ∀ width ∈ [1, 2, 4], ∃ row ∈ standardRows,
      UInt8.ofNat row.1 = Push.countedLead width ∧ row.2.2.operand = .counted width := by
    decide +kernel
  obtain ⟨row, hrow, hcode, hoperand⟩ := hrows width (by simpa using hwidth)
  rw [← hcode, ht.operandAfter_of_mem hrow, hoperand]

/-- An opcode with its operand is a whole instruction. -/
theorem WellNamed.isInstruction_code (h : t.WellNamed) {i : Instruction} (hfits : i.Fits t) :
    IsInstruction (i.code t) := by
  obtain ⟨lead, data⟩ := i
  simp only [Instruction.Fits, Instruction.code] at hfits ⊢
  rcases Instruction.lead_cases lead with hlead | ⟨hpos, hle⟩ | ⟨width, hwidth, rfl⟩
  · rw [h.operandAfter_none hlead]
    exact .opcode lead hlead
  · rw [operandAfter_direct hpos hle] at hfits ⊢
    exact .direct lead data hpos hle hfits
  · rw [ht.operandAfter_countedLead hwidth] at hfits ⊢
    exact .counted width data hwidth hfits

/-- A whole instruction is an opcode with its operand. -/
theorem WellNamed.exists_code_eq (h : t.WellNamed) {x : Bytes} (hx : IsInstruction x) :
    ∃ i : Instruction, i.Fits t ∧ i.code t = x := by
  cases hx with
  | opcode lead hlead =>
    refine ⟨⟨lead, []⟩, ?_⟩
    rw [Instruction.Fits, Instruction.code, h.operandAfter_none hlead]
    exact ⟨rfl, rfl⟩
  | direct lead data hpos hle hdata =>
    refine ⟨⟨lead, data⟩, ?_⟩
    rw [Instruction.Fits, Instruction.code, operandAfter_direct hpos hle]
    exact ⟨hdata, rfl⟩
  | counted width data hwidth hdata =>
    refine ⟨⟨Push.countedLead width, data⟩, ?_⟩
    rw [Instruction.Fits, Instruction.code, ht.operandAfter_countedLead hwidth]
    exact ⟨hdata, rfl⟩

/-- No operand can be cut off behind an opcode exactly if a push is cut off there. -/
theorem WellNamed.split?_eq_none_iff (h : t.WellNamed) {code : Bytes} :
    (Instruction.operandAfter t lead).split? code = none ↔ IsCutOff (lead :: code) := by
  constructor
  · intro hsplit
    -- An opcode without operand is never cut off.
    rcases Instruction.lead_cases lead with hlead | ⟨hpos, hle⟩ | ⟨width, hwidth, rfl⟩
    · rw [h.operandAfter_none hlead] at hsplit
      cases hsplit
    · rw [operandAfter_direct hpos hle, Operand.split?_fixed_eq_none_iff] at hsplit
      exact .direct lead code hpos hle hsplit
    · rw [ht.operandAfter_countedLead hwidth, Operand.split?_counted_eq_none_iff] at hsplit
      rcases hsplit with hshort | ⟨size, data, hsize, hdata, rfl⟩
      · exact .length width code hwidth hshort
      · exact .counted width size data hwidth hsize hdata
  · intro hcut
    cases hcut with
    | direct _ _ hpos hle hshort =>
      rwa [operandAfter_direct hpos hle, Operand.split?_fixed_eq_none_iff]
    | length width _ hwidth hshort =>
      rw [ht.operandAfter_countedLead hwidth, Operand.split?_counted_eq_none_iff]
      exact .inl hshort
    | counted width size data hwidth hsize hshort =>
      rw [ht.operandAfter_countedLead hwidth, Operand.split?_counted_eq_none_iff]
      exact .inr ⟨size, data, hsize, hshort, rfl⟩

/-- Whole instructions can be cut. -/
theorem WellNamed.exists_cut_flatten (h : t.WellNamed) {whole : List Bytes}
    (hwhole : ∀ x ∈ whole, IsInstruction x) :
    ∃ instructions, Instruction.cut t whole.flatten = .ok instructions := by
  induction whole with
  | nil => exact ⟨[], Instruction.cut_nil⟩
  | cons x whole ih =>
    rw [List.forall_mem_cons] at hwhole
    obtain ⟨i, hfits, rfl⟩ := h.exists_code_eq ht hwhole.1
    obtain ⟨others, hothers⟩ := ih hwhole.2
    rw [List.flatten_cons, Instruction.cut_append (Instruction.cut_code hfits), hothers]
    exact ⟨i :: others, rfl⟩

/-- Byte code cannot be cut exactly if it ends inside the length or the data of a push. -/
theorem WellNamed.cut_eq_error_iff (h : t.WellNamed) {code : Bytes} {fault : ExecFault} :
    Instruction.cut t code = .error fault ↔ fault = .readPastEnd ∧ EndsInsidePush code := by
  constructor
  · intro hcut
    -- What cannot be cut lies behind the instructions that can.
    fun_induction Instruction.cut t code with
    | case1 => cases hcut
    | case2 lead code hsplit =>
      exact ⟨(Except.error.inj hcut).symm, [], lead :: code, by simp,
        (h.split?_eq_none_iff ht).mp hsplit, rfl⟩
    | case3 lead code data rest hsplit ih =>
      have hrest : Instruction.cut t rest = .error fault := by
        cases hothers : Instruction.cut t rest with
        | error other =>
          rw [hothers] at hcut
          exact congrArg _ (Except.error.inj hcut)
        | ok others =>
          rw [hothers] at hcut
          cases hcut
      obtain ⟨hfault, whole, tail, hwhole, htail, rfl⟩ := ih hrest
      obtain ⟨hfits, hbytes⟩ := Operand.split?_eq_some_iff.mp hsplit
      refine ⟨hfault, Instruction.code t ⟨lead, data⟩ :: whole, tail, ?_, htail, ?_⟩
      · exact List.forall_mem_cons.mpr ⟨h.isInstruction_code ht hfits, hwhole⟩
      · rw [List.flatten_cons, List.append_assoc, ← hbytes]
        rfl
  · rintro ⟨rfl, whole, rest, hwhole, hrest, rfl⟩
    -- The whole instructions are cut off first, and then the push is not complete.
    obtain ⟨instructions, hinstructions⟩ := h.exists_cut_flatten ht hwhole
    rw [Instruction.cut_append hinstructions]
    obtain ⟨lead, code, rfl⟩ : ∃ lead code, rest = lead :: code := by
      cases hrest <;> exact ⟨_, _, rfl⟩
    rw [Instruction.cut_cons_of_none ((h.split?_eq_none_iff ht).mpr hrest)]
    rfl

end Reachable

end OpTable

theorem Checked.disassemble_eq_ok_iff {t : OpTable} {code : Bytes} {lines : List String} :
    Checked.disassemble t (.bytes code) = .ok lines ↔ FlowGate.disassemble t code = .ok lines := by
  change ofExec (FlowGate.disassemble t code) = _ ↔ _
  cases FlowGate.disassemble t code <;> simp [ofExec]

/-- There are no lines of byte code exactly if it cannot be cut. -/
theorem Checked.disassemble_eq_error_iff {t : OpTable} {code : Bytes} {fault : Error} :
    Checked.disassemble t (.bytes code) = .error fault ↔
      ∃ cause, Instruction.cut t code = .error cause ∧ fault = .execution cause := by
  change ofExec (FlowGate.disassemble t code) = _ ↔ _
  rw [FlowGate.disassemble]
  cases Instruction.cut t code with
  | error cause => simp [ofExec, bind, Except.bind, eq_comm]
  | ok instructions => simp [ofExec, bind, Except.bind, pure, Except.pure]

/-- Disassembling byte code with the standard table and assembling the lines, with any blanks
between them, gives the byte code back. Disassembling fails exactly if the byte code ends inside the
length or the data of a push, and always as a fault of the script. -/
theorem Checked.compile_disassemble (code : Bytes) :
    (∀ lines gap, Checked.disassemble .standard (.bytes code) = .ok lines → Source.IsGap gap →
      Checked.compile .standard (.text (gap.intercalate lines)) = .ok code) ∧
    ((∃ fault, Checked.disassemble .standard (.bytes code) = .error fault) ↔
      EndsInsidePush code) ∧
    ∀ fault, Checked.disassemble .standard (.bytes code) = .error fault →
      fault = .execution .readPastEnd := by
  have hcut : ∀ {cause}, Instruction.cut .standard code = .error cause ↔
      cause = .readPastEnd ∧ EndsInsidePush code :=
    OpTable.wellNamed_standard.cut_eq_error_iff .standard
  refine ⟨?_, ?_, ?_⟩
  · intro lines gap hlines hgap
    exact compile_intercalate_of_disassemble OpTable.readsBack_standard
      (disassemble_eq_ok_iff.mp hlines) hgap
  · constructor
    · rintro ⟨fault, hfault⟩
      obtain ⟨cause, hcause, -⟩ := disassemble_eq_error_iff.mp hfault
      exact (hcut.mp hcause).2
    · intro hends
      exact ⟨_, disassemble_eq_error_iff.mpr ⟨_, hcut.mpr ⟨rfl, hends⟩, rfl⟩⟩
  · intro fault hfault
    obtain ⟨cause, hcause, rfl⟩ := disassemble_eq_error_iff.mp hfault
    rw [(hcut.mp hcause).1]

/-- Pushes of data that is shorter than they could say, numbers, and opcodes that are assigned late
or not at all; and a push that is cut off. -/
theorem Checked.compile_disassemble_sample :
    Checked.compile .standard (.text ("\n".intercalate
        ["OP_PUSHDATA1 x", "OP_PUSHDATA4 xaa", "OP_PUSHBYTES_1 05", "OP_0", "OP_5", "OP_BLAKE3",
          "OP_INVALID_253"])) =
      .ok [0x4c, 0x00, 0x4e, 0x01, 0x00, 0x00, 0x00, 0xaa, 0x01, 0x05, 0x00, 0x55, 0xbb, 0xfd] ∧
    Checked.disassemble .standard (.bytes [0x51, 0x4c, 0x02, 0xaa]) =
      .error (.execution .readPastEnd) := by
  constructor
  · refine (compile_disassemble _).1 _ _ (disassemble_eq_ok_iff.mpr ?_) Source.isGap_newline
    refine FlowGate.disassemble_eq_ok_iff.mpr
      ⟨[⟨0x4c, []⟩, ⟨0x4e, [0xaa]⟩, ⟨0x01, [0x05]⟩, ⟨0x00, []⟩, ⟨0x55, []⟩, ⟨0xbb, []⟩, ⟨0xfd, []⟩],
        Instruction.cut_eq_ok_iff.mpr ⟨?_, ?_⟩, ?_⟩ <;> decide +kernel
  · have hends : EndsInsidePush [0x51, 0x4c, 0x02, 0xaa] :=
      ⟨[[0x51]], _, List.forall_mem_singleton.mpr (.opcode 0x51 (by decide)),
        .counted 1 2 [0xaa] (by decide) (by decide) (by decide), rfl⟩
    obtain ⟨fault, hfault⟩ := (compile_disassemble _).2.1.mpr hends
    rw [hfault, (compile_disassemble _).2.2 fault hfault]

end FlowGate

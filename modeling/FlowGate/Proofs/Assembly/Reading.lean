import FlowGate.Proofs.Assembly.Spelling
import FlowGate.Proofs.Machine.Boundary

/-!
# Reading instructions back

Byte code that is cut into instructions consists of their byte codes. Each line of a disassembly is
the name of an opcode with the data behind it. If names are read as the opcodes that they are the
names of, with the operands that are written behind them, then the lines assemble to the byte code
again.

## Main definitions

* `Operand.Fits`, `Operand.bytes`, `Operand.arguments` — the data that an operand can carry, and how
  it is written in byte code and in source text
* `Instruction.symbols`, `Instruction.code` — the symbols and the byte code of an instruction
* `OpTable.reading?` — the operand and the opcode that a symbol stands for
* `OpTable.ReadsBack` — the name of an opcode is read as the opcode
* `OpTable.Lossless` — every disassembly assembles to the byte code that it is of

## Main results

* `Operand.split?_eq_some_iff` — an operand is cut off where its data is written
* `Instruction.cut_eq_ok_iff` — byte code that is cut consists of the byte codes of its instructions
* `spells_instruction` — an instruction whose name is read back is spelled by its symbols
* `compile_intercalate_of_disassemble` — a disassembly assembles to the byte code, whatever blanks
  are put between its lines
-/

namespace FlowGate

/-! ### Operands -/

namespace Operand

variable {o : Operand} {code data rest : Bytes}

/-- The data that an operand can carry. -/
def Fits : Operand → Bytes → Prop
  | none, data => data = []
  | fixed size, data => data.length = size
  | counted width, data => data.length < 256 ^ width

instance (o : Operand) : DecidablePred o.Fits := fun data =>
  match o with
  | none => inferInstanceAs (Decidable (data = []))
  | fixed size => inferInstanceAs (Decidable (data.length = size))
  | counted width => inferInstanceAs (Decidable (data.length < 256 ^ width))

/-- The bytes behind an opcode that carry data. -/
def bytes : Operand → Bytes → Bytes
  | none, _ => []
  | fixed _, data => data
  | counted width, data => Bytes.ofNat width data.length ++ data

/-- The symbols behind a name that carry data. -/
def arguments : Operand → Bytes → List String
  | none, _ => []
  | fixed _, data => [Hex.encode data]
  | counted _, data => ["x" ++ Hex.encode data]

/-- An operand is cut off where its data is written. -/
theorem split?_eq_some_iff :
    o.split? code = some (data, rest) ↔ o.Fits data ∧ o.bytes data ++ rest = code := by
  constructor
  · intro h
    cases o with
    | none =>
      obtain ⟨rfl, rfl⟩ : [] = data ∧ code = rest := by simpa [split?] using h
      exact ⟨rfl, rfl⟩
    | fixed size =>
      simp only [split?, Option.ite_none_right_eq_some, Option.some.injEq, Prod.mk.injEq] at h
      obtain ⟨hsize, rfl, rfl⟩ := h
      exact ⟨hsize, List.take_append_drop size code⟩
    | counted width =>
      simp only [split?, Option.ite_none_right_eq_some, Option.some.injEq, Prod.mk.injEq] at h
      obtain ⟨⟨hwidth, hcount⟩, rfl, rfl⟩ := h
      -- The bytes of the count are those of the length of the data.
      have hlength := Bytes.ofNat_toNat (code.take width)
      have hlt := Bytes.toNat_lt (code.take width)
      rw [hwidth] at hlength hlt
      refine ⟨by rw [Fits, hcount]; exact hlt, ?_⟩
      rw [bytes, hcount, hlength, List.append_assoc, ← List.drop_drop, List.take_append_drop,
        List.take_append_drop]
  · rintro ⟨hfits, rfl⟩
    have hwhole : o.split? (o.bytes data) = some (data, []) := by
      cases o with
      | none =>
        obtain rfl : data = [] := hfits
        rfl
      | fixed size => exact split?_fixed hfits
      | counted width => exact split?_counted hfits
    exact split?_append hwhole rest

end Operand

/-! ### Instructions -/

namespace Instruction

variable {t : OpTable} {i : Instruction}

/-- The symbols of an instruction. -/
def symbols (t : OpTable) (i : Instruction) : List String :=
  t.name i.lead.toNat :: (operandAfter t i.lead).arguments i.data

/-- The byte code of an instruction. -/
def code (t : OpTable) (i : Instruction) : Bytes :=
  i.lead :: (operandAfter t i.lead).bytes i.data

/-- The data of an instruction is what its operand can carry. -/
def Fits (t : OpTable) (i : Instruction) : Prop :=
  (operandAfter t i.lead).Fits i.data

instance (t : OpTable) : DecidablePred (Instruction.Fits t) :=
  fun i => inferInstanceAs (Decidable ((operandAfter t i.lead).Fits i.data))

/-- Only the direct pushes have a fixed operand, and they have bytes behind them. -/
theorem operandAfter_eq_fixed {lead : UInt8} {size : Nat}
    (h : operandAfter t lead = .fixed size) : 0 < size ∧ size ≤ 75 ∧ size = lead.toNat := by
  simp only [operandAfter] at h
  split at h
  · next hrange =>
    obtain rfl := Operand.fixed.inj h
    exact ⟨hrange.1, hrange.2, rfl⟩
  · split at h <;> cases h

/-- A direct push has data. -/
theorem Fits.data_ne_nil {size : Nat} (hfits : i.Fits t)
    (hoperand : operandAfter t i.lead = .fixed size) : i.data ≠ [] := by
  intro hempty
  rw [Fits, hoperand, hempty, Operand.Fits, List.length_nil] at hfits
  have hpos := (operandAfter_eq_fixed hoperand).1
  omega

/-- Only an opcode with the name of a counted push has a counted operand. -/
theorem operandAfter_eq_counted {lead : UInt8} {width : Nat}
    (h : operandAfter t lead = .counted width) :
    Item.lengthWidth? (t.name lead.toNat) = some width := by
  simp only [operandAfter] at h
  split at h
  · cases h
  · split at h
    · next hwidth => rw [hwidth, Operand.counted.inj h]
    · cases h

/-- The line of an instruction is made of its symbols. -/
theorem line_eq (t : OpTable) (i : Instruction) : i.line t = " ".intercalate (i.symbols t) := by
  rw [line, symbols]
  cases operandAfter t i.lead with
  | none => simp [Operand.arguments]
  | fixed size => simp [Operand.arguments]
  | counted width =>
    simp only [Operand.arguments, String.intercalate_cons_cons, String.intercalate_singleton,
      String.append_assoc]
    rfl

/-- The byte code of a single instruction is cut into that instruction. -/
theorem cut_code (h : i.Fits t) : cut t (i.code t) = .ok [i] := by
  rw [code, cut_cons_of_some (Operand.split?_eq_some_iff.mpr ⟨h, List.append_nil _⟩), cut_nil]
  rfl

/-- Byte code is cut into instructions exactly if it consists of their byte codes. -/
theorem cut_eq_ok_iff {code : Bytes} {instructions : List Instruction} :
    cut t code = .ok instructions ↔
      (∀ i ∈ instructions, i.Fits t) ∧ instructions.flatMap (Instruction.code t) = code := by
  constructor
  · intro h
    -- Each cut takes off an opcode with the operand that it reads.
    fun_induction cut t code generalizing instructions with
    | case1 =>
      obtain rfl := Except.ok.inj h
      simp
    | case2 lead code hsplit => cases h
    | case3 lead code data rest hsplit ih =>
      obtain ⟨others, hothers, hcons⟩ := bind_ok_iff.mp h
      obtain rfl : ⟨lead, data⟩ :: others = instructions := Except.ok.inj hcons
      obtain ⟨hfits, hrest⟩ := ih hothers
      obtain ⟨hfirst, hbytes⟩ := Operand.split?_eq_some_iff.mp hsplit
      refine ⟨List.forall_mem_cons.mpr ⟨hfirst, hfits⟩, ?_⟩
      rw [List.flatMap_cons, hrest, ← hbytes]
      rfl
  · rintro ⟨hfits, rfl⟩
    induction instructions with
    | nil => exact cut_nil
    | cons i others ih =>
      rw [List.forall_mem_cons] at hfits
      rw [List.flatMap_cons, cut_append (cut_code hfits.1), ih hfits.2]
      rfl

end Instruction

/-! ### Names that are read back -/

namespace OpTable

variable {t : OpTable}

/-- What a symbol stands for as the name of an opcode: the operand that is written behind it, and
the opcode. -/
def reading? (t : OpTable) (symbol : String) : Option (Operand × Nat) :=
  (t.resolve? symbol).map fun name =>
    let code := (t.codeOf? name).getD 0
    match Item.lengthWidth? name with
    | some width => (.counted width, (Push.countedLead width).toNat)
    | none => (if Item.directStem.toList <+: name.toList then .fixed code else .none, code)

/-- The name of an opcode is read as one symbol and as the opcode, with the operand that is written
behind it. -/
def ReadsBack (t : OpTable) (lead : UInt8) : Prop :=
  Source.IsWord (t.name lead.toNat) ∧
    t.reading? (t.name lead.toNat) = some (Instruction.operandAfter t lead, lead.toNat)

/-- A symbol that stands for an opcode does so by a name: that of a counted push, or one that stands
for the opcode itself. -/
theorem reading?_cases {symbol : String} {o : Operand} {code : Nat}
    (h : t.reading? symbol = some (o, code)) :
    ∃ name found, t.resolve? symbol = some name ∧ t.codeOf? name = some found ∧
      ((∃ width, Item.lengthWidth? name = some width ∧ o = .counted width ∧
          code = (Push.countedLead width).toNat) ∨
        (Item.lengthWidth? name = none ∧ code = found ∧
          o = if Item.directStem.toList <+: name.toList then .fixed found else .none)) := by
  obtain ⟨name, hresolve, hname⟩ := Option.map_eq_some_iff.mp h
  obtain ⟨found, hfound⟩ := (resolve?_eq_some_iff.mp hresolve).2
  refine ⟨name, found, hresolve, hfound, ?_⟩
  simp only [hfound, Option.getD_some] at hname
  cases hwidth : Item.lengthWidth? name with
  | some width =>
    simp only [hwidth, Prod.mk.injEq] at hname
    exact .inl ⟨width, rfl, hname.1.symm, hname.2.symm⟩
  | none =>
    simp only [hwidth, Prod.mk.injEq] at hname
    exact .inr ⟨rfl, hname.2.symm, hname.1.symm⟩

/-- Every disassembly assembles to the byte code that it is of. -/
def Lossless (t : OpTable) : Prop :=
  ∀ code lines, disassemble t code = .ok lines → compile t ("\n".intercalate lines) = .ok code

end OpTable

/-- An instruction whose name is read back is spelled by its symbols. -/
theorem spells_instruction {t : OpTable} {i : Instruction} (h : t.ReadsBack i.lead)
    (hfits : i.Fits t) : Spells t (i.symbols t) (i.code t) := by
  obtain ⟨hword, hreading⟩ := h
  obtain ⟨name, found, hresolve, hfound, hcases⟩ := OpTable.reading?_cases hreading
  rcases hcases with ⟨width, hwidth, hoperand, hcode⟩ | ⟨hwidth, hcode, hoperand⟩
  · -- The name is that of a counted push.
    rw [Instruction.Fits, hoperand] at hfits
    rw [Instruction.symbols, Instruction.code, hoperand]
    have hpush : Item.ofPush t name ("x" ++ Hex.encode i.data) =
        .ok (.push (Push.countedLead width :: Bytes.ofNat width i.data.length) i.data) := by
      simp only [Item.ofPush, Item.argument?_hex, hwidth]
      exact if_pos hfits
    have hspells := spells_push hword (Source.isWord_hex i.data) hresolve
      (Item.takesArgument_iff.mpr (.inl (by rw [hwidth]; rfl))) hpush
    rwa [Item.code, ← UInt8.toNat_inj.mp hcode] at hspells
  · have hlead : UInt8.ofNat found = i.lead := by rw [← hcode, UInt8.ofNat_toNat]
    rw [Instruction.symbols, Instruction.code]
    by_cases hstem : Item.directStem.toList <+: name.toList
    · -- The name is that of a direct push.
      rw [if_pos hstem] at hoperand
      have hne := hfits.data_ne_nil hoperand
      rw [Instruction.Fits, hoperand] at hfits
      rw [hoperand]
      have hpush : Item.ofPush t name (Hex.encode i.data) =
          .ok (.push [UInt8.ofNat found] i.data) := by
        simp only [Item.ofPush, Item.argument?_encode, hwidth, hfound, Option.getD_some]
        exact if_pos hfits
      have hspells := spells_push hword (Source.isWord_encode hne) hresolve
        (Item.takesArgument_iff.mpr (.inr hstem)) hpush
      rwa [Item.code, hlead] at hspells
    · -- The name takes no argument.
      rw [if_neg hstem] at hoperand
      rw [hoperand]
      have htakes : ¬ Item.takesArgument name = true := by
        simp [Item.takesArgument_iff, hwidth, hstem]
      have hspells := spells_opcode hword (OpTable.opcodeOf?_eq_some
        (OpTable.resolve?_eq_some_iff.mp hresolve).1 hfound htakes)
      rwa [hlead] at hspells

/-- A disassembly assembles to the byte code that it is of, whatever blanks are put between its
lines. -/
theorem compile_intercalate_of_disassemble {t : OpTable} (h : ∀ lead, t.ReadsBack lead)
    {code : Bytes} {lines : List String} (hlines : disassemble t code = .ok lines) {gap : String}
    (hgap : Source.IsGap gap) : compile t (gap.intercalate lines) = .ok code := by
  obtain ⟨instructions, hcut, rfl⟩ := disassemble_eq_ok_iff.mp hlines
  obtain ⟨hfits, rfl⟩ := Instruction.cut_eq_ok_iff.mp hcut
  have hspells : ∀ i ∈ instructions, Spells t (i.symbols t) (i.code t) :=
    fun i hi => spells_instruction (h i.lead) (hfits i hi)
  have hreads : Source.Reads (gap.intercalate (instructions.map (Instruction.line t)))
      (instructions.flatMap (Instruction.symbols t)) := by
    refine Source.reads_intercalate hgap fun i hi => ?_
    rw [Instruction.line_eq]
    exact Source.reads_symbols (hspells i hi).isWord
  rw [compile, bind_of_eq_ok hreads.symbols_eq, (spells_flatMap hspells).assemble_eq]

end FlowGate

import FlowGate.Proofs.Gate.Spending

/-!
# Spending without a signature

A witness that ends inside a push takes the locking script, or a part of it, for the data of that
push. Such a witness can spend without a signature; a witness that spends and can be disassembled
leaves one.

## Main definitions

* `Gate.LeavesSignature` — a witness runs well and leaves a valid signature on top
* `Gate.swallowing` — a witness that takes a whole locking script for data

## Main results

* `Gate.spends_swallowing` — every gate lets the witness pass that swallows its script
* `Gate.exists_build_leavesSignature_iff` — which spending witnesses leave a signature, and that
  some do not
-/

namespace FlowGate

namespace Gate

variable {g : Gate} {p : Primitives} {sighash : Value} {witness : Bytes}

/-! ### Signatures that witnesses leave -/

/-- A witness runs well by itself and leaves a signature under a key on top of the stack. -/
def LeavesSignature (p : Primitives) (key : Bytes) (sighash : Value) (witness : Bytes) : Prop :=
  (witnessRun p sighash witness).isOk = true ∧
    ∃ signature rest, (witnessRun p sighash witness).final.stack.items = signature :: rest ∧
      p.verifyValue key sighash signature = true

/-- A witness that runs well consists of whole instructions. -/
theorem exists_cut_of_isOk (h : (witnessRun p sighash witness).isOk = true) :
    ∃ instructions, Instruction.cut .standard witness = .ok instructions := by
  obtain ⟨m, hrun⟩ := runScript_isOk_iff.mp h
  exact Machine.exists_cut_eq_ok OpTable.aligned_standard hrun

/-- Of the witnesses that spend, those of whole instructions leave a signature. -/
theorem leavesSignature_iff_of_spends (h : spends p .standard g.code witness sighash = true) :
    LeavesSignature p g.key sighash witness ↔
      ∃ instructions, Instruction.cut .standard witness = .ok instructions := by
  constructor
  · rintro ⟨hok, -⟩
    exact exists_cut_of_isOk hok
  · rintro ⟨instructions, hcut⟩
    obtain ⟨o, hok, hlist, hadmits, -⟩ := (spends_code_iff hcut).mp h
    refine ⟨hok, o.signature, [o.number, o.third, o.second, o.first], ?_, hadmits.verifyValue_eq⟩
    rw [← List.reverse_reverse (ScriptRun.final _).stack.items, ← Stack.toList, hlist]
    rfl

/-! ### Swallowing a locking script -/

/-- A push that is cut off behind its length, and so takes byte code of that length for its data. -/
def swallowing (code : Bytes) : Bytes := Push.countedLead 2 :: Bytes.ofNat 2 code.length

/-- In front of other byte code than it asks for, such a push is not a whole instruction. -/
theorem cut_swallowing_ne_ok {code : Bytes} (hpos : code ≠ []) (hlt : code.length < 256 ^ 2)
    (instructions : List Instruction) :
    Instruction.cut .standard (swallowing code) ≠ .ok instructions := by
  have hoperand : Instruction.operandAfter .standard (Push.countedLead 2) = .counted 2 := by
    rw [OpTable.aligned_standard, Push.operation_countedLead (.inr (.inl rfl))]
    rfl
  have hcount : Bytes.toNat (Bytes.ofNat 2 code.length) = code.length := by
    rw [Bytes.toNat_ofNat, Nat.mod_eq_of_lt hlt]
  -- The count is there, but none of the bytes that it counts.
  have hsplit : (Operand.counted 2).split? (Bytes.ofNat 2 code.length) = none := by
    have htake : (Bytes.ofNat 2 code.length).take 2 = Bytes.ofNat 2 code.length :=
      List.take_of_length_le (Nat.le_of_eq (Bytes.length_ofNat 2 _))
    have hdrop : (Bytes.ofNat 2 code.length).drop 2 = [] :=
      List.drop_of_length_le (Nat.le_of_eq (Bytes.length_ofNat 2 _))
    have hlength := List.length_pos_iff.mpr hpos
    rw [Operand.split?, htake, hdrop, hcount, if_neg]
    rintro ⟨-, hdata⟩
    rw [List.take_nil, List.length_nil] at hdata
    omega
  rw [swallowing, Instruction.cut_cons_of_none (by rw [hoperand]; exact hsplit)]
  intro hcut
  cases hcut

/-- A byte string whose first byte is neither zero nor the sign alone is true. -/
theorem holds_cons {b : UInt8} (hzero : b ≠ 0) (hsign : b ≠ 0x80) (bs : Bytes) :
    Truth.holds (b :: bs) = true := by
  cases bs <;> simp [Truth.holds, hzero, hsign]

/-- True byte code that can be put onto the stack authorizes behind a push that swallows it. -/
theorem authorizes_swallowing {code : Bytes} (hsize : code.length ≤ 520)
    (hholds : Truth.holds code = true) (cache : Cache) :
    authorizes p .standard (swallowing code ++ code) cache = true := by
  -- Together the two are one push, of the byte code itself.
  have hdoes : Machine.Does p .standard (swallowing code ++ code) (Exec.push code) :=
    Push.does_counted (Push.operation_countedLead (.inr (.inl rfl))) (by omega)
  rw [authorizes_iff, hdoes.interpret_eq]
  refine ⟨_, Exec.push_eq_ok_iff.mpr ⟨?_, ?_, rfl⟩, code, rfl, hholds⟩
  · exact Int.ofNat_le.mpr hsize
  · exact Nat.succ_pos 999

/-! ### The length of a locking script -/

theorem signatureCode_eq (g : Gate) : signatureCode g.key = 0x20 :: (g.key ++ [0xad]) := by
  rw [signatureCode, Push.data, if_pos (by rw [g.length_key]; decide), Push.direct, g.length_key]
  rfl

theorem length_matchCode {nibbles : List Nat} (h : ∀ n ∈ nibbles, n < 16) :
    (matchCode nibbles).length = 2 * nibbles.length := by
  induction nibbles with
  | nil => rfl
  | cons n nibbles ih =>
    have hrest := ih fun k hk => h k (List.mem_cons_of_mem n hk)
    have hn := number_eq_of_lt (Nat.lt_succ_of_lt (h n List.mem_cons_self))
    rw [matchCode, List.flatMap_cons, ← matchCode, List.length_append, hrest, hn]
    simp only [List.singleton_append, List.length_cons, List.length_nil]
    omega

theorem length_truncationCode_le (needed rest : Nat) (order : NibbleOrder) :
    (truncationCode needed rest order).length ≤ 2 * needed + rest := by
  cases order with
  | firstDeepest => simp [truncationCode]
  | firstOnTop =>
    simp only [truncationCode, List.length_append, List.length_replicate]
    omega

/-- The locking script of a gate can be put onto a stack. -/
theorem length_code_le (g : Gate) : g.code.length ≤ 520 := by
  -- Every nibble takes at most four bytes, two to keep it and two to compare it.
  have hthreshold : (thresholdCode g.role).length ≤ 6 := by cases g.role <;> decide +kernel
  have hhash : (hashCode g.order).length ≤ 4 := by cases g.order <;> decide +kernel
  have htruncation :=
    length_truncationCode_le g.nibbles.length (64 - g.nibbles.length) g.order
  have hmatch := length_matchCode g.lt_of_mem_fromTop
  rw [length_fromTop] at hmatch
  have hcount := g.length_nibbles_le
  simp only [code_eq, signatureCode_eq, List.length_append, List.length_cons, List.length_nil,
    g.length_key, Primitives.keyLength, hmatch]
  omega

theorem holds_code (g : Gate) : Truth.holds g.code = true := by
  rw [code_eq, signatureCode_eq]
  exact holds_cons (by decide) (by decide) _

/-- A witness that ends inside a push can take the whole locking script for data. -/
theorem spends_swallowing (p : Primitives) (g : Gate) (sighash : Value) :
    spends p .standard g.code (swallowing g.code) sighash = true :=
  authorizes_swallowing g.length_code_le g.holds_code _

/-- A witness that spends from a gate leaves a signature under the key of the gate, by itself and on
top of the stack, if and only if it can be disassembled. Every gate has a witness that spends and
does not. -/
theorem exists_build_leavesSignature_iff (p : Primitives) (g : Gate) (sighash : Value) :
    ∃ locking, g.args.build .standard = .ok locking ∧
      (∀ witness, spends p .standard locking.code witness sighash = true →
        (LeavesSignature p g.key sighash witness ↔
          ∃ lines, disassemble .standard witness = .ok lines)) ∧
      ∃ witness, spends p .standard locking.code witness sighash = true ∧
        ¬ LeavesSignature p g.key sighash witness := by
  obtain ⟨locking, hbuild, hcode⟩ := g.exists_build_eq
  refine ⟨locking, hbuild, ?_, swallowing g.code, ?_, ?_⟩
  · -- Witnesses of whole instructions are those that can be disassembled.
    intro witness hspends
    rw [hcode] at hspends
    rw [leavesSignature_iff_of_spends hspends]
    constructor
    · rintro ⟨instructions, hcut⟩
      exact ⟨_, disassemble_eq_ok_iff.mpr ⟨instructions, hcut, rfl⟩⟩
    · rintro ⟨lines, hlines⟩
      obtain ⟨instructions, hcut, -⟩ := disassemble_eq_ok_iff.mp hlines
      exact ⟨instructions, hcut⟩
  · rw [hcode]
    -- A push that takes the locking script for its data spends.
    exact spends_swallowing p g sighash
  · -- By itself the push is cut off, so it does not even run well.
    rintro ⟨hok, -⟩
    obtain ⟨instructions, hcut⟩ := exists_cut_of_isOk hok
    have hne : g.code ≠ [] := by
      rw [code_eq, signatureCode_eq]
      exact List.cons_ne_nil _ _
    exact cut_swallowing_ne_ok hne (Nat.lt_of_le_of_lt g.length_code_le (by decide)) _ hcut

end Gate

end FlowGate

import FlowGate.Proofs.Assembly.DecimalLiteral

/-!
# Byte strings and names in source text

A byte string that is written into source text behind an `x` is read back as the push of this byte
string, and the name of an operation without operand as its opcode.

## Main results

* `spells_hex` — a literal behind an `x` spells the push of its byte string
* `spells_of_mem`, `spells_true` — names spell their opcodes
-/

namespace FlowGate

/-! ### Byte strings -/

/-- A literal behind an `x` spells the push of its byte string. -/
theorem spells_hex {bs : Bytes} (h : bs.length ≤ Push.maxLength) :
    Spells .standard ["x" ++ Hex.encode bs] (Push.data bs) := by
  have hlist := toList_hex bs
  -- In upper case the literal starts with a letter that no name starts with.
  have hresolve : OpTable.standard.resolve? ("x" ++ Hex.encode bs) = none := by
    rw [Option.eq_none_iff_forall_ne_some]
    intro name hname
    apply (OpTable.of_resolve?_eq_some hname).1
    rw [OpTable.capital, hlist, ← List.singleton_append, Text.upper_append, String.toList_ofList]
    rfl
  -- Nor is it a numeral, since it does not start with a digit.
  have hliteral : Item.ofLiteral ("x" ++ Hex.encode bs) = .ok (.literal bs) := by
    have hdigits : Source.decimalDigits ("x" ++ Hex.encode bs) =
        (false, 'x' :: Hex.encodeChars bs) := by
      rw [Source.decimalDigits, hlist]
      rfl
    have hdecimal : Source.isDecimal ("x" ++ Hex.encode bs) = false := by
      simp [Source.isDecimal, hdigits]
    simp [Item.ofLiteral, hdecimal, Source.afterX?_hex, h, bind, Except.bind, pure, Except.pure]
  exact spells_literal (Source.isWord_hex bs) hresolve hliteral

/-! ### Names -/

/-- The name of an operation without operand spells its opcode. -/
theorem spells_of_mem {row : Nat × String × Operation} (h : row ∈ OpTable.basicOperations)
    (hoperand : row.2.2.operand = .none) : Spells .standard [row.2.1] [UInt8.ofNat row.1] :=
  let ⟨hword, hcode⟩ := OpTable.opcodeOf?_of_mem h hoperand
  spells_opcode hword hcode

theorem spells_true : Spells .standard ["OP_TRUE"] [0x51] :=
  spells_opcode (by decide +kernel) OpTable.opcodeOf?_true

end FlowGate

import FlowGate.Proofs.Assembly.RoundTrip

/-!
# The standard opcode table

Facts about the table with which scripts start. Its opcodes are the rows that it is made of, and its
names can be told apart, so that a symbol is looked up by finding its row.

## Main results

* `OpTable.aligned_standard` — the machine and the disassembler agree on operands
* `OpTable.operation_of_mem`, `OpTable.operation_digest` — the operations of the opcodes
* `OpTable.opcodeOf?_of_mem`, `OpTable.opcodeOf?_toString` — what names and small numerals stand for
* `OpTable.of_resolve?_eq_some`, `OpTable.not_minus_of_resolve?` — which names could be taken for
  literals
-/

namespace FlowGate

namespace OpTable

variable {row : Nat × String × Operation} {symbol name : String}

/-! ### Operations -/

/-- The machine and the disassembler agree on operands. -/
theorem aligned_standard : Aligned standard := by
  intro lead
  rw [operation]
  cases hlookup : standard.assigned.lookup lead.toNat with
  | some entry =>
    have hrow := lookup_assigned_standard_iff.mp hlookup
    have hoperand := Reachable.standard.operandAfter_of_mem hrow
    rwa [UInt8.ofNat_toNat] at hoperand
  | none =>
    have hlead : 78 < lead.toNat := by
      by_contra hle
      obtain ⟨row, hrow, hcode⟩ := exists_row_of_le (Nat.le_of_not_lt hle)
      rw [← hcode, Reachable.standard.lookup_assigned hrow] at hlookup
      cases hlookup
    exact wellNamed_standard.operandAfter_none (.inr hlead)

theorem operation_of_mem_standardRows (h : row ∈ standardRows) :
    standard.operation row.1 = row.2.2 := by
  rw [operation, Reachable.standard.lookup_assigned h]

/-- The opcodes that are assigned from the start keep their operations. -/
theorem operation_of_mem (h : row ∈ basicOperations) : standard.operation row.1 = row.2.2 :=
  operation_of_mem_standardRows (List.mem_append_left _ h)

theorem operation_digest : standard.operation digestCode = .digest :=
  operation_of_mem_standardRows (List.mem_append_right _ List.mem_cons_self)

/-! ### Names -/

/-- The name of an operation without operand asks for no argument. -/
theorem not_takesArgument_of_mem (h : row ∈ standardRows) (hoperand : row.2.2.operand = .none) :
    ¬ Item.takesArgument row.2.1 = true := by
  rw [operand_eq_of_mem h, operandOf] at hoperand
  rw [Item.takesArgument_iff, directStem_prefix_iff h]
  split_ifs at hoperand with hdirect
  rintro (hsome | hrange)
  · obtain ⟨width, hwidth⟩ := Option.isSome_iff_exists.mp hsome
    rw [hwidth] at hoperand
    cases hoperand
  · exact hdirect hrange

/-- A symbol that leads to the name of an operation without operand stands for its opcode. -/
theorem opcodeOf?_of_target (h : row ∈ standardRows) (hoperand : row.2.2.operand = .none)
    (htarget : standard.target symbol = row.2.1) : standard.opcodeOf? symbol = some row.1 := by
  have hlt := code_lt_of_mem h
  have hname := Reachable.standard.name_of_mem h
  obtain ⟨found, hfound⟩ := regular_standard.exists_codeOf?_name hlt
  obtain ⟨hfoundlt, hsame⟩ := regular_standard.name_eq_of_codeOf? hfound
  obtain rfl := wellNamed_standard.injective found hfoundlt row.1 hlt hsame
  rw [hname] at hfound
  exact opcodeOf?_eq_some htarget hfound (not_takesArgument_of_mem h hoperand)

/-- An operation without operand has its name for a symbol. -/
theorem opcodeOf?_of_mem (h : row ∈ basicOperations) (hoperand : row.2.2.operand = .none) :
    Source.IsWord row.2.1 ∧ standard.opcodeOf? row.2.1 = some row.1 := by
  have hrow : row ∈ standardRows := List.mem_append_left _ h
  have hplain := isPlainName_of_mem hrow
  refine ⟨hplain.isWord, opcodeOf?_of_target hrow hoperand ?_⟩
  have halias := wellNamed_standard.not_alias row.1 (code_lt_of_mem hrow)
  rw [Reachable.standard.name_of_mem hrow] at halias
  rw [target, hplain.isName.capital_eq, halias, Option.getD_none]

/-! ### Aliases -/

theorem isSome_lookup_aliases (h : (symbol, name) ∈ basic.aliases) :
    (standard.aliases.lookup symbol).isSome = true := by
  rw [standard, aliases_assign]
  apply Assoc.isSome_lookup_set
  rw [List.lookup_isSome_iff]
  exact .inr ⟨_, h, beq_self_eq_true symbol⟩

/-- What an alias leads to by leaving out the stem is a row of the table. -/
theorem exists_row_of_alias (h : standard.aliases.lookup symbol = some (stem ++ symbol)) :
    ∃ row ∈ standardRows, bare row.2.1 = symbol := by
  obtain ⟨code, hcode⟩ := Option.isSome_iff_exists.mp (regular_standard.name_of_alias h)
  obtain ⟨op, hop⟩ := regular_standard.assigned_of_name hcode
  exact ⟨_, lookup_assigned_standard_iff.mp hop, bare_stem_append symbol⟩

/-- A name without its stem leads to the name. -/
theorem target_of_bare (h : row ∈ standardRows) (hsymbol : capital symbol = bare row.2.1) :
    standard.target symbol = row.2.1 := by
  have hsome : (standard.aliases.lookup (bare row.2.1)).isSome = true := by
    rcases List.mem_append.mp h with hbasic | hdigest
    · exact isSome_lookup_aliases (List.mem_append_left _ (List.mem_map_of_mem hbasic))
    · obtain rfl := List.mem_singleton.mp hdigest
      rw [standard, aliases_assign, Assoc.lookup_set_self]
      rfl
  obtain ⟨name, hname⟩ := Option.isSome_iff_exists.mp hsome
  rw [target, hsymbol, hname, Option.getD_some]
  rcases regular_standard.alias_cases hname with rfl | hextra
  · exact (isPlainName_of_mem h).isName.stem_append_bare
  · exact absurd (List.mem_map_of_mem hextra) (bare_of_mem h).1

/-- An extra alias leads to its name. -/
theorem target_of_mem_extraAliases (h : (capital symbol, name) ∈ extraAliases) :
    standard.target symbol = name := by
  obtain ⟨other, hother⟩ :=
    Option.isSome_iff_exists.mp (isSome_lookup_aliases (List.mem_append_right _ h))
  rw [target, hother, Option.getD_some]
  rcases regular_standard.alias_cases hother with rfl | hextra
  · -- Then it would be an alias without stem as well.
    obtain ⟨row, hrow, hbare⟩ := exists_row_of_alias hother
    have hmem : capital symbol ∈ extraAliases.map Prod.fst := List.mem_map_of_mem h
    exact absurd (hbare ▸ hmem) (bare_of_mem hrow).1
  · have hunique : ∀ entry ∈ extraAliases, ∀ entry' ∈ extraAliases,
        entry.1 = entry'.1 → entry.2 = entry'.2 := by
      decide +kernel
    exact hunique _ hextra _ h rfl

theorem opcodeOf?_true : standard.opcodeOf? "OP_TRUE" = some 0x51 := by
  have hrow : (0x51, "OP_1", Operation.push (ScriptNumber.encode (1 : Nat))) ∈ standardRows := by
    decide +kernel
  exact opcodeOf?_of_target hrow rfl (target_of_mem_extraAliases (by decide +kernel))

/-- The numerals from 0 to 16 are names of opcodes. -/
theorem opcodeOf?_toString {n : Nat} (h : n < 17) :
    standard.opcodeOf? (toString n) = some (if n = 0 then 0 else 0x50 + n) := by
  have hrows : ∀ n < 17, ∃ row ∈ otherRows, bare row.2.1 = toString n ∧
      row.1 = (if n = 0 then 0 else 0x50 + n) ∧ row.2.2.operand = .none := by
    decide +kernel
  obtain ⟨row, hrow, hbare, hcode, hoperand⟩ := hrows n h
  have hmem : row ∈ standardRows := List.mem_of_mem_filter hrow
  rw [← hcode]
  exact opcodeOf?_of_target hmem hoperand (target_of_bare hmem (by rw [capital_toString, hbare]))

/-- A symbol that stands for a name begins with the stem in upper case, or is a name without stem,
or an extra alias. -/
theorem capital_cases_of_resolve? (h : standard.resolve? symbol = some name) :
    stem.toList <+: (capital symbol).toList ∨
      (∃ row ∈ standardRows, bare row.2.1 = capital symbol) ∨
      capital symbol ∈ extraAliases.map Prod.fst := by
  obtain ⟨htarget, code, hcode⟩ := resolve?_eq_some_iff.mp h
  obtain ⟨hlt, rfl⟩ := regular_standard.name_eq_of_codeOf? hcode
  have hname := regular_standard.isName_name hlt
  rw [target] at htarget
  cases halias : standard.aliases.lookup (capital symbol) with
  | none =>
    rw [halias, Option.getD_none] at htarget
    exact .inl (htarget ▸ hname.hasStem)
  | some name =>
    rcases regular_standard.alias_cases halias with rfl | hextra
    · exact .inr (.inl (exists_row_of_alias halias))
    · exact .inr (.inr (List.mem_map_of_mem hextra))

/-- No name or alias begins like a literal behind an `x`, and the only ones that are numerals are
those from 0 to 16. -/
theorem of_resolve?_eq_some (h : standard.resolve? symbol = some name) :
    (capital symbol).toList.head? ≠ some 'X' ∧
      ((capital symbol).toList.all Char.isDigit = true →
        capital symbol ∈ (List.range 17).map toString) := by
  rcases capital_cases_of_resolve? h with ⟨cs, hcs⟩ | ⟨row, hrow, hbare⟩ | hextra
  · have hlist : (capital symbol).toList = 'O' :: 'P' :: '_' :: cs := by rw [← hcs]; rfl
    simp [hlist]
  · exact hbare ▸ (bare_of_mem hrow).2
  · have hall : ∀ symbol ∈ extraAliases.map Prod.fst, symbol.toList.head? ≠ some 'X' ∧
        (symbol.toList.all Char.isDigit = true → symbol ∈ (List.range 17).map toString) := by
      decide +kernel
    exact hall _ hextra

/-- No name or alias begins with a minus. -/
theorem not_minus_of_resolve? (h : standard.resolve? symbol = some name) :
    (capital symbol).toList.head? ≠ some '-' := by
  rcases capital_cases_of_resolve? h with ⟨cs, hcs⟩ | ⟨row, hrow, hbare⟩ | hextra
  · rw [← hcs]
    simp [stem]
  · intro hhead
    have hmem : '-' ∈ row.2.1.toList := by
      have hplain := isPlainName_of_mem hrow
      rw [← hplain.isName.stem_append_bare, hbare, String.toList_append]
      exact List.mem_append_right _ (List.mem_of_head? hhead)
    exact absurd ((isPlainName_of_mem hrow).isPlain '-' hmem) (by decide)
  · have hall : ∀ symbol ∈ extraAliases.map Prod.fst, symbol.toList.head? ≠ some '-' := by
      decide +kernel
    exact hall _ hextra

end OpTable

end FlowGate

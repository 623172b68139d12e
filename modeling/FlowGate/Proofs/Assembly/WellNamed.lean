import FlowGate.Proofs.Assembly.Reading
import FlowGate.Proofs.Assembly.Registration
import Mathlib.Tactic.SplitIfs

/-!
# Names that can be told apart

When the names of a table are read back as the opcodes that they are the names of: they have to be
symbols, no two opcodes may share one, none may be another spelling of a name, and only the explicit
pushes may be named like explicit pushes.

## Main definitions

* `OpTable.WellNamed` — the names of a table can be told apart

## Main results

* `OpTable.Reachable.forall_readsBack_iff` — all names are read back if and only if they can be told
  apart
* `OpTable.wellNamed_standard` — the names of the standard table can be told apart
-/

namespace FlowGate

namespace OpTable

variable {t : OpTable} {name : String} {code other : Nat} {row : Nat × String × Operation}

/-! ### Names of reachable tables -/

theorem name_eq_of_lookup_eq_some {entry : String × Operation}
    (h : t.assigned.lookup code = some entry) : t.name code = entry.1 := by
  rw [OpTable.name, name?, h]
  rfl

theorem Regular.name_eq_placeholder (h : t.Regular) (hlt : code < 256)
    (hnone : t.assigned.lookup code = none) : t.name code = placeholder code := by
  rw [OpTable.name, name?, hnone]
  change (t.free.lookup code).getD "" = _
  rw [h.free_iff.mpr ⟨hlt, hnone, rfl⟩, Option.getD_some]

theorem Regular.isName_name (h : t.Regular) (hlt : code < 256) : IsName (t.name code) := by
  cases hlookup : t.assigned.lookup code with
  | none =>
    rw [h.name_eq_placeholder hlt hlookup]
    exact (isPlainName_placeholder code).isName
  | some entry =>
    rw [name_eq_of_lookup_eq_some hlookup]
    exact h.isName hlookup

/-- A name stands for an opcode that it is the name of. -/
theorem Regular.name_eq_of_codeOf? (h : t.Regular) (hcode : t.codeOf? name = some code) :
    code < 256 ∧ t.name code = name := by
  rw [codeOf?] at hcode
  cases hnames : t.names.lookup name with
  | some found =>
    obtain rfl : found = code := by simpa [hnames] using hcode
    obtain ⟨op, hop⟩ := h.assigned_of_name hnames
    exact ⟨h.code_lt hop, name_eq_of_lookup_eq_some hop⟩
  | none =>
    obtain ⟨hlt, hnone, rfl⟩ := h.freeNames_iff.mp (by simpa [hnames] using hcode)
    exact ⟨hlt, h.name_eq_placeholder hlt hnone⟩

/-- Every name of an opcode stands for some opcode. -/
theorem Regular.exists_codeOf?_name (h : t.Regular) (hlt : code < 256) :
    ∃ found, t.codeOf? (t.name code) = some found := by
  rw [codeOf?]
  cases hlookup : t.assigned.lookup code with
  | none =>
    rw [h.name_eq_placeholder hlt hlookup, h.freeNames_iff.mpr ⟨hlt, hlookup, rfl⟩]
    cases t.names.lookup (placeholder code) <;> simp
  | some entry =>
    obtain ⟨found, hfound⟩ := Option.isSome_iff_exists.mp (h.name_of_assigned hlookup)
    rw [name_eq_of_lookup_eq_some hlookup, hfound]
    exact ⟨found, rfl⟩

theorem Reachable.name_of_mem (h : t.Reachable) (hrow : row ∈ standardRows) :
    t.name row.1 = row.2.1 :=
  name_eq_of_lookup_eq_some (h.lookup_assigned hrow)

/-- The opcodes with which scripts start have the operands of their operations. -/
theorem Reachable.operandAfter_of_mem (h : t.Reachable) {row : Nat × String × Operation}
    (hrow : row ∈ standardRows) :
    Instruction.operandAfter t (UInt8.ofNat row.1) = row.2.2.operand := by
  rw [operandAfter_eq, UInt8.toNat_ofNat_of_lt' (code_lt_of_mem hrow), h.name_of_mem hrow,
    operand_eq_of_mem hrow]

/-- The opcodes up to the last of the explicit pushes are assigned from the start. -/
theorem exists_row_of_le (h : code ≤ 0x4e) : ∃ row ∈ standardRows, row.1 = code := by
  have hall : ∀ code < 0x4f, code ∈ standardRows.map Prod.fst := by decide +kernel
  exact List.mem_map.mp (hall code (Nat.lt_succ_of_le h))

/-- The names of the direct pushes have their stem. -/
theorem Reachable.hasDirectStem (h : t.Reachable) (hpos : 0 < code) (hle : code ≤ 75) :
    Item.directStem.toList <+: (t.name code).toList := by
  obtain ⟨row, hrow, rfl⟩ := exists_row_of_le (show code ≤ 0x4e by omega)
  rw [h.name_of_mem hrow]
  exact (directStem_prefix_iff hrow).mpr ⟨hpos, hle⟩

theorem lt_countedLead (width : Nat) : 75 < (Push.countedLead width).toNat := by
  unfold Push.countedLead
  split <;> decide

theorem countedLead_le (width : Nat) : (Push.countedLead width).toNat ≤ 0x4e := by
  unfold Push.countedLead
  split <;> decide

/-! ### Telling names apart -/

/-- The names of the opcodes can be told apart: they are symbols, none is another spelling of a
name, only the explicit pushes are named like explicit pushes, and no two opcodes have the same
name. -/
structure WellNamed (t : OpTable) : Prop where
  isWord : ∀ code < 256, Source.IsWord (t.name code)
  not_alias : ∀ code < 256, t.aliases.lookup (t.name code) = none
  le_of_takesArgument : ∀ code < 256, Item.takesArgument (t.name code) = true →
    0 < code ∧ code ≤ 0x4e
  injective : ∀ code < 256, ∀ other < 256, t.name code = t.name other → code = other

/-- No name is that of a counted push and of a direct push at once. -/
theorem lengthWidth?_eq_none (h : Item.directStem.toList <+: name.toList) :
    Item.lengthWidth? name = none := by
  unfold Item.lengthWidth?
  split_ifs with h₁ h₂ h₃
  · exact absurd (h₁ ▸ h) (by decide +kernel)
  · exact absurd (h₂ ▸ h) (by decide +kernel)
  · exact absurd (h₃ ▸ h) (by decide +kernel)
  · rfl

/-- The names of the counted pushes and the widths of their lengths. -/
theorem lengthWidth?_cases {width : Nat} (h : Item.lengthWidth? name = some width) :
    name = "OP_PUSHDATA1" ∧ width = 1 ∨ name = "OP_PUSHDATA2" ∧ width = 2 ∨
      name = "OP_PUSHDATA4" ∧ width = 4 := by
  unfold Item.lengthWidth? at h
  split_ifs at h with h₁ h₂ h₃ <;> simp_all

/-- The width of a length tells the names of the counted pushes apart. -/
theorem eq_of_lengthWidth?_eq {name' : String} {width : Nat}
    (h : Item.lengthWidth? name = some width) (h' : Item.lengthWidth? name' = some width) :
    name = name' := by
  rcases lengthWidth?_cases h with ⟨rfl, rfl⟩ | ⟨rfl, rfl⟩ | ⟨rfl, rfl⟩ <;>
    rcases lengthWidth?_cases h' with ⟨rfl, hw⟩ | ⟨rfl, hw⟩ | ⟨rfl, hw⟩ <;> simp_all

section ReadsBack

variable (ht : t.Reachable)
include ht

theorem Reachable.capital_name (hlt : code < 256) : capital (t.name code) = t.name code :=
  (ht.regular.isName_name hlt).capital_eq

/-- Names that can be told apart are read back. -/
theorem WellNamed.readsBack (h : t.WellNamed) (lead : UInt8) : t.ReadsBack lead := by
  have hlt := lead.toNat_lt
  -- The name stands for an opcode, and no other one has it.
  obtain ⟨found, hfound⟩ := ht.regular.exists_codeOf?_name hlt
  obtain ⟨hfoundlt, hname⟩ := ht.regular.name_eq_of_codeOf? hfound
  obtain rfl := h.injective found hfoundlt _ hlt hname
  have hresolve : t.resolve? (t.name lead.toNat) = some (t.name lead.toNat) := by
    refine resolve?_eq_some_iff.mpr ⟨?_, _, hfound⟩
    rw [target, ht.capital_name hlt, h.not_alias _ hlt, Option.getD_none]
  -- If it asks for an argument, it is the name of an explicit push.
  have hrow : Item.takesArgument (t.name lead.toNat) = true →
      ∃ row ∈ standardRows, row.1 = lead.toNat ∧ row.2.1 = t.name lead.toNat := by
    intro htakes
    obtain ⟨row, hmem, hcode⟩ := exists_row_of_le (h.le_of_takesArgument _ hlt htakes).2
    exact ⟨row, hmem, hcode, by rw [← ht.name_of_mem hmem, hcode]⟩
  refine ⟨h.isWord _ hlt, ?_⟩
  simp only [reading?, hresolve, Option.map_some, hfound, Option.getD_some, Option.some.injEq,
    Instruction.operandAfter]
  -- What the name asks for is what the opcode reads.
  by_cases hdirect : 0 < lead.toNat ∧ lead.toNat ≤ 75
  · have hstem := ht.hasDirectStem hdirect.1 hdirect.2
    simp only [lengthWidth?_eq_none hstem, if_pos hstem, if_pos hdirect]
  · rw [if_neg hdirect]
    cases hwidth : Item.lengthWidth? (t.name lead.toNat) with
    | some width =>
      have htakes := Item.takesArgument_iff.mpr (.inl (by rw [hwidth]; rfl))
      obtain ⟨row, hmem, hcode, hname⟩ := hrow htakes
      rw [← hname] at hwidth
      simp only [← hcode, code_eq_of_lengthWidth?_eq_some hmem hwidth]
    | none =>
      have hstem : ¬ Item.directStem.toList <+: (t.name lead.toNat).toList := by
        intro hstem
        obtain ⟨row, hmem, hcode, hname⟩ := hrow (Item.takesArgument_iff.mpr (.inr hstem))
        rw [← hname, directStem_prefix_iff hmem, hcode] at hstem
        exact hdirect hstem
      simp only [if_neg hstem]

/-- A name that is read back is no alias of another one. -/
theorem Reachable.target_name {lead : UInt8} (h : t.ReadsBack lead) :
    t.resolve? (t.name lead.toNat) = some (t.name lead.toNat) := by
  obtain ⟨name, found, hresolve, hfound, ⟨width, hwidth, hoperand, -⟩ | ⟨-, hcode, -⟩⟩ :=
    reading?_cases h.2
  · rw [hresolve, eq_of_lengthWidth?_eq hwidth (Instruction.operandAfter_eq_counted hoperand)]
  · rw [hresolve, hcode, (ht.regular.name_eq_of_codeOf? hfound).2]

/-- The names that are read back can be told apart. -/
theorem Reachable.wellNamed (h : ∀ lead, t.ReadsBack lead) : t.WellNamed := by
  have hlead : ∀ {code}, code < 256 → (UInt8.ofNat code).toNat = code :=
    fun hlt => UInt8.toNat_ofNat_of_lt' hlt
  have hresolve : ∀ {code}, code < 256 → t.resolve? (t.name code) = some (t.name code) := by
    intro code hlt
    have hself := ht.target_name (h (UInt8.ofNat code))
    rwa [hlead hlt] at hself
  constructor
  case isWord =>
    intro code hlt
    have hword := (h (UInt8.ofNat code)).1
    rwa [hlead hlt] at hword
  case not_alias =>
    intro code hlt
    obtain ⟨htarget, -⟩ := resolve?_eq_some_iff.mp (hresolve hlt)
    rw [target, ht.capital_name hlt] at htarget
    cases halias : t.aliases.lookup (t.name code) with
    | none => rfl
    | some name =>
      -- An alias of itself would be longer than itself.
      rw [halias, Option.getD_some] at htarget
      rw [htarget] at halias
      rcases ht.regular.alias_cases halias with hstem | hextra
      · exact absurd hstem.symm (stem_append_ne _)
      · have hall : ∀ entry ∈ extraAliases, entry.1 ≠ entry.2 := by decide +kernel
        exact absurd rfl (hall _ hextra)
  case le_of_takesArgument =>
    intro code hlt htakes
    obtain ⟨name, found, hname, hfound, hcases⟩ := reading?_cases (h (UInt8.ofNat code)).2
    rw [hlead hlt] at hname hcases
    obtain rfl := Option.some.inj ((hresolve hlt).symm.trans hname)
    rcases hcases with ⟨width, -, -, rfl⟩ | ⟨hwidth, rfl, hoperand⟩
    · have hlow := lt_countedLead width
      have hhigh := countedLead_le width
      omega
    · rcases Item.takesArgument_iff.mp htakes with hsome | hstem
      · rw [hwidth] at hsome
        cases hsome
      · rw [if_pos hstem] at hoperand
        obtain ⟨hpos, hle, -⟩ := Instruction.operandAfter_eq_fixed hoperand
        omega
  case injective =>
    intro code hlt other hother hname
    have hcode := (h (UInt8.ofNat code)).2
    have hcode' := (h (UInt8.ofNat other)).2
    rw [hlead hlt, hname] at hcode
    rw [hlead hother, hcode] at hcode'
    exact (Prod.mk.inj (Option.some.inj hcode')).2

/-- All names are read back if and only if they can be told apart. -/
theorem Reachable.forall_readsBack_iff : (∀ lead, t.ReadsBack lead) ↔ t.WellNamed :=
  ⟨ht.wellNamed, fun h => h.readsBack ht⟩

end ReadsBack

/-! ### The standard table -/

/-- The names of the standard table are those of its operations and the placeholders. -/
theorem name_standard_cases (hlt : code < 256) :
    (∃ row ∈ standardRows, row.1 = code ∧ standard.name code = row.2.1) ∨
      standard.name code = placeholder code := by
  cases hlookup : standard.assigned.lookup code with
  | none => exact .inr (regular_standard.name_eq_placeholder hlt hlookup)
  | some entry =>
    have hrow := lookup_assigned_standard_iff.mp hlookup
    exact .inl ⟨_, hrow, rfl, name_eq_of_lookup_eq_some hlookup⟩

/-- The names of the standard table can be told apart. -/
theorem wellNamed_standard : standard.WellNamed := by
  constructor
  case isWord =>
    intro code hlt
    rcases name_standard_cases hlt with ⟨row, hrow, -, hname⟩ | hname
    · exact hname ▸ (isPlainName_of_mem hrow).isWord
    · exact hname ▸ (isPlainName_placeholder code).isWord
  case not_alias =>
    intro code hlt
    cases halias : standard.aliases.lookup (standard.name code) with
    | none => rfl
    | some target =>
      rcases regular_standard.alias_cases halias with rfl | hextra
      · -- The target would be a name that has the stem twice.
        obtain ⟨found, hfound⟩ :=
          Option.isSome_iff_exists.mp (regular_standard.name_of_alias halias)
        obtain ⟨op, hop⟩ := regular_standard.assigned_of_name hfound
        have hbare := (not_alias_of_mem (lookup_assigned_standard_iff.mp hop)).1
        rw [bare_stem_append] at hbare
        exact absurd (regular_standard.isName_name hlt).hasStem hbare
      · have hmem : standard.name code ∈ extraAliases.map Prod.fst := List.mem_map_of_mem hextra
        rcases name_standard_cases hlt with ⟨row, hrow, -, hname⟩ | hname
        · exact absurd (hname ▸ hmem) (not_alias_of_mem hrow).2
        · rw [hname] at hmem
          simp [extraAliases, placeholder, invalidStem, ← String.toList_inj] at hmem
  case le_of_takesArgument =>
    intro code hlt htakes
    rw [Item.takesArgument_iff] at htakes
    rcases name_standard_cases hlt with ⟨row, hrow, rfl, hname⟩ | hname
    · rw [hname] at htakes
      rcases htakes with hsome | hstem
      · obtain ⟨width, hwidth⟩ := Option.isSome_iff_exists.mp hsome
        have hcode := code_eq_of_lengthWidth?_eq_some hrow hwidth
        have hlow := lt_countedLead width
        have hhigh := countedLead_le width
        omega
      · have hrange := (directStem_prefix_iff hrow).mp hstem
        omega
    · rw [hname] at htakes
      simp [placeholder, invalidStem, Item.lengthWidth?, Item.directStem, ← String.toList_inj]
        at htakes
  case injective =>
    intro code hlt other hother hsame
    rcases name_standard_cases hlt with ⟨row, hrow, rfl, hname⟩ | hname <;>
      rcases name_standard_cases hother with ⟨row', hrow', rfl, hname'⟩ | hname' <;>
      rw [hname, hname'] at hsame
    · exact code_eq_of_name_eq hrow hrow' hsame
    · exact absurd hsame (name_ne_placeholder hrow other)
    · exact absurd hsame.symm (name_ne_placeholder hrow' code)
    · exact placeholder_injective hsame

/-- The names of the standard table are read back. -/
theorem readsBack_standard (lead : UInt8) : standard.ReadsBack lead :=
  wellNamed_standard.readsBack .standard lead

end OpTable

end FlowGate

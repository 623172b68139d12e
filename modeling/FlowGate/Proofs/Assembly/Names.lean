import FlowGate.Proofs.Text.Numeral
import FlowGate.Proofs.Text.UpperCase
import Mathlib.Data.List.Nodup

/-!
# Names of opcodes

The names in use and the placeholders are written in plain characters, so that they are read as one
symbol and upper case leaves them alone. The opcodes that are assigned from the start are the direct
pushes, whose names count, and a few others, which are checked one by one.

## Main definitions

* `OpTable.IsName`, `OpTable.IsPlainName` — texts in the form of names
* `OpTable.placeholder` — the placeholder of an unassigned opcode
* `OpTable.standardRows`, `OpTable.otherRows` — the opcodes with which scripts start, and those of
  them that are no direct pushes
* `OpTable.operandOf` — the operand of an opcode with a name
* `OpTable.IsOther` — what is checked of the opcodes that are no direct pushes

## Main results

* `OpTable.mem_standardRows_cases` — an opcode is a direct push or one of the others
* `OpTable.isPlainName_of_mem`, `OpTable.isPlainName_placeholder` — names and placeholders are plain
* `OpTable.code_eq_of_name_eq` — different opcodes have different names
-/

namespace FlowGate

namespace OpTable

variable {name : String} {row row' : Nat × String × Operation}

/-! ### The form of names -/

/-- The form of a name: it begins with the stem and is in upper case. -/
structure IsName (name : String) : Prop where
  hasStem : stem.toList <+: name.toList
  upper_eq : Text.upper name.toList = name.toList

theorem IsName.stem_append_bare (h : IsName name) : stem ++ bare name = name := by
  obtain ⟨rest, hrest⟩ := h.hasStem
  rw [← String.toList_inj, String.toList_append, bare, ← hrest, String.toList_ofList]
  rfl

theorem IsName.capital_eq (h : IsName name) : capital name = name := by
  rw [capital, h.upper_eq, String.ofList_toList]

theorem bare_stem_append (name : String) : bare (stem ++ name) = name := by
  rw [← String.toList_inj, bare, String.toList_append, String.toList_ofList]
  rfl

theorem stem_append_ne (name : String) : stem ++ name ≠ name := by
  intro h
  have hlength := congrArg (fun s => s.toList.length) h
  simp [stem] at hlength
  omega

/-- A name is not its own alias. -/
theorem IsName.ne_bare (h : IsName name) : name ≠ bare name := by
  intro heq
  have hstem := h.stem_append_bare
  rw [← heq] at hstem
  exact stem_append_ne _ hstem

/-- A character of the names in use: an upper-case letter, a digit or the underscore. -/
def isPlain (c : Char) : Bool := c.isUpper || c.isDigit || c == '_'

theorem isSettled_of_isPlain {c : Char} (h : isPlain c = true) : Text.IsSettled c := by
  have hlt : c.toNat < 128 := by
    simp only [isPlain, Bool.or_eq_true, beq_iff_eq] at h
    rcases h with (hupper | hdigit) | rfl
    · have hle : c.val ≤ 'Z'.val := (of_decide_eq_true hupper).2
      exact Nat.lt_of_le_of_lt (UInt32.le_iff_toNat_le.mp hle) (by decide)
    · have hle : c.val ≤ '9'.val := of_decide_eq_true (Bool.and_eq_true_iff.mp hdigit).2
      exact Nat.lt_of_le_of_lt (UInt32.le_iff_toNat_le.mp hle) (by decide)
    · decide
  exact Text.forall_ascii (P := fun c => isPlain c = true → Text.IsSettled c) (by decide +kernel)
    hlt h

/-- A name of plain characters. -/
structure IsPlainName (name : String) : Prop where
  hasStem : stem.toList <+: name.toList
  isPlain : ∀ c ∈ name.toList, isPlain c = true

theorem IsPlainName.isName (h : IsPlainName name) : IsName name :=
  ⟨h.hasStem, Text.upper_eq_self fun c hc => (isSettled_of_isPlain (h.isPlain c hc)).1⟩

theorem IsPlainName.isWord (h : IsPlainName name) : Source.IsWord name := by
  refine ⟨fun hempty => ?_, fun c hc => (isSettled_of_isPlain (h.isPlain c hc)).2⟩
  have hprefix := h.hasStem
  rw [hempty, List.prefix_nil] at hprefix
  exact absurd hprefix (by decide)

/-- A plain text with a numeral behind it is plain. -/
theorem isPlainName_append_toString (hstem : stem.toList <+: name.toList)
    (hplain : name.toList.all isPlain = true) (n : Nat) :
    IsPlainName (name ++ toString n) := by
  refine ⟨?_, fun c hc => ?_⟩
  · rw [String.toList_append]
    exact hstem.trans (List.prefix_append _ _)
  · rw [String.toList_append, List.mem_append] at hc
    rcases hc with hc | hc
    · exact List.all_eq_true.mp hplain c hc
    · simp [OpTable.isPlain, isDigit_of_mem_toString hc]

/-! ### Placeholders -/

/-- The stem of the placeholders. -/
def invalidStem : String := "OP_INVALID_"

/-- The placeholder of an unassigned opcode. -/
def placeholder (code : Nat) : String := invalidStem ++ toString code

theorem isPlainName_placeholder (code : Nat) : IsPlainName (placeholder code) :=
  isPlainName_append_toString (by decide +kernel) (by decide +kernel) code

theorem placeholder_injective {code other : Nat} (h : placeholder code = placeholder other) :
    code = other := by
  apply toString_injective
  rw [← String.toList_inj] at h ⊢
  simpa [placeholder] using h

/-! ### The opcodes with which scripts start -/

/-- The operand of an opcode with a name. -/
def operandOf (code : Nat) (name : String) : Operand :=
  if 0 < code ∧ code ≤ 75 then .fixed code
  else
    match Item.lengthWidth? name with
    | some width => .counted width
    | none => .none

theorem operandAfter_eq (t : OpTable) (lead : UInt8) :
    Instruction.operandAfter t lead = operandOf lead.toNat (t.name lead.toNat) :=
  rfl

/-- The opcodes with which scripts start, with names and operations. -/
def standardRows : List (Nat × String × Operation) :=
  basicOperations ++ [(digestCode, digestName, .digest)]

/-- Those of them that are no direct pushes. -/
def otherRows : List (Nat × String × Operation) :=
  standardRows.filter fun row => row.1 == 0 || Nat.blt 75 row.1

/-- The direct push of `size` bytes. -/
def directRow (size : Nat) : Nat × String × Operation :=
  (size, Item.directStem ++ toString size, .pushOperand (.fixed size))

theorem code_of_mem_otherRows (h : row ∈ otherRows) : row.1 = 0 ∨ 75 < row.1 := by
  simpa using (List.mem_filter.mp h).2

/-- An opcode is one of the few others or a direct push. -/
theorem mem_standardRows_cases (h : row ∈ standardRows) :
    row ∈ otherRows ∨ ∃ size, 0 < size ∧ size ≤ 75 ∧ row = directRow size := by
  by_cases hcode : row.1 = 0 ∨ 75 < row.1
  · left
    exact List.mem_filter.mpr ⟨h, by simpa using hcode⟩
  · right
    have hdirect : ∀ row ∈ standardRows, ¬ (row.1 = 0 ∨ 75 < row.1) → row = directRow row.1 := by
      decide +kernel
    exact ⟨row.1, by omega, by omega, hdirect row h hcode⟩

theorem code_lt_of_mem (h : row ∈ standardRows) : row.1 < 256 := by
  revert row
  decide +kernel

/-- No two rows are for the same opcode. -/
theorem nodup_codes : (standardRows.map Prod.fst).Nodup := by
  decide +kernel

theorem eq_of_code_eq (h : row ∈ standardRows) (h' : row' ∈ standardRows) (hcode : row.1 = row'.1) :
    row = row' :=
  List.inj_on_of_nodup_map nodup_codes h h' hcode

/-- What is checked of the opcodes that are no direct pushes: how their names and what stands behind
the stem of the names are spelled, and that the names ask for the operands. -/
structure IsOther (row : Nat × String × Operation) : Prop where
  hasStem : stem.toList <+: row.2.1.toList
  all_isPlain : row.2.1.toList.all isPlain = true
  not_hasDirectStem : ¬ Item.directStem.toList <+: row.2.1.toList
  not_hasInvalidStem : ¬ invalidStem.toList <+: row.2.1.toList
  not_alias : row.2.1 ∉ extraAliases.map Prod.fst
  bare_not_hasStem : ¬ stem.toList <+: (bare row.2.1).toList
  bare_not_alias : bare row.2.1 ∉ extraAliases.map Prod.fst
  bare_head? : (bare row.2.1).toList.head? ≠ some 'X'
  bare_numeral : (bare row.2.1).toList.all Char.isDigit = true →
    bare row.2.1 ∈ (List.range 17).map toString
  operand_eq : row.2.2.operand = operandOf row.1 row.2.1
  code_eq : ∀ width ∈ Item.lengthWidth? row.2.1, row.1 = (Push.countedLead width).toNat

instance : DecidablePred IsOther := fun row =>
  decidable_of_iff
    (stem.toList <+: row.2.1.toList ∧ row.2.1.toList.all isPlain = true ∧
      ¬ Item.directStem.toList <+: row.2.1.toList ∧ ¬ invalidStem.toList <+: row.2.1.toList ∧
      row.2.1 ∉ extraAliases.map Prod.fst ∧ ¬ stem.toList <+: (bare row.2.1).toList ∧
      bare row.2.1 ∉ extraAliases.map Prod.fst ∧ (bare row.2.1).toList.head? ≠ some 'X' ∧
      ((bare row.2.1).toList.all Char.isDigit = true →
        bare row.2.1 ∈ (List.range 17).map toString) ∧
      row.2.2.operand = operandOf row.1 row.2.1 ∧
      ∀ width ∈ Item.lengthWidth? row.2.1, row.1 = (Push.countedLead width).toNat)
    ⟨fun ⟨h₁, h₂, h₃, h₄, h₅, h₆, h₇, h₈, h₉, h₁₀, h₁₁⟩ =>
        ⟨h₁, h₂, h₃, h₄, h₅, h₆, h₇, h₈, h₉, h₁₀, h₁₁⟩,
      fun h => ⟨h.1, h.2, h.3, h.4, h.5, h.6, h.7, h.8, h.9, h.10, h.11⟩⟩

theorem isOther_of_mem : ∀ row ∈ otherRows, IsOther row := by
  decide +kernel

theorem isPlainName_of_mem (h : row ∈ standardRows) : IsPlainName row.2.1 := by
  rcases mem_standardRows_cases h with hother | ⟨size, -, -, rfl⟩
  · have hrow := isOther_of_mem row hother
    exact ⟨hrow.hasStem, List.all_eq_true.mp hrow.all_isPlain⟩
  · exact isPlainName_append_toString (by decide +kernel) (by decide +kernel) size

/-- No name is another spelling of a name: it does not have the stem twice, and is no extra alias.
-/
theorem not_alias_of_mem (h : row ∈ standardRows) :
    ¬ stem.toList <+: (bare row.2.1).toList ∧ row.2.1 ∉ extraAliases.map Prod.fst := by
  rcases mem_standardRows_cases h with hother | ⟨size, -, -, rfl⟩
  · have hrow := isOther_of_mem row hother
    exact ⟨hrow.bare_not_hasStem, hrow.not_alias⟩
  · constructor
    · simp [directRow, Item.directStem, bare, stem]
    · simp [directRow, Item.directStem, extraAliases, ← String.toList_inj]

/-- What stands behind the stem of a name is no extra alias, does not begin like a literal, and is a
numeral for the numbers from 0 to 16 alone. -/
theorem bare_of_mem (h : row ∈ standardRows) : bare row.2.1 ∉ extraAliases.map Prod.fst ∧
    (bare row.2.1).toList.head? ≠ some 'X' ∧
    ((bare row.2.1).toList.all Char.isDigit = true →
      bare row.2.1 ∈ (List.range 17).map toString) := by
  rcases mem_standardRows_cases h with hother | ⟨size, -, -, rfl⟩
  · have hrow := isOther_of_mem row hother
    exact ⟨hrow.bare_not_alias, hrow.bare_head?, hrow.bare_numeral⟩
  · simp [directRow, Item.directStem, bare, extraAliases, ← String.toList_inj]

/-- No name is a placeholder. -/
theorem name_ne_placeholder (h : row ∈ standardRows) (code : Nat) : row.2.1 ≠ placeholder code := by
  have hstem : ¬ invalidStem.toList <+: row.2.1.toList := by
    rcases mem_standardRows_cases h with hother | ⟨size, -, -, rfl⟩
    · exact (isOther_of_mem row hother).not_hasInvalidStem
    · simp [directRow, Item.directStem, invalidStem]
  intro heq
  rw [heq, placeholder, String.toList_append] at hstem
  exact hstem (List.prefix_append _ _)

/-- Different opcodes have different names. -/
theorem code_eq_of_name_eq (h : row ∈ standardRows) (h' : row' ∈ standardRows)
    (hname : row.2.1 = row'.2.1) : row.1 = row'.1 := by
  have hothers : ∀ row ∈ otherRows, ∀ row' ∈ otherRows, row.2.1 = row'.2.1 → row.1 = row'.1 := by
    decide +kernel
  have hmixed : ∀ size, ∀ row ∈ otherRows, (directRow size).2.1 ≠ row.2.1 := by
    intro size row hrow heq
    refine (isOther_of_mem row hrow).not_hasDirectStem ?_
    rw [← heq, directRow, String.toList_append]
    exact List.prefix_append _ _
  rcases mem_standardRows_cases h with hother | ⟨size, -, -, rfl⟩ <;>
    rcases mem_standardRows_cases h' with hother' | ⟨size', -, -, rfl⟩
  · exact hothers row hother row' hother' hname
  · exact absurd hname.symm (hmixed size' row hother)
  · exact absurd hname (hmixed size row' hother')
  · apply toString_injective
    rw [← String.toList_inj] at hname ⊢
    simpa [directRow] using hname

/-- Only the names of the counted pushes give the width of a length. -/
theorem code_eq_of_lengthWidth?_eq_some (h : row ∈ standardRows) {width : Nat}
    (hwidth : Item.lengthWidth? row.2.1 = some width) : row.1 = (Push.countedLead width).toNat := by
  rcases mem_standardRows_cases h with hother | ⟨size, -, -, rfl⟩
  · exact (isOther_of_mem row hother).code_eq width hwidth
  · simp [directRow, Item.directStem, Item.lengthWidth?, ← String.toList_inj] at hwidth

/-- Only the names of the direct pushes have their stem. -/
theorem directStem_prefix_iff (h : row ∈ standardRows) :
    Item.directStem.toList <+: row.2.1.toList ↔ 0 < row.1 ∧ row.1 ≤ 75 := by
  rcases mem_standardRows_cases h with hother | ⟨size, hpos, hle, rfl⟩
  · have hcode := code_of_mem_otherRows hother
    refine iff_of_false (isOther_of_mem row hother).not_hasDirectStem ?_
    omega
  · simp [directRow, hpos, hle]

/-- An operation reads what its name asks for. -/
theorem operand_eq_of_mem (h : row ∈ standardRows) : row.2.2.operand = operandOf row.1 row.2.1 := by
  rcases mem_standardRows_cases h with hother | ⟨size, hpos, hle, rfl⟩
  · exact (isOther_of_mem row hother).operand_eq
  · simp [directRow, hpos, hle, Operation.operand, operandOf]

/-! ### The standard table -/

theorem assigned_assign (t : OpTable) (code : Nat) (name : String) (op : Operation) :
    (t.assign code name op).assigned = Assoc.set t.assigned code (name, op) := by
  unfold assign
  split <;> rfl

/-- The opcodes that are assigned from the start. -/
theorem lookup_assigned_standard_iff {code : Nat} {entry : String × Operation} :
    standard.assigned.lookup code = some entry ↔ (code, entry) ∈ standardRows := by
  rw [standard, assigned_assign]
  by_cases hcode : code = digestCode
  · have hdigest : (code, digestName, Operation.digest) ∈ standardRows :=
      hcode ▸ List.mem_append_right _ List.mem_cons_self
    rw [hcode, Assoc.lookup_set_self, ← hcode, Option.some.injEq]
    constructor
    · rintro rfl
      exact hdigest
    · intro h
      exact congrArg Prod.snd (eq_of_code_eq hdigest h rfl)
  · have hunique : ∀ a ∈ basicOperations, ∀ b ∈ basicOperations, a.1 = b.1 → a = b :=
      fun a ha b hb => eq_of_code_eq (List.mem_append_left _ ha) (List.mem_append_left _ hb)
    rw [Assoc.lookup_set_of_ne _ _ hcode]
    refine (Assoc.lookup_eq_some_iff_mem hunique).trans ?_
    have hne : (code, entry) ≠ (digestCode, digestName, Operation.digest) :=
      fun h => hcode (congrArg Prod.fst h)
    simp [standardRows, hne]

end OpTable

end FlowGate

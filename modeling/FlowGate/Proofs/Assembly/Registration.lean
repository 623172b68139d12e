import FlowGate.Checked.Script
import FlowGate.Proofs.Assembly.Names

/-!
# Registering opcodes

Five lists make up an opcode table, and every registration changes all of them. They stay in step:
names in use and assigned opcodes belong together, aliases lead to names in use, and the
placeholders are those of the unassigned opcodes.

## Main definitions

* `OpTable.Reachable` — the standard table after registrations
* `OpTable.Regular` — how the lists of a table belong together

## Main results

* `OpTable.exists_assign_of_register_eq_ok` — when and how a registration changes a table
* `OpTable.Regular.assign`, `OpTable.Reachable.regular` — registrations keep the lists in step
* `OpTable.Reachable.lookup_assigned` — the opcodes with which scripts start keep name and operation
-/

namespace FlowGate

namespace OpTable

variable {t t' : OpTable} {name symbol : String} {op : Operation}

/-! ### A single registration -/

theorem isName_capital (h : Text.upper (name.toList.take 3) = stem.toList) :
    IsName (capital name) := by
  rw [capital]
  refine ⟨⟨Text.upper (name.toList.drop 3), ?_⟩, ?_⟩
  · rw [← h, ← Text.upper_append, List.take_append_drop, String.toList_ofList]
  · rw [String.toList_ofList, Text.upper_upper]

/-- A registration succeeds for an opcode that is not assigned yet and a name that begins with the
stem, and then assigns the operation. -/
theorem exists_assign_of_register_eq_ok {code : Int} (h : t.register code name op = .ok t') :
    ∃ n : Nat, code = n ∧ n < 256 ∧ t.assigned.lookup n = none ∧ IsName (capital name) ∧
      t' = t.assign n (capital name) op := by
  unfold register at h
  split at h
  · cases h
  · next hfree =>
    simp only [bind_ok_iff] at h
    obtain ⟨⟨⟩, hrange, ⟨⟩, hstem, hassign⟩ := h
    simp only [ensure_eq_ok_iff, Bool.and_eq_true, decide_eq_true_eq] at hrange
    rw [ensure_eq_ok_iff, beq_iff_eq] at hstem
    refine ⟨code.toNat, by omega, by omega, ?_, isName_capital hstem, (Except.ok.inj hassign).symm⟩
    cases hlookup : t.assigned.lookup code.toNat with
    | none => rfl
    | some entry => exact (hfree entry.1 entry.2 hlookup (by simpa using hrange.1)).elim

/-- Registering values of any kind is registering an operation under an opcode and a name. -/
theorem exists_register_of_checked_eq_ok {code name : Value} {op : Option Operation}
    (h : Checked.register t code name op = .ok t') :
    ∃ (n : Int) (text : String) (operation : Operation),
      t.register n text operation = .ok t' := by
  unfold Checked.register at h
  simp only [bind_ok_iff] at h
  obtain ⟨n, -, text, -, h⟩ := h
  cases op with
  | none => cases h
  | some operation =>
    simp only [bind_ok_iff] at h
    obtain ⟨-, -, h⟩ := h
    exact ⟨n, text, operation, h⟩

section Assign

variable (t) (code : Nat) (name) (op)

theorem names_assign : (t.assign code name op).names = Assoc.set t.names name code := by
  unfold assign
  split <;> rfl

theorem aliases_assign :
    (t.assign code name op).aliases = Assoc.set t.aliases (bare name) name := by
  unfold assign
  split <;> rfl

end Assign

/-! ### How the lists of a table belong together -/

/-- The lists of a table belong together: assigned opcodes are bytes and have names; a name in use
is the name of its opcode; an alias leads to a name in use, and is that name without its stem unless
it is one of the extra ones; and unassigned opcodes have their placeholders. -/
structure Regular (t : OpTable) : Prop where
  code_lt : ∀ {code entry}, t.assigned.lookup code = some entry → code < 256
  isName : ∀ {code entry}, t.assigned.lookup code = some entry → IsName entry.1
  assigned_of_name : ∀ {name code}, t.names.lookup name = some code →
    ∃ op, t.assigned.lookup code = some (name, op)
  name_of_assigned : ∀ {code entry}, t.assigned.lookup code = some entry →
    (t.names.lookup entry.1).isSome
  name_of_alias : ∀ {symbol name}, t.aliases.lookup symbol = some name →
    (t.names.lookup name).isSome
  alias_cases : ∀ {symbol name}, t.aliases.lookup symbol = some name →
    name = stem ++ symbol ∨ (symbol, name) ∈ extraAliases
  free_iff : ∀ {code name}, t.free.lookup code = some name ↔
    code < 256 ∧ t.assigned.lookup code = none ∧ name = placeholder code
  freeNames_iff : ∀ {code name}, t.freeNames.lookup name = some code ↔
    code < 256 ∧ t.assigned.lookup code = none ∧ name = placeholder code

section Unassigned

variable (h : t.Regular) {code : Nat} (hlt : code < 256) (hfree : t.assigned.lookup code = none)
include h hlt hfree

theorem Regular.free_assign (name : String) (op : Operation) :
    (t.assign code name op).free = Assoc.erase t.free code := by
  rw [OpTable.assign, h.free_iff.mpr ⟨hlt, hfree, rfl⟩]

theorem Regular.freeNames_assign (name : String) (op : Operation) :
    (t.assign code name op).freeNames = Assoc.erase t.freeNames (placeholder code) := by
  rw [OpTable.assign, h.free_iff.mpr ⟨hlt, hfree, rfl⟩]

end Unassigned

/-- Every opcode is assigned or has a placeholder. -/
theorem Regular.exists_name?_eq (h : t.Regular) {code : Nat} (hlt : code < 256) :
    ∃ name, t.name? code = some name := by
  rw [name?]
  cases hassigned : t.assigned.lookup code with
  | some entry => exact ⟨entry.1, rfl⟩
  | none => exact ⟨placeholder code, h.free_iff.mpr ⟨hlt, hassigned, rfl⟩⟩

/-- A registration keeps the lists of a table in step. -/
theorem Regular.assign (h : t.Regular) {code : Nat} (hlt : code < 256)
    (hfree : t.assigned.lookup code = none) (hname : IsName name) (op : Operation) :
    (t.assign code name op).Regular := by
  -- What was assigned before is another opcode.
  have hother : ∀ {other entry}, t.assigned.lookup other = some entry → other ≠ code := by
    rintro other entry hentry rfl
    rw [hfree] at hentry
    cases hentry
  constructor
  case code_lt =>
    intro other entry hentry
    rw [assigned_assign, Assoc.lookup_set_eq_some_iff] at hentry
    rcases hentry with ⟨rfl, -⟩ | ⟨-, hold⟩
    · exact hlt
    · exact h.code_lt hold
  case isName =>
    intro other entry hentry
    rw [assigned_assign, Assoc.lookup_set_eq_some_iff] at hentry
    rcases hentry with ⟨-, rfl⟩ | ⟨-, hold⟩
    · exact hname
    · exact h.isName hold
  case assigned_of_name =>
    intro other found hfound
    rw [names_assign, Assoc.lookup_set_eq_some_iff] at hfound
    rw [assigned_assign]
    rcases hfound with ⟨rfl, rfl⟩ | ⟨-, hold⟩
    · exact ⟨op, Assoc.lookup_set_self _ _ _⟩
    · obtain ⟨op', hop⟩ := h.assigned_of_name hold
      exact ⟨op', by rwa [Assoc.lookup_set_of_ne _ _ (hother hop)]⟩
  case name_of_assigned =>
    intro other entry hentry
    rw [assigned_assign, Assoc.lookup_set_eq_some_iff] at hentry
    rw [names_assign]
    apply Assoc.isSome_lookup_set
    rcases hentry with ⟨-, rfl⟩ | ⟨-, hold⟩
    · exact .inl rfl
    · exact .inr (h.name_of_assigned hold)
  case name_of_alias =>
    intro symbol other hsymbol
    rw [aliases_assign, Assoc.lookup_set_eq_some_iff] at hsymbol
    rw [names_assign]
    apply Assoc.isSome_lookup_set
    rcases hsymbol with ⟨-, rfl⟩ | ⟨-, hold⟩
    · exact .inl rfl
    · exact .inr (h.name_of_alias hold)
  case alias_cases =>
    intro symbol other hsymbol
    rw [aliases_assign, Assoc.lookup_set_eq_some_iff] at hsymbol
    rcases hsymbol with ⟨rfl, rfl⟩ | ⟨-, hold⟩
    · exact .inl hname.stem_append_bare.symm
    · exact h.alias_cases hold
  case free_iff =>
    intro other found
    rw [h.free_assign hlt hfree, assigned_assign]
    by_cases heq : other = code
    · simp [heq, Assoc.lookup_erase_self, Assoc.lookup_set_self]
    · rw [Assoc.lookup_erase_of_ne _ heq, Assoc.lookup_set_of_ne _ _ heq, h.free_iff]
  case freeNames_iff =>
    intro other found
    rw [h.freeNames_assign hlt hfree, assigned_assign]
    by_cases heq : found = placeholder code
    · -- No other opcode has this placeholder.
      have hsame : ∀ {other}, found = placeholder other → other = code :=
        fun hother => placeholder_injective (hother.symm.trans heq)
      rw [heq, Assoc.lookup_erase_self, ← heq]
      refine ⟨by simp, fun ⟨_, hnone, hother⟩ => ?_⟩
      rw [hsame hother, Assoc.lookup_set_self] at hnone
      cases hnone
    · rw [Assoc.lookup_erase_of_ne _ heq, h.freeNames_iff]
      by_cases hcode : other = code
      · simp [hcode, heq]
      · rw [Assoc.lookup_set_of_ne _ _ hcode]

theorem Regular.name_assign_self (h : t.Regular) {code : Nat} (hlt : code < 256)
    (hfree : t.assigned.lookup code = none) (name : String) (op : Operation) :
    (t.assign code name op).name code = name := by
  rw [OpTable.name, name?, assigned_assign, h.free_assign hlt hfree, Assoc.lookup_set_self]
  rfl

/-- A registration changes the name of its opcode alone. -/
theorem Regular.name_assign_of_ne (h : t.Regular) {code : Nat} (hlt : code < 256)
    (hfree : t.assigned.lookup code = none) (name : String) (op : Operation) {other : Nat}
    (hne : other ≠ code) : (t.assign code name op).name other = t.name other := by
  rw [OpTable.name, name?, assigned_assign, h.free_assign hlt hfree,
    Assoc.lookup_set_of_ne _ _ hne, Assoc.lookup_erase_of_ne _ hne]
  rfl

theorem codeOf?_assign_self (t : OpTable) (code : Nat) (name : String) (op : Operation) :
    (t.assign code name op).codeOf? name = some code := by
  rw [codeOf?, names_assign, Assoc.lookup_set_self]
  rfl

/-- Of the other names a registration changes the placeholder alone, which stands for nothing then.
-/
theorem Regular.codeOf?_assign_of_ne (h : t.Regular) {code : Nat} (hlt : code < 256)
    (hfree : t.assigned.lookup code = none) {name other : String} (op : Operation)
    (hne : other ≠ name) :
    (t.assign code name op).codeOf? other =
      if t.codeOf? other = some code then none else t.codeOf? other := by
  rw [codeOf?, codeOf?, names_assign, h.freeNames_assign hlt hfree, Assoc.lookup_set_of_ne _ _ hne]
  cases hnames : t.names.lookup other with
  | some found =>
    -- A name in use belongs to an assigned opcode.
    have hfound : found ≠ code := by
      rintro rfl
      obtain ⟨op', hop⟩ := h.assigned_of_name hnames
      rw [hfree] at hop
      cases hop
    simp [hfound]
  | none =>
    by_cases heq : other = placeholder code
    · simp [heq, Assoc.lookup_erase_self, h.freeNames_iff.mpr ⟨hlt, hfree, rfl⟩]
    · have hother : t.freeNames.lookup other ≠ some code :=
        fun hsome => heq (h.freeNames_iff.mp hsome).2.2
      simp [Assoc.lookup_erase_of_ne _ heq, hother]

/-- The opcodes that are assigned before the digest operation is. -/
theorem lookup_assigned_basic_iff {code : Nat} {entry : String × Operation} :
    basic.assigned.lookup code = some entry ↔ (code, entry) ∈ basicOperations :=
  Assoc.lookup_eq_some_iff_mem fun _ ha _ hb =>
    eq_of_code_eq (List.mem_append_left _ ha) (List.mem_append_left _ hb)

theorem mem_standardRows_of_mem_basicOperations {row : Nat × String × Operation}
    (h : row ∈ basicOperations) : row ∈ standardRows :=
  List.mem_append_left _ h

theorem isSome_lookup_names_basic {row : Nat × String × Operation} (h : row ∈ basicOperations) :
    (basic.names.lookup row.2.1).isSome := by
  rw [List.lookup_isSome_iff]
  exact ⟨_, List.mem_map_of_mem h, beq_self_eq_true _⟩

/-- The opcodes without an operation are those with placeholders. -/
theorem mem_free_basic_iff {code : Nat} {name : String} : (code, name) ∈ basic.free ↔
    code < 256 ∧ basic.assigned.lookup code = none ∧ name = placeholder code := by
  change _ ∈ List.map _ (List.filter _ _) ↔ _
  rw [List.mem_map]
  constructor
  · rintro ⟨code', hcode', heq⟩
    obtain ⟨rfl, rfl⟩ := Prod.mk.inj heq
    rw [List.mem_filter, List.mem_range, Option.isNone_iff_eq_none] at hcode'
    exact ⟨hcode'.1, hcode'.2, rfl⟩
  · rintro ⟨hlt, hnone, rfl⟩
    refine ⟨code, ?_, rfl⟩
    rw [List.mem_filter, List.mem_range, Option.isNone_iff_eq_none]
    exact ⟨hlt, hnone⟩

theorem mem_freeNames_basic_iff {code : Nat} {name : String} : (name, code) ∈ basic.freeNames ↔
    code < 256 ∧ basic.assigned.lookup code = none ∧ name = placeholder code := by
  have hflip : basic.freeNames = basic.free.map fun entry => (entry.2, entry.1) := rfl
  rw [← mem_free_basic_iff, hflip]
  simp

theorem regular_basic : basic.Regular := by
  constructor
  case code_lt =>
    intro code entry hentry
    exact code_lt_of_mem
      (mem_standardRows_of_mem_basicOperations (lookup_assigned_basic_iff.mp hentry))
  case isName =>
    intro code entry hentry
    exact (isPlainName_of_mem
      (mem_standardRows_of_mem_basicOperations (lookup_assigned_basic_iff.mp hentry))).isName
  case assigned_of_name =>
    intro name code hcode
    obtain ⟨⟨code', name', op⟩, hrow, heq⟩ := List.mem_map.mp (Assoc.mem_of_lookup_eq_some hcode)
    obtain ⟨rfl, rfl⟩ := Prod.mk.inj heq
    exact ⟨op, lookup_assigned_basic_iff.mpr hrow⟩
  case name_of_assigned =>
    exact fun hentry => isSome_lookup_names_basic (lookup_assigned_basic_iff.mp hentry)
  case name_of_alias =>
    intro symbol name hsymbol
    rcases List.mem_append.mp (Assoc.mem_of_lookup_eq_some hsymbol) with hown | hextra
    · obtain ⟨row, hrow, heq⟩ := List.mem_map.mp hown
      obtain ⟨-, rfl⟩ := Prod.mk.inj heq
      exact isSome_lookup_names_basic hrow
    · have hall : ∀ entry ∈ extraAliases, entry.2 ∈ basicOperations.map fun row => row.2.1 := by
        decide +kernel
      obtain ⟨row, hrow, (rfl : row.2.1 = name)⟩ := List.mem_map.mp (hall _ hextra)
      exact isSome_lookup_names_basic hrow
  case alias_cases =>
    intro symbol name hsymbol
    rcases List.mem_append.mp (Assoc.mem_of_lookup_eq_some hsymbol) with hown | hextra
    · left
      obtain ⟨row, hrow, heq⟩ := List.mem_map.mp hown
      obtain ⟨rfl, rfl⟩ := Prod.mk.inj heq
      exact (isPlainName_of_mem
        (mem_standardRows_of_mem_basicOperations hrow)).isName.stem_append_bare.symm
    · exact .inr hextra
  case free_iff =>
    intro code name
    refine (Assoc.lookup_eq_some_iff_mem ?_).trans mem_free_basic_iff
    rintro ⟨code, name⟩ hentry ⟨_, name'⟩ hentry' rfl
    rw [(mem_free_basic_iff.mp hentry).2.2, (mem_free_basic_iff.mp hentry').2.2]
  case freeNames_iff =>
    intro code name
    refine (Assoc.lookup_eq_some_iff_mem ?_).trans mem_freeNames_basic_iff
    rintro ⟨name, code⟩ hentry ⟨_, code'⟩ hentry' rfl
    obtain ⟨-, -, hname⟩ := mem_freeNames_basic_iff.mp hentry
    obtain ⟨-, -, hname'⟩ := mem_freeNames_basic_iff.mp hentry'
    rw [placeholder_injective (hname.symm.trans hname')]

theorem regular_standard : standard.Regular := by
  have hrow : (digestCode, digestName, Operation.digest) ∈ standardRows :=
    List.mem_append_right _ List.mem_cons_self
  have hfree : basic.assigned.lookup digestCode = none := by decide +kernel
  exact regular_basic.assign (by decide) hfree (isPlainName_of_mem hrow).isName .digest

/-- The tables that registrations make of the standard table. -/
inductive Reachable : OpTable → Prop
  | standard : Reachable standard
  | register {t t' : OpTable} {code : Int} {name : String} {op : Operation} (h : Reachable t)
      (hregister : t.register code name op = .ok t') : Reachable t'

/-- Registrations with values of any kind lead to no other tables. -/
theorem Reachable.register_values (h : t.Reachable) {code name : Value} {op : Option Operation}
    (hregister : Checked.register t code name op = .ok t') : t'.Reachable := by
  obtain ⟨n, text, operation, hregister⟩ := exists_register_of_checked_eq_ok hregister
  exact h.register hregister

theorem Reachable.regular (h : t.Reachable) : t.Regular := by
  induction h with
  | standard => exact regular_standard
  | register _ hregister ih =>
    obtain ⟨n, -, hlt, hfree, hname, rfl⟩ := exists_assign_of_register_eq_ok hregister
    exact ih.assign hlt hfree hname _

/-- The opcodes with which scripts start keep name and operation. -/
theorem Reachable.lookup_assigned (h : t.Reachable) {row : Nat × String × Operation}
    (hrow : row ∈ standardRows) : t.assigned.lookup row.1 = some row.2 := by
  induction h with
  | standard => exact lookup_assigned_standard_iff.mpr hrow
  | register _ hregister ih =>
    obtain ⟨n, -, -, hfree, -, rfl⟩ := exists_assign_of_register_eq_ok hregister
    have hne : row.1 ≠ n := by
      intro heq
      rw [heq, hfree] at ih
      cases ih
    rw [assigned_assign, Assoc.lookup_set_of_ne _ _ hne, ih]

end OpTable

end FlowGate

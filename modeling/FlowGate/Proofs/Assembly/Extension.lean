import FlowGate.Proofs.Assembly.RoundTrip

/-!
# Source text from before a registration

Registering an opcode takes the placeholder of the opcode away and adds a name and an alias. Source
text that does not use the new name or alias keeps its byte code, unless it uses the placeholder:
then it is rejected.

## Main definitions

* `Item.lookedUp` — the symbols that are looked up when symbols are assembled
* `OpTable.standsFor` — symbols that stand for an opcode
* `OpTable.Avoids` — symbols that have nothing to do with a new name

## Main results

* `OpTable.Regular.resolve?_assign` — what a registration changes about a symbol
* `OpTable.Regular.ofSymbols_assign`, `OpTable.Regular.compile_assign` — what it changes about
  source text
* `OpTable.compile_assign_alias` — the new alias assembles to the new opcode
* `OpTable.WellNamed.compile_placeholder_assign` — the placeholder is rejected
* `OpTable.Reachable.disassemble_rows` — the opcodes with which scripts start keep their lines
-/

namespace FlowGate

/-- The symbols that are looked up when symbols are assembled, which are all but the arguments of
explicit pushes. -/
def Item.lookedUp (t : OpTable) : List String → List String
  | [] => []
  | symbol :: rest =>
    match t.resolve? symbol with
    | some name =>
      if takesArgument name then
        match rest with
        | [] => [symbol]
        | _ :: rest => symbol :: lookedUp t rest
      else symbol :: lookedUp t rest
    | none => symbol :: lookedUp t rest

theorem Item.mem_of_mem_lookedUp {t : OpTable} {symbols : List String} {symbol : String}
    (h : symbol ∈ lookedUp t symbols) : symbol ∈ symbols := by
  fun_induction lookedUp t symbols with grind

namespace OpTable

/-- Whether a symbol stands for an opcode, by a name or by the placeholder. -/
def standsFor (t : OpTable) (code : Nat) (symbol : String) : Bool :=
  t.codeOf? (t.target symbol) == some code

/-- A symbol that has nothing to do with a new name: it is not its alias in upper case, and does not
stand for it. -/
structure Avoids (t : OpTable) (name symbol : String) : Prop where
  capital_ne : capital symbol ≠ bare name
  target_ne : t.target symbol ≠ name

variable {t : OpTable} {name symbol : String} {code : Nat}

theorem standsFor_iff :
    t.standsFor code symbol = true ↔ t.codeOf? (t.target symbol) = some code := by
  rw [standsFor, beq_iff_eq]

/-- A name that is not in use is avoided by all that is neither the name nor its alias. -/
theorem Regular.avoids (h : t.Regular) (hnew : t.names.lookup name = none)
    (halias : capital symbol ≠ bare name) (hname : capital symbol ≠ name) :
    t.Avoids name symbol := by
  refine ⟨halias, ?_⟩
  rw [target]
  cases hlookup : t.aliases.lookup (capital symbol) with
  | none => exact hname
  | some other =>
    rw [Option.getD_some]
    rintro rfl
    have hsome := h.name_of_alias hlookup
    rw [hnew] at hsome
    cases hsome

/-- Only the placeholder of an opcode that is not assigned stands for it. -/
theorem Regular.capital_of_standsFor (h : t.Regular) (hfree : t.assigned.lookup code = none)
    (hstands : t.standsFor code symbol = true) : capital symbol = placeholder code := by
  have hcode := standsFor_iff.mp hstands
  have hnames : t.names.lookup (t.target symbol) = none := by
    cases hlookup : t.names.lookup (t.target symbol) with
    | none => rfl
    | some found =>
      obtain ⟨op, hop⟩ := h.assigned_of_name hlookup
      rw [codeOf?, hlookup] at hcode
      obtain rfl : found = code := Option.some.inj hcode
      rw [hfree] at hop
      cases hop
  have hplaceholder : t.target symbol = placeholder code := by
    rw [codeOf?, hnames] at hcode
    exact (h.freeNames_iff.mp hcode).2.2
  -- An alias leads to a name in use, which the placeholder is not.
  rw [target] at hnames hplaceholder
  cases halias : t.aliases.lookup (capital symbol) with
  | none =>
    rw [halias] at hplaceholder
    exact hplaceholder
  | some name =>
    have hname := h.name_of_alias halias
    rw [halias, Option.getD_some] at hnames
    rw [hnames] at hname
    cases hname

/-- A placeholder is no literal. -/
theorem ofLiteral_eq_error_of_placeholder (h : capital symbol = placeholder code) :
    Item.ofLiteral symbol = .error (.assembly (.unrecognized symbol)) := by
  apply Item.ofLiteral_eq_error
  rw [h, placeholder, String.toList_append]
  rfl

section Assign

variable (h : t.Regular) (hlt : code < 256) (hfree : t.assigned.lookup code = none) (op : Operation)
include h hlt hfree

/-- After a registration a symbol that avoids the new name stands for what it stood for, unless it
was the placeholder. -/
theorem Regular.resolve?_assign (havoids : t.Avoids name symbol) :
    if t.standsFor code symbol then (t.assign code name op).resolve? symbol = none
    else (t.assign code name op).resolve? symbol = t.resolve? symbol ∧
      ∀ target, t.resolve? symbol = some target →
        (t.assign code name op).codeOf? target = t.codeOf? target := by
  have htarget : (t.assign code name op).target symbol = t.target symbol := by
    rw [target, target, aliases_assign, Assoc.lookup_set_of_ne _ _ havoids.capital_ne]
  have hcode := h.codeOf?_assign_of_ne hlt hfree op havoids.target_ne
  have hresolve : ∀ t : OpTable, t.resolve? symbol =
      if (t.codeOf? (t.target symbol)).isSome then some (t.target symbol) else none := fun _ => rfl
  split_ifs with hstands
  · rw [if_pos (standsFor_iff.mp hstands)] at hcode
    rw [hresolve, htarget, hcode]
    rfl
  · rw [if_neg fun hcode => hstands (standsFor_iff.mpr hcode)] at hcode
    refine ⟨by rw [hresolve, hresolve, htarget, hcode], ?_⟩
    intro target hsome
    rw [← (resolve?_eq_some_iff.mp hsome).1, hcode]

/-- After a registration the placeholder is looked up in vain, and is no literal. -/
theorem Regular.ofSymbols_assign_cons_of_standsFor {rest : List String}
    (havoids : t.Avoids name symbol) (hstands : t.standsFor code symbol = true) :
    Item.ofSymbols (t.assign code name op) (symbol :: rest) =
      .error (.assembly (.unrecognized symbol)) := by
  have hresolve := h.resolve?_assign hlt hfree op havoids
  rw [if_pos hstands] at hresolve
  simp only [Item.ofSymbols, hresolve,
    ofLiteral_eq_error_of_placeholder (h.capital_of_standsFor hfree hstands)]
  rfl

/-- After a registration the symbols that avoid the new name assemble to the same items, unless one
is the placeholder: the first such is reported. -/
theorem Regular.ofSymbols_assign {symbols : List String} {items : List Item}
    (hitems : Item.ofSymbols t symbols = .ok items)
    (havoids : ∀ symbol ∈ Item.lookedUp t symbols, t.Avoids name symbol) :
    Item.ofSymbols (t.assign code name op) symbols =
      match (Item.lookedUp t symbols).find? (t.standsFor code) with
      | some symbol => .error (.assembly (.unrecognized symbol))
      | none => .ok items := by
  fun_induction Item.lookedUp t symbols generalizing items with
  | case1 => exact hitems
  | case2 symbol name' hresolve htakes => simp [Item.ofSymbols, hresolve, htakes] at hitems
  | case3 symbol name' hresolve htakes argument rest ih =>
    rw [List.forall_mem_cons] at havoids
    by_cases hstands : t.standsFor code symbol = true
    · rw [List.find?_cons_of_pos hstands,
        h.ofSymbols_assign_cons_of_standsFor hlt hfree op havoids.1 hstands]
    · have hkept := h.resolve?_assign hlt hfree op havoids.1
      rw [if_neg hstands] at hkept
      simp only [Item.ofSymbols, hresolve, if_pos htakes, bind_ok_iff] at hitems
      obtain ⟨item, hitem, others, hothers, hcons⟩ := hitems
      obtain rfl : item :: others = items := Except.ok.inj hcons
      have hpush : Item.ofPush (t.assign code name op) name' argument = .ok item := by
        rw [← hitem, Item.ofPush, Item.ofPush, hkept.2 name' hresolve]
      simp only [Item.ofSymbols, hkept.1, hresolve, if_pos htakes, hpush, ih hothers havoids.2,
        List.find?_cons_of_neg hstands]
      cases (Item.lookedUp t rest).find? (t.standsFor code) <;> rfl
  | case4 symbol rest name' hresolve htakes ih =>
    rw [List.forall_mem_cons] at havoids
    by_cases hstands : t.standsFor code symbol = true
    · rw [List.find?_cons_of_pos hstands,
        h.ofSymbols_assign_cons_of_standsFor hlt hfree op havoids.1 hstands]
    · have hkept := h.resolve?_assign hlt hfree op havoids.1
      rw [if_neg hstands] at hkept
      simp only [Item.ofSymbols, hresolve, if_neg htakes, bind_ok_iff] at hitems
      obtain ⟨others, hothers, hcons⟩ := hitems
      rw [← Except.ok.inj hcons]
      simp only [Item.ofSymbols, hkept.1, hresolve, if_neg htakes, hkept.2 name' hresolve,
        ih hothers havoids.2, List.find?_cons_of_neg hstands]
      cases (Item.lookedUp t rest).find? (t.standsFor code) <;> rfl
  | case5 symbol rest hresolve ih =>
    rw [List.forall_mem_cons] at havoids
    by_cases hstands : t.standsFor code symbol = true
    · rw [List.find?_cons_of_pos hstands,
        h.ofSymbols_assign_cons_of_standsFor hlt hfree op havoids.1 hstands]
    · have hkept := h.resolve?_assign hlt hfree op havoids.1
      rw [if_neg hstands] at hkept
      simp only [Item.ofSymbols, hresolve, bind_ok_iff] at hitems
      obtain ⟨item, hitem, others, hothers, hcons⟩ := hitems
      rw [← Except.ok.inj hcons]
      simp only [Item.ofSymbols, hkept.1, hresolve, hitem, ih hothers havoids.2,
        List.find?_cons_of_neg hstands]
      cases (Item.lookedUp t rest).find? (t.standsFor code) <;> rfl

/-- After a registration source text whose symbols avoid the new name has the byte code that it had,
unless it uses the placeholder: then the first use is reported. -/
theorem Regular.compile_assign {source : String} {symbols : List String} {bytes : Bytes}
    (hsymbols : Source.symbols source = .ok symbols) (hbytes : compile t source = .ok bytes)
    (havoids : ∀ symbol ∈ Item.lookedUp t symbols, t.Avoids name symbol) :
    compile (t.assign code name op) source =
      match (Item.lookedUp t symbols).find? (t.standsFor code) with
      | some symbol => .error (.assembly (.unrecognized symbol))
      | none => .ok bytes := by
  rw [compile, bind_of_eq_ok hsymbols] at hbytes ⊢
  obtain ⟨items, hitems, hcode⟩ := bind_ok_iff.mp hbytes
  rw [← Except.ok.inj hcode, assemble, h.ofSymbols_assign hlt hfree op hitems havoids]
  cases (Item.lookedUp t symbols).find? (t.standsFor code) <;> rfl

end Assign

/-- After a registration the new alias assembles to the new opcode, whatever it was before. -/
theorem compile_assign_alias (t : OpTable) (op : Operation) (hword : Source.IsWord symbol)
    (halias : capital symbol = bare name) (htakes : ¬ Item.takesArgument name = true) :
    compile (t.assign code name op) symbol = .ok [UInt8.ofNat code] := by
  have htarget : (t.assign code name op).target symbol = name := by
    rw [target, aliases_assign, halias, Assoc.lookup_set_self, Option.getD_some]
  exact compile_of_opcodeOf? hword
    (opcodeOf?_eq_some htarget (codeOf?_assign_self t code name op) htakes)

/-! ### Placeholders -/

theorem lookedUp_singleton (t : OpTable) (symbol : String) :
    Item.lookedUp t [symbol] = [symbol] := by
  rw [Item.lookedUp]
  split
  · split <;> rfl
  · rfl

section Placeholder

variable (ht : t.Reachable) (h : t.WellNamed) (hlt : code < 256)
  (hfree : t.assigned.lookup code = none)
include ht h hlt hfree

/-- Where names can be told apart, the placeholder of an opcode stands for the opcode. -/
theorem WellNamed.codeOf?_placeholder :
    t.target (placeholder code) = placeholder code ∧ t.codeOf? (placeholder code) = some code := by
  have hname := ht.regular.name_eq_placeholder hlt hfree
  have hresolve := ht.target_name (h.readsBack ht (UInt8.ofNat code))
  rw [UInt8.toNat_ofNat_of_lt' hlt, hname] at hresolve
  obtain ⟨htarget, found, hfound⟩ := resolve?_eq_some_iff.mp hresolve
  obtain ⟨hfoundlt, hfoundname⟩ := ht.regular.name_eq_of_codeOf? hfound
  obtain rfl := h.injective found hfoundlt code hlt (hfoundname.trans hname.symm)
  exact ⟨htarget, hfound⟩

/-- Where names can be told apart, the placeholder of an opcode assembles to the opcode. -/
theorem WellNamed.compile_placeholder :
    compile t (placeholder code) = .ok [UInt8.ofNat code] := by
  obtain ⟨htarget, hcode⟩ := h.codeOf?_placeholder ht hlt hfree
  have hword := (isPlainName_placeholder code).isWord
  have htakes : ¬ Item.takesArgument (placeholder code) = true := by
    intro htakes
    rw [← ht.regular.name_eq_placeholder hlt hfree] at htakes
    obtain ⟨row, hrow, rfl⟩ := exists_row_of_le (h.le_of_takesArgument code hlt htakes).2
    rw [ht.lookup_assigned hrow] at hfree
    cases hfree
  exact compile_of_opcodeOf? hword (opcodeOf?_eq_some htarget hcode htakes)

/-- After a registration the placeholder is rejected, unless it is the new name or alias. -/
theorem WellNamed.compile_placeholder_assign (hname : placeholder code ≠ name)
    (halias : placeholder code ≠ bare name) (op : Operation) :
    compile (t.assign code name op) (placeholder code) =
      .error (.assembly (.unrecognized (placeholder code))) := by
  obtain ⟨htarget, hcode⟩ := h.codeOf?_placeholder ht hlt hfree
  have hcapital := (isPlainName_placeholder code).isName.capital_eq
  have havoids : t.Avoids name (placeholder code) :=
    ⟨hcapital.symm ▸ halias, htarget.symm ▸ hname⟩
  have hkept := ht.regular.compile_assign hlt hfree op
    (isPlainName_placeholder code).isWord.reads.symbols_eq (h.compile_placeholder ht hlt hfree)
    (by rw [lookedUp_singleton]; exact List.forall_mem_singleton.mpr havoids)
  have hstands : t.standsFor code (placeholder code) = true := by
    rw [standsFor_iff, htarget, hcode]
  rwa [lookedUp_singleton, List.find?_cons_of_pos hstands] at hkept

end Placeholder

/-! ### Byte code of the opcodes with which scripts start -/

/-- The opcodes with which scripts start keep their lines, whatever has been registered. -/
theorem Reachable.disassemble_rows (h : t.Reachable) {rows : List (Nat × String × Operation)}
    (hrows : ∀ row ∈ rows, row ∈ standardRows ∧ row.2.2.operand = .none) :
    disassemble t (rows.map fun row => UInt8.ofNat row.1) = .ok (rows.map fun row => row.2.1) := by
  have hoperand : ∀ row ∈ rows, Instruction.operandAfter t (UInt8.ofNat row.1) = .none := by
    intro row hrow
    rw [h.operandAfter_of_mem (hrows row hrow).1, (hrows row hrow).2]
  refine disassemble_eq_ok_iff.mpr
    ⟨rows.map fun row => ⟨UInt8.ofNat row.1, []⟩, Instruction.cut_eq_ok_iff.mpr ⟨?_, ?_⟩, ?_⟩
  · intro i hi
    obtain ⟨row, hrow, rfl⟩ := List.mem_map.mp hi
    rw [Instruction.Fits, hoperand row hrow]
    rfl
  · rw [List.flatMap_map, List.map_eq_flatMap]
    apply List.flatMap_congr
    intro row hrow
    rw [Instruction.code, hoperand row hrow]
    rfl
  · rw [List.map_map]
    apply List.map_congr_left
    intro row hrow
    obtain ⟨hmem, -⟩ := hrows row hrow
    simp only [Function.comp_apply, Instruction.line, hoperand row hrow,
      UInt8.toNat_ofNat_of_lt' (code_lt_of_mem hmem), h.name_of_mem hmem]

end OpTable

end FlowGate

import FlowGate.Proofs.Assembly.RoundTrip

/-!
# Lossless tables

Whatever has been registered, byte code is given back by disassembling and assembling exactly if the
names of the opcodes can be told apart. Registering an opcode does not look whether the new name can
be told apart from the others, so it may lose byte code.

## Main definitions

* `OpTable.Admits` — a new name can be told apart from the names and aliases of a table

## Main results

* `OpTable.Reachable.readsBack_of_lossless` — the names of a lossless table are read back
* `OpTable.Reachable.lossless_iff` — which tables are lossless
* `OpTable.Reachable.wellNamed_register_iff` — which registrations leave a table lossless
-/

namespace FlowGate

/-! ### The first symbol of a text -/

namespace Text

/-- A text that does not begin with a blank begins with a word. -/
theorem exists_words_cons {c : Char} (h : isBlank c = false) (cs : List Char) :
    ∃ w ws, words (c :: cs) = (c :: w) :: ws := by
  refine ⟨(cs.foldr wordStep ([], [])).1, (cs.foldr wordStep ([], [])).2, ?_⟩
  rw [words, List.foldr_cons, wordStep, h]
  rfl

end Text

namespace Source

variable {text : String} {symbols : List String}

theorem dropComments_cons {c : Char} (h : c ≠ commentMark) (cs : List Char) :
    dropComments (c :: cs) = c :: dropComments cs := by
  have hsingle : ∀ d ∈ [c], d ≠ commentMark := by simpa using h
  rw [← List.singleton_append, dropComments_append (commentsClosed_of_forall hsingle),
    dropComments_of_forall hsingle]
  rfl

/-- No mark of a comment is kept. -/
theorem ne_commentMark_of_mem_dropComments {cs : List Char} :
    ∀ c ∈ dropComments cs, c ≠ commentMark := by
  have hkept : ∀ (cs : List Char) (state : Bool × List Char), (∀ c ∈ state.2, c ≠ commentMark) →
      ∀ c ∈ (cs.foldl commentStep state).2, c ≠ commentMark := by
    intro cs
    induction cs with
    | nil => exact fun state h => h
    | cons c cs ih =>
      intro state h
      apply ih
      rw [commentStep]
      split_ifs with hmark hopen
      · exact List.forall_mem_cons.mpr ⟨by decide, h⟩
      · exact h
      · exact h
      · exact List.forall_mem_cons.mpr ⟨hmark, h⟩
  intro c hc
  exact hkept cs (false, []) (by simp) c (List.mem_reverse.mp hc)

/-- The symbols of a text are read as one symbol each. -/
theorem isWord_of_mem_symbols (h : Source.symbols text = .ok symbols) :
    ∀ symbol ∈ symbols, IsWord symbol := by
  obtain ⟨-, rfl⟩ := symbols_eq_ok_iff.mp h
  intro symbol hsymbol
  obtain ⟨w, hw, rfl⟩ := List.mem_map.mp hsymbol
  rw [IsWord, String.toList_ofList]
  refine ⟨Text.ne_nil_of_mem_words hw, fun c hc => ⟨Text.not_isBlank_of_mem_words hw c hc, ?_⟩⟩
  exact ne_commentMark_of_mem_dropComments c (Text.mem_of_mem_words hw c hc)

/-- The first symbol of a text begins as the text does. -/
theorem exists_symbols_cons {c : Char} {cs : List Char} (h : Source.symbols text = .ok symbols)
    (htext : text.toList = c :: cs) (hblank : Text.isBlank c = false) (hmark : c ≠ commentMark) :
    ∃ symbol rest, symbols = symbol :: rest ∧ symbol.toList.head? = some c := by
  obtain ⟨-, rfl⟩ := symbols_eq_ok_iff.mp h
  rw [htext, dropComments_cons hmark]
  obtain ⟨w, ws, hwords⟩ := Text.exists_words_cons hblank (dropComments cs)
  rw [hwords, List.map_cons]
  exact ⟨_, _, rfl, by rw [String.toList_ofList, List.head?_cons]⟩

end Source

/-! ### The first opcode of a list of symbols -/

/-- An explicit push carries data of the length that its name asks for. -/
theorem Item.exists_data_of_ofPush {t : OpTable} {name argument : String} {item : Item}
    (h : ofPush t name argument = .ok item) : ∃ data : Bytes,
      (∃ width, lengthWidth? name = some width ∧ data.length < 256 ^ width ∧
        item = .push (Push.countedLead width :: Bytes.ofNat width data.length) data) ∨
      (lengthWidth? name = none ∧ data.length = (t.codeOf? name).getD 0 ∧
        item = .push [UInt8.ofNat ((t.codeOf? name).getD 0)] data) := by
  rw [ofPush] at h
  cases hargument : argument? argument with
  | none =>
    rw [hargument] at h
    cases h
  | some data =>
    refine ⟨data, ?_⟩
    cases hwidth : lengthWidth? name with
    | some width =>
      simp only [hargument, hwidth] at h
      split_ifs at h with hlength
      exact .inl ⟨width, rfl, hlength, (Except.ok.inj h).symm⟩
    | none =>
      simp only [hargument, hwidth] at h
      split_ifs at h with hlength
      exact .inr ⟨rfl, hlength, (Except.ok.inj h).symm⟩

namespace OpTable

variable {t : OpTable} {symbol : String} {rest : List String} {o : Operand} {code : Nat}
  {bytes : Bytes}

/-- A symbol in front stands for its opcode with its operand. -/
theorem exists_operand_of_assemble (hreading : t.reading? symbol = some (o, code))
    (h : assemble t (symbol :: rest) = .ok bytes) :
    ∃ data more, o.Fits data ∧ bytes = UInt8.ofNat code :: (o.bytes data ++ more) := by
  obtain ⟨name, found, hresolve, hfound, hcases⟩ := reading?_cases hreading
  obtain ⟨items, hitems, hbytes⟩ := bind_ok_iff.mp h
  obtain rfl : items.flatMap Item.code = bytes := Except.ok.inj hbytes
  simp only [Item.ofSymbols, hresolve] at hitems
  by_cases htakes : Item.takesArgument name = true
  · rw [if_pos htakes] at hitems
    cases rest with
    | nil => cases hitems
    | cons argument rest =>
      simp only [bind_ok_iff] at hitems
      obtain ⟨item, hitem, others, -, hcons⟩ := hitems
      obtain rfl : item :: others = items := Except.ok.inj hcons
      obtain ⟨data, ⟨width, hwidth, hfits, rfl⟩ | ⟨hwidth, hfits, rfl⟩⟩ :=
        Item.exists_data_of_ofPush hitem
      · rcases hcases with ⟨width', hwidth', rfl, rfl⟩ | ⟨hnone, -⟩
        · obtain rfl := Option.some.inj (hwidth.symm.trans hwidth')
          refine ⟨data, others.flatMap Item.code, hfits, ?_⟩
          simp [Item.code, Operand.bytes]
        · rw [hwidth] at hnone
          cases hnone
      · rcases hcases with ⟨width', hwidth', -⟩ | ⟨-, rfl, rfl⟩
        · rw [hwidth] at hwidth'
          cases hwidth'
        · have hstem : Item.directStem.toList <+: name.toList := by
            simpa [hwidth] using Item.takesArgument_iff.mp htakes
          rw [hfound, Option.getD_some] at hfits
          rw [if_pos hstem]
          refine ⟨data, others.flatMap Item.code, hfits, ?_⟩
          simp [Item.code, Operand.bytes, hfound]
  · rw [if_neg htakes, hfound] at hitems
    obtain ⟨others, -, hcons⟩ := bind_ok_iff.mp hitems
    obtain rfl : Item.opcode found :: others = items := Except.ok.inj hcons
    rcases hcases with ⟨width, hwidth, -⟩ | ⟨-, rfl, rfl⟩
    · exact absurd (Item.takesArgument_iff.mpr (.inl (by rw [hwidth]; rfl))) htakes
    · have hstem : ¬ Item.directStem.toList <+: name.toList :=
        fun hstem => htakes (Item.takesArgument_iff.mpr (.inr hstem))
      rw [if_neg hstem]
      exact ⟨[], others.flatMap Item.code, rfl, rfl⟩

/-! ### The line of an instruction -/

/-- A line begins with the name of the opcode. -/
theorem name_isPrefix_line (t : OpTable) (i : Instruction) :
    (t.name i.lead.toNat).toList <+: (i.line t).toList := by
  rw [Instruction.line]
  split <;> simp [String.toList_append]

/-- What stands behind the name of an opcode is read as one symbol. -/
theorem isWord_of_mem_arguments {i : Instruction} (hfits : i.Fits t) :
    ∀ symbol ∈ (Instruction.operandAfter t i.lead).arguments i.data, Source.IsWord symbol := by
  cases hoperand : Instruction.operandAfter t i.lead with
  | none => simp [Operand.arguments]
  | fixed size =>
    exact List.forall_mem_singleton.mpr (Source.isWord_encode (hfits.data_ne_nil hoperand))
  | counted width => exact List.forall_mem_singleton.mpr (Source.isWord_hex i.data)

/-! ### Which tables are lossless -/

/-- Every operand can carry some data. -/
theorem exists_fits (o : Operand) : ∃ data, o.Fits data := by
  cases o with
  | none => exact ⟨[], rfl⟩
  | fixed size => exact ⟨List.replicate size 0, List.length_replicate⟩
  | counted width => exact ⟨[], Nat.pow_pos (by decide)⟩

/-- The name that a symbol stands for has neither blanks nor marks of comments. -/
theorem Regular.of_mem_target (h : t.Regular) (hword : Source.IsWord symbol) :
    ∀ c ∈ (t.target symbol).toList, Text.isBlank c = false ∧ c ≠ Source.commentMark := by
  have hcapital : ∀ c ∈ (capital symbol).toList,
      Text.isBlank c = false ∧ c ≠ Source.commentMark := by
    rw [capital, String.toList_ofList]
    exact Text.of_mem_upper hword.2
  rw [target]
  cases halias : t.aliases.lookup (capital symbol) with
  | none => exact hcapital
  | some name =>
    rw [Option.getD_some]
    rcases h.alias_cases halias with rfl | hextra
    · intro c hc
      rw [String.toList_append, List.mem_append] at hc
      rcases hc with hc | hc
      · have hstem : Source.IsWord stem := by decide
        exact hstem.2 c hc
      · exact hcapital c hc
    · have hall : ∀ entry ∈ extraAliases, Source.IsWord entry.2 := by decide +kernel
      exact (hall _ hextra).2

section Reachable

variable (ht : t.Reachable)
include ht

/-- A symbol that stands for an opcode with its operand does so by the name of the opcode. -/
theorem Reachable.reading?_eq {lead : UInt8} {data others more : Bytes}
    (hreading : t.reading? symbol = some (o, code)) (hlead : lead = UInt8.ofNat code)
    (hfits : o.Fits data)
    (hbytes : (Instruction.operandAfter t lead).bytes others = o.bytes data ++ more) :
    t.resolve? symbol = some (t.name lead.toNat) ∧ o = Instruction.operandAfter t lead ∧
      code = lead.toNat := by
  obtain ⟨name, found, hresolve, hfound, hcases⟩ := reading?_cases hreading
  rcases hcases with ⟨width, hwidth, rfl, rfl⟩ | ⟨hwidth, rfl, rfl⟩
  · -- The names of the counted pushes are told apart by the width.
    rw [UInt8.ofNat_toNat] at hlead
    have hcounted : Instruction.operandAfter t lead = .counted width := by
      rw [hlead]
      apply ht.operandAfter_countedLead
      rcases lengthWidth?_cases hwidth with ⟨-, h⟩ | ⟨-, h⟩ | ⟨-, h⟩ <;> simp [h]
    have hname := eq_of_lengthWidth?_eq hwidth (Instruction.operandAfter_eq_counted hcounted)
    exact ⟨hname ▸ hresolve, hcounted.symm, hlead ▸ rfl⟩
  · obtain ⟨hlt, rfl⟩ := ht.regular.name_eq_of_codeOf? hfound
    obtain rfl : lead.toNat = code := by rw [hlead, UInt8.toNat_ofNat_of_lt' hlt]
    refine ⟨hresolve, ?_, rfl⟩
    by_cases hdirect : 0 < lead.toNat ∧ lead.toNat ≤ 75
    · rw [operandAfter_direct hdirect.1 hdirect.2, if_pos (ht.hasDirectStem hdirect.1 hdirect.2)]
    · have hnone : Instruction.operandAfter t lead = .none := by
        simp only [Instruction.operandAfter, hwidth]
        rw [if_neg hdirect]
      rw [hnone] at hbytes ⊢
      apply if_neg
      intro hstem
      -- Without data behind it the opcode would be zero, whose name has no such stem.
      rw [if_pos hstem] at hbytes hfits
      obtain ⟨rfl, -⟩ := List.append_eq_nil_iff.mp hbytes.symm
      have hzero : lead.toNat = 0 := hfits.symm
      obtain ⟨row, hrow, hcode⟩ := exists_row_of_le (show lead.toNat ≤ 0x4e by omega)
      rw [← hcode, ht.name_of_mem hrow, directStem_prefix_iff hrow] at hstem
      omega

/-- The names of a lossless table are read back. -/
theorem Reachable.readsBack_of_lossless (h : t.Lossless) (lead : UInt8) : t.ReadsBack lead := by
  obtain ⟨data, hfits⟩ := exists_fits (Instruction.operandAfter t lead)
  have hname := ht.regular.isName_name lead.toNat_lt
  -- The line of the opcode assembles to its byte code.
  have hlines : disassemble t (Instruction.code t ⟨lead, data⟩) =
      .ok [Instruction.line t ⟨lead, data⟩] :=
    disassemble_eq_ok_iff.mpr ⟨_, Instruction.cut_code (i := ⟨lead, data⟩) hfits, rfl⟩
  have hcompile := h _ _ hlines
  rw [String.intercalate_singleton, compile] at hcompile
  obtain ⟨symbols, hsymbols, hassemble⟩ := bind_ok_iff.mp hcompile
  obtain ⟨cs, hline⟩ : ∃ cs, (Instruction.line t ⟨lead, data⟩).toList = 'O' :: cs := by
    obtain ⟨cs, hcs⟩ := hname.hasStem.trans (name_isPrefix_line t ⟨lead, data⟩)
    exact ⟨_, hcs.symm⟩
  obtain ⟨symbol, rest, rfl, hhead⟩ :=
    Source.exists_symbols_cons hsymbols hline (by decide) (by decide)
  -- Its first symbol is no literal, and so stands for an opcode.
  obtain ⟨o, code, hreading⟩ : ∃ o code, t.reading? symbol = some (o, code) := by
    cases hresolve : t.resolve? symbol with
    | some name => exact ⟨_, _, by rw [reading?, hresolve]; rfl⟩
    | none =>
      obtain ⟨items, hitems, -⟩ := bind_ok_iff.mp hassemble
      simp only [Item.ofSymbols, hresolve, bind_ok_iff] at hitems
      obtain ⟨item, hitem, -⟩ := hitems
      rw [Item.ofLiteral_eq_error (OpTable.head?_capital hhead)] at hitem
      cases hitem
  obtain ⟨data', more, hfits', hbytes⟩ := exists_operand_of_assemble hreading hassemble
  obtain ⟨hlead, hrest⟩ := List.cons.inj hbytes
  obtain ⟨hresolve, rfl, rfl⟩ := ht.reading?_eq hreading hlead hfits' hrest
  -- So its name is one symbol, which is the first one.
  have hword : Source.IsWord (t.name lead.toNat) := by
    constructor
    · obtain ⟨cs, hcs⟩ := hname.hasStem
      rw [← hcs]
      exact List.cons_ne_nil _ _
    · rw [← (resolve?_eq_some_iff.mp hresolve).1]
      exact ht.regular.of_mem_target (Source.isWord_of_mem_symbols hsymbols _ List.mem_cons_self)
  have hreads : Source.Reads (" ".intercalate (Instruction.symbols t ⟨lead, data⟩)) _ :=
    Source.reads_symbols
      (List.forall_mem_cons.mpr ⟨hword, isWord_of_mem_arguments (i := ⟨lead, data⟩) hfits⟩)
  rw [Instruction.line_eq, hreads.symbols_eq] at hsymbols
  obtain ⟨rfl, -⟩ := List.cons.inj (Except.ok.inj hsymbols)
  exact ⟨hword, hreading⟩

/-- A table is lossless exactly if its names can be told apart. -/
theorem Reachable.lossless_iff : t.Lossless ↔ t.WellNamed := by
  rw [← ht.forall_readsBack_iff]
  constructor
  · exact ht.readsBack_of_lossless
  · intro h code lines hlines
    exact compile_intercalate_of_disassemble h hlines Source.isGap_newline

end Reachable

/-- Under a name that is in use already, byte code of the older opcode is not given back. -/
theorem exists_register_not_lossless :
    ∃ t, standard.register 0x50 "op_1" (.push [9]) = .ok t ∧ ¬ t.Lossless := by
  have hregister : standard.register 0x50 "op_1" (.push [9]) =
      .ok (standard.assign 0x50 "OP_1" (.push [9])) := rfl
  refine ⟨_, hregister, fun h => ?_⟩
  have hnames := (Reachable.lossless_iff (.register .standard hregister)).mp h
  exact absurd (hnames.injective 0x50 (by decide) 0x51 (by decide) (by decide +kernel)) (by decide)

/-! ### Which registrations leave a table lossless -/

/-- A new name for an opcode can be told apart from the names and aliases of a table: it is read as
one symbol, asks for no argument and is no alias, and no other opcode is named like it or like its
alias. -/
structure Admits (t : OpTable) (code : Nat) (name : String) : Prop where
  isWord : Source.IsWord name
  takesArgument_eq : Item.takesArgument name = false
  not_alias : t.aliases.lookup name = none
  name_ne : ∀ other < 256, other ≠ code → t.name other ≠ name ∧ t.name other ≠ bare name

instance (t : OpTable) (code : Nat) (name : String) : Decidable (t.Admits code name) :=
  decidable_of_iff
    (Source.IsWord name ∧ Item.takesArgument name = false ∧ t.aliases.lookup name = none ∧
      ∀ other < 256, other ≠ code → t.name other ≠ name ∧ t.name other ≠ bare name)
    ⟨fun ⟨hword, htakes, halias, hname⟩ => ⟨hword, htakes, halias, hname⟩,
      fun h => ⟨h.isWord, h.takesArgument_eq, h.not_alias, h.name_ne⟩⟩

/-- A name that is left apart from the others was admitted. -/
theorem Reachable.admits_of_wellNamed_assign {n : Nat} {name : String} {op : Operation}
    (ht : t.Reachable) (hlt : n < 256) (hfree : t.assigned.lookup n = none) (hname : IsName name)
    (h : (t.assign n name op).WellNamed) : t.Admits n name := by
  have hnew := ht.regular.name_assign_self hlt hfree name op
  have hold : ∀ {other}, other ≠ n → (t.assign n name op).name other = t.name other :=
    fun hne => ht.regular.name_assign_of_ne hlt hfree name op hne
  constructor
  case isWord => exact hnew ▸ h.isWord n hlt
  case takesArgument_eq =>
    rw [← Bool.not_eq_true]
    intro htakes
    -- The opcodes up to the last of the explicit pushes are assigned.
    obtain ⟨row, hrow, rfl⟩ := exists_row_of_le (h.le_of_takesArgument n hlt (hnew.symm ▸ htakes)).2
    rw [ht.lookup_assigned hrow] at hfree
    cases hfree
  case not_alias =>
    have halias := h.not_alias n hlt
    rwa [hnew, aliases_assign, Assoc.lookup_set_of_ne _ _ hname.ne_bare] at halias
  case name_ne =>
    intro other hother hne
    constructor
    · intro hsame
      exact hne (h.injective other hother n hlt (by rw [hold hne, hnew, hsame]))
    · intro hsame
      have halias := h.not_alias other hother
      rw [hold hne, hsame, aliases_assign, Assoc.lookup_set_self] at halias
      cases halias

/-- Names stay apart if a name is added that is admitted. -/
theorem WellNamed.assign {n : Nat} {name : String} {op : Operation} (h : t.WellNamed)
    (ht : t.Regular) (hlt : n < 256) (hfree : t.assigned.lookup n = none) (hname : IsName name)
    (hadmits : t.Admits n name) : (t.assign n name op).WellNamed := by
  have hnew := ht.name_assign_self hlt hfree name op
  have hold : ∀ {other}, other ≠ n → (t.assign n name op).name other = t.name other :=
    fun hne => ht.name_assign_of_ne hlt hfree name op hne
  constructor
  case isWord =>
    intro other hother
    by_cases hne : other = n
    · rw [hne, hnew]
      exact hadmits.isWord
    · rw [hold hne]
      exact h.isWord other hother
  case not_alias =>
    intro other hother
    rw [aliases_assign]
    by_cases hne : other = n
    · rw [hne, hnew, Assoc.lookup_set_of_ne _ _ hname.ne_bare]
      exact hadmits.not_alias
    · rw [hold hne, Assoc.lookup_set_of_ne _ _ (hadmits.name_ne other hother hne).2]
      exact h.not_alias other hother
  case le_of_takesArgument =>
    intro other hother htakes
    by_cases hne : other = n
    · rw [hne, hnew, hadmits.takesArgument_eq] at htakes
      cases htakes
    · rw [hold hne] at htakes
      exact h.le_of_takesArgument other hother htakes
  case injective =>
    intro other hother another hanother hsame
    by_cases hne : other = n <;> by_cases hne' : another = n
    · rw [hne, hne']
    · rw [hne, hnew, hold hne'] at hsame
      exact absurd hsame.symm (hadmits.name_ne another hanother hne').1
    · rw [hne', hnew, hold hne] at hsame
      exact absurd hsame (hadmits.name_ne other hother hne).1
    · rw [hold hne, hold hne'] at hsame
      exact h.injective other hother another hanother hsame

/-- A registration leaves the names of a table apart exactly if the table admits the new name. -/
theorem Reachable.wellNamed_register_iff {t' : OpTable} {code : Int} {name : String}
    {op : Operation} (ht : t.Reachable) (h : t.WellNamed)
    (hregister : t.register code name op = .ok t') :
    t'.WellNamed ↔ t.Admits code.toNat (capital name) := by
  obtain ⟨n, rfl, hlt, hfree, hname, rfl⟩ := exists_assign_of_register_eq_ok hregister
  rw [Int.toNat_natCast]
  exact ⟨ht.admits_of_wellNamed_assign hlt hfree hname, h.assign ht.regular hlt hfree hname⟩

example : ¬ standard.Admits 0xfd "OP_TRUE" := by
  decide +kernel

end OpTable

end FlowGate

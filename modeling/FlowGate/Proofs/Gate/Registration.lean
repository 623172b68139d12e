import FlowGate.Proofs.Assembly.Extension
import FlowGate.Proofs.Gate.Layout

/-!
# Locking scripts after a registration

Locking scripts are assembled from names, numerals and a hexadecimal literal, and none of these is a
placeholder. So a locking script that can be built before a registration is built again after it,
unless one of its symbols is the new name or alias.

## Main definitions

* `Gate.symbols`, `LockingArgs.symbols` — the symbols that a locking script is assembled from

## Main results

* `Gate.isPart_of_mem_symbols` — what these symbols are like
* `LockingArgs.build_assign` — a registration keeps the locking scripts whose symbols avoid it
* `OpTable.Reachable.register_keeps` — what a registration changes about source text and locking
  scripts
-/

namespace FlowGate

namespace Gate

/-- The symbols of the parts of a locking script that are assembled. -/
def parts (role : GateRole) (key : Bytes) (nibbles : List Nat) (fragment : Fragment) :
    List (List String) :=
  [["x" ++ Hex.encode key, "OP_CHECKSIGVERIFY"],
    ["OP_DUP", toString role.threshold, role.comparison, "OP_VERIFY"],
    ["OP_DROP"],
    truncationSymbols nibbles.length (fragment.digestNibbles - nibbles.length).toNat fragment.order,
    (fromTop fragment.order nibbles).flatMap fun n => [toString n, "OP_EQUALVERIFY"],
    ["OP_TRUE"]]

/-- A symbol that is read as one symbol and is no placeholder. -/
structure IsPart (symbol : String) : Prop where
  isWord : Source.IsWord symbol
  not_placeholder : ¬ OpTable.invalidStem.toList <+: (OpTable.capital symbol).toList

theorem isPart_toString (n : Nat) : IsPart (toString n) := by
  have hdigits : ∀ c ∈ (toString n).toList, c.isDigit = true := fun c => isDigit_of_mem_toString
  constructor
  case isWord => exact (Source.isDecimalLiteral_toString n).isWord
  case not_placeholder =>
    rw [OpTable.capital_toString]
    intro hstem
    exact absurd (hdigits 'O' (hstem.subset (by decide))) (by decide)

theorem isPart_hex (bs : Bytes) : IsPart ("x" ++ Hex.encode bs) := by
  constructor
  case isWord => exact Source.isWord_hex bs
  case not_placeholder =>
    rw [OpTable.capital, String.toList_ofList, toList_hex, ← List.singleton_append,
      Text.upper_append]
    intro hstem
    exact absurd (List.cons_prefix_cons.mp hstem).1 (by decide)

instance : DecidablePred IsPart := fun symbol =>
  decidable_of_iff
    (Source.IsWord symbol ∧ ¬ OpTable.invalidStem.toList <+: (OpTable.capital symbol).toList)
    ⟨fun ⟨hword, hstem⟩ => ⟨hword, hstem⟩, fun h => ⟨h.isWord, h.not_placeholder⟩⟩

/-- The names in locking scripts. -/
def names : List String :=
  ["OP_CHECKSIGVERIFY", "OP_DUP", "OP_GREATERTHAN", "OP_LESSTHAN", "OP_VERIFY", "OP_DROP",
    "OP_TOALTSTACK", "OP_FROMALTSTACK", "OP_EQUALVERIFY", "OP_TRUE"]

theorem isPart_of_mem_names : ∀ symbol ∈ names, IsPart symbol := by
  decide +kernel

theorem mem_names_of_mem_truncationSymbols {needed rest : Nat} {order : NibbleOrder}
    {symbol : String} (h : symbol ∈ truncationSymbols needed rest order) : symbol ∈ names := by
  cases order <;> simp only [truncationSymbols, List.mem_append, List.mem_replicate] at h
  · obtain ⟨-, rfl⟩ := h
    decide
  · rcases h with (⟨-, rfl⟩ | ⟨-, rfl⟩) | ⟨-, rfl⟩ <;> decide

/-- The symbols of a locking script are words, and none is a placeholder. -/
theorem isPart_of_mem_parts {role : GateRole} {key : Bytes} {nibbles : List Nat}
    {fragment : Fragment} :
    ∀ part ∈ parts role key nibbles fragment, ∀ symbol ∈ part, IsPart symbol := by
  have hname : ∀ {symbol}, symbol ∈ names → IsPart symbol := fun h => isPart_of_mem_names _ h
  have hcomparison : role.comparison ∈ names := by cases role <;> decide
  have hpair : ∀ {symbol other}, IsPart symbol → other ∈ names →
      ∀ s ∈ [symbol, other], IsPart s := by
    intro symbol other hsymbol hother
    exact List.forall_mem_cons.mpr ⟨hsymbol, List.forall_mem_singleton.mpr (hname hother)⟩
  intro part hpart
  simp only [parts, List.mem_cons, List.not_mem_nil, or_false] at hpart
  rcases hpart with rfl | rfl | rfl | rfl | rfl | rfl
  · exact hpair (isPart_hex key) (by decide)
  · refine List.forall_mem_cons.mpr ⟨hname (by decide), ?_⟩
    refine List.forall_mem_cons.mpr ⟨isPart_toString _, ?_⟩
    exact hpair (hname hcomparison) (by decide)
  · exact List.forall_mem_singleton.mpr (hname (by decide))
  · exact fun symbol hs => hname (mem_names_of_mem_truncationSymbols hs)
  · intro symbol hs
    obtain ⟨n, -, hs⟩ := List.mem_flatMap.mp hs
    exact hpair (isPart_toString n) (by decide) symbol hs
  · exact List.forall_mem_singleton.mpr (hname (by decide))

/-- What is assembled from symbols of a locking script stays the same if they avoid a new name. -/
theorem ofSymbols_assign {t : OpTable} {name : String} {code : Nat} {symbols : List String}
    {script : Script} (h : t.Regular) (hlt : code < 256) (hfree : t.assigned.lookup code = none)
    (op : Operation) (hparts : ∀ symbol ∈ symbols, IsPart symbol)
    (havoids : ∀ symbol ∈ symbols, t.Avoids name symbol)
    (hscript : ofSymbols t symbols = .ok script) :
    ofSymbols (t.assign code name op) symbols = .ok script := by
  obtain ⟨bytes, hbytes, hpair⟩ := bind_ok_iff.mp hscript
  obtain rfl : ⟨" ".intercalate symbols, bytes⟩ = script := Except.ok.inj hpair
  have hsymbols := (Source.reads_symbols fun symbol hs => (hparts symbol hs).isWord).symbols_eq
  have hkept := h.compile_assign hlt hfree op hsymbols hbytes
    fun symbol hs => havoids symbol (Item.mem_of_mem_lookedUp hs)
  have hnone : (Item.lookedUp t symbols).find? (t.standsFor code) = none := by
    rw [List.find?_eq_none]
    intro symbol hs hstands
    apply (hparts symbol (Item.mem_of_mem_lookedUp hs)).not_placeholder
    rw [h.capital_of_standsFor hfree hstands, OpTable.placeholder, String.toList_append]
    exact List.prefix_append _ _
  rw [hnone] at hkept
  rw [ofSymbols, Script.ofSource, bind_of_eq_ok hkept]
  rfl

/-- Byte code that hashes is written the same, whatever has been registered. -/
theorem hashing_eq {t t' : OpTable} (h : t.Reachable) (h' : t'.Reachable) (fragment : Fragment) :
    hashing t fragment Fragment.messageLength Fragment.limbLength =
      hashing t' fragment Fragment.messageLength Fragment.limbLength := by
  -- The byte code consists of opcodes that are assigned from the start.
  obtain ⟨rows, hrows, hcode⟩ : ∃ rows : List (Nat × String × Operation),
      (∀ row ∈ rows, row ∈ OpTable.standardRows ∧ row.2.2.operand = .none) ∧
      fragment.computeScript Fragment.messageLength Fragment.limbLength =
        .ok (rows.map fun row => UInt8.ofNat row.1) := by
    rw [Fragment.computeScript]
    cases fragment.emitted with
    | firstDeepest =>
      exact ⟨[(0x5c, "OP_12", .push (ScriptNumber.encode (12 : Nat))),
        (0x54, "OP_4", .push (ScriptNumber.encode (4 : Nat))), (0x00, "OP_0", .push []),
        (OpTable.digestCode, OpTable.digestName, .digest)], by decide +kernel, by decide +kernel⟩
    | firstOnTop =>
      exact ⟨[(0x5c, "OP_12", .push (ScriptNumber.encode (12 : Nat))),
        (0x54, "OP_4", .push (ScriptNumber.encode (4 : Nat))),
        (0x51, "OP_1", .push (ScriptNumber.encode (1 : Nat))),
        (OpTable.digestCode, OpTable.digestName, .digest)], by decide +kernel, by decide +kernel⟩
  rw [hashing, hashing, bind_of_eq_ok hcode, bind_of_eq_ok hcode, Script.ofCode, Script.ofCode,
    h.disassemble_rows hrows, h'.disassemble_rows hrows]

/-- A locking script is built exactly if its parts are. -/
theorem lockingScript_eq_ok_iff {t : OpTable} {role : GateRole} {key : Except Error Bytes}
    {count : Nat} {nibbles : Except Error (List Nat)} {fragment : Fragment} {script : Script} :
    lockingScript t role key count nibbles fragment = .ok script ↔
      ∃ k ns a b c d e f g, key = .ok k ∧ nibbles = .ok ns ∧ signatureCheck t k = .ok a ∧
        thresholdCheck t role = .ok b ∧ dropInput t = .ok c ∧
        hashing t fragment Fragment.messageLength Fragment.limbLength = .ok d ∧
        truncation t count fragment.order fragment.digestNibbles = .ok e ∧
        nibbleMatch t ns fragment.order = .ok f ∧ success t = .ok g ∧
        Script.concat [a, b, c, d, e, f, g] = script := by
  simp only [lockingScript, bind_ok_iff, pure, Except.pure, Except.ok.injEq]
  constructor
  · rintro ⟨k, hk, a, ha, b, hb, c, hc, d, hd, e, he, ns, hns, f, hf, g, hg, rfl⟩
    exact ⟨k, ns, a, b, c, d, e, f, g, hk, hns, ha, hb, hc, hd, he, hf, hg, rfl⟩
  · rintro ⟨k, ns, a, b, c, d, e, f, g, hk, hns, ha, hb, hc, hd, he, hf, hg, rfl⟩
    exact ⟨k, hk, a, ha, b, hb, c, hc, d, hd, e, he, ns, hns, f, hf, g, hg, rfl⟩

end Gate

namespace LockingArgs

/-- The symbols that the locking script of arguments is assembled from. -/
def symbols (args : LockingArgs) : Except Error (List String) := do
  let key ← args.key.toBytes "pubkey"
  let nibbles ← args.nibbles.mapM toNibble
  return (Gate.parts args.role key nibbles args.fragment).flatten

/-- A registration keeps the locking scripts whose symbols avoid the new name. -/
theorem build_assign {t : OpTable} {name : String} {code : Nat} {op : Operation}
    {args : LockingArgs} {symbols : List String} {script : Script} (ht : t.Reachable)
    (ht' : (t.assign code name op).Reachable) (hlt : code < 256)
    (hfree : t.assigned.lookup code = none) (hsymbols : args.symbols = .ok symbols)
    (havoids : ∀ symbol ∈ symbols, t.Avoids name symbol) (hscript : args.build t = .ok script) :
    args.build (t.assign code name op) = .ok script := by
  obtain ⟨k, ns, a, b, c, d, e, f, g, hk, hns, ha, hb, hc, hd, he, hf, hg, hconcat⟩ :=
    Gate.lockingScript_eq_ok_iff.mp hscript
  have hlength := length_of_mapM_eq_ok hns
  obtain rfl : (Gate.parts args.role k ns args.fragment).flatten = symbols := by
    rw [LockingArgs.symbols, bind_of_eq_ok hk, bind_of_eq_ok hns] at hsymbols
    exact Except.ok.inj hsymbols
  have hpart : ∀ {part script}, part ∈ Gate.parts args.role k ns args.fragment →
      Gate.ofSymbols t part = .ok script →
        Gate.ofSymbols (t.assign code name op) part = .ok script := by
    intro part script hmem
    exact Gate.ofSymbols_assign ht.regular hlt hfree op (Gate.isPart_of_mem_parts part hmem)
      fun symbol hs => havoids symbol (List.mem_flatten_of_mem hmem hs)
  refine Gate.lockingScript_eq_ok_iff.mpr
    ⟨k, ns, a, b, c, d, e, f, g, hk, hns, ?_, ?_, ?_, ?_, ?_, ?_, ?_, hconcat⟩
  · obtain ⟨⟨⟩, hcheck, ha⟩ := bind_ok_iff.mp ha
    rw [Gate.signatureCheck, bind_of_eq_ok hcheck]
    exact hpart (by simp [Gate.parts]) ha
  · exact hpart (by simp [Gate.parts]) hb
  · exact hpart (by simp [Gate.parts]) hc
  · rw [← Gate.hashing_eq ht ht', hd]
  · obtain ⟨⟨⟩, hcheck, he⟩ := bind_ok_iff.mp he
    rw [Gate.truncation, bind_of_eq_ok hcheck]
    rw [← hlength] at he ⊢
    exact hpart (by simp [Gate.parts]) he
  · exact hpart (by simp [Gate.parts]) hf
  · exact hpart (by simp [Gate.parts]) hg

end LockingArgs

namespace OpTable

/-- What a registration changes. Source text whose symbols avoid the new name keeps its byte code,
unless it uses the placeholder of the opcode: then it is rejected, and the first use is reported. A
locking script whose symbols avoid the new name is built as before. -/
theorem Reachable.register_keeps {t t' : OpTable} {code : Int} {name : String} {op : Operation}
    (ht : t.Reachable) (hregister : t.register code name op = .ok t') :
    (∀ source symbols bytes, Source.symbols source = .ok symbols → compile t source = .ok bytes →
      (∀ symbol ∈ Item.lookedUp t symbols, t.Avoids (capital name) symbol) →
      compile t' source =
        match (Item.lookedUp t symbols).find? (t.standsFor code.toNat) with
        | some symbol => .error (.assembly (.unrecognized symbol))
        | none => .ok bytes) ∧
    ∀ (args : LockingArgs) symbols script, args.symbols = .ok symbols → args.build t = .ok script →
      (∀ symbol ∈ symbols, t.Avoids (capital name) symbol) → args.build t' = .ok script := by
  have ht' := ht.register hregister
  obtain ⟨n, rfl, hlt, hfree, -, rfl⟩ := exists_assign_of_register_eq_ok hregister
  constructor
  · intro source symbols bytes hsymbols hbytes havoids
    exact ht.regular.compile_assign hlt hfree op hsymbols hbytes havoids
  · intro args symbols script hsymbols hscript havoids
    exact args.build_assign ht ht' hlt hfree hsymbols havoids hscript

/-- A new opcode leaves a literal and a locking script alone, but takes its placeholder away. -/
theorem register_keeps_sample :
    ∃ t', standard.register 0xfd "op_nine" (.push [9]) = .ok t' ∧
      compile t' "x09" = .ok [0x01, 0x09] ∧
      compile t' (placeholder 0xfd) = .error (.assembly (.unrecognized (placeholder 0xfd))) ∧
      ∃ script, LockingArgs.build t' ⟨.f1, .bytes (List.replicate 32 0), [.int 5], .default⟩ =
        .ok script := by
  have hregister : standard.register 0xfd "op_nine" (.push [9]) =
      .ok (standard.assign 0xfd "OP_NINE" (.push [9])) := rfl
  have hfree : standard.assigned.lookup 0xfd = none := by decide +kernel
  have hnew : standard.names.lookup "OP_NINE" = none := by decide +kernel
  have havoids : ∀ symbols : List String,
      (∀ symbol ∈ symbols, capital symbol ≠ "NINE" ∧ capital symbol ≠ "OP_NINE") →
      ∀ symbol ∈ symbols, standard.Avoids (capital "op_nine") symbol := by
    intro symbols h symbol hs
    exact regular_standard.avoids hnew (h symbol hs).1 (h symbol hs).2
  obtain ⟨hsource, hscript⟩ := Reachable.register_keeps .standard hregister
  refine ⟨_, hregister, ?_, ?_, ?_⟩
  · have hhex : "x" ++ Hex.encode [9] = "x09" := by decide +kernel
    have hspells : Spells .standard ["x09"] [0x01, 0x09] := hhex ▸ spells_hex (by decide)
    have hsymbols := (Source.reads_symbols hspells.isWord).symbols_eq
    have hbytes : compile .standard "x09" = .ok [0x01, 0x09] :=
      (bind_of_eq_ok hsymbols _).trans hspells.assemble_eq
    have hkept := hsource "x09" ["x09"] _ hsymbols hbytes
      (by rw [lookedUp_singleton]; exact havoids _ (by decide +kernel))
    have hliteral : ¬ standard.standsFor (0xfd : Int).toNat "x09" = true := fun hstands =>
      absurd (regular_standard.capital_of_standsFor hfree hstands) (by decide +kernel)
    rw [lookedUp_singleton, List.find?_cons_of_neg hliteral] at hkept
    exact hkept
  · have hreads := (isPlainName_placeholder 0xfd).isWord.reads
    have hkept := hsource (placeholder 0xfd) _ _ hreads.symbols_eq
      (wellNamed_standard.compile_placeholder .standard (by decide) hfree)
      (by rw [lookedUp_singleton]; exact havoids _ (by decide +kernel))
    obtain ⟨htarget, hcode⟩ := wellNamed_standard.codeOf?_placeholder .standard (by decide) hfree
    have hstands : standard.standsFor (0xfd : Int).toNat (placeholder 0xfd) = true := by
      rw [standsFor_iff, htarget]
      exact hcode
    rw [lookedUp_singleton, List.find?_cons_of_pos hstands] at hkept
    exact hkept
  · obtain ⟨script, hbuild, -⟩ := Gate.exists_build_eq
      ⟨.f1, List.replicate 32 0, [5], .firstDeepest, rfl, by decide, by decide⟩
    exact ⟨script, hscript _ _ script rfl hbuild (havoids _ (by decide +kernel))⟩

/-- Source text that uses a placeholder is rejected once the opcode is registered. -/
theorem not_forall_compile_register :
    ¬ ∀ (t t' : OpTable) (code : Int) (name : String) (op : Operation) (source : String)
      (bytes : Bytes), t.Reachable → t.register code name op = .ok t' →
        compile t source = .ok bytes → compile t' source = .ok bytes := by
  intro h
  have hregister : standard.register 0xfd "op_nine" (.push [9]) =
      .ok (standard.assign 0xfd "OP_NINE" (.push [9])) := rfl
  have hfree : standard.assigned.lookup 0xfd = none := by decide +kernel
  have hafter : compile (standard.assign 0xfd "OP_NINE" (.push [9])) (placeholder 0xfd) =
      .error (.assembly (.unrecognized (placeholder 0xfd))) :=
    wellNamed_standard.compile_placeholder_assign .standard (by decide) hfree (by decide +kernel)
      (by decide +kernel) _
  have hkept := h _ _ _ _ _ (placeholder 0xfd) _ .standard hregister
    (wellNamed_standard.compile_placeholder .standard (by decide) hfree)
  rw [hafter] at hkept
  cases hkept

end OpTable

end FlowGate

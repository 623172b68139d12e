import FlowGate.Proofs.Assembly.Literal
import FlowGate.Proofs.Assembly.Whole

/-!
# The items of source text and the lines of its byte code

Source text is a sequence of items: the name of an explicit push with its argument, or any other
single symbol. Each item assembles to one instruction, so disassembling the byte code of a source
text gives one line for each item, in the same order. And byte code can be disassembled exactly if
it is the byte code of some source text.

## Main definitions

* `OpTable.isPush` — whether a symbol names an explicit push
* `Source.items` — the symbols of each item of a sequence of symbols

## Main results

* `OpTable.WellNamed.isPush_eq` — explicit pushes are the names that ask for an argument
* `OpTable.WellNamed.forall₂_items` — the byte code of each item
* `disassemble_compile` — source text, its byte code and its lines
-/

namespace FlowGate

/-- Whether a symbol stands for one of the opcodes with data behind them. -/
def OpTable.isPush (t : OpTable) (symbol : String) : Bool :=
  match (t.resolve? symbol).bind t.codeOf? with
  | some code => 0 < code && code ≤ 0x4e
  | none => false

/-- The items of a sequence of symbols: the name of an explicit push with its argument, and any other
symbol by itself. -/
def Source.items (t : OpTable) : List String → List (List String)
  | [] => []
  | symbol :: rest =>
    if t.isPush symbol then
      match rest with
      | [] => [[symbol]]
      | argument :: rest => [symbol, argument] :: items t rest
    else [symbol] :: items t rest

namespace Source

variable {t : OpTable} {symbol : String} {rest : List String}

theorem items_of_isPush {argument : String} (h : t.isPush symbol = true) :
    items t (symbol :: argument :: rest) = [symbol, argument] :: items t rest := by
  simp [items, h]

theorem items_of_not_isPush (h : t.isPush symbol = false) :
    items t (symbol :: rest) = [symbol] :: items t rest := by
  cases rest <;> simp [items, h]

/-- Every symbol belongs to one item. -/
theorem flatten_items (t : OpTable) (symbols : List String) :
    (items t symbols).flatten = symbols := by
  fun_induction items t symbols with
  | case1 => rfl
  | case2 => rfl
  | case3 symbol argument rest hpush ih => rw [List.flatten_cons, ih]; rfl
  | case4 symbol rest hpush ih => rw [List.flatten_cons, ih]; rfl

end Source

namespace OpTable

variable {t : OpTable} {symbol name : String}

theorem isPush_eq_false (h : t.resolve? symbol = none) : t.isPush symbol = false := by
  rw [isPush, h, Option.bind_none]

section WellNamed

variable (ht : t.Reachable) (hnamed : t.WellNamed)
include ht hnamed

/-- Where names can be told apart, the symbols that name explicit pushes are those whose names ask
for an argument. -/
theorem WellNamed.isPush_eq (h : t.resolve? symbol = some name) :
    t.isPush symbol = Item.takesArgument name := by
  obtain ⟨-, code, hcode⟩ := resolve?_eq_some_iff.mp h
  obtain ⟨hlt, rfl⟩ := ht.regular.name_eq_of_codeOf? hcode
  rw [isPush, h, Option.bind_some, hcode, Bool.eq_iff_iff, Bool.and_eq_true, decide_eq_true_iff,
    decide_eq_true_iff]
  constructor
  · intro hrange
    by_contra htakes
    have halone := ht.stands_alone htakes
    omega
  · exact hnamed.le_of_takesArgument code hlt

/-- The symbols of an item assemble to the byte code of the item. -/
theorem WellNamed.forall₂_items {symbols : List String} {items : List Item}
    (h : Item.ofSymbols t symbols = .ok items) :
    List.Forall₂ (fun group item => assemble t group = .ok item.code) (Source.items t symbols)
      items := by
  -- The induction takes a symbol, with its argument if it has one, off the front.
  fun_induction Item.ofSymbols t symbols generalizing items with
  | case1 =>
    obtain rfl := Except.ok.inj h
    exact .nil
  | case2 => cases h
  | case3 symbol name hresolve htakes argument rest ih =>
    obtain ⟨item, hitem, h⟩ := bind_ok_iff.mp h
    obtain ⟨others, hothers, h⟩ := bind_ok_iff.mp h
    obtain rfl := Except.ok.inj h
    rw [Source.items_of_isPush ((hnamed.isPush_eq ht hresolve).trans htakes)]
    refine .cons ?_ (ih hothers)
    simp [assemble, Item.ofSymbols, hresolve, htakes, hitem, bind, Except.bind, pure, Except.pure]
  | case4 symbol rest name hresolve htakes ih =>
    obtain ⟨others, hothers, h⟩ := bind_ok_iff.mp h
    obtain rfl := Except.ok.inj h
    rw [Source.items_of_not_isPush
      ((hnamed.isPush_eq ht hresolve).trans (Bool.not_eq_true _ ▸ htakes))]
    refine .cons ?_ (ih hothers)
    simp [assemble, Item.ofSymbols, hresolve, htakes, bind, Except.bind, pure, Except.pure]
  | case5 symbol rest hresolve ih =>
    obtain ⟨item, hitem, h⟩ := bind_ok_iff.mp h
    obtain ⟨others, hothers, h⟩ := bind_ok_iff.mp h
    obtain rfl := Except.ok.inj h
    rw [Source.items_of_not_isPush (isPush_eq_false hresolve)]
    refine .cons ?_ (ih hothers)
    simp [assemble, Item.ofSymbols, hresolve, hitem, bind, Except.bind, pure, Except.pure]

/-- Whole instructions are opcodes with their operands. -/
theorem WellNamed.exists_instructions {parts : List Bytes} (h : ∀ part ∈ parts, IsInstruction part) :
    ∃ instructions : List Instruction, (∀ i ∈ instructions, i.Fits t) ∧
      instructions.map (Instruction.code t) = parts := by
  induction parts with
  | nil => exact ⟨[], by simp, rfl⟩
  | cons part parts ih =>
    rw [List.forall_mem_cons] at h
    obtain ⟨i, hfits, rfl⟩ := hnamed.exists_code_eq ht h.1
    obtain ⟨others, hothers, rfl⟩ := ih h.2
    exact ⟨i :: others, List.forall_mem_cons.mpr ⟨hfits, hothers⟩, rfl⟩

/-- Instructions have one line each, and each line assembles to its instruction. -/
theorem WellNamed.forall₂_lines {instructions : List Instruction}
    (h : ∀ i ∈ instructions, i.Fits t) :
    List.Forall₂ (fun part line => disassemble t part = .ok [line] ∧ compile t line = .ok part)
      (instructions.map (Instruction.code t)) (instructions.map (Instruction.line t)) := by
  rw [List.forall₂_map_left_iff, List.forall₂_map_right_iff, List.forall₂_same]
  intro i hi
  have hlines : disassemble t (i.code t) = .ok [i.line t] :=
    disassemble_eq_ok_iff.mpr ⟨[i], Instruction.cut_code (h i hi), rfl⟩
  have hcompile := compile_intercalate_of_disassemble (hnamed.readsBack ht) hlines
    Source.isGap_newline
  rw [String.intercalate_singleton] at hcompile
  exact ⟨hlines, hcompile⟩

/-- Byte code that was assembled has the lines of its instructions, one for each item. -/
theorem WellNamed.exists_lines {source : String} {code : Bytes} (h : compile t source = .ok code) :
    ∃ (symbols : List String) (parts : List Bytes) (lines : List String),
      Source.symbols source = .ok symbols ∧ parts.flatten = code ∧
      List.Forall₂ (fun item part => assemble t item = .ok part) (Source.items t symbols) parts ∧
      List.Forall₂ (fun part line => disassemble t part = .ok [line] ∧ compile t line = .ok part)
        parts lines ∧
      disassemble t code = .ok lines := by
  obtain ⟨symbols, hsymbols, hassemble⟩ := bind_ok_iff.mp h
  obtain ⟨items, hitems, hcode⟩ := bind_ok_iff.mp hassemble
  obtain rfl := Except.ok.inj hcode
  -- The byte code of each item is an instruction.
  have hparts : ∀ part ∈ items.map Item.code, IsInstruction part := by
    intro part hpart
    obtain ⟨item, hitem, rfl⟩ := List.mem_map.mp hpart
    exact hnamed.isInstruction_of_ofSymbols ht hitems item hitem
  obtain ⟨instructions, hfits, hmap⟩ := hnamed.exists_instructions ht hparts
  refine ⟨symbols, items.map Item.code, instructions.map (Instruction.line t), hsymbols, ?_, ?_, ?_,
    ?_⟩
  · rw [List.flatMap_def]
  · rw [List.forall₂_map_right_iff]
    exact hnamed.forall₂_items ht hitems
  · rw [← hmap]
    exact hnamed.forall₂_lines ht hfits
  · refine disassemble_eq_ok_iff.mpr ⟨instructions, ?_, rfl⟩
    rw [Instruction.cut_eq_ok_iff, List.flatMap_def, hmap, List.flatMap_def]
    exact ⟨hfits, rfl⟩

end WellNamed

end OpTable

/-- With the standard table, the byte code of a source text consists of one part for each item of the
text, in the same order. Each part is disassembled to one line, which assembles to the part again;
these are the lines of the whole, and with any blanks between them they assemble to the whole again.
And byte code can be disassembled exactly if it is the byte code of some source text. -/
theorem disassemble_compile :
    (∀ (source : String) (code : Bytes), compile .standard source = .ok code →
      ∃ (symbols : List String) (parts : List Bytes) (lines : List String),
        Source.symbols source = .ok symbols ∧
        (Source.items .standard symbols).flatten = symbols ∧ parts.flatten = code ∧
        List.Forall₂ (fun item part => assemble .standard item = .ok part)
          (Source.items .standard symbols) parts ∧
        List.Forall₂ (fun part line => disassemble .standard part = .ok [line] ∧
          compile .standard line = .ok part) parts lines ∧
        disassemble .standard code = .ok lines ∧
        ∀ gap, Source.IsGap gap → compile .standard (gap.intercalate lines) = .ok code) ∧
    ∀ code : Bytes, (∃ source, compile .standard source = .ok code) ↔
      ∃ lines, disassemble .standard code = .ok lines := by
  have hnamed := OpTable.wellNamed_standard
  constructor
  · intro source code h
    obtain ⟨symbols, parts, lines, hsymbols, hparts, hitems, heach, hlines⟩ :=
      hnamed.exists_lines .standard h
    exact ⟨symbols, parts, lines, hsymbols, Source.flatten_items _ _, hparts, hitems, heach, hlines,
      fun gap hgap => compile_intercalate_of_disassemble OpTable.readsBack_standard hlines hgap⟩
  · intro code
    constructor
    · -- Byte code with lines is assembled from them.
      rintro ⟨source, h⟩
      obtain ⟨-, -, lines, -, -, -, -, hlines⟩ := hnamed.exists_lines .standard h
      exact ⟨lines, hlines⟩
    · rintro ⟨lines, hlines⟩
      exact ⟨_, compile_intercalate_of_disassemble OpTable.readsBack_standard hlines
        Source.isGap_newline⟩

/-- An explicit push with its argument and a number are two items, and have two lines. -/
theorem disassemble_compile_sample :
    compile .standard "OP_PUSHDATA1 xaa 300" = .ok [0x4c, 0x01, 0xaa, 0x02, 0x2c, 0x01] ∧
      disassemble .standard [0x4c, 0x01, 0xaa, 0x02, 0x2c, 0x01] =
        .ok ["OP_PUSHDATA1 xaa", "OP_PUSHBYTES_2 2c01"] ∧
      compile .standard "OP_PUSHDATA1 xaa\nOP_PUSHBYTES_2 2c01" =
        .ok [0x4c, 0x01, 0xaa, 0x02, 0x2c, 0x01] := by
  have hcompile : compile .standard "OP_PUSHDATA1 xaa 300" =
      .ok [0x4c, 0x01, 0xaa, 0x02, 0x2c, 0x01] := by
    have hsymbols : Source.symbols "OP_PUSHDATA1 xaa 300" =
        .ok (Instruction.symbols .standard ⟨0x4c, [0xaa]⟩ ++ [toString 300]) := by
      decide +kernel
    have hpush := spells_instruction (i := ⟨0x4c, [0xaa]⟩) (OpTable.readsBack_standard 0x4c)
      (by decide +kernel)
    have hlimit : 300 < 10 ^ maxLiteralDigits :=
      Nat.lt_of_lt_of_le (show 300 < 10 ^ 3 by decide)
        (Nat.pow_le_pow_right (by decide) (by decide))
    have hnumber := spells_toString hlimit
    rw [compile, bind_of_eq_ok hsymbols, (hpush.append hnumber).assemble_eq]
    decide +kernel
  have hlines : disassemble .standard [0x4c, 0x01, 0xaa, 0x02, 0x2c, 0x01] =
      .ok ["OP_PUSHDATA1 xaa", "OP_PUSHBYTES_2 2c01"] := by
    decide +kernel
  obtain ⟨-, -, lines, -, -, -, -, -, hfound, hagain⟩ := disassemble_compile.1 _ _ hcompile
  obtain rfl := Except.ok.inj (hfound.symm.trans hlines)
  exact ⟨hcompile, hlines, hagain "\n" Source.isGap_newline⟩

end FlowGate

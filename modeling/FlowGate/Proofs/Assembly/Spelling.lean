import FlowGate.Gate.Parts
import FlowGate.Proofs.Machine.Boundary
import FlowGate.Proofs.Text.Numeral

/-!
# Symbols and the byte code they spell

Source text that is put together from symbols, with a blank between them, is read as those symbols
again. So byte code can be followed from lists of symbols, and a list that assembles to byte code
does so inside every longer list.

## Main definitions

* `Source.IsWord` — texts that are read as one symbol
* `Source.Reads` — a text and the symbols that it is read as
* `Source.IsGap` — what may stand between symbols
* `Spells` — symbols that assemble to byte code, whatever follows them
* `OpTable.opcodeOf?` — the opcode that a symbol stands for by itself

## Main results

* `Source.reads_intercalate` — texts with blanks between them are read one after the other
* `Spells.append` — symbols put together spell byte code put together
* `Spells.ofSymbols_eq` — the script of symbols has the byte code that they spell
-/

namespace FlowGate

/-! ### Reading symbols back -/

namespace Text

/-- A text without blanks is a word. -/
theorem words_of_forall {cs : List Char} (hne : cs ≠ []) (h : ∀ c ∈ cs, isBlank c = false) :
    words cs = [cs] := by
  rw [words_eq_filter_splitOnP, List.splitOnP_eq_singleton h]
  simp [hne]

/-- Blanks between two texts separate their words. -/
theorem words_append_blanks {blanks : List Char} (hne : blanks ≠ [])
    (h : ∀ c ∈ blanks, isBlank c = true) (as bs : List Char) :
    words (as ++ (blanks ++ bs)) = words as ++ words bs := by
  induction blanks generalizing as with
  | nil => exact absurd rfl hne
  | cons c blanks ih =>
    have hc := h c List.mem_cons_self
    rw [List.cons_append, words_append_blank hc]
    by_cases hblanks : blanks = []
    · rw [hblanks, List.nil_append]
    · -- The other blanks stand at the start of the second text.
      have hrest := ih hblanks (fun d hd => h d (List.mem_cons_of_mem c hd)) []
      rw [List.nil_append, words_nil, List.nil_append] at hrest
      rw [hrest]

end Text

namespace Source

/-- A text that is read as one symbol: it has characters, and none of them is a blank or the mark of
a comment. -/
def IsWord (symbol : String) : Prop :=
  symbol.toList ≠ [] ∧ ∀ c ∈ symbol.toList, Text.isBlank c = false ∧ c ≠ commentMark

/-- The test whether a text is read as one symbol. -/
def isWord (symbol : String) : Bool :=
  !symbol.toList.isEmpty && symbol.toList.all fun c => !Text.isBlank c && c != commentMark

theorem isWord_eq_true_iff {symbol : String} : isWord symbol = true ↔ IsWord symbol := by
  simp [isWord, IsWord]

instance : DecidablePred IsWord := fun _ => decidable_of_iff _ isWord_eq_true_iff

/-- A text without marks of comments is kept as it is. -/
theorem dropComments_of_forall {cs : List Char} (h : ∀ c ∈ cs, c ≠ commentMark) :
    dropComments cs = cs := by
  -- No comment is ever open, and the characters are kept in reverse.
  have hstate : ∀ kept, cs.foldl commentStep (false, kept) = (false, cs.reverse ++ kept) := by
    induction cs with
    | nil => intro kept; rfl
    | cons c cs ih =>
      intro kept
      have hstep : commentStep (false, kept) c = (false, c :: kept) := by
        simp [commentStep, h c List.mem_cons_self]
      rw [List.foldl_cons, hstep, ih fun d hd => h d (List.mem_cons_of_mem c hd)]
      simp
  simp [dropComments, hstate]

/-- A text without marks of comments closes all its comments. -/
theorem commentsClosed_of_forall {cs : List Char} (h : ∀ c ∈ cs, c ≠ commentMark) :
    commentsClosed cs = true := by
  have hcount : cs.countP (· == commentMark) = 0 := by
    rw [List.countP_eq_zero]
    intro c hc
    simpa using h c hc
  simp [commentsClosed, hcount]

/-- A text that closes its comments has the words for symbols that are left without these. -/
theorem symbols_eq_ok_iff {text : String} {found : List String} :
    symbols text = .ok found ↔ commentsClosed text.toList = true ∧
      (Text.words (dropComments text.toList)).map String.ofList = found := by
  cases hclosed : commentsClosed text.toList <;>
    simp [symbols, hclosed, bind, Except.bind, pure, Except.pure]

/-- A text that is read as the given symbols: it has no marks of comments, and its words are the
symbols. -/
structure Reads (text : String) (symbols : List String) : Prop where
  ne_commentMark : ∀ c ∈ text.toList, c ≠ commentMark
  words_eq : Text.words text.toList = symbols.map String.toList

/-- Blanks that can stand between symbols. -/
structure IsGap (gap : String) : Prop where
  ne_nil : gap.toList ≠ []
  isBlank : ∀ c ∈ gap.toList, Text.isBlank c = true

theorem isGap_space : IsGap " " := ⟨by decide, List.all_eq_true.mp (by decide)⟩

theorem isGap_newline : IsGap "\n" := ⟨by decide, List.all_eq_true.mp (by decide)⟩

variable {text next gap : String} {symbols others : List String}

theorem IsWord.reads (h : IsWord text) : Reads text [text] :=
  ⟨fun c hc => (h.2 c hc).2, Text.words_of_forall h.1 fun c hc => (h.2 c hc).1⟩

theorem reads_empty : Reads "" [] := ⟨by simp, by simp⟩

/-- Texts with blanks between them are read one after the other. -/
theorem Reads.append (h : Reads text symbols) (hgap : IsGap gap) (h' : Reads next others) :
    Reads (text ++ gap ++ next) (symbols ++ others) := by
  constructor
  · intro c hc
    rw [String.toList_append, String.toList_append, List.mem_append, List.mem_append] at hc
    rcases hc with (hc | hc) | hc
    · exact h.ne_commentMark c hc
    · rintro rfl
      exact absurd (hgap.isBlank _ hc) (by decide)
    · exact h'.ne_commentMark c hc
  · rw [String.toList_append, String.toList_append, List.append_assoc,
      Text.words_append_blanks hgap.ne_nil hgap.isBlank, h.words_eq, h'.words_eq, List.map_append]

/-- Texts for the entries of a list with blanks between them are read as the symbols of the entries.
-/
theorem reads_intercalate {α : Type} {xs : List α} {line : α → String}
    {symbolsOf : α → List String} (hgap : IsGap gap) (h : ∀ x ∈ xs, Reads (line x) (symbolsOf x)) :
    Reads (gap.intercalate (xs.map line)) (xs.flatMap symbolsOf) := by
  induction xs with
  | nil => simpa using reads_empty
  | cons x xs ih =>
    have hfirst := h x List.mem_cons_self
    have hrest := ih fun y hy => h y (List.mem_cons_of_mem x hy)
    cases xs with
    | nil => simpa using hfirst
    | cons y ys =>
      rw [List.map_cons, List.map_cons, String.intercalate_cons_cons, List.flatMap_cons]
      exact hfirst.append hgap hrest

theorem Reads.symbols_eq (h : Reads text symbols) : Source.symbols text = .ok symbols := by
  have hid : String.ofList ∘ String.toList = id := funext fun _ => String.ofList_toList
  refine symbols_eq_ok_iff.mpr ⟨commentsClosed_of_forall h.ne_commentMark, ?_⟩
  rw [dropComments_of_forall h.ne_commentMark, h.words_eq, List.map_map, hid, List.map_id]

/-- Symbols with a blank between them are read as those symbols. -/
theorem reads_symbols (h : ∀ symbol ∈ symbols, IsWord symbol) :
    Reads (" ".intercalate symbols) symbols := by
  have hreads : Reads (" ".intercalate (symbols.map id)) (symbols.flatMap fun symbol => [symbol]) :=
    reads_intercalate isGap_space fun symbol hs => (h symbol hs).reads
  simpa using hreads

end Source

/-! ### Hexadecimal symbols -/

/-- The digits of hexadecimal text are neither blanks nor marks of comments, nor the letter that
stands before a literal. -/
theorem Hex.of_mem_encodeChars {bs : Bytes} {c : Char} (h : c ∈ encodeChars bs) :
    Text.isBlank c = false ∧ c ≠ Source.commentMark ∧ c ≠ 'x' ∧ c ≠ 'X' := by
  have hall : ∀ n < 16, Text.isBlank (digit n) = false ∧ digit n ≠ Source.commentMark ∧
      digit n ≠ 'x' ∧ digit n ≠ 'X' := by
    decide
  obtain ⟨n, hn, rfl⟩ := List.mem_map.mp h
  exact hall n (Bytes.lt_of_mem_toNibbles hn)

theorem toList_hex (bs : Bytes) : ("x" ++ Hex.encode bs).toList = 'x' :: Hex.encodeChars bs := by
  simp [Hex.encode]

namespace Source

theorem isWord_encode {bs : Bytes} (h : bs ≠ []) : IsWord (Hex.encode bs) := by
  rw [IsWord, Hex.encode, String.toList_ofList]
  refine ⟨fun hempty => ?_, fun c hc => ?_⟩
  · have hlength := congrArg List.length hempty
    simp only [Hex.encodeChars, List.length_map, Bytes.length_toNibbles, List.length_nil] at hlength
    exact h (List.length_eq_zero_iff.mp (by omega))
  · obtain ⟨hblank, hmark, -⟩ := Hex.of_mem_encodeChars hc
    exact ⟨hblank, hmark⟩

theorem isWord_hex (bs : Bytes) : IsWord ("x" ++ Hex.encode bs) := by
  rw [IsWord, toList_hex, List.forall_mem_cons]
  refine ⟨List.cons_ne_nil _ _, by decide, fun c hc => ?_⟩
  obtain ⟨hblank, hmark, -⟩ := Hex.of_mem_encodeChars hc
  exact ⟨hblank, hmark⟩

theorem afterX?_hex (bs : Bytes) : afterX? ("x" ++ Hex.encode bs) = some (Hex.encodeChars bs) := by
  rw [afterX?, toList_hex]
  rfl

theorem afterX?_encode (bs : Bytes) : afterX? (Hex.encode bs) = none := by
  rw [afterX?, Hex.encode, String.toList_ofList]
  split
  · next hlist =>
    have hmem : 'x' ∈ Hex.encodeChars bs := hlist ▸ List.mem_cons_self
    exact absurd rfl (Hex.of_mem_encodeChars hmem).2.2.1
  · next hlist =>
    have hmem : 'X' ∈ Hex.encodeChars bs := hlist ▸ List.mem_cons_self
    exact absurd rfl (Hex.of_mem_encodeChars hmem).2.2.2
  · rfl

end Source

/-- The data of an argument is what was written, with or without an `x` before it. -/
theorem Item.argument?_hex (bs : Bytes) : argument? ("x" ++ Hex.encode bs) = some bs := by
  rw [argument?, Source.afterX?_hex, Option.getD_some, Hex.decode?_encodeChars]

theorem Item.argument?_encode (bs : Bytes) : argument? (Hex.encode bs) = some bs := by
  rw [argument?, Source.afterX?_encode, Option.getD_none, Hex.decode?_encode]

/-- An explicit push is known by the name of a counted push or the stem of the direct ones. -/
theorem Item.takesArgument_iff {name : String} :
    takesArgument name = true ↔
      (lengthWidth? name).isSome = true ∨ directStem.toList <+: name.toList := by
  rw [takesArgument, Bool.or_eq_true, List.isPrefixOf_iff_prefix]

/-! ### Spelling byte code -/

/-- Symbols that assemble to byte code, whatever follows them. -/
structure Spells (t : OpTable) (symbols : List String) (code : Bytes) : Prop where
  isWord : ∀ symbol ∈ symbols, Source.IsWord symbol
  exists_items : ∃ items : List Item, items.flatMap Item.code = code ∧
    ∀ rest, Item.ofSymbols t (symbols ++ rest) = (Item.ofSymbols t rest).map (items ++ ·)

variable {t : OpTable} {symbols others : List String} {symbol : String} {code more : Bytes}

theorem spells_nil (t : OpTable) : Spells t [] [] := by
  refine ⟨by simp, [], rfl, fun rest => ?_⟩
  cases h : Item.ofSymbols t rest <;> simp [h, Except.map]

/-- Symbols put together spell byte code put together. -/
theorem Spells.append (h : Spells t symbols code) (h' : Spells t others more) :
    Spells t (symbols ++ others) (code ++ more) := by
  obtain ⟨items, rfl, hitems⟩ := h.exists_items
  obtain ⟨items', rfl, hitems'⟩ := h'.exists_items
  refine ⟨?_, items ++ items', List.flatMap_append, fun rest => ?_⟩
  · intro s hs
    rcases List.mem_append.mp hs with hs | hs
    · exact h.isWord s hs
    · exact h'.isWord s hs
  · rw [List.append_assoc, hitems, hitems']
    cases Item.ofSymbols t rest <;> simp [Except.map]

/-- Symbols given for the entries of a list spell the byte codes of the entries in order. -/
theorem spells_flatMap {α : Type} {xs : List α} {symbols : α → List String} {code : α → Bytes}
    (h : ∀ x ∈ xs, Spells t (symbols x) (code x)) :
    Spells t (xs.flatMap symbols) (xs.flatMap code) := by
  induction xs with
  | nil => exact spells_nil t
  | cons x xs ih =>
    rw [List.flatMap_cons, List.flatMap_cons]
    exact (h x List.mem_cons_self).append (ih fun y hy => h y (List.mem_cons_of_mem x hy))

/-- A symbol written several times spells its byte code as often. -/
theorem Spells.replicate (h : Spells t [symbol] code) (n : Nat) :
    Spells t (List.replicate n symbol) (List.replicate n code).flatten := by
  induction n with
  | zero => exact spells_nil t
  | succ n ih =>
    rw [List.replicate_succ, List.replicate_succ, List.flatten_cons, ← List.singleton_append]
    exact h.append ih

theorem Spells.assemble_eq (h : Spells t symbols code) : assemble t symbols = .ok code := by
  obtain ⟨items, rfl, hitems⟩ := h.exists_items
  have hall := hitems []
  rw [List.append_nil] at hall
  simp [assemble, hall, Item.ofSymbols, Except.map, bind, Except.bind, pure, Except.pure]

/-- The script of symbols has the byte code that they spell. -/
theorem Spells.ofSymbols_eq (h : Spells t symbols code) :
    Gate.ofSymbols t symbols = .ok ⟨" ".intercalate symbols, code⟩ := by
  simp [Gate.ofSymbols, Script.ofSource, compile, (Source.reads_symbols h.isWord).symbols_eq,
    h.assemble_eq, bind, Except.bind, pure, Except.pure]

/-! ### Single symbols -/

namespace OpTable

/-- The opcode that a symbol stands for by itself, as an opcode without argument. -/
def opcodeOf? (t : OpTable) (symbol : String) : Option Nat :=
  (t.resolve? symbol).bind fun name => if Item.takesArgument name then none else t.codeOf? name

/-- A text in upper case. -/
def capital (text : String) : String := String.ofList (Text.upper text.toList)

theorem capital_toString (n : Nat) : capital (toString n) = toString n := by
  rw [capital, Text.upper_of_forall_isDigit fun c => isDigit_of_mem_toString, String.ofList_toList]

theorem head?_capital (h : symbol.toList.head? = some 'O') :
    (capital symbol).toList.head? = some 'O' := by
  rw [capital, String.toList_ofList]
  cases hsymbol : symbol.toList with
  | nil => simp [hsymbol] at h
  | cons c cs =>
    obtain rfl : c = 'O' := by simpa [hsymbol] using h
    rfl

/-- The name that a symbol stands for if it stands for any: what the symbol is an alias of, and else
the symbol itself in upper case. -/
def target (t : OpTable) (symbol : String) : String :=
  (t.aliases.lookup (capital symbol)).getD (capital symbol)

/-- A symbol stands for a name that has an opcode. -/
theorem resolve?_eq_some_iff {name : String} :
    t.resolve? symbol = some name ↔
      t.target symbol = name ∧ ∃ code, t.codeOf? name = some code := by
  rw [← Option.isSome_iff_exists]
  change (if (t.codeOf? (t.target symbol)).isSome then some (t.target symbol) else none) = _ ↔ _
  constructor
  · intro h
    obtain ⟨hcode, hname⟩ := Option.ite_none_right_eq_some.mp h
    rw [Option.some.injEq] at hname
    exact ⟨hname, hname ▸ hcode⟩
  · rintro ⟨rfl, hcode⟩
    exact if_pos hcode

/-- A symbol stands for the opcode of the name that it leads to. -/
theorem opcodeOf?_eq_some {name : String} {code : Nat} (htarget : t.target symbol = name)
    (hcode : t.codeOf? name = some code) (htakes : ¬ Item.takesArgument name = true) :
    t.opcodeOf? symbol = some code := by
  rw [opcodeOf?, resolve?_eq_some_iff.mpr ⟨htarget, code, hcode⟩, Option.bind_some, if_neg htakes,
    hcode]

end OpTable

/-- A symbol that stands for an opcode spells the opcode. -/
theorem spells_opcode {n : Nat} (hword : Source.IsWord symbol) (h : t.opcodeOf? symbol = some n) :
    Spells t [symbol] [UInt8.ofNat n] := by
  obtain ⟨name, hresolve, hcode⟩ := Option.bind_eq_some_iff.mp h
  simp only [Option.ite_none_left_eq_some, Bool.not_eq_true] at hcode
  refine ⟨by simpa using hword, [.opcode n], rfl, fun rest => ?_⟩
  simp only [List.singleton_append, Item.ofSymbols, hresolve, hcode, Option.getD_some]
  cases Item.ofSymbols t rest <;> rfl

/-- A text of one symbol that stands for an opcode assembles to the opcode. -/
theorem compile_of_opcodeOf? {n : Nat} (hword : Source.IsWord symbol)
    (h : t.opcodeOf? symbol = some n) : compile t symbol = .ok [UInt8.ofNat n] := by
  rw [compile, bind_of_eq_ok hword.reads.symbols_eq, (spells_opcode hword h).assemble_eq]

/-- The name of an explicit push spells the push with its argument. -/
theorem spells_push {name argument : String} {item : Item} (hword : Source.IsWord symbol)
    (hargument : Source.IsWord argument) (hresolve : t.resolve? symbol = some name)
    (htakes : Item.takesArgument name = true) (h : Item.ofPush t name argument = .ok item) :
    Spells t [symbol, argument] item.code := by
  refine ⟨by simp [hword, hargument], [item], by simp, fun rest => ?_⟩
  simp only [List.cons_append, List.nil_append, Item.ofSymbols, hresolve, htakes, if_true, h]
  cases Item.ofSymbols t rest <;> rfl

/-- No literal begins with an O in upper case. -/
theorem Item.ofLiteral_eq_error (h : (OpTable.capital symbol).toList.head? = some 'O') :
    ofLiteral symbol = .error (.assembly (.unrecognized symbol)) := by
  rw [OpTable.capital, String.toList_ofList] at h
  obtain ⟨c, cs, hsymbol⟩ : ∃ c cs, symbol.toList = c :: cs := by
    apply List.exists_cons_of_ne_nil
    intro hempty
    rw [hempty] at h
    cases h
  -- What literals begin with has another upper-case form.
  have hform : ∀ d, Text.upperChar c = [d] → d = 'O' := by
    intro d hd
    change (symbol.toList.flatMap Text.upperChar).head? = _ at h
    rw [hsymbol, List.flatMap_cons, hd] at h
    exact Option.some.inj h
  have hminus : c ≠ '-' := fun hc => absurd (hform '-' (by rw [hc]; rfl)) (by decide)
  have hx : c ≠ 'x' := fun hc => absurd (hform 'X' (by rw [hc]; rfl)) (by decide)
  have hX : c ≠ 'X' := fun hc => absurd (hform 'X' (by rw [hc]; rfl)) (by decide)
  have hdigit : ¬ c.isDigit = true := by
    intro hc
    have hsame := forall_digit (P := fun c => Text.upperChar c = [c]) (by decide) hc
    rw [hform c hsame] at hc
    exact absurd hc (by decide)
  have hdecimal : Source.isDecimal symbol = false := by
    simp [Source.isDecimal, Source.decimalDigits, hsymbol, hminus, hdigit]
  have hafter : Source.afterX? symbol = none := by
    simp [Source.afterX?, hsymbol, hx, hX]
  rw [ofLiteral, hdecimal, hafter]
  rfl

/-- A symbol that is no name spells what its literal does. -/
theorem spells_literal {item : Item} (hword : Source.IsWord symbol)
    (hresolve : t.resolve? symbol = none) (h : Item.ofLiteral symbol = .ok item) :
    Spells t [symbol] item.code := by
  refine ⟨by simpa using hword, [item], by simp, fun rest => ?_⟩
  simp only [List.singleton_append, Item.ofSymbols, hresolve, h]
  cases Item.ofSymbols t rest <;> rfl

end FlowGate

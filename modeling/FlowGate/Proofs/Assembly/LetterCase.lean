import FlowGate.Checked.Script
import FlowGate.Proofs.Assembly.DecimalLiteral
import FlowGate.Proofs.Assembly.Literal

/-!
# Letter case in source text

The case of ASCII letters does not matter in source text. Every rule by which a symbol is read gives
the same for a text and for its lower-case form: names are looked up in upper case, hexadecimal
digits and their `x` are read in either case, a decimal literal has no letters, and blanks and marks
of comments are no letters. So assembling a text in lower case gives the same byte code, or the same
error but for the case of the symbol that it shows.

## Main definitions

* `Error.lower` — an error with the symbol that it shows in lower case

## Main results

* `Source.symbols_toLower` — the symbols of a text in lower case
* `Item.ofSymbols_toLower` — their items
* `compile_toLower` — the byte code
* `Checked.compile_congr_toLower` — texts that differ in case only give the same byte code or the
  same error
-/

namespace FlowGate

/-! ### Characters -/

namespace Text

theorem toLower_of_le {c : Char} (h : 128 ≤ c.toNat) : c.toLower = c := by
  refine dif_neg fun hupper => ?_
  have hle : c.toNat ≤ 'Z'.toNat := hupper.2
  exact absurd (Nat.le_trans h hle) (by decide)

/-- A function of characters that is blind to the case of ASCII letters is blind to case at all:
other letters do not change in lower case. -/
theorem apply_toLower {α : Type} {f : Char → α}
    (h : ∀ n < 128, f (Char.ofNat n).toLower = f (Char.ofNat n)) (c : Char) :
    f c.toLower = f c := by
  by_cases hc : c.toNat < 128
  · exact forall_ascii (P := fun c => f c.toLower = f c) h hc
  · rw [toLower_of_le (by omega)]

theorem iff_toLower {P : Char → Prop} [DecidablePred P]
    (h : ∀ n < 128, P (Char.ofNat n).toLower ↔ P (Char.ofNat n)) {c : Char} :
    P c.toLower ↔ P c :=
  decide_eq_decide.mp (apply_toLower (f := fun c => decide (P c))
    (fun n hn => decide_eq_decide.mpr (h n hn)) c)

@[simp] theorem upperChar_toLower (c : Char) : upperChar c.toLower = upperChar c :=
  apply_toLower (by decide) c

@[simp] theorem isBlank_toLower (c : Char) : isBlank c.toLower = isBlank c :=
  apply_toLower (by decide) c

@[simp] theorem upper_map_toLower (cs : List Char) : upper (cs.map Char.toLower) = upper cs := by
  simp only [upper, List.flatMap_map, upperChar_toLower]

theorem flush_map_toLower (word : List Char) (rest : List (List Char)) :
    flush (word.map Char.toLower) (rest.map (List.map Char.toLower)) =
      (flush word rest).map (List.map Char.toLower) := by
  rw [flush, flush, List.isEmpty_map]
  split <;> rfl

/-- The words of a text in lower case are its words in lower case. -/
theorem words_map_toLower (cs : List Char) :
    words (cs.map Char.toLower) = (words cs).map (List.map Char.toLower) := by
  have hstate : (cs.map Char.toLower).foldr wordStep ([], []) =
      ((cs.foldr wordStep ([], [])).1.map Char.toLower,
        (cs.foldr wordStep ([], [])).2.map (List.map Char.toLower)) := by
    induction cs with
    | nil => rfl
    | cons c cs ih =>
      rw [List.map_cons, List.foldr_cons, ih, List.foldr_cons, wordStep, wordStep, isBlank_toLower]
      split
      · rw [flush_map_toLower]
        rfl
      · rfl
  rw [words, hstate, flush_map_toLower]
  rfl

end Text

namespace Hex

@[simp] theorem value?_toLower (c : Char) : value? c.toLower = value? c :=
  Text.apply_toLower (by decide) c

@[simp] theorem decode?_map_toLower (cs : List Char) :
    decode? (cs.map Char.toLower) = decode? cs := by
  rw [decode?, decode?]
  congr 1
  induction cs with
  | nil => rfl
  | cons c cs ih => simp only [List.map_cons, List.mapM_cons, value?_toLower, ih]

end Hex

/-! ### Symbols -/

namespace Source

theorem toLower_eq_commentMark_iff {c : Char} : c.toLower = commentMark ↔ c = commentMark :=
  Text.iff_toLower (P := (· = commentMark)) (by decide)

theorem commentsClosed_map_toLower (cs : List Char) :
    commentsClosed (cs.map Char.toLower) = commentsClosed cs := by
  have hmark : ((· == commentMark) ∘ Char.toLower) = (· == commentMark) := by
    funext c
    exact Bool.eq_iff_iff.mpr (by simp only [Function.comp_apply, beq_iff_eq,
      toLower_eq_commentMark_iff])
  rw [commentsClosed, List.countP_map, hmark]
  rfl

/-- Comments are dropped from a text in lower case as they are from the text. -/
theorem dropComments_map_toLower (cs : List Char) :
    dropComments (cs.map Char.toLower) = (dropComments cs).map Char.toLower := by
  -- The mark of a comment has no case, so comments open and close at the same places.
  have hstate : ∀ (opened : Bool) (kept : List Char),
      (cs.map Char.toLower).foldl commentStep (opened, kept.map Char.toLower) =
        Prod.map id (List.map Char.toLower) (cs.foldl commentStep (opened, kept)) := by
    induction cs with
    | nil => exact fun _ _ => rfl
    | cons c cs ih =>
      intro opened kept
      have hstep : commentStep (opened, kept.map Char.toLower) c.toLower =
          Prod.map id (List.map Char.toLower) (commentStep (opened, kept) c) := by
        simp only [commentStep, toLower_eq_commentMark_iff]
        split
        · cases opened <;> rfl
        · cases opened <;> rfl
      rw [List.map_cons, List.foldl_cons, hstep, List.foldl_cons]
      exact ih _ _
  have hfinal := congrArg (fun state => state.2.reverse) (hstate false [])
  exact hfinal.trans List.map_reverse.symm

theorem toList_toLower (text : String) : text.toLower.toList = text.toList.map Char.toLower :=
  String.toList_map

theorem ofList_map_toLower (cs : List Char) :
    String.ofList (cs.map Char.toLower) = (String.ofList cs).toLower :=
  String.ext (by rw [toList_toLower, String.toList_ofList, String.toList_ofList])

/-- The symbols of a text in lower case are its symbols in lower case. -/
theorem symbols_toLower (text : String) :
    symbols text.toLower = (symbols text).map (List.map String.toLower) := by
  have hstrings : ∀ ws : List (List Char), (ws.map (List.map Char.toLower)).map String.ofList =
      (ws.map String.ofList).map String.toLower := by
    intro ws
    rw [List.map_map, List.map_map]
    exact List.map_congr_left fun w _ => ofList_map_toLower w
  rw [symbols, symbols, toList_toLower, commentsClosed_map_toLower, dropComments_map_toLower,
    Text.words_map_toLower, hstrings]
  cases commentsClosed text.toList <;> rfl

/-! ### Literals -/

theorem toLower_eq_x_iff {c : Char} : c.toLower = 'x' ∨ c.toLower = 'X' ↔ c = 'x' ∨ c = 'X' :=
  Text.iff_toLower (P := fun c => c = 'x' ∨ c = 'X') (by decide)

/-- What stands behind an `x` of either case. -/
theorem afterX?_eq_some_iff {symbol : String} {cs : List Char} :
    afterX? symbol = some cs ↔ ∃ c, (c = 'x' ∨ c = 'X') ∧ symbol.toList = c :: cs := by
  unfold afterX?
  split <;> simp_all

theorem afterX?_toLower (symbol : String) :
    afterX? symbol.toLower = (afterX? symbol).map (List.map Char.toLower) := by
  ext cs
  simp only [afterX?_eq_some_iff, Option.map_eq_some_iff, toList_toLower]
  constructor
  · rintro ⟨c, hc, hsymbol⟩
    obtain ⟨d, ds, hd, rfl, rfl⟩ := List.map_eq_cons_iff.mp hsymbol
    exact ⟨ds, ⟨d, toLower_eq_x_iff.mp hc, hd⟩, rfl⟩
  · rintro ⟨ds, ⟨d, hd, hsymbol⟩, rfl⟩
    exact ⟨d.toLower, toLower_eq_x_iff.mpr hd, by rw [hsymbol, List.map_cons]⟩

/-- The characters of decimal literals. -/
def IsNumeric (c : Char) : Prop := c = '-' ∨ c.isDigit = true

instance : DecidablePred IsNumeric := fun _ => inferInstanceAs (Decidable (_ ∨ _))

theorem isNumeric_of_isDecimal {symbol : String} (h : isDecimal symbol = true) :
    ∀ c ∈ symbol.toList, IsNumeric c :=
  let ⟨_, _, hliteral⟩ := isDecimal_iff.mp h
  hliteral.eq_minus_or_isDigit

theorem isNumeric_toLower_iff {c : Char} : IsNumeric c.toLower ↔ IsNumeric c :=
  Text.iff_toLower (by decide)

theorem IsNumeric.toLower_eq {c : Char} (h : IsNumeric c) : c.toLower = c := by
  by_cases hc : c.toNat < 128
  · exact Text.forall_ascii (P := fun c => IsNumeric c → c.toLower = c) (by decide) hc h
  · exact Text.toLower_of_le (by omega)

theorem toLower_eq_self {symbol : String} (h : ∀ c ∈ symbol.toList, IsNumeric c) :
    symbol.toLower = symbol := by
  refine String.ext ?_
  rw [toList_toLower, List.map_congr_left fun c hc => (h c hc).toLower_eq, List.map_id']

/-- Decimal literals have no letters, and no other text becomes one in lower case. -/
theorem isDecimal_toLower (symbol : String) : isDecimal symbol.toLower = isDecimal symbol := by
  by_cases hnumeric : ∀ c ∈ symbol.toList, IsNumeric c
  · rw [toLower_eq_self hnumeric]
  · have hno : ¬ isDecimal symbol = true := fun h => hnumeric (isNumeric_of_isDecimal h)
    have hno' : ¬ isDecimal symbol.toLower = true := by
      intro h
      refine hnumeric fun c hc => isNumeric_toLower_iff.mp (isNumeric_of_isDecimal h _ ?_)
      rw [toList_toLower]
      exact List.mem_map_of_mem hc
    rw [Bool.eq_false_iff.mpr hno, Bool.eq_false_iff.mpr hno']

end Source

/-! ### Errors -/

/-- An error with the symbol that it shows in lower case. No other error shows the text of a symbol:
the names in errors are those of the table. -/
def Error.lower : Error → Error
  | .assembly (.unrecognized symbol) => .assembly (.unrecognized symbol.toLower)
  | fault => fault

theorem mapError_bind {α β : Type} (g : Error → Error) (x : Except Error α)
    (f : α → Except Error β) :
    (x >>= f).mapError g = x.mapError g >>= fun a => (f a).mapError g := by
  cases x <;> rfl

theorem mapError_ensure {condition : Bool} {error : Error} (h : error.lower = error) :
    (ensure condition error).mapError Error.lower = ensure condition error := by
  cases condition
  · exact congrArg Except.error h
  · rfl

/-! ### Items -/

namespace OpTable

/-- Names are looked up in upper case. -/
@[simp] theorem resolve?_toLower (t : OpTable) (symbol : String) :
    t.resolve? symbol.toLower = t.resolve? symbol := by
  rw [resolve?, Source.toList_toLower, Text.upper_map_toLower]
  rfl

end OpTable

namespace Item

variable (t : OpTable)

theorem argument?_toLower (argument : String) :
    argument? argument.toLower = argument? argument := by
  rw [argument?, argument?, Source.afterX?_toLower, Source.toList_toLower]
  cases Source.afterX? argument with
  | none => exact Hex.decode?_map_toLower _
  | some digits => exact Hex.decode?_map_toLower _

theorem ofPush_toLower (name argument : String) :
    ofPush t name argument.toLower = ofPush t name argument := by
  rw [ofPush, ofPush, argument?_toLower]

/-- An explicit push fails with the name of its opcode. -/
theorem mapError_ofPush (name argument : String) :
    (ofPush t name argument).mapError Error.lower = ofPush t name argument := by
  unfold ofPush
  cases argument? argument with
  | none => rfl
  | some data =>
    cases lengthWidth? name with
    | none =>
      dsimp only
      split <;> rfl
    | some width =>
      dsimp only
      split <;> rfl

/-- A symbol that is no name stands for the same number or byte string in lower case, or for
nothing. -/
theorem ofLiteral_toLower (symbol : String) :
    ofLiteral symbol.toLower = (ofLiteral symbol).mapError Error.lower := by
  rw [ofLiteral, ofLiteral, Source.isDecimal_toLower, Source.afterX?_toLower]
  by_cases hdecimal : Source.isDecimal symbol = true
  · rw [if_pos hdecimal, if_pos hdecimal,
      Source.toLower_eq_self (Source.isNumeric_of_isDecimal hdecimal), mapError_bind,
      Source.readDecimal, mapError_bind, mapError_ensure rfl]
    rfl
  · have hdecode : ((Source.afterX? symbol).map (List.map Char.toLower)).bind Hex.decode? =
        (Source.afterX? symbol).bind Hex.decode? := by
      cases Source.afterX? symbol with
      | none => rfl
      | some digits => exact Hex.decode?_map_toLower digits
    rw [if_neg hdecimal, if_neg hdecimal, hdecode]
    split
    · rw [mapError_bind, mapError_ensure rfl]
      rfl
    · rfl

/-- The items of symbols in lower case are the items of the symbols. -/
theorem ofSymbols_toLower (symbols : List String) :
    ofSymbols t (symbols.map String.toLower) = (ofSymbols t symbols).mapError Error.lower := by
  -- A symbol is looked up in upper case, so its own case shows in messages only.
  fun_induction ofSymbols t symbols with
  | case1 => rfl
  | case2 symbol name hresolve htakes =>
    simp only [List.map_cons, List.map_nil, ofSymbols, OpTable.resolve?_toLower, hresolve, htakes,
      if_true]
    rfl
  | case3 symbol name hresolve htakes argument rest ih =>
    simp only [List.map_cons, ofSymbols, OpTable.resolve?_toLower, hresolve, htakes, if_true,
      ofPush_toLower, ih, mapError_bind, mapError_ofPush]
    rfl
  | case4 symbol rest name hresolve htakes ih =>
    simp only [List.map_cons, ofSymbols, OpTable.resolve?_toLower, hresolve, htakes, ih,
      mapError_bind]
    rfl
  | case5 symbol rest hresolve ih =>
    simp only [List.map_cons, ofSymbols, OpTable.resolve?_toLower, hresolve, ofLiteral_toLower, ih,
      mapError_bind]
    rfl

end Item

/-! ### Texts -/

/-- A text in lower case has the byte code of the text, or fails with its error, which shows a
symbol in lower case. -/
theorem compile_toLower (t : OpTable) (source : String) :
    compile t source.toLower = (compile t source).mapError Error.lower := by
  have hassemble : ∀ symbols : List String,
      assemble t (symbols.map String.toLower) = (assemble t symbols).mapError Error.lower := by
    intro symbols
    rw [assemble, assemble, Item.ofSymbols_toLower, mapError_bind]
    rfl
  have hsymbols : (Source.symbols source).mapError Error.lower = Source.symbols source := by
    rw [Source.symbols, mapError_bind, mapError_ensure rfl]
    rfl
  rw [compile, compile, Source.symbols_toLower, mapError_bind, hsymbols]
  cases Source.symbols source with
  | error fault => rfl
  | ok symbols => exact hassemble symbols

/-- Two errors that are the same in lower case are the same, or both show a symbol. -/
theorem Error.eq_or_of_lower_eq {fault fault' : Error} (h : fault.lower = fault'.lower) :
    fault = fault' ∨ ∃ symbol symbol', symbol.toLower = symbol'.toLower ∧
      fault = .assembly (.unrecognized symbol) ∧ fault' = .assembly (.unrecognized symbol') := by
  unfold lower at h
  split at h <;> split at h
  · next symbol _ symbol' =>
    have hsymbols := AssemblyFault.unrecognized.inj (Error.assembly.inj h)
    exact .inr ⟨symbol, symbol', hsymbols, rfl, rfl⟩
  · next hother => exact absurd h.symm (hother _)
  · next hother _ _ => exact absurd h (hother _)
  · exact .inl h

/-- Texts that differ in the case of ASCII letters only have the same byte code or the same error,
whatever the table is. Only an unrecognized symbol is shown as it is written. -/
theorem Checked.compile_congr_toLower (t : OpTable) {a b : String} (h : a.toLower = b.toLower) :
    Checked.compile t (.text a) = Checked.compile t (.text b) ∨
      ∃ symbol symbol', symbol.toLower = symbol'.toLower ∧
        Checked.compile t (.text a) = .error (.assembly (.unrecognized symbol)) ∧
        Checked.compile t (.text b) = .error (.assembly (.unrecognized symbol')) := by
  simp only [compile_text]
  have hlower := compile_toLower t a
  rw [h, compile_toLower] at hlower
  -- Errors agree in lower case, which hides only the spelling of a symbol.
  cases ha : FlowGate.compile t a with
  | ok code =>
    cases hb : FlowGate.compile t b with
    | ok code' =>
      rw [ha, hb] at hlower
      exact .inl (congrArg Except.ok (Except.ok.inj hlower).symm)
    | error fault' =>
      rw [ha, hb] at hlower
      cases hlower
  | error fault =>
    cases hb : FlowGate.compile t b with
    | ok code' =>
      rw [ha, hb] at hlower
      cases hlower
    | error fault' =>
      rw [ha, hb] at hlower
      rcases Error.eq_or_of_lower_eq (Except.error.inj hlower).symm with rfl | hsymbols
      · exact .inl rfl
      · obtain ⟨symbol, symbol', hsame, rfl, rfl⟩ := hsymbols
        exact .inr ⟨symbol, symbol', hsame, rfl, rfl⟩

/-- An alias, a literal and a comment in either case. -/
theorem Checked.compile_congr_toLower_sample :
    "op_True X0A # a #".toLower = "OP_TRUE x0a # A #".toLower ∧
      Checked.compile .standard (.text "op_True X0A # a #") =
        .ok ([0x51] ++ Push.data [0x0a]) := by
  have hlower : "op_True X0A # a #".toLower = "OP_TRUE x0a # A #".toLower := by
    refine String.ext ?_
    rw [Source.toList_toLower, Source.toList_toLower]
    decide +kernel
  have hcompile : Checked.compile .standard (.text "OP_TRUE x0a # A #") =
      .ok ([0x51] ++ Push.data [0x0a]) := by
    have hsymbols : Source.symbols "OP_TRUE x0a # A #" =
        .ok (["OP_TRUE"] ++ ["x" ++ Hex.encode [0x0a]]) := by
      decide +kernel
    have hspells := spells_true.append
      (spells_hex (show ([0x0a] : Bytes).length ≤ Push.maxLength by decide))
    rw [compile_text, FlowGate.compile, bind_of_eq_ok hsymbols, hspells.assemble_eq]
  refine ⟨hlower, ?_⟩
  rcases Checked.compile_congr_toLower .standard hlower with hsame | ⟨_, _, -, -, herror⟩
  · exact hsame.trans hcompile
  · rw [hcompile] at herror
    cases herror

end FlowGate

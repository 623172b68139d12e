import FlowGate.Proofs.Assembly.Reading

/-!
# Source texts put together

Source texts with blanks between them assemble to the byte codes of the texts put together. The
texts may contain comments, as long as each closes its own; and no push of the one text takes its
argument from the other, since a push without argument is no source text at all.

So a script whose text assembles to its byte code is still one after others of that kind are put
behind it, although the texts and the byte codes are put together separately.

## Main definitions

* `Script.IsFaithful` — the text of a script assembles to its byte code

## Main results

* `Source.symbols_append` — the symbols of two texts
* `Item.ofSymbols_append` — the items of two lists of symbols
* `compile_append` — two texts with blanks between them
* `Script.IsFaithful.append`, `Script.isFaithful_concat` — scripts put together
* `Script.append_assoc` — it does not matter which are put together first
-/

namespace FlowGate

variable {t : OpTable}

/-! ### Texts -/

namespace Source

/-- Blanks contain no marks of comments. -/
theorem IsGap.ne_commentMark {gap : String} (h : IsGap gap) : ∀ c ∈ gap.toList, c ≠ commentMark := by
  rintro c hc rfl
  exact absurd (h.isBlank _ hc) (by decide)

theorem commentsClosed_append {as bs : List Char} (ha : commentsClosed as = true)
    (hb : commentsClosed bs = true) : commentsClosed (as ++ bs) = true := by
  simp only [commentsClosed, beq_iff_eq, List.countP_append] at ha hb ⊢
  omega

/-- Two texts with blanks between them are read one after the other. -/
theorem symbols_append {a b gap : String} {xs ys : List String} (hgap : IsGap gap)
    (ha : symbols a = .ok xs) (hb : symbols b = .ok ys) :
    symbols (a ++ gap ++ b) = .ok (xs ++ ys) := by
  obtain ⟨haclosed, rfl⟩ := symbols_eq_ok_iff.mp ha
  obtain ⟨hbclosed, rfl⟩ := symbols_eq_ok_iff.mp hb
  have hgapclosed := commentsClosed_of_forall hgap.ne_commentMark
  rw [symbols_eq_ok_iff, String.toList_append, String.toList_append, List.append_assoc]
  refine ⟨commentsClosed_append haclosed (commentsClosed_append hgapclosed hbclosed), ?_⟩
  rw [dropComments_append haclosed, dropComments_append hgapclosed,
    dropComments_of_forall hgap.ne_commentMark,
    Text.words_append_blanks hgap.ne_nil hgap.isBlank, List.map_append]

end Source

/-! ### Symbols -/

/-- Symbols behind a list that has items add their own items. -/
theorem Item.ofSymbols_append {xs : List String} {items : List Item}
    (h : ofSymbols t xs = .ok items) (rest : List String) :
    ofSymbols t (xs ++ rest) = (ofSymbols t rest).map (items ++ ·) := by
  -- The induction takes a symbol, with its argument if it has one, off the front.
  fun_induction ofSymbols t xs generalizing items with
  | case1 =>
    obtain rfl := Except.ok.inj h
    cases hrest : ofSymbols t rest <;> simp [hrest, Except.map]
  | case2 => cases h
  | case3 symbol name hresolve htakes argument xs ih =>
    obtain ⟨item, hitem, h⟩ := bind_ok_iff.mp h
    obtain ⟨others, hothers, h⟩ := bind_ok_iff.mp h
    obtain rfl := Except.ok.inj h
    simp only [List.cons_append, ofSymbols, hresolve, htakes, if_true, bind_of_eq_ok hitem,
      ih hothers]
    cases ofSymbols t rest <;> rfl
  | case4 symbol xs name hresolve htakes ih =>
    obtain ⟨others, hothers, h⟩ := bind_ok_iff.mp h
    obtain rfl := Except.ok.inj h
    simp only [List.cons_append, ofSymbols, hresolve, htakes, ih hothers]
    cases ofSymbols t rest <;> rfl
  | case5 symbol xs hresolve ih =>
    obtain ⟨item, hitem, h⟩ := bind_ok_iff.mp h
    obtain ⟨others, hothers, h⟩ := bind_ok_iff.mp h
    obtain rfl := Except.ok.inj h
    simp only [List.cons_append, ofSymbols, hresolve, bind_of_eq_ok hitem, ih hothers]
    cases ofSymbols t rest <;> rfl

theorem assemble_append {xs ys : List String} {x y : Bytes} (hx : assemble t xs = .ok x)
    (hy : assemble t ys = .ok y) : assemble t (xs ++ ys) = .ok (x ++ y) := by
  obtain ⟨items, hitems, hcode⟩ := bind_ok_iff.mp hx
  obtain rfl := Except.ok.inj hcode
  obtain ⟨others, hothers, hcode⟩ := bind_ok_iff.mp hy
  obtain rfl := Except.ok.inj hcode
  rw [assemble, Item.ofSymbols_append hitems, hothers, ← List.flatMap_append]
  rfl

/-- Two source texts with blanks between them assemble to their byte codes put together. -/
theorem compile_append {a b gap : String} {x y : Bytes} (hgap : Source.IsGap gap)
    (ha : compile t a = .ok x) (hb : compile t b = .ok y) :
    compile t (a ++ gap ++ b) = .ok (x ++ y) := by
  obtain ⟨xs, hxs, hx⟩ := bind_ok_iff.mp ha
  obtain ⟨ys, hys, hy⟩ := bind_ok_iff.mp hb
  rw [compile, bind_of_eq_ok (Source.symbols_append hgap hxs hys), assemble_append hx hy]

/-! ### Scripts -/

namespace Script

variable {a b : Script}

/-- The text of a script assembles to its byte code. -/
def IsFaithful (t : OpTable) (s : Script) : Prop := compile t s.source = .ok s.code

theorem isFaithful_of_ofSource {source : String} {s : Script} (h : ofSource t source = .ok s) :
    s.IsFaithful t := by
  obtain ⟨code, hcode, h⟩ := bind_ok_iff.mp h
  obtain rfl := Except.ok.inj h
  exact hcode

/-- Where names are read back, the script of byte code has a text that assembles to it. -/
theorem isFaithful_of_ofCode (ht : ∀ lead, t.ReadsBack lead) {code : Bytes} {s : Script}
    (h : ofCode t code = .ok s) : s.IsFaithful t := by
  obtain ⟨lines, hlines, h⟩ := bind_ok_iff.mp h
  obtain rfl := Except.ok.inj h
  refine compile_intercalate_of_disassemble ht ?_ Source.isGap_newline
  cases hresult : disassemble t code with
  | error fault =>
    rw [hresult] at hlines
    cases hlines
  | ok found =>
    rw [hresult] at hlines
    exact congrArg _ (Except.ok.inj hlines)

theorem isFaithful_empty (t : OpTable) : empty.IsFaithful t := rfl

/-- A script without byte code is left out with its text, which assembles to nothing. The other texts
are joined by a line break. -/
theorem IsFaithful.append (ha : a.IsFaithful t) (hb : b.IsFaithful t) : (a ++ b).IsFaithful t := by
  change (Script.append a b).IsFaithful t
  unfold Script.append
  split
  · exact hb
  · split
    · exact ha
    · exact compile_append Source.isGap_newline ha hb

theorem isFaithful_concat {scripts : List Script} (h : ∀ s ∈ scripts, s.IsFaithful t) :
    (concat scripts).IsFaithful t := by
  -- The scripts are put behind those that were put together before.
  have hfold : ∀ first : Script, first.IsFaithful t →
      (scripts.foldl (· ++ ·) first).IsFaithful t := by
    induction scripts with
    | nil => exact fun first hfirst => hfirst
    | cons s scripts ih =>
      rw [List.forall_mem_cons] at h
      exact fun first hfirst => ih h.2 (first ++ s) (hfirst.append h.1)
  exact hfold empty (isFaithful_empty t)

/-- Of three scripts it does not matter which two are put together first, neither for the text nor
for the byte code. -/
theorem append_assoc (a b c : Script) : a ++ b ++ c = a ++ (b ++ c) := by
  have happend : ∀ x y : Script, x ++ y = if x.code.isEmpty then y
      else if y.code.isEmpty then x else ⟨x.source ++ "\n" ++ y.source, x.code ++ y.code⟩ :=
    fun _ _ => rfl
  -- A script without byte code vanishes wherever it stands.
  by_cases ha : a.code = []
  · simp [happend, ha]
  by_cases hb : b.code = []
  · simp [happend, ha, hb]
  by_cases hc : c.code = []
  · simp [happend, ha, hb, hc]
  · simp [happend, ha, hb, hc, String.append_assoc]

end Script

end FlowGate

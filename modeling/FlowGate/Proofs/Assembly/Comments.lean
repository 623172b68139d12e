import FlowGate.Proofs.Assembly.Joining
import FlowGate.Proofs.Assembly.Lossless

/-!
# Comments in source text

Whether a mark opens or closes a comment can be told in three ways that agree on every text that
closes its comments: by keeping track of whether one is open, by looking for the next comment from
the left, and by counting the marks. So the symbols of a text are the words of its pieces outside of
comments, the first piece between marks, the third and so on.

## Main definitions

* `Source.replaceComments` — the text with every comment, found from the left, replaced by a blank
* `Source.outsideComments` — the pieces of a text outside of its comments
* `Source.Closed` — texts that close their comments, comment by comment

## Main results

* `Source.commentsClosed_iff_closed` — comments are closed if the number of marks is even
* `Source.Closed.dropComments_eq` — comments are dropped as they are found from the left
* `Source.Closed.replaceComments_eq` — what is left are the pieces outside of comments
* `Checked.symbols_eq_outside_comments` — the symbols of a text, and of two texts with a line break
  between them
-/

namespace FlowGate

/-- The first entry of a list, the third and so on. -/
def everyOther {α : Type} : List α → List α
  | a :: _ :: as => a :: everyOther as
  | as => as

theorem everyOther_ne_nil {α : Type} {as : List α} (h : as ≠ []) : everyOther as ≠ [] := by
  match as, h with
  | [a], _ => exact List.cons_ne_nil a []
  | a :: _ :: as, _ => exact List.cons_ne_nil a _

namespace Source

/-- The text in which comments are looked for from the left and replaced by a blank each. A comment
is a mark with all that stands behind it up to the next one; a mark without another behind it is
kept. -/
def replaceComments : List Char → List Char
  | [] => []
  | c :: cs =>
    if c = commentMark ∧ commentMark ∈ cs then
      ' ' :: replaceComments (cs.dropWhile (· != commentMark)).tail
    else c :: replaceComments cs
termination_by cs => cs.length
decreasing_by
  · have hle := (List.dropWhile_suffix (l := cs) (· != commentMark)).length_le
    simp only [List.length_tail, List.length_cons]
    omega
  · exact Nat.lt_succ_self _

/-- The pieces of a text outside of its comments: of the pieces between the marks the first, the
third and so on. -/
def outsideComments (cs : List Char) : List (List Char) := everyOther (cs.splitOn commentMark)

/-- A text that closes its comments: one without marks, or one with a comment behind a piece
without marks and in front of a text that closes its comments. -/
inductive Closed : List Char → Prop
  | plain {cs : List Char} (h : commentMark ∉ cs) : Closed cs
  | comment {before inside after : List Char} (hbefore : commentMark ∉ before)
      (hinside : commentMark ∉ inside) (hafter : Closed after) :
      Closed (before ++ commentMark :: (inside ++ commentMark :: after))

variable {cs before inside after : List Char}

/-! ### Counting marks -/

theorem commentsClosed_iff : commentsClosed cs = true ↔ cs.count commentMark % 2 = 0 :=
  beq_iff_eq

theorem count_comment (hbefore : commentMark ∉ before) (hinside : commentMark ∉ inside) :
    (before ++ commentMark :: (inside ++ commentMark :: after)).count commentMark =
      after.count commentMark + 2 := by
  rw [List.count_append, List.count_cons_self, List.count_append, List.count_cons_self,
    List.count_eq_zero.mpr hbefore, List.count_eq_zero.mpr hinside]
  omega

/-- A text closes its comments if the number of its marks is even. -/
theorem commentsClosed_iff_closed : commentsClosed cs = true ↔ Closed cs := by
  rw [commentsClosed_iff]
  constructor
  · intro heven
    -- The induction takes the first comment off, with all that stands before it.
    induction hlength : cs.length using Nat.strongRecOn generalizing cs with
    | ind n ih =>
      by_cases hmark : commentMark ∈ cs
      · obtain ⟨before, rest, rfl, hbefore⟩ := List.eq_append_cons_of_mem hmark
        have hrest : commentMark ∈ rest := by
          by_contra hnone
          rw [List.count_append, List.count_cons_self, List.count_eq_zero.mpr hbefore,
            List.count_eq_zero.mpr hnone] at heven
          exact absurd heven (by decide)
        obtain ⟨inside, after, rfl, hinside⟩ := List.eq_append_cons_of_mem hrest
        rw [count_comment hbefore hinside, Nat.add_mod_right] at heven
        refine .comment hbefore hinside (ih after.length ?_ heven rfl)
        rw [← hlength]
        simp only [List.length_append, List.length_cons]
        omega
      · exact .plain hmark
  · intro h
    induction h with
    | plain h => rw [List.count_eq_zero.mpr h]
    | comment hbefore hinside _ ih => rw [count_comment hbefore hinside, Nat.add_mod_right, ih]

/-! ### Keeping track of whether a comment is open -/

/-- A comment is dropped for a blank. -/
theorem dropComments_single (hinside : commentMark ∉ inside) :
    dropComments (commentMark :: (inside ++ [commentMark])) = [' '] := by
  have hopen : inside.foldl commentStep (true, []) = (true, []) := by
    induction inside with
    | nil => rfl
    | cons c inside ih =>
      rw [List.mem_cons, not_or] at hinside
      rw [List.foldl_cons, commentStep, if_neg (Ne.symm hinside.1)]
      exact ih hinside.2
  have hstart : commentStep (false, []) commentMark = (true, []) := rfl
  rw [dropComments, List.foldl_cons, hstart, List.foldl_append, hopen]
  rfl

theorem dropComments_comment (hbefore : commentMark ∉ before) (hinside : commentMark ∉ inside) :
    dropComments (before ++ commentMark :: (inside ++ commentMark :: after)) =
      before ++ ' ' :: dropComments after := by
  have hplain : ∀ c ∈ before, c ≠ commentMark := fun c hc => ne_of_mem_of_not_mem hc hbefore
  have hsingle : commentsClosed (commentMark :: (inside ++ [commentMark])) = true := by
    rw [commentsClosed_iff]
    exact congrArg (· % 2) (@count_comment [] inside [] List.not_mem_nil hinside)
  have hsplit : commentMark :: (inside ++ commentMark :: after) =
      commentMark :: (inside ++ [commentMark]) ++ after := by simp
  rw [dropComments_append (commentsClosed_of_forall hplain), dropComments_of_forall hplain, hsplit,
    dropComments_append hsingle, dropComments_single hinside, List.singleton_append]

/-! ### Looking for comments from the left -/

/-- What stands before the first mark is kept. -/
theorem replaceComments_append (hbefore : commentMark ∉ before) (rest : List Char) :
    replaceComments (before ++ rest) = before ++ replaceComments rest := by
  induction before with
  | nil => rfl
  | cons c before ih =>
    rw [List.mem_cons, not_or] at hbefore
    rw [List.cons_append, replaceComments, if_neg fun h => hbefore.1 h.1.symm, ih hbefore.2,
      List.cons_append]

theorem replaceComments_of_not_mem (h : commentMark ∉ cs) : replaceComments cs = cs := by
  have happend := replaceComments_append h []
  rwa [List.append_nil, replaceComments, List.append_nil] at happend

theorem replaceComments_comment (hbefore : commentMark ∉ before) (hinside : commentMark ∉ inside) :
    replaceComments (before ++ commentMark :: (inside ++ commentMark :: after)) =
      before ++ ' ' :: replaceComments after := by
  have hskip : (inside ++ commentMark :: after).dropWhile (· != commentMark) =
      commentMark :: after := by
    rw [List.dropWhile_append_of_pos fun c hc => bne_iff_ne.mpr (ne_of_mem_of_not_mem hc hinside),
      List.dropWhile_cons_of_neg (by simp)]
  rw [replaceComments_append hbefore, replaceComments, if_pos ⟨rfl, by simp⟩, hskip, List.tail_cons]

/-- Comments are dropped as they are found from the left. -/
theorem Closed.dropComments_eq (h : Closed cs) : dropComments cs = replaceComments cs := by
  induction h with
  | plain h =>
    rw [dropComments_of_forall fun c hc => ne_of_mem_of_not_mem hc h, replaceComments_of_not_mem h]
  | comment hbefore hinside _ ih =>
    rw [dropComments_comment hbefore hinside, replaceComments_comment hbefore hinside, ih]

/-! ### Pieces between marks -/

theorem outsideComments_ne_nil (cs : List Char) : outsideComments cs ≠ [] :=
  everyOther_ne_nil (List.splitOn_ne_nil commentMark cs)

theorem outsideComments_of_not_mem (h : commentMark ∉ cs) : outsideComments cs = [cs] := by
  rw [outsideComments, List.splitOn_eq_singleton h]
  rfl

theorem outsideComments_comment (hbefore : commentMark ∉ before) (hinside : commentMark ∉ inside) :
    outsideComments (before ++ commentMark :: (inside ++ commentMark :: after)) =
      before :: outsideComments after := by
  rw [outsideComments, List.splitOn_append_cons_self_of_not_mem hbefore,
    List.splitOn_append_cons_self_of_not_mem hinside, everyOther, outsideComments]

/-- A text whose comments are replaced by blanks consists of its pieces outside of comments, with a
blank between them. -/
theorem Closed.replaceComments_eq (h : Closed cs) :
    replaceComments cs = [' '].intercalate (outsideComments cs) := by
  induction h with
  | plain h =>
    rw [replaceComments_of_not_mem h, outsideComments_of_not_mem h, List.intercalate_singleton]
  | comment hbefore hinside _ ih =>
    rw [replaceComments_comment hbefore hinside, outsideComments_comment hbefore hinside,
      List.intercalate_cons_of_ne_nil (outsideComments_ne_nil _), ih, List.append_assoc,
      List.singleton_append]

/-! ### Symbols -/

/-- A text whose number of marks is even has the words outside of its comments for symbols, and any
other text has a comment that is not closed. -/
theorem symbols_eq_ite (text : String) :
    symbols text =
      if text.toList.count commentMark % 2 = 0 then
        .ok ((Text.words ([' '].intercalate (outsideComments text.toList))).map String.ofList)
      else .error (.assembly .unterminatedComment) := by
  split
  · next heven =>
    have hclosed := commentsClosed_iff.mpr heven
    have hcomments := commentsClosed_iff_closed.mp hclosed
    rw [← hcomments.replaceComments_eq, ← hcomments.dropComments_eq]
    exact symbols_eq_ok_iff.mpr ⟨hclosed, rfl⟩
  · next hodd =>
    have hopen : commentsClosed text.toList = false :=
      Bool.eq_false_iff.mpr (mt commentsClosed_iff.mp hodd)
    rw [symbols, hopen]
    rfl

theorem exists_symbols_eq {text : String} (h : text.toList.count commentMark % 2 = 0) :
    ∃ found, symbols text = .ok found :=
  ⟨_, symbols_eq_ok_iff.mpr ⟨commentsClosed_iff.mpr h, rfl⟩⟩

end Source

namespace Checked

/-- A text has symbols if the number of its marks is even, and they are the words that are left when
each segment between a mark and the one that closes it is replaced, with both marks, by one blank:
the pieces between blanks, without the empty ones. A symbol has characters, and none of them is a
blank or a mark. If two texts close their comments, a line break between them joins their
symbols. -/
theorem symbols_eq_outside_comments (text a b : String) :
    symbols (.text text) =
      (if text.toList.count Source.commentMark % 2 = 0 then
        .ok (((([' '].intercalate (Source.outsideComments text.toList)).splitOnP
          Text.isBlank).filter fun piece => !piece.isEmpty).map String.ofList)
      else .error (.assembly .unterminatedComment)) ∧
    (∀ found, symbols (.text text) = .ok found → ∀ symbol ∈ found, Source.IsWord symbol) ∧
    (a.toList.count Source.commentMark % 2 = 0 → b.toList.count Source.commentMark % 2 = 0 →
      ∃ xs ys, symbols (.text a) = .ok xs ∧ symbols (.text b) = .ok ys ∧
        symbols (.text (a ++ "\n" ++ b)) = .ok (xs ++ ys)) := by
  refine ⟨?_, fun found hfound => Source.isWord_of_mem_symbols hfound, fun ha hb => ?_⟩
  · rw [← Text.words_eq_filter_splitOnP]
    exact Source.symbols_eq_ite text
  · obtain ⟨xs, hxs⟩ := Source.exists_symbols_eq ha
    obtain ⟨ys, hys⟩ := Source.exists_symbols_eq hb
    exact ⟨xs, ys, hxs, hys, Source.symbols_append Source.isGap_newline hxs hys⟩

/-- A comment over a line break, a comment within a symbol, and two comments side by side. -/
theorem symbols_eq_outside_comments_sample :
    symbols (.text "dup #two\nlines# ver#an#ify") = .ok ["dup", "ver", "ify"] ∧
      symbols (.text "dup #two\nlines# ver#an#ify\nswap##") =
        .ok ["dup", "ver", "ify", "swap"] := by
  obtain ⟨-, -, hjoin⟩ := symbols_eq_outside_comments "" "dup #two\nlines# ver#an#ify" "swap##"
  obtain ⟨xs, ys, hxs, hys, happend⟩ := hjoin (by decide) (by decide)
  have hfirst : symbols (.text "dup #two\nlines# ver#an#ify") = .ok ["dup", "ver", "ify"] := by
    decide +kernel
  have hsecond : symbols (.text "swap##") = .ok ["swap"] := by decide +kernel
  obtain rfl := Except.ok.inj (hxs.symm.trans hfirst)
  obtain rfl := Except.ok.inj (hys.symm.trans hsecond)
  exact ⟨hfirst, happend⟩

end Checked

end FlowGate

/-!
# Blanks and words

A blank is a character with the white-space property. Text is cut into words at runs of blanks.

## Main definitions

* `Text.isBlank` — the blank characters
* `Text.words` — the maximal runs of characters that are not blank

## Main results

* `Text.words_eq_filter_splitOnP` — the words are the pieces between blanks that are not empty
* `Text.words_append_blank` — a blank between two texts separates their words
* `Text.ne_nil_of_mem_words`, `Text.mem_of_mem_words`, `Text.not_isBlank_of_mem_words` — a word has
  characters, all of them from the text and none blank
-/

namespace FlowGate.Text

/-- The first and last code points of the runs of blanks. -/
def blankRanges : List (Nat × Nat) :=
  [(0x09, 0x0d), (0x1c, 0x20), (0x85, 0x85), (0xa0, 0xa0), (0x1680, 0x1680), (0x2000, 0x200a),
   (0x2028, 0x2029), (0x202f, 0x202f), (0x205f, 0x205f), (0x3000, 0x3000)]

/-- Whether a code point lies in one of the ranges. -/
def inRanges (ranges : List (Nat × Nat)) (n : Nat) : Bool :=
  ranges.any fun r => r.1 ≤ n && n ≤ r.2

/-- The characters that separate words. -/
def isBlank (c : Char) : Bool :=
  inRanges blankRanges c.toNat

/-- Puts a word in front of others unless it is empty. -/
def flush (word : List Char) (rest : List (List Char)) : List (List Char) :=
  if word.isEmpty then rest else word :: rest

/-- Reads one more character, from the right: it joins the word in progress or ends it. -/
def wordStep (c : Char) (state : List Char × List (List Char)) : List Char × List (List Char) :=
  if isBlank c then ([], flush state.1 state.2) else (c :: state.1, state.2)

/-- The words of a text: its maximal runs of characters that are not blank. -/
def words (cs : List Char) : List (List Char) :=
  let state := cs.foldr wordStep ([], [])
  flush state.1 state.2

/-- A text without the characters of a kind at its ends. -/
def trim (kind : Char → Bool) (cs : List Char) : List Char :=
  ((cs.dropWhile kind).reverse.dropWhile kind).reverse

@[simp] theorem words_nil : words [] = [] := rfl

/-- The pieces of a text between its blanks are the word in progress and those that hold the words
behind it. -/
private theorem exists_splitOnP_isBlank_eq (cs : List Char) :
    ∃ pieces, cs.splitOnP isBlank = (cs.foldr wordStep ([], [])).1 :: pieces ∧
      pieces.filter (fun piece => !piece.isEmpty) = (cs.foldr wordStep ([], [])).2 := by
  induction cs with
  | nil => exact ⟨[], List.splitOnP_nil, rfl⟩
  | cons c cs ih =>
    obtain ⟨pieces, hsplit, hwords⟩ := ih
    rw [List.splitOnP_cons_eq_if_modifyHead, hsplit, List.foldr_cons, wordStep]
    by_cases hblank : isBlank c = true
    · -- The word in progress is a piece of its own now, unless it is empty.
      rw [if_pos hblank, if_pos hblank]
      refine ⟨_, rfl, ?_⟩
      rw [List.filter_cons, hwords, flush]
      cases (cs.foldr wordStep ([], [])).1.isEmpty <;> rfl
    · rw [if_neg hblank, if_neg hblank]
      exact ⟨pieces, rfl, hwords⟩

/-- The words of a text are the pieces between its blanks that are not empty. -/
theorem words_eq_filter_splitOnP (cs : List Char) :
    words cs = (cs.splitOnP isBlank).filter fun piece => !piece.isEmpty := by
  obtain ⟨pieces, hsplit, hwords⟩ := exists_splitOnP_isBlank_eq cs
  rw [hsplit, List.filter_cons, hwords, words, flush]
  cases (cs.foldr wordStep ([], [])).1.isEmpty <;> rfl

/-- A blank between two texts separates their words. -/
theorem words_append_blank {c : Char} (h : isBlank c = true) (as bs : List Char) :
    words (as ++ c :: bs) = words as ++ words bs := by
  simp only [words_eq_filter_splitOnP, List.splitOnP_append_cons as bs h, List.filter_append]

/-- A word has characters. -/
theorem ne_nil_of_mem_words {cs w : List Char} (h : w ∈ words cs) : w ≠ [] := by
  rw [words_eq_filter_splitOnP, List.mem_filter] at h
  simpa using h.2

/-- The pieces of a text between its blanks have their characters from the text, and no blanks. -/
private theorem of_mem_splitOnP_isBlank {cs piece : List Char} (h : piece ∈ cs.splitOnP isBlank) :
    ∀ c ∈ piece, c ∈ cs ∧ isBlank c = false := by
  induction cs generalizing piece with
  | nil =>
    rw [List.splitOnP_nil, List.mem_singleton] at h
    simp [h]
  | cons d cs ih =>
    have hrest : ∀ {piece}, piece ∈ cs.splitOnP isBlank →
        ∀ c ∈ piece, c ∈ d :: cs ∧ isBlank c = false :=
      fun hpiece c hc => ⟨List.mem_cons_of_mem d (ih hpiece c hc).1, (ih hpiece c hc).2⟩
    rw [List.splitOnP_cons_eq_if_modifyHead] at h
    split at h
    · rcases List.mem_cons.mp h with rfl | h
      · simp
      · exact hrest h
    · next hblank =>
      obtain ⟨first, pieces, hsplit⟩ :=
        List.exists_cons_of_ne_nil (List.splitOnP_ne_nil isBlank cs)
      rw [hsplit] at h hrest
      rcases List.mem_cons.mp h with rfl | h
      · -- The first piece goes on to the left.
        intro c hc
        rcases List.mem_cons.mp hc with rfl | hc
        · exact ⟨List.mem_cons_self, Bool.eq_false_iff.mpr hblank⟩
        · exact hrest List.mem_cons_self c hc
      · exact hrest (List.mem_cons_of_mem first h)

/-- The characters of a word are characters of the text. -/
theorem mem_of_mem_words {cs w : List Char} (h : w ∈ words cs) : ∀ c ∈ w, c ∈ cs := by
  rw [words_eq_filter_splitOnP, List.mem_filter] at h
  exact fun c hc => (of_mem_splitOnP_isBlank h.1 c hc).1

/-- No character of a word is blank. -/
theorem not_isBlank_of_mem_words {cs w : List Char} (h : w ∈ words cs) :
    ∀ c ∈ w, isBlank c = false := by
  rw [words_eq_filter_splitOnP, List.mem_filter] at h
  exact fun c hc => (of_mem_splitOnP_isBlank h.1 c hc).2

end FlowGate.Text

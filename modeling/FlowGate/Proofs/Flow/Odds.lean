import FlowGate.Proofs.Flow.Prefix
import FlowGate.Proofs.Flow.Window
import Mathlib.Analysis.SpecificLimits.Basic
import Mathlib.Data.Fintype.BigOperators
import Mathlib.Data.Nat.Count

/-!
# The expected number of attempts

A nonce is valid if the first word of its digest is one of the hits, the words whose prefix is
within the id space. For words drawn uniformly and independently the expected number of draws up to the
first hit is the number of words over the number of hits. The number that budgets and estimates are
made from is this one as long as the prefix is within a word or within the id space. Beyond that it
is larger: a width above that of a word still counts in the exponent, while the mask does not grow.

## Main definitions

* `Flow.hits`, `Flow.misses` — the words that select a flow, and those that do not
* `Flow.missShare` — how likely it is that the first attempts are all misses
* `Flow.expectation` — the expected number of attempts up to the first hit

## Main results

* `Flow.card_hits_mul` — the number of hits
* `Flow.card_hits_mul_expectation` — the expectation is the reciprocal of the share of hits
* `Flow.expectedAttempts_eq` — the number that the search uses, in terms of this reciprocal
* `Flow.expectedAttempts_isReciprocal_iff` — when the two are the same, and what follows for
  budgets and estimates
-/

namespace FlowGate.Flow

/-- The words that a digest can start with. -/
def words : Finset Nat := Finset.range (2 ^ 32)

/-- The words that select a flow. -/
def hits (b l : Nat) : Finset Nat := {w ∈ words | w &&& mask b < 2 ^ l}

/-- The words that select no flow. -/
def misses (b l : Nat) : Finset Nat := words \ hits b l

/-- The first word of a digest. -/
def wordOf (digest : Digest) : Nat := Bytes.toNat (digest.bytes.take 4)

variable {hash : Bytes → Digest} {input b l n start : Nat}

/-! ### Counting hits -/

@[simp] theorem card_words : words.card = 2 ^ 32 := Finset.card_range _

theorem mem_hits {w : Nat} : w ∈ hits b l ↔ w ∈ words ∧ w &&& mask b < 2 ^ l :=
  Finset.mem_filter

theorem hits_subset (b l : Nat) : hits b l ⊆ words := Finset.filter_subset _ _

/-- Masking keeps a remainder. Beyond the width of a word the mask does not grow. -/
theorem and_mask (w b : Nat) : w &&& mask b = w % 2 ^ min b 32 := by
  rw [← Nat.and_two_pow_sub_one_eq_mod, mask]
  split
  next hwhole => rw [Nat.min_eq_right hwhole]
  next hpart => rw [Nat.min_eq_left (by omega)]

theorem hits_min (b l : Nat) : hits (min b 32) l = hits b l := by
  simp only [hits, and_mask, Nat.min_assoc, Nat.min_self]

/-- In each of `q` periods of length `m` there are `r` numbers with a remainder below `r`. -/
theorem count_mod_lt {m r : Nat} (hr : r ≤ m) (q : Nat) :
    Nat.count (fun w => w % m < r) (m * q) = r * q := by
  induction q with
  | zero => rfl
  | succ q ih =>
    have hperiod : Nat.count (fun w => (m * q + w) % m < r) m = r := by
      rw [Nat.count_eq_card_filter_range]
      have hlow : {w ∈ Finset.range m | (m * q + w) % m < r} = Finset.range r := by
        ext w
        rw [Finset.mem_filter, Finset.mem_range, Finset.mem_range, Nat.mul_add_mod]
        constructor
        · rintro ⟨hw, hlt⟩
          rwa [Nat.mod_eq_of_lt hw] at hlt
        · intro hw
          have hwm : w < m := by omega
          exact ⟨hwm, by rwa [Nat.mod_eq_of_lt hwm]⟩
      rw [hlow, Finset.card_range]
    rw [Nat.mul_succ, Nat.count_add, ih, hperiod, Nat.mul_succ]

/-- The number of hits, times the powers of two between the width of the flow ids and that of the
prefix within a word, is the number of words. -/
theorem card_hits_mul (b l : Nat) : (hits b l).card * 2 ^ (min b 32 - l) = 2 ^ 32 := by
  have hcount : (hits b l).card = Nat.count (fun w => w % 2 ^ min b 32 < 2 ^ l) (2 ^ 32) := by
    simp only [Nat.count_eq_card_filter_range, hits, words, and_mask]
  have hword : 2 ^ min b 32 * 2 ^ (32 - min b 32) = 2 ^ 32 := by
    rw [← Nat.pow_add, Nat.add_sub_cancel' (Nat.min_le_right b 32)]
  rw [hcount, ← hword]
  rcases Nat.le_total l (min b 32) with hlow | hhigh
  · rw [count_mod_lt (Nat.pow_le_pow_right (by decide) hlow), Nat.mul_right_comm, ← Nat.pow_add,
      Nat.add_sub_cancel' hlow]
  · -- The id space holds every prefix.
    have hall : ∀ w, w % 2 ^ min b 32 < 2 ^ l := fun w =>
      Nat.lt_of_lt_of_le (Nat.mod_lt _ (Nat.two_pow_pos _))
        (Nat.pow_le_pow_right (by decide) hhigh)
    rw [Nat.sub_eq_zero_of_le hhigh, Nat.count_iff_forall.mpr fun w _ => hall w]
    omega

theorem card_hits_pos (b l : Nat) : 0 < (hits b l).card := by
  have hmul := card_hits_mul b l
  by_contra hzero
  rw [Nat.eq_zero_of_not_pos hzero, Nat.zero_mul] at hmul
  exact absurd hmul (by decide)

/-! ### Attempts -/

theorem wordOf_mem_words (digest : Digest) : wordOf digest ∈ words := by
  have hlength : (digest.bytes.take 4).length = 4 := by
    rw [List.length_take, Digest.length_bytes]
    rfl
  have hlt := Bytes.toNat_lt (digest.bytes.take 4)
  rw [hlength] at hlt
  exact Finset.mem_range.mpr hlt

/-- A nonce is valid if and only if the first word of its digest is a hit. -/
theorem isValid_iff : (Puzzle.mk input b l).IsValid hash n ↔
    wordOf (hash (message input n)) ∈ hits b l := by
  rw [mem_hits]
  exact (and_iff_right (wordOf_mem_words _)).symm

theorem not_isValid_iff : ¬ (Puzzle.mk input b l).IsValid hash n ↔
    wordOf (hash (message input n)) ∈ misses b l := by
  rw [isValid_iff, misses, Finset.mem_sdiff]
  exact (and_iff_right (wordOf_mem_words _)).symm

/-- Consecutive nonces have no hit among them if and only if the words of their digests are all
misses. -/
theorem firstHit?_eq_none_iff_mem : (Puzzle.mk input b l).firstHit? hash n start = none ↔
    (fun i : Fin n => wordOf (hash (message input (start + i)))) ∈
      Fintype.piFinset fun _ => misses b l := by
  simp only [Puzzle.firstHit?_eq_none_iff, not_isValid_iff, Fintype.mem_piFinset]
  constructor
  · intro h i
    exact h (start + i) (by omega) (by omega)
  · intro h m hlow hhigh
    have hm := h ⟨m - start, by omega⟩
    rwa [Nat.add_sub_cancel' hlow] at hm

/-! ### The expectation -/

/-- The share of the sequences of `n` words in which all are misses: how likely it is for words
drawn uniformly and independently that the first `n` attempts fail. -/
noncomputable def missShare (b l n : Nat) : ℝ :=
  (Fintype.piFinset fun _ : Fin n => misses b l).card /
    (Fintype.piFinset fun _ : Fin n => words).card

/-- The expected number of attempts up to the first hit. An attempt is made if all before it fail,
so it is the sum of how likely that is. -/
noncomputable def expectation (b l : Nat) : ℝ := tsum fun n => missShare b l n

theorem cast_card_words : (words.card : ℝ) = 2 ^ 32 := by
  rw [card_words, Nat.cast_pow, Nat.cast_ofNat]

/-- The attempts fail independently, each with the share of the misses. -/
theorem missShare_eq (b l n : Nat) :
    missShare b l n = (1 - (hits b l).card / 2 ^ 32) ^ n := by
  have hmisses : ((misses b l).card : ℝ) = words.card - (hits b l).card := by
    rw [misses, Finset.card_sdiff_of_subset (hits_subset b l),
      Nat.cast_sub (Finset.card_le_card (hits_subset b l))]
  rw [missShare, Fintype.card_piFinset_const, Fintype.card_piFinset_const, Nat.cast_pow,
    Nat.cast_pow, ← div_pow, hmisses, cast_card_words, sub_div, div_self (by positivity)]

/-- The expected number of attempts is the reciprocal of the share of hits. -/
theorem card_hits_mul_expectation (b l : Nat) :
    (hits b l).card * expectation b l = 2 ^ 32 := by
  have hpos : (0 : ℝ) < (hits b l).card := Nat.cast_pos.mpr (card_hits_pos b l)
  have hle : ((hits b l).card : ℝ) ≤ 2 ^ 32 := by
    rw [← cast_card_words]
    exact Nat.cast_le.mpr (Finset.card_le_card (hits_subset b l))
  have hshare : ((hits b l).card : ℝ) / 2 ^ 32 ≤ 1 := (div_le_one (by positivity)).mpr hle
  have hshare' : (0 : ℝ) < (hits b l).card / 2 ^ 32 := by positivity
  simp only [expectation, missShare_eq]
  rw [tsum_geometric_of_lt_one (by linarith) (by linarith), sub_sub_cancel, inv_div,
    mul_div_cancel₀ _ hpos.ne']

theorem expectation_eq (b l : Nat) : expectation b l = 2 ^ (min b 32 - l) := by
  have hpos : (0 : ℝ) < (hits b l).card := Nat.cast_pos.mpr (card_hits_pos b l)
  have hcount : ((hits b l).card : ℝ) * 2 ^ (min b 32 - l) = 2 ^ 32 := by
    exact_mod_cast card_hits_mul b l
  exact mul_left_cancel₀ hpos.ne' ((card_hits_mul_expectation b l).trans hcount.symm)

/-! ### What budgets and estimates are made from -/

/-- The number that the search uses is the reciprocal of the share of hits, times a power of two for
the part of the prefix that is beyond both a word and the flow ids. -/
theorem expectedAttempts_eq (b l : Nat) :
    expectedAttempts b l = 2 ^ (min b 32 - l) * 2 ^ (b - max 32 l) := by
  have hexponent : ((b : Int) - l).toNat = (min b 32 - l) + (b - max 32 l) := by omega
  rw [expectedAttempts, hexponent, Nat.pow_add]

/-- The number that the search uses, in terms of the expectation. -/
theorem cast_expectedAttempts (b l : Nat) :
    (expectedAttempts b l : ℝ) = expectation b l * 2 ^ (b - max 32 l) := by
  rw [expectedAttempts_eq, expectation_eq]
  push_cast
  rfl

theorem card_hits_mul_expectedAttempts (b l : Nat) :
    (hits b l).card * expectedAttempts b l = 2 ^ 32 * 2 ^ (b - max 32 l) := by
  rw [expectedAttempts_eq, ← Nat.mul_assoc, card_hits_mul]

/-- The power of two that is too much is one exactly if the prefix is within a word or within the
flow ids. -/
theorem two_pow_sub_max_eq_one_iff (b l : Nat) : 2 ^ (b - max 32 l) = 1 ↔ b ≤ 32 ∨ b ≤ l := by
  rw [Nat.pow_eq_one]
  omega

theorem card_hits_mul_expectedAttempts_eq_iff (b l : Nat) :
    (hits b l).card * expectedAttempts b l = 2 ^ 32 ↔ b ≤ 32 ∨ b ≤ l := by
  rw [card_hits_mul_expectedAttempts, ← two_pow_sub_max_eq_one_iff, Nat.mul_eq_left (by decide)]

theorem expectedAttempts_eq_expectation_iff (b l : Nat) :
    expectedAttempts b l = expectation b l ↔ b ≤ 32 ∨ b ≤ l := by
  have hpos : expectation b l ≠ 0 := by
    rw [expectation_eq]
    positivity
  rw [cast_expectedAttempts, ← two_pow_sub_max_eq_one_iff, mul_eq_left₀ hpos]
  exact_mod_cast Iff.rfl

/-- A nonce selects a flow if and only if the first word of its digest is a hit. -/
theorem exists_select_int_eq_ok_iff (hinput : input < 2 ^ 32) (hn : n < 2 ^ 64) (b : Nat)
    (hl : (l : Int) < Checked.exponentLimit) :
    (∃ s, Checked.select hash (.int input) (.int n) (.int b) (.int l) = .ok s) ↔
      wordOf (hash (message input n)) ∈ hits b l := by
  rw [Checked.select, bind_of_eq_ok (Checked.puzzle_int hinput hn b hl), ← hits_min, ← isValid_iff]
  exact mem_selecting_iff hinput hn

/-- The budget of a search is a multiple of the number that it uses. -/
theorem findNonce_int (hinput : input < 2 ^ 32) (hstart : start < 2 ^ 64)
    (hl : (l : Int) < Checked.exponentLimit) (hwidth : (b : Int) - l < Checked.exponentLimit)
    (hash : Bytes → Digest) (factor : Nat) :
    Checked.findNonce hash (.int input) (.int b) (.int l) (.int start) (.int factor) =
      searchWithin hash ⟨input, min b 32, l⟩ (expectedAttempts b l * factor) factor start := by
  rw [Checked.findNonce, bind_of_eq_ok (Checked.toInt_int "attempt_factor" factor),
    decide_eq_true (Int.natCast_nonneg factor), bind_of_eq_ok (ensure_true _),
    bind_of_eq_ok (Checked.expectedAttempts_int hwidth),
    bind_of_eq_ok (Checked.puzzle_int hinput hstart b hl)]
  exact bind_of_eq_ok (checkPuzzle_eq hinput hstart (min b 32) l) _

/-- The number that the search uses is the expected number of attempts exactly if the prefix is
within a word or within the flow ids, and the expected number times a power of two otherwise. The
nonces that select a flow are those whose word is a hit, and attempts from a nonce on fail as long
as the words are misses. The budget of a search is a multiple of the number that it uses, and the
estimate of a benchmark is made from this number. -/
theorem expectedAttempts_isReciprocal_iff {b l input start : Nat} (hinput : input < 2 ^ 32)
    (hstart : start < 2 ^ 64) (hl : (l : Int) < Checked.exponentLimit)
    (hwidth : (b : Int) - l < Checked.exponentLimit) (hash : Bytes → Digest) (factor : Nat) :
    -- The count, and the expectation for uniform words.
    (hits b l).card * expectedAttempts b l = 2 ^ 32 * 2 ^ (b - max 32 l) ∧
    ((hits b l).card * expectedAttempts b l = 2 ^ 32 ↔ b ≤ 32 ∨ b ≤ l) ∧
    (expectedAttempts b l = expectation b l ↔ b ≤ 32 ∨ b ≤ l) ∧
    -- What the words are counted for.
    ((∃ s, Checked.select hash (.int input) (.int start) (.int b) (.int l) = .ok s) ↔
      wordOf (hash (message input start)) ∈ hits b l) ∧
    (∀ n, (Puzzle.mk input b l).firstHit? hash n start = none ↔
      (fun i : Fin n => wordOf (hash (message input (start + i)))) ∈
        Fintype.piFinset fun _ => misses b l) ∧
    -- What is made from the number.
    (∃ budget : Nat, budget = factor * (expectation b l * 2 ^ (b - max 32 l)) ∧
      Checked.findNonce hash (.int input) (.int b) (.int l) (.int start) (.int factor) =
        searchWithin hash ⟨input, min b 32, l⟩ budget factor start) ∧
    ∃ attempts : Nat, attempts = expectation b l * 2 ^ (b - max 32 l) ∧ ∀ c : Calibration,
      c.expectedSeconds (Checked.expectedAttempts (.int b) (.int l)) =
        c.expectedSeconds (.ok attempts) := by
  refine ⟨card_hits_mul_expectedAttempts b l, card_hits_mul_expectedAttempts_eq_iff b l,
    expectedAttempts_eq_expectation_iff b l, exists_select_int_eq_ok_iff hinput hstart b hl,
    fun n => firstHit?_eq_none_iff_mem, ⟨expectedAttempts b l * factor, ?_, ?_⟩,
    expectedAttempts b l, cast_expectedAttempts b l, fun c => ?_⟩
  · rw [Nat.cast_mul, cast_expectedAttempts, mul_comm]
  · exact findNonce_int hinput hstart hl hwidth hash factor
  · rw [Checked.expectedAttempts_int hwidth]

/-- With a prefix of 40 bits and flow ids of 8 bits a hit takes 2 to the power of 24 attempts, and
the number that the search uses is 256 times as large. -/
theorem expectedAttempts_isReciprocal_iff_sample :
    (hits 40 8).card * expectedAttempts (40 : Nat) (8 : Nat) = 2 ^ 32 * 256 ∧
    expectation 40 8 = 2 ^ 24 ∧ expectedAttempts (40 : Nat) (8 : Nat) ≠ expectation 40 8 ∧
    expectedAttempts (32 : Nat) (8 : Nat) = expectation 32 8 := by
  have hsample := fun b : Nat => fun hb : (b : Int) - (8 : Nat) < Checked.exponentLimit =>
    expectedAttempts_isReciprocal_iff (b := b) (show 123 < 2 ^ 32 by decide)
      (show 0 < 2 ^ 64 by decide) (show ((8 : Nat) : Int) < Checked.exponentLimit by decide) hb
      Blake3.hash 100
  obtain ⟨hcount, -, hwide, -⟩ := hsample 40 (by decide)
  obtain ⟨-, -, hword, -⟩ := hsample 32 (by decide)
  have hexcess : 2 ^ (40 - max 32 8) = 256 := by decide
  have hexponent : min 40 32 - 8 = 24 := by decide
  rw [hexcess] at hcount
  exact ⟨hcount, by rw [expectation_eq, hexponent], fun h => absurd (hwide.mp h) (by decide),
    hword.mpr (by decide)⟩

end FlowGate.Flow

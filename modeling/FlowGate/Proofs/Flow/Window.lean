import FlowGate.Proofs.Flow.FirstHit
import Mathlib.Data.Set.BooleanAlgebra
import Mathlib.Order.CompletePartialOrder
import Mathlib.Order.Interval.Set.Basic

/-!
# The window of a search

A search from a nonce looks at a window of nonces: as many further ones as its budget allows, and
none beyond the largest nonce. It finds the smallest nonce of the window that selects a flow, and it
gives up exactly if there is none, saying which of the two limits ended it. Digests outside the
window do not matter. A search that is started again behind each nonce that it finds goes through
all nonces that select a flow, in order.

## Main definitions

* `Flow.window` — the nonces that a search looks at
* `Flow.selecting` — the nonces that select a flow
* `Flow.record` — a search with a record of the nonces that it tries
* `Flow.restarts` — what is found by starting again behind each nonce that is found

## Main results

* `Flow.findNonce_eq_ok_iff`, `Flow.findNonce_eq_error_iff` — what a search finds, and when it
  gives up
* `Flow.mem_window_of_mem_record`, `Flow.findNonce_congr` — only the nonces of the window are tried,
  and only their digests matter
* `Flow.exists_restarts_eq` — starting again skips no nonce
* `Flow.findNonce_first` — these together
-/

namespace FlowGate

namespace Puzzle

/-- The search from a nonce with a record of the nonces that it tries, in order. -/
def recordFrom (hash : Bytes → Digest) (p : Puzzle) (factor : Int) :
    (budget nonce : Nat) → List Nat × Except SearchFault Selection
  | budget, nonce =>
    match p.attempt hash nonce with
    | .hit found => ([nonce], .ok found)
    | .miss _ _ =>
      if nonce ≥ Flow.maxNonce then ([nonce], .error .nonceOverflow)
      else
        match budget with
        | 0 => ([nonce], .error (.budgetSpent (toString factor)))
        | budget + 1 =>
          let rest := recordFrom hash p factor budget (nonce + 1)
          (nonce :: rest.1, rest.2)

/-- The record changes nothing about the search. -/
theorem recordFrom_snd (hash : Bytes → Digest) (p : Puzzle) (factor : Int) (budget nonce : Nat) :
    (p.recordFrom hash factor budget nonce).2 = p.searchFrom hash factor budget nonce := by
  induction budget generalizing nonce with
  | zero =>
    rw [recordFrom, searchFrom]
    cases p.attempt hash nonce with
    | hit found => rfl
    | miss label digest => dsimp only; split <;> rfl
  | succ budget ih =>
    rw [recordFrom, searchFrom]
    cases p.attempt hash nonce with
    | hit found => rfl
    | miss label digest =>
      dsimp only
      split
      · rfl
      · exact ih (nonce + 1)

/-- The nonces that are tried start at that of the search. There is no more of them behind the first
than the budget allows, and none beyond the largest nonce. -/
theorem mem_recordFrom_fst {hash : Bytes → Digest} {p : Puzzle} {factor : Int}
    {budget nonce n : Nat} (hnonce : nonce ≤ Flow.maxNonce)
    (h : n ∈ (p.recordFrom hash factor budget nonce).1) :
    nonce ≤ n ∧ n ≤ nonce + budget ∧ n ≤ Flow.maxNonce := by
  have hself : nonce ≤ nonce ∧ nonce ≤ nonce + budget ∧ nonce ≤ Flow.maxNonce :=
    ⟨Nat.le_refl _, Nat.le_add_right _ _, hnonce⟩
  -- Each attempt takes one from the budget and goes to the next nonce.
  induction budget generalizing nonce with
  | zero =>
    rw [recordFrom] at h
    cases hattempt : p.attempt hash nonce with
    | hit found =>
      obtain rfl : n = nonce := by simpa [hattempt] using h
      exact hself
    | miss label digest =>
      obtain rfl : n = nonce := by
        simp only [hattempt] at h
        split at h <;> exact List.mem_singleton.mp h
      exact hself
  | succ budget ih =>
    rw [recordFrom] at h
    cases hattempt : p.attempt hash nonce with
    | hit found =>
      obtain rfl : n = nonce := by simpa [hattempt] using h
      exact hself
    | miss label digest =>
      simp only [hattempt] at h
      split at h
      · obtain rfl : n = nonce := List.mem_singleton.mp h
        exact hself
      · rcases List.mem_cons.mp h with rfl | hrest
        · exact hself
        · have hbounds := ih (by omega) hrest (by omega)
          omega

/-- Hash functions that agree on the messages of a window have the same first hit in it. -/
theorem firstHit?_congr {hash hash' : Bytes → Digest} {p : Puzzle} {count nonce : Nat}
    (h : ∀ n, nonce ≤ n → n < nonce + count →
      hash' (Flow.message p.input n) = hash (Flow.message p.input n)) :
    p.firstHit? hash' count nonce = p.firstHit? hash count nonce := by
  induction count generalizing nonce with
  | zero => rfl
  | succ count ih =>
    have hfirst : p.attempt hash' nonce = p.attempt hash nonce := by
      simp only [attempt, h nonce (Nat.le_refl _) (by omega)]
    have hrest := @ih (nonce + 1) fun n hlow hhigh => h n (by omega) (by omega)
    simp only [firstHit?, hfirst, hrest]

end Puzzle

namespace Flow

/-- The nonces that a search looks at: from its start on as many further ones as its budget allows,
and none beyond the largest nonce. -/
def window (b l factor start : Nat) : Set Nat :=
  Set.Icc start (min (start + 2 ^ (b - l) * factor) (2 ^ 64 - 1))

/-- The nonces that select a flow for an input. -/
def selecting (hash : Bytes → Digest) (input b l : Nat) : Set Nat :=
  {n | ∃ s, select hash input n b l = .ok s}

variable {hash : Bytes → Digest} {input start n b l factor : Nat} {s : Selection}

/-! ### One search -/

/-- The window of a search in terms of its budget and the largest nonce. -/
theorem mem_window_iff (hstart : start < 2 ^ 64) :
    n ∈ window b l factor start ↔ start ≤ n ∧
      n < start + (min (expectedAttempts b l * factor) (maxNonce - start) + 1) := by
  have hexponent : ((b : Int) - l).toNat = b - l := by omega
  rw [window, Set.mem_Icc, expectedAttempts, hexponent, maxNonce]
  omega

theorem lt_of_mem_window (h : n ∈ window b l factor start) : n < 2 ^ 64 := by
  have hle := h.2
  omega

theorem isOk_select_iff {input nonce b l : Nat} :
    (select hash input nonce b l).isOk = true ↔ nonce ∈ selecting hash input b l := by
  rw [selecting, Set.mem_ofPred_eq]
  cases select hash input nonce b l <;> simp [Except.isOk, Except.toBool]

theorem mem_selecting_iff (hinput : input < 2 ^ 32) (hn : n < 2 ^ 64) :
    n ∈ selecting hash input b l ↔ (Puzzle.mk input b l).IsValid hash n := by
  constructor
  · rintro ⟨s, hs⟩
    obtain ⟨hvalid, -⟩ := Puzzle.attempt_eq_hit_iff.mp ((select_eq_ok_iff hinput hn b l).mp hs)
    exact hvalid
  · intro hvalid
    have hhit := Puzzle.attempt_eq_hit_iff.mpr ⟨hvalid, rfl⟩
    exact ⟨_, (select_eq_ok_iff hinput hn b l).mpr hhit⟩

/-- What is selected belongs to its nonce: the digest is that of the message, and the flow id is
within the id space and within the prefix. -/
theorem eq_of_select_eq_ok (hinput : input < 2 ^ 32) (hn : n < 2 ^ 64)
    (h : select hash input n b l = .ok s) :
    s.nonce = n ∧ s.digest = hash (message input n) ∧ s.flowId < 2 ^ l ∧ s.flowId ≤ mask b := by
  obtain ⟨hvalid, rfl⟩ := Puzzle.attempt_eq_hit_iff.mp ((select_eq_ok_iff hinput hn b l).mp h)
  exact ⟨rfl, rfl, hvalid, Nat.and_le_right⟩

/-- A search finds the smallest nonce of its window that selects a flow. -/
theorem findNonce_eq_ok_iff (hinput : input < 2 ^ 32) (hstart : start < 2 ^ 64) :
    findNonce hash input b l start factor = .ok s ↔ select hash input s.nonce b l = .ok s ∧
      IsLeast (window b l factor start ∩ selecting hash input b l) s.nonce := by
  have hfound : findNonce hash input b l start factor = .ok s ↔
      (Puzzle.mk input b l).firstHit? hash
        (min (expectedAttempts b l * factor) (maxNonce - start) + 1) start = some s := by
    rw [findNonce_eq hinput hstart]
    cases (Puzzle.mk input b l).firstHit? hash
      (min (expectedAttempts b l * factor) (maxNonce - start) + 1) start <;> simp
  rw [hfound, Puzzle.firstHit?_eq_some_iff]
  constructor
  · rintro ⟨hfinds, hlow, hhigh, hbelow⟩
    have hwindow : s.nonce ∈ window b l factor start := (mem_window_iff hstart).mpr ⟨hlow, hhigh⟩
    have hlt := lt_of_mem_window hwindow
    refine ⟨(select_eq_ok_iff hinput hlt b l).mpr hfinds,
      ⟨hwindow, (mem_selecting_iff hinput hlt).mpr hfinds.isValid⟩, ?_⟩
    rintro n ⟨hn, hselects⟩
    -- Below the nonce that is found no nonce is valid.
    by_contra hlt'
    have hvalid := (mem_selecting_iff hinput (lt_of_mem_window hn)).mp hselects
    exact hbelow n hn.1 (Nat.lt_of_not_le hlt') hvalid
  · rintro ⟨hselect, ⟨hwindow, -⟩, hleast⟩
    obtain ⟨hlow, hhigh⟩ := (mem_window_iff hstart).mp hwindow
    refine ⟨(select_eq_ok_iff hinput (lt_of_mem_window hwindow) b l).mp hselect, hlow, hhigh, ?_⟩
    intro n hn hlt hvalid
    have hmem : n ∈ window b l factor start := ⟨hn, Nat.le_trans (Nat.le_of_lt hlt) hwindow.2⟩
    have hselects := (mem_selecting_iff hinput (lt_of_mem_window hmem)).mpr hvalid
    exact Nat.not_le_of_lt hlt (hleast ⟨hmem, hselects⟩)

/-- A search gives up if no nonce of its window selects a flow, and for no other reason. It says
whether it reached the largest nonce or spent its budget before. -/
theorem findNonce_eq_error_iff (hinput : input < 2 ^ 32) (hstart : start < 2 ^ 64) {fault : Error} :
    findNonce hash input b l start factor = .error fault ↔
      Disjoint (window b l factor start) (selecting hash input b l) ∧
        fault = .exhausted (if 2 ^ 64 - 1 ≤ start + 2 ^ (b - l) * factor then .nonceOverflow
          else .budgetSpent (toString (factor : Int))) := by
  have hexponent : ((b : Int) - l).toNat = b - l := by omega
  -- The nonces that are tried are those of the window.
  have hempty : (Puzzle.mk input b l).firstHit? hash
        (min (expectedAttempts b l * factor) (maxNonce - start) + 1) start = none ↔
      Disjoint (window b l factor start) (selecting hash input b l) := by
    rw [Puzzle.firstHit?_eq_none_iff, Set.disjoint_left]
    constructor
    · intro hmiss n hn hselects
      obtain ⟨hlow, hhigh⟩ := (mem_window_iff hstart).mp hn
      exact hmiss n hlow hhigh ((mem_selecting_iff hinput (lt_of_mem_window hn)).mp hselects)
    · intro hdisjoint n hlow hhigh hvalid
      have hn : n ∈ window b l factor start := (mem_window_iff hstart).mpr ⟨hlow, hhigh⟩
      exact hdisjoint hn ((mem_selecting_iff hinput (lt_of_mem_window hn)).mpr hvalid)
  rw [← hempty, findNonce_eq hinput hstart]
  simp only [expectedAttempts, hexponent, maxNonce]
  cases (Puzzle.mk input b l).firstHit? hash
    (min (2 ^ (b - l) * factor) (2 ^ 64 - 1 - start) + 1) start <;> simp [eq_comm]

/-- An input of more than 32 bits is refused before anything is searched. -/
theorem findNonce_of_le (h : 2 ^ 32 ≤ input) (b l start factor : Nat) :
    findNonce hash input b l start factor = .error (.invalid (.tooWide "input" 32)) := by
  have hnatural : ∀ n : Nat, decide (0 ≤ (n : Int)) = true := fun n =>
    decide_eq_true (Int.natCast_nonneg n)
  have hinput : (0 ≤ (input : Int) && decide ((input : Int) < 2 ^ 32)) = false := by
    rw [hnatural, Bool.true_and, decide_eq_false_iff_not]
    omega
  rw [findNonce, checkPuzzle, message?, hnatural, hnatural, hinput]
  rfl

/-- A search with a record of the nonces that it tries. -/
def record (hash : Bytes → Digest) (input b l start factor : Nat) :
    List Nat × Except Error Selection :=
  let recorded := (Puzzle.mk input b l).recordFrom hash factor (2 ^ (b - l) * factor) start
  (recorded.1, recorded.2.mapError .exhausted)

/-- The record changes nothing about a search. -/
theorem record_snd (hinput : input < 2 ^ 32) (hstart : start < 2 ^ 64) (hash : Bytes → Digest)
    (b l factor : Nat) :
    (record hash input b l start factor).2 = findNonce hash input b l start factor := by
  have hfactor : decide (0 ≤ (factor : Int)) = true := decide_eq_true (Int.natCast_nonneg factor)
  have hcheck : checkPuzzle input start b l = .ok ⟨input, b, l⟩ :=
    checkPuzzle_eq hinput hstart b l
  have hexponent : ((b : Int) - l).toNat = b - l := by omega
  rw [record, findNonce, hfactor, ensure_true, bind_of_eq_ok rfl, bind_of_eq_ok hcheck,
    Int.toNat_natCast, Int.toNat_natCast, searchWithin, expectedAttempts, hexponent,
    Puzzle.recordFrom_snd]
  cases (Puzzle.mk input b l).searchFrom hash factor (2 ^ (b - l) * factor) start <;> rfl

/-- A search tries no nonce outside its window. -/
theorem mem_window_of_mem_record (hstart : start < 2 ^ 64)
    (h : n ∈ (record hash input b l start factor).1) : n ∈ window b l factor start := by
  obtain ⟨hlow, hbudget, hlast⟩ := Puzzle.mem_recordFrom_fst (Nat.le_sub_one_of_lt hstart) h
  exact ⟨hlow, Nat.le_min.mpr ⟨hbudget, hlast⟩⟩

/-- Only the digests of the window matter to a search. -/
theorem findNonce_congr (hinput : input < 2 ^ 32) (hstart : start < 2 ^ 64)
    {hash' : Bytes → Digest}
    (h : ∀ n ∈ window b l factor start, hash' (message input n) = hash (message input n)) :
    findNonce hash' input b l start factor = findNonce hash input b l start factor := by
  rw [findNonce_eq hinput hstart, findNonce_eq hinput hstart, Puzzle.firstHit?_congr]
  intro n hlow hhigh
  exact h n ((mem_window_iff hstart).mpr ⟨hlow, hhigh⟩)

/-! ### Starting again -/

/-- What a search finds, in order, if it is started a number of times, each time behind the nonce
that it has found before. It is not started again once it has failed. -/
def restarts (search : Nat → Except Error Selection) : (count start : Nat) → List Selection
  | 0, _ => []
  | count + 1, start =>
    match search start with
    | .ok found => found :: restarts search count (found.nonce + 1)
    | .error _ => []

/-- A search that goes up to the first nonce that has a property, started again behind each nonce
that it finds, goes through all nonces that have the property, up to where it stops: it stops after
the given number of times, or where it fails. -/
theorem exists_restarts_eq_of_first {search : Nat → Except Error Selection} {selects : Nat → Bool}
    (hfirst : ∀ start s, search start = .ok s → start ≤ s.nonce ∧
      (List.range' start (s.nonce + 1 - start)).filter selects = [s.nonce]) (count start : Nat) :
    ∃ stop, start ≤ stop ∧
      (restarts search count start).map Selection.nonce =
        (List.range' start (stop - start)).filter selects ∧
      ((restarts search count start).length = count ∨ ∃ fault, search stop = .error fault) := by
  induction count generalizing start with
  | zero => exact ⟨start, Nat.le_refl _, by simp [restarts], .inl rfl⟩
  | succ count ih =>
    rw [restarts]
    cases h : search start with
    | error fault => exact ⟨start, Nat.le_refl _, by simp, .inr ⟨fault, h⟩⟩
    | ok found =>
      obtain ⟨hlow, hfilter⟩ := hfirst start found h
      obtain ⟨stop, hstop, hnonces, hend⟩ := ih (found.nonce + 1)
      -- The nonces up to the one that is found come first, and then those of the other searches.
      have hsplit : List.range' start (stop - start) =
          List.range' start (found.nonce + 1 - start) ++
            List.range' (found.nonce + 1) (stop - (found.nonce + 1)) := by
        have hmiddle : start + (found.nonce + 1 - start) = found.nonce + 1 := by omega
        have hcount : stop - start =
            found.nonce + 1 - start + (stop - (found.nonce + 1)) := by omega
        rw [hcount, ← List.range'_append_1, hmiddle]
      refine ⟨stop, by omega, ?_, ?_⟩
      · rw [hsplit, List.filter_append, hfilter, ← hnonces]
        rfl
      · exact hend.imp (fun hlength => by rw [List.length_cons, hlength]) id

/-- A search that finds a nonce was started at a nonce of 64 bits. -/
theorem lt_of_findNonce_eq_ok (h : findNonce hash input b l start factor = .ok s) :
    start < 2 ^ 64 := by
  obtain ⟨-, -, h⟩ := bind_ok_iff.mp h
  obtain ⟨p, hcheck, -⟩ := bind_ok_iff.mp h
  obtain ⟨-, -, hcheck⟩ := bind_ok_iff.mp hcheck
  obtain ⟨message, hmessage, -⟩ := bind_ok_iff.mp hcheck
  obtain ⟨-, -, hmessage⟩ := bind_ok_iff.mp hmessage
  obtain ⟨_, hnonce, -⟩ := bind_ok_iff.mp hmessage
  have hrange := ensure_eq_ok_iff.mp hnonce
  simp only [Bool.and_eq_true, decide_eq_true_eq] at hrange
  have hle := hrange.2
  rw [maxNonce] at hle
  omega

/-- Of the nonces from the start of a search to the one that it finds, only that one selects
a flow. -/
theorem filter_range'_of_findNonce_eq_ok (hinput : input < 2 ^ 32)
    (h : findNonce hash input b l start factor = .ok s) :
    start ≤ s.nonce ∧ (List.range' start (s.nonce + 1 - start)).filter
      (fun n : Nat => (select hash input n b l).isOk) = [s.nonce] := by
  obtain ⟨hselect, ⟨hwindow, -⟩, hleast⟩ :=
    (findNonce_eq_ok_iff hinput (lt_of_findNonce_eq_ok h)).mp h
  have hlow : start ≤ s.nonce := hwindow.1
  have hcount : s.nonce + 1 - start = s.nonce - start + 1 := Nat.sub_add_comm hlow
  have hend : start + (s.nonce - start) = s.nonce := Nat.add_sub_cancel' hlow
  -- Below the nonce that is found the window has none that selects a flow.
  have hbelow : (List.range' start (s.nonce - start)).filter
      (fun n : Nat => (select hash input n b l).isOk) = [] := by
    rw [List.filter_eq_nil_iff]
    intro n hn hok
    obtain ⟨hlow, hhigh⟩ := List.mem_range'_1.mp hn
    have hlt : n < s.nonce := by omega
    have hmem : n ∈ window b l factor start := ⟨hlow, Nat.le_trans (Nat.le_of_lt hlt) hwindow.2⟩
    have hle := hleast ⟨hmem, isOk_select_iff.mp hok⟩
    exact Nat.not_le_of_lt hlt hle
  have hlast : (select hash input s.nonce b l).isOk = true := isOk_select_iff.mpr ⟨s, hselect⟩
  refine ⟨hlow, ?_⟩
  rw [hcount, List.range'_concat, Nat.one_mul, hend, List.filter_append, hbelow,
    List.filter_cons, hlast]
  rfl

/-- Searches that start again behind each nonce that is found skip no nonce that selects a flow. -/
theorem exists_restarts_eq (hinput : input < 2 ^ 32) (count : Nat) :
    ∃ stop, start ≤ stop ∧
      (restarts (fun n : Nat => findNonce hash input b l n factor) count start).map
          Selection.nonce =
        (List.range' start (stop - start)).filter (fun n : Nat => (select hash input n b l).isOk) ∧
      ((restarts (fun n : Nat => findNonce hash input b l n factor) count start).length = count ∨
        ∃ fault, findNonce hash input b l stop factor = .error fault) :=
  exists_restarts_eq_of_first (fun _ _ => filter_range'_of_findNonce_eq_ok hinput) count start

/-- If a nonce of the window selects a flow, a search finds what the smallest of them selects, and
otherwise it gives up with the message of the limit that it reached. No nonce outside the window is
tried, and the outcome does not depend on the digests there. Starting again behind each nonce that
is found goes through the nonces that select a flow, in order and without a gap, until enough are
found or a search fails. -/
theorem findNonce_first {input start : Nat} (hinput : input < 2 ^ 32) (hstart : start < 2 ^ 64)
    (hash : Bytes → Digest) (b l factor : Nat) :
    ((window b l factor start ∩ selecting hash input b l).Nonempty →
      ∃ s, findNonce hash input b l start factor = .ok s ∧
        IsLeast (window b l factor start ∩ selecting hash input b l) s.nonce ∧
        select hash input s.nonce b l = .ok s ∧ s.digest = hash (message input s.nonce) ∧
        s.flowId < 2 ^ l ∧ s.flowId ≤ mask b) ∧
    (Disjoint (window b l factor start) (selecting hash input b l) →
      ∃ fault, findNonce hash input b l start factor = .error (.exhausted fault) ∧
        fault.message = if 2 ^ 64 - 1 ≤ start + 2 ^ (b - l) * factor then "nonce overflow"
          else s!"could not find valid flow_id within {(factor : Int)}x expected attempts") ∧
    (record hash input b l start factor).2 = findNonce hash input b l start factor ∧
    (∀ n ∈ (record hash input b l start factor).1, n ∈ window b l factor start) ∧
    (∀ hash' : Bytes → Digest,
      (∀ n ∈ window b l factor start, hash' (message input n) = hash (message input n)) →
        findNonce hash' input b l start factor = findNonce hash input b l start factor) ∧
    ∀ count, ∃ stop, start ≤ stop ∧
      (restarts (fun n : Nat => findNonce hash input b l n factor) count start).map
          Selection.nonce =
        (List.range' start (stop - start)).filter (fun n : Nat => (select hash input n b l).isOk) ∧
      ((restarts (fun n : Nat => findNonce hash input b l n factor) count start).length = count ∨
        ∃ fault, findNonce hash input b l stop factor = .error fault) := by
  refine ⟨fun hnonempty => ?_, fun hdisjoint => ?_, record_snd hinput hstart hash b l factor,
    fun n => mem_window_of_mem_record hstart, fun hash' h => findNonce_congr hinput hstart h,
    exists_restarts_eq hinput⟩
  · -- Giving up would mean that the window has no such nonce.
    cases h : findNonce hash input b l start factor with
    | error fault =>
      obtain ⟨hdisjoint, -⟩ := (findNonce_eq_error_iff hinput hstart).mp h
      exact absurd hdisjoint (Set.not_disjoint_iff_nonempty_inter.mpr hnonempty)
    | ok s =>
      obtain ⟨hselect, hleast⟩ := (findNonce_eq_ok_iff hinput hstart).mp h
      obtain ⟨-, hfields⟩ := eq_of_select_eq_ok hinput (lt_of_mem_window hleast.1.1) hselect
      exact ⟨s, rfl, hleast, hselect, hfields⟩
  · refine ⟨_, (findNonce_eq_error_iff hinput hstart).mpr ⟨hdisjoint, rfl⟩, ?_⟩
    split <;> rfl

/-- A digest that is zero in front for the last nonce but one. -/
def lateHash (message : Bytes) : Digest where
  bytes := (if message = Flow.message 7 (2 ^ 64 - 2) then 0 else 1) :: List.replicate 31 0
  length_bytes := by simp

/-- From the last nonce but two a search finds the one behind, and from the last nonce it
runs over. -/
theorem findNonce_first_sample :
    (∃ s, findNonce lateHash (7 : Nat) (8 : Nat) (0 : Nat) (2 ^ 64 - 3 : Nat) (1 : Nat) = .ok s ∧
      s.nonce = 2 ^ 64 - 2) ∧
    ∃ fault, findNonce lateHash (7 : Nat) (8 : Nat) (0 : Nat) (2 ^ 64 - 1 : Nat) (1 : Nat) =
      .error (.exhausted fault) ∧ fault.message = "nonce overflow" := by
  have hinput : 7 < 2 ^ 32 := by decide
  obtain ⟨hfinds, -⟩ := findNonce_first hinput (show 2 ^ 64 - 3 < 2 ^ 64 by decide) lateHash 8 0 1
  obtain ⟨-, hfails, -⟩ :=
    findNonce_first hinput (show 2 ^ 64 - 1 < 2 ^ 64 by decide) lateHash 8 0 1
  have hvalid : (Puzzle.mk 7 8 0).IsValid lateHash (2 ^ 64 - 2) := by decide +kernel
  have hfirst : ¬ (Puzzle.mk 7 8 0).IsValid lateHash (2 ^ 64 - 3) := by decide +kernel
  have hlast : ¬ (Puzzle.mk 7 8 0).IsValid lateHash (2 ^ 64 - 1) := by decide +kernel
  constructor
  · have hmem : 2 ^ 64 - 2 ∈ window 8 0 1 (2 ^ 64 - 3) ∩ selecting lateHash 7 8 0 :=
      ⟨by simp [window], (mem_selecting_iff hinput (by decide)).mpr hvalid⟩
    obtain ⟨s, hs, hleast, -⟩ := hfinds ⟨_, hmem⟩
    refine ⟨s, hs, ?_⟩
    have hle := hleast.2 hmem
    have hlow := hleast.1.1.1
    have hne : s.nonce ≠ 2 ^ 64 - 3 := by
      intro heq
      exact hfirst ((mem_selecting_iff hinput (by decide)).mp (heq ▸ hleast.1.2))
    omega
  · have hdisjoint : Disjoint (window 8 0 1 (2 ^ 64 - 1)) (selecting lateHash 7 8 0) := by
      rw [Set.disjoint_left]
      intro n hn hselects
      have hlt := lt_of_mem_window hn
      have hlow := hn.1
      obtain rfl : n = 2 ^ 64 - 1 := by omega
      exact hlast ((mem_selecting_iff hinput hlt).mp hselects)
    exact hfails hdisjoint

end Flow

end FlowGate

import FlowGate.Flow.Search
import FlowGate.Proofs.Flow.Selection
import Mathlib.Order.Bounds.Basic

/-!
# The first hit

A search that tries one nonce after the other gives the first nonce that selects a flow, and fails
exactly if no nonce of its window does. The search for the next nonce and the search that workers
share have the same window when they start at zero, so they give the same flow.

## Main definitions

* `Puzzle.Finds` — a selection is what its own nonce gives

## Main results

* `Puzzle.firstHit?_eq_some_iff`, `Puzzle.firstHit?_eq_none_iff` — the first hit of a window
* `Puzzle.searchFrom_eq`, `Flow.findNonce_eq` — a search within a budget is the first hit of its
  window
* `Flow.findSmallest_eq_ok_iff`, `Flow.exists_findSmallest_exhausted_iff` — both searches give the
  same flow, and both give up in the same cases
* `Flow.isLeast_of_findSmallest_eq_ok` — the nonce that is found is the smallest
-/

namespace FlowGate

namespace Puzzle

variable {hash : Bytes → Digest} {p : Puzzle} {n nonce count : Nat} {s : Selection}

/-- A selection is what its own nonce gives. -/
def Finds (hash : Bytes → Digest) (p : Puzzle) (s : Selection) : Prop :=
  p.attempt hash s.nonce = .hit s

theorem finds_of_attempt_eq_hit (h : p.attempt hash n = .hit s) : p.Finds hash s ∧ s.nonce = n := by
  obtain ⟨-, rfl⟩ := attempt_eq_hit_iff.mp h
  exact ⟨h, rfl⟩

theorem Finds.isValid (h : p.Finds hash s) : p.IsValid hash s.nonce :=
  (attempt_eq_hit_iff.mp h).1

/-- A selection is determined by its nonce. -/
theorem Finds.eq {s' : Selection} (h : p.Finds hash s) (h' : p.Finds hash s')
    (hnonce : s.nonce = s'.nonce) : s = s' := by
  rw [Finds, hnonce, h'] at h
  exact (Attempt.hit.inj h).symm

theorem not_isValid_of_attempt_eq_miss {label : Nat} {digest : Digest}
    (h : p.attempt hash n = .miss label digest) : ¬ p.IsValid hash n := by
  intro hvalid
  rw [attempt_eq_hit_iff.mpr ⟨hvalid, rfl⟩] at h
  cases h

/-- A window has no hit if and only if none of its nonces is valid. -/
theorem firstHit?_eq_none_iff :
    p.firstHit? hash count nonce = none ↔
      ∀ m, nonce ≤ m → m < nonce + count → ¬ p.IsValid hash m := by
  induction count generalizing nonce with
  | zero => simp [firstHit?]; omega
  | succ count ih =>
    rw [firstHit?]
    cases hattempt : p.attempt hash nonce with
    | hit found =>
      obtain ⟨hfinds, rfl⟩ := finds_of_attempt_eq_hit hattempt
      simp only [reduceCtorEq, false_iff, not_forall, not_not]
      exact ⟨found.nonce, Nat.le_refl _, by omega, hfinds.isValid⟩
    | miss label digest =>
      have hmiss := not_isValid_of_attempt_eq_miss hattempt
      simp only [ih]
      constructor
      · intro h m hlow hhigh
        -- The first nonce is tried, and the others by the attempts that are left.
        by_cases hm : m = nonce
        · exact hm ▸ hmiss
        · exact h m (by omega) (by omega)
      · intro h m hlow hhigh
        exact h m (by omega) (by omega)

/-- The first hit of a window is a hit behind nonces that are not valid. -/
theorem firstHit?_eq_some_iff :
    p.firstHit? hash count nonce = some s ↔
      p.Finds hash s ∧ nonce ≤ s.nonce ∧ s.nonce < nonce + count ∧
        ∀ m, nonce ≤ m → m < s.nonce → ¬ p.IsValid hash m := by
  induction count generalizing nonce with
  | zero => simp [firstHit?]; omega
  | succ count ih =>
    rw [firstHit?]
    cases hattempt : p.attempt hash nonce with
    | hit found =>
      obtain ⟨hfinds, rfl⟩ := finds_of_attempt_eq_hit hattempt
      simp only [Option.some.injEq]
      constructor
      · rintro rfl
        exact ⟨hfinds, Nat.le_refl _, by omega, fun m hlow hhigh => by omega⟩
      · rintro ⟨hs, hlow, -, hbelow⟩
        -- Nothing below the first hit is valid, and the nonce that is tried is.
        have hle : s.nonce ≤ found.nonce := by
          by_contra hlt
          exact hbelow found.nonce (Nat.le_refl _) (by omega) hfinds.isValid
        exact hfinds.eq hs (Nat.le_antisymm hlow hle)
    | miss label digest =>
      have hmiss := not_isValid_of_attempt_eq_miss hattempt
      simp only [ih]
      constructor
      · rintro ⟨hs, hlow, hhigh, hbelow⟩
        refine ⟨hs, by omega, by omega, fun m hm hlt => ?_⟩
        by_cases heq : m = nonce
        · exact heq ▸ hmiss
        · exact hbelow m (by omega) hlt
      · rintro ⟨hs, hlow, hhigh, hbelow⟩
        have hne : s.nonce ≠ nonce := by
          intro heq
          exact hmiss (heq ▸ hs.isValid)
        exact ⟨hs, by omega, by omega, fun m hm hlt => hbelow m (by omega) hlt⟩

/-- A search within a budget gives the first hit of its window, which ends at the largest nonce. It
stops there if the budget reaches that far. -/
theorem searchFrom_eq (hash : Bytes → Digest) (p : Puzzle) (factor : Int) (budget : Nat)
    (h : nonce ≤ Flow.maxNonce) :
    p.searchFrom hash factor budget nonce =
      match p.firstHit? hash (min budget (Flow.maxNonce - nonce) + 1) nonce with
      | some found => .ok found
      | none => .error (if Flow.maxNonce ≤ nonce + budget then .nonceOverflow
          else .budgetSpent (toString factor)) := by
  -- The next nonce has one attempt less, and the last nonce none.
  induction budget generalizing nonce with
  | zero =>
    rw [searchFrom, Nat.zero_min, Nat.zero_add, firstHit?]
    cases p.attempt hash nonce with
    | hit found => rfl
    | miss label digest =>
      simp only [firstHit?, Nat.add_zero, ge_iff_le]
      split <;> rfl
  | succ budget ih =>
    rw [searchFrom]
    cases hattempt : p.attempt hash nonce with
    | hit found => simp [firstHit?, hattempt]
    | miss label digest =>
      simp only [firstHit?, hattempt, ge_iff_le]
      by_cases hlast : Flow.maxNonce ≤ nonce
      · -- The window of the last nonce ends with it.
        have hwidth : min (budget + 1) (Flow.maxNonce - nonce) = 0 := by omega
        have hover : Flow.maxNonce ≤ nonce + (budget + 1) := by omega
        rw [hwidth, if_pos hlast, if_pos hover]
        rfl
      · have hwidth : min (budget + 1) (Flow.maxNonce - nonce) =
            min budget (Flow.maxNonce - (nonce + 1)) + 1 := by omega
        have hsum : nonce + 1 + budget = nonce + (budget + 1) := by omega
        rw [if_neg hlast, ih (by omega), hwidth, hsum]

end Puzzle

namespace Flow

variable {hash : Bytes → Digest} {input nonce workers : Nat} {s : Selection}

/-- An input and a nonce select the flow that the nonce gives. -/
theorem select_eq_ok_iff (hinput : input < 2 ^ 32) (hnonce : nonce < 2 ^ 64) (b l : Nat) :
    select hash input nonce b l = .ok s ↔ (Puzzle.mk input b l).attempt hash nonce = .hit s := by
  rw [select_eq hinput hnonce]
  cases (Puzzle.mk input b l).attempt hash nonce <;> simp

/-- The last nonce that workers try. -/
theorem lastNonce_eq (b l factor : Nat) :
    lastNonce b l factor = min (2 ^ (b - l) * factor) (2 ^ 64 - 1) := by
  have hexponent : ((b : Int) - l).toNat = b - l := by omega
  rw [lastNonce, expectedAttempts, hexponent, Int.toNat_natCast, maxNonce]

theorem lastNonce_lt (b l factor : Nat) : lastNonce b l factor < 2 ^ 64 := by
  rw [lastNonce_eq]
  omega

/-- A search gives the first hit of its window. -/
theorem findNonce_eq (hinput : input < 2 ^ 32) (hnonce : nonce < 2 ^ 64) (b l factor : Nat) :
    findNonce hash input b l nonce factor =
      match (Puzzle.mk input b l).firstHit? hash
        (min (expectedAttempts b l * factor) (maxNonce - nonce) + 1) nonce with
      | some found => .ok found
      | none => .error (.exhausted
          (if maxNonce ≤ nonce + expectedAttempts b l * factor then .nonceOverflow
            else .budgetSpent (toString (factor : Int)))) := by
  have hfactor : decide (0 ≤ (factor : Int)) = true := decide_eq_true (Int.natCast_nonneg factor)
  have hcheck : checkPuzzle input nonce b l = .ok ⟨input, b, l⟩ :=
    checkPuzzle_eq hinput hnonce b l
  have hle : nonce ≤ maxNonce := Nat.le_sub_one_of_lt hnonce
  rw [findNonce, hfactor, ensure_true, bind_of_eq_ok rfl, bind_of_eq_ok hcheck, Int.toNat_natCast,
    Int.toNat_natCast, searchWithin, Puzzle.searchFrom_eq _ _ _ _ hle]
  cases (Puzzle.mk input b l).firstHit? hash
    (min (expectedAttempts b l * factor) (maxNonce - nonce) + 1) nonce <;> rfl

/-- The search that starts at zero gives the first hit up to the last nonce of the workers. -/
theorem findNonce_zero_eq (hinput : input < 2 ^ 32) (b l factor : Nat) :
    findNonce hash input b l 0 factor =
      match (Puzzle.mk input b l).firstHit? hash (lastNonce b l factor + 1) 0 with
      | some found => .ok found
      | none => .error (.exhausted
          (if maxNonce ≤ expectedAttempts b l * factor then .nonceOverflow
            else .budgetSpent (toString (factor : Int)))) := by
  have hsearch := @findNonce_eq hash input 0 hinput (Nat.two_pow_pos 64) b l factor
  rwa [Nat.sub_zero, Nat.zero_add] at hsearch

/-- The search that workers share gives the first hit up to their last nonce. -/
theorem findSmallest_eq (hinput : input < 2 ^ 32) (hworkers : 0 < workers) (b l factor : Nat) :
    findSmallest hash input b l workers factor none =
      match (Puzzle.mk input b l).firstHit? hash (lastNonce b l factor + 1) 0 with
      | some found => .ok found
      | none => .error (.exhausted (.budgetSpent (toString (factor : Int)))) := by
  have hpositive : decide (0 < (workers : Int)) = true := decide_eq_true (by omega)
  have hfactor : decide (0 ≤ (factor : Int)) = true := decide_eq_true (Int.natCast_nonneg factor)
  have hcheck : checkPuzzle input 0 b l = .ok ⟨input, b, l⟩ :=
    checkPuzzle_eq hinput (Nat.two_pow_pos 64) b l
  rw [findSmallest, hpositive, hfactor, ensure_true, ensure_true, bind_of_eq_ok rfl,
    bind_of_eq_ok rfl, bind_of_eq_ok hcheck]
  unfold smallestUpTo
  cases (Puzzle.mk input b l).firstHit? hash (lastNonce b l factor + 1) 0 <;> rfl

/-- Both searches give the same flow. -/
theorem findSmallest_eq_ok_iff (hinput : input < 2 ^ 32) (hworkers : 0 < workers)
    (b l factor : Nat) :
    findSmallest hash input b l workers factor none = .ok s ↔
      findNonce hash input b l 0 factor = .ok s := by
  rw [findSmallest_eq hinput hworkers, findNonce_zero_eq hinput]
  cases (Puzzle.mk input b l).firstHit? hash (lastNonce b l factor + 1) 0 <;> simp

/-- Both searches give up in the same cases, though one of them may say why differently. -/
theorem exists_findSmallest_exhausted_iff (hinput : input < 2 ^ 32) (hworkers : 0 < workers)
    (b l factor : Nat) :
    (∃ fault, findSmallest hash input b l workers factor none = .error (.exhausted fault)) ↔
      ∃ fault, findNonce hash input b l 0 factor = .error (.exhausted fault) := by
  rw [findSmallest_eq hinput hworkers, findNonce_zero_eq hinput]
  cases (Puzzle.mk input b l).firstHit? hash (lastNonce b l factor + 1) 0 <;> simp

/-- The nonce that is found is the smallest one up to the last that selects a flow. -/
theorem isLeast_of_findSmallest_eq_ok (hinput : input < 2 ^ 32) (hworkers : 0 < workers)
    (b l factor : Nat) (h : findSmallest hash input b l workers factor none = .ok s) :
    IsLeast {n : Nat | n ≤ lastNonce b l factor ∧ ∃ found, select hash input n b l = .ok found}
      s.nonce := by
  have hlast := lastNonce_lt b l factor
  rw [findSmallest_eq hinput hworkers] at h
  cases hfirst : (Puzzle.mk input b l).firstHit? hash (lastNonce b l factor + 1) 0 with
  | none => simp [hfirst] at h
  | some found =>
    obtain rfl : found = s := by simpa [hfirst] using h
    obtain ⟨hfinds, -, hlt, hbelow⟩ := Puzzle.firstHit?_eq_some_iff.mp hfirst
    constructor
    · exact ⟨by omega, found, (select_eq_ok_iff hinput (by omega) b l).mpr hfinds⟩
    · rintro n ⟨hn, other, hother⟩
      obtain ⟨hvalid, rfl⟩ := Puzzle.finds_of_attempt_eq_hit
        ((select_eq_ok_iff hinput (by omega) b l).mp hother)
      by_contra hlt
      exact hbelow other.nonce (Nat.zero_le _) (by omega) hvalid.isValid

end Flow

end FlowGate

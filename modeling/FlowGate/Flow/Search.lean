import FlowGate.Flow.Puzzle

/-!
# The nonce search

Nonces are tried in order until one selects a flow. A search has a budget of further attempts after
the first one, a multiple of the expected number.

## Main definitions

* `Puzzle.searchFrom` — the search from a nonce, one nonce after the other
* `Puzzle.firstHit?` — the first hit among consecutive nonces
* `Flow.searchWithin`, `Flow.findNonce` — the search within a budget, and with its checks
* `Flow.smallestUpTo`, `Flow.findSmallest` — the search from nonce zero, shared by several workers
-/

namespace FlowGate

namespace Puzzle

/-- Tries nonces in order until one selects a flow. At most `budget` further nonces are tried after
the first one, and none beyond the largest nonce; `factor` is shown when the budget is spent. -/
def searchFrom (hash : Bytes → Digest) (p : Puzzle) (factor : Int) :
    (budget nonce : Nat) → Except SearchFault Selection
  | budget, nonce =>
    match p.attempt hash nonce with
    | .hit found => .ok found
    | .miss _ _ =>
      -- With the largest nonce tried, what is left of the budget does not matter.
      if nonce ≥ Flow.maxNonce then .error .nonceOverflow
      else
        match budget with
        | 0 => .error (.budgetSpent (toString factor))
        | budget + 1 => searchFrom hash p factor budget (nonce + 1)

/-- The first hit among `count` consecutive nonces. -/
def firstHit? (hash : Bytes → Digest) (p : Puzzle) : (count nonce : Nat) → Option Selection
  | 0, _ => none
  | count + 1, nonce =>
    match p.attempt hash nonce with
    | .hit found => some found
    | .miss _ _ => firstHit? hash p count (nonce + 1)

end Puzzle

namespace Flow

/-- The number of attempts that a search has after its first one unless told otherwise, as a
multiple of the expected number. -/
def defaultFactor : Int := 100

/-- The first nonce from `start` on that selects a flow, within a budget of further nonces. -/
def searchWithin (hash : Bytes → Digest) (p : Puzzle) (budget : Nat) (factor : Int) (start : Nat) :
    Except Error Selection :=
  match p.searchFrom hash factor budget start with
  | .ok found => .ok found
  | .error fault => .error (.exhausted fault)

/-- The first nonce from `start` on that selects a flow, with the checks that come before the
search. -/
def findNonce (hash : Bytes → Digest) (input b l start factor : Int) :
    Except Error Selection := do
  ensure (0 ≤ factor) (.invalid (.negative "attempt_factor"))
  let puzzle ← checkPuzzle input start b l
  searchWithin hash puzzle (expectedAttempts b l * factor.toNat) factor start.toNat

/-- The last nonce that workers try. -/
def lastNonce (b l factor : Int) : Nat :=
  min (expectedAttempts b l * factor.toNat) maxNonce

/-- The smallest nonce that selects a flow, as workers find it that share the nonces up to the last
one. A time limit, given by its text, is set only for a search that outlasts it; the workers then
stop before any of them has found a nonce. The factor of the budget is shown when the budget is
spent. -/
def smallestUpTo (hash : Bytes → Digest) (p : Puzzle) (last : Nat) (factor : String)
    (limit : Option String) : Except Error Selection :=
  match limit with
  | some text => .error (.timedOut text)
  | none =>
    match p.firstHit? hash (last + 1) 0 with
    | some found => .ok found
    | none => .error (.exhausted (.budgetSpent factor))

/-- The smallest nonce that selects a flow, with the checks that come before the search. -/
def findSmallest (hash : Bytes → Digest) (input b l workers factor : Int)
    (limit : Option String) : Except Error Selection := do
  ensure (0 < workers) (.invalid (.notPositive "workers"))
  ensure (0 ≤ factor) (.invalid (.negative "attempt_factor"))
  let puzzle ← checkPuzzle input 0 b l
  smallestUpTo hash puzzle (lastNonce b l factor) (toString factor) limit

end Flow

end FlowGate

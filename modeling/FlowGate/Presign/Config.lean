import FlowGate.Error
import FlowGate.Flow.Odds

/-!
# Protocol parameters

## Main definitions

* `Config` — participants, flows, width of the flow ids, width of the prefix, required flows
* `Config.validate` — the parameters that the protocol admits
-/

namespace FlowGate

/-- The parameters of the protocol: `n` participants, `m` flows, flow ids of `l` bits, prefixes of
`b` bits, and `k` required flows. -/
structure Config where
  (n m l b k : Int)
  deriving DecidableEq, Repr

namespace Config

/-- Refuses a prefix width above 32 or not in whole bytes, ids wider than the prefix, and negative
numbers, in this order. -/
def validate (c : Config) : Except Error Unit := do
  ensure (c.b ≤ 32) (.encoding .configWidthRange)
  ensure (c.b % 8 == 0) (.encoding .configWidthMultiple)
  ensure (c.l ≤ c.b) (.invalid .idSpaceTooLarge)
  ensure (0 ≤ c.n && 0 ≤ c.m && 0 ≤ c.l && 0 ≤ c.b && 0 ≤ c.k) (.invalid (.negative "parameters"))

/-- The expected number of nonces that a search tries. -/
def expectedAttempts (c : Config) : Nat :=
  Flow.expectedAttempts c.b c.l

end Config

end FlowGate

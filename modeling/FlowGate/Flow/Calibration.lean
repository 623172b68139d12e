import FlowGate.Decimal.Number
import FlowGate.Flow.Puzzle

/-!
# Hash rate

A number of hashes over a measured time gives a rate, and the rate an estimate of how long a search
takes.

## Main definitions

* `Calibration` — a number of hashes over a time
* `Calibration.rate`, `Calibration.expectedSeconds` — the rate and the estimate, as bit patterns
* `Calibration.rateLine` — the line that shows a rate
-/

namespace FlowGate

/-- A number of hashes over a time in seconds. -/
structure Calibration where
  hashes : Number
  seconds : Number
  deriving DecidableEq, Repr

namespace Calibration

/-- Hashes per second, zero if no time has passed. -/
def rate (c : Calibration) : Except Error UInt64 :=
  if c.seconds.isPositive then c.hashes.div c.seconds else .ok 0

/-- The time that a search of an expected number of attempts takes at this rate. It is infinite if
the rate is not above zero, and then the number of attempts does not matter. -/
def expectedSeconds (c : Calibration) (attempts : Except Error Nat) : Except Error UInt64 := do
  let rate ← c.rate
  if (Number.float rate).stands .atMost (.whole 0) then return Binary64.infinity
  else (Number.whole (← attempts)).div (.float rate)

/-- The line that shows a rate. -/
def rateLine (rate : UInt64) : String :=
  "~" ++ Decimal.fixed 2 rate ++ " H/s"

end Calibration

end FlowGate

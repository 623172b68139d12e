import FlowGate.Flow.Calibration
import FlowGate.Flow.Search
import FlowGate.Value.Arithmetic

/-!
# Flow selection for values of any kind

Messages, the nonce search and the hash rate for arguments whose kind is checked when they are used.
A width is compared before it is used as one, so that a number in floating point passes wherever no
power of two has to be formed from it.

## Main definitions

* `Checked.message`, `Checked.select`, `Checked.findNonce`, `Checked.findSmallest` — selecting flows
* `Checked.calibration`, `Checked.duration`, `Checked.measure` — hash rates

## Main results

* `Checked.expectedAttempts_int` — the expected number for integers
-/

namespace FlowGate.Checked

/-- The message of an input and a nonce; both kinds are checked before the ranges. -/
def message (input nonce : Value) : Except Error Bytes := do
  let input ← input.toInt "input"
  let nonce ← nonce.toInt "nonce"
  Flow.message? input nonce

/-! ### Widths -/

/-- Exponents of two below this can be raised to. -/
def exponentLimit : Int := 2 ^ 63

/-- An exponent of two. Only a whole number is one. -/
def exponent (v : Value) : Except Error Int :=
  match v.number? with
  | some (.whole n) =>
    if n < exponentLimit then .ok n else .error (.overflow .powerTooLarge)
  | _ => .error (.wrongType (.unsupported "<<" (Value.int 1).kindName v.kindName))

/-- The width of a prefix. From 32 on all widths mask the whole word, and any number is one. -/
def maskWidth (b : Value) : Except Error Int := do
  Value.demand .atLeast b (.int 0) (.invalid (.negative "b_bits"))
  if ← b.compare .atLeast (.int 32) then return 32
  exponent b

/-- The mask of a prefix width. -/
def mask (b : Value) : Except Error Nat := do
  Flow.mask? (← maskWidth b)

/-- The expected number of nonces tried. A difference below zero counts as zero. -/
def expectedAttempts (b l : Value) : Except Error Nat := do
  let difference ← b.minus l
  if difference.stands .less (.whole 0) then return 1
  return Flow.expectedAttempts (← exponent (.ofNumber difference)) 0

/-- For integers the expected number is that of the search itself. -/
theorem expectedAttempts_int {b l : Int} (h : b - l < exponentLimit) :
    expectedAttempts (.int b) (.int l) = .ok (Flow.expectedAttempts b l) := by
  simp only [expectedAttempts, Value.minus, Value.combine, Value.number?, Number.sub,
    Number.combine, bind, Except.bind, Number.stands_whole_less, Value.ofNumber, exponent, h,
    if_true, Flow.expectedAttempts, Int.sub_zero]
  by_cases hlow : b - l < 0
  · have hzero : (b - l).toNat = 0 := by omega
    simp [hlow, hzero, pure, Except.pure]
  · simp [hlow, pure, Except.pure]

/-! ### Selecting flows -/

/-- The input, the nonce and the widths of prefix and flow ids, checked in the order of their use. -/
def puzzle (input nonce b l : Value) : Except Error (Int × Int × Int × Int) := do
  Value.demand .atLeast l (.int 0) (.invalid (.negative "l_bits"))
  let input ← input.toInt "input"
  let nonce ← nonce.toInt "nonce"
  let _ ← Flow.message? input nonce
  let b ← maskWidth b
  return (input, nonce, b, ← exponent l)

/-- The flow that an input and a nonce select; the width of the flow ids is checked first. -/
def select (hash : Bytes → Digest) (input nonce b l : Value) : Except Error Selection := do
  let (input, nonce, b, l) ← puzzle input nonce b l
  Flow.select hash input nonce b l

/-- The first nonce that selects a flow; the factor of the budget is checked before the rest. -/
def findNonce (hash : Bytes → Digest) (input b l start factor : Value) :
    Except Error Selection := do
  let factor ← factor.toInt "attempt_factor"
  ensure (0 ≤ factor) (.invalid (.negative "attempt_factor"))
  -- The widths are subtracted before they are checked as widths.
  let attempts ← expectedAttempts b l
  let (input, start, b, l) ← puzzle input start b l
  let p ← Flow.checkPuzzle input start b l
  Flow.searchWithin hash p (attempts * factor.toNat) factor start.toNat

/-- A time limit, by its text. -/
def limit : Value → Option String
  | .none => none
  | v => some v.shown

/-- The smallest nonce that selects a flow; workers and factor are checked before the rest. -/
def findSmallest (hash : Bytes → Digest) (input b l workers timeout factor : Value) :
    Except Error Selection := do
  let workers ← workers.toInt "workers"
  ensure (0 < workers) (.invalid (.notPositive "workers"))
  Value.demand .atLeast factor (.int 0) (.invalid (.negative "attempt_factor"))
  let attempts : Nat ← expectedAttempts b l
  -- A factor in floating point makes a budget in floating point.
  let budget ← (Value.int attempts).times factor
  let (input, nonce, b, l) ← puzzle input (.int 0) b l
  let p ← Flow.checkPuzzle input nonce b l
  Flow.smallestUpTo hash p (min budget.bound.toNat Flow.maxNonce) factor.shown (limit timeout)

/-! ### Hash rates -/

/-- A number of hashes over a time. If no time has passed, the hashes do not matter. -/
def calibration (hashes time : Value) : Except Error Calibration := do
  let passed ← time.compare .more (.int 0)
  let seconds := time.number?.getD (.whole 0)
  match hashes.number? with
  | some n => return ⟨n, seconds⟩
  | none =>
    if passed then throw (.wrongType (.unsupported "/" hashes.kindName time.kindName))
    return ⟨.whole 0, seconds⟩

/-- The time that a measurement takes. -/
def duration : Value → Except Error Number
  | .int n => positive (.whole n)
  | .float pattern => positive (.float pattern)
  | _ => .error (.wrongType (.notNumber "duration_secs"))
where
  /-- A time that is not negative. -/
  positive (time : Number) : Except Error Number := do
    ensure (time.stands .atLeast (.whole 0)) (.invalid (.negative "duration_secs"))
    return time

/-- The time between the start of a measurement and the first look at the clock, a tenth of a
microsecond, as a pattern. -/
def firstLook : UInt64 := 0x3e7ad7f29abcaf48

/-- A measurement on an ideal clock, which stands still from the first look up to the first hash and
has then reached the duration. Nothing is hashed if the duration is over at the first look, and then
the input does not matter. The end of the measurement has to be a time of the clock, which counts in
floating point. -/
def measure (time input : Value) : Except Error Calibration := do
  let time ← duration time
  -- A duration that is no time of the clock fails before anything is hashed.
  let _ ← time.pattern
  if time.stands .more (.float firstLook) then
    let _ ← message input (.int 0)
    return ⟨.whole 1, time⟩
  else return ⟨.whole 0, .float firstLook⟩

end FlowGate.Checked

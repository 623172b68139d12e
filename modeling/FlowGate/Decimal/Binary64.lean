import FlowGate.Power

/-!
# Binary floating point of 64 bits

Numbers with a 53-bit significand, handled by their bit patterns: the nearest one to a ratio, and
the exact value of one.

## Main definitions

* `Binary64.nearest?` — the pattern nearest to a nonnegative ratio, ties to even, `none` above the
  largest finite number
* `Binary64.ofInt?` — the same for an integer of either sign
* `Binary64.parts` — significand and exponent of a finite number

* `Binary64.combine` — an operation on numbers as an operation on their patterns

Infinities and the quiet not-a-number are the patterns `infinity` and `notANumber`.
-/

namespace FlowGate.Binary64

/-- The pattern of positive infinity. -/
def infinity : UInt64 := 0x7ff0000000000000

/-- The pattern of the quiet not-a-number. -/
def notANumber : UInt64 := 0x7ff8000000000000

/-- The bit that makes a number negative. -/
def signBit : UInt64 := 0x8000000000000000

/-- The quotient rounded to a whole number, a half going to the even neighbour. -/
def roundHalfEven (num den : Nat) : Nat :=
  let q := num / den
  let r := num % den
  if 2 * r > den || (2 * r == den && q % 2 == 1) then q + 1 else q

/-- `num / den` multiplied by two to the power `-shift`, as a ratio. -/
def scaled (num den : Nat) (shift : Int) : Nat × Nat :=
  if shift ≥ 0 then (num, den * 2 ^ shift.toNat) else (num * 2 ^ (-shift).toNat, den)

/-- The exponent of the last place kept for a positive ratio: 52 below its leading bit, and never
below `-1074`. -/
def lastPlace (num den : Nat) : Int :=
  let guess : Int := (num.log2 : Int) - (den.log2 : Int)
  let (n, d) := scaled num den guess
  -- The lengths of the two numbers tell the leading bit up to one place.
  let leading := if n ≥ d then guess else guess - 1
  max (leading - 52) (-1074)

/-- The pattern nearest to `num / den`, ties to even; `none` if it exceeds every finite number. -/
def nearest? (num den : Nat) : Option UInt64 :=
  if num = 0 then some 0
  else
    let place := lastPlace num den
    let (n, d) := scaled num den place
    -- The leading bit of the significand, and what rounding carries, go to the exponent.
    let pattern := (place + 1074).toNat * 2 ^ 52 + roundHalfEven n d
    if pattern < infinity.toNat then some (UInt64.ofNat pattern) else none

/-- The pattern nearest to an integer; `none` if it exceeds every finite number. -/
def ofInt? (n : Int) : Option UInt64 :=
  (nearest? n.natAbs 1).map fun p => if n < 0 then p ||| signBit else p

/-- The significand and the exponent of two of a finite number without its sign. -/
def parts (pattern : UInt64) : Nat × Int :=
  let fraction : Nat := pattern.toNat % 2 ^ 52
  let exponent : Nat := pattern.toNat / 2 ^ 52 % 2 ^ 11
  if exponent = 0 then (fraction, -1074) else (fraction + 2 ^ 52, (exponent : Int) - 1075)

/-- Whether the sign bit is set. -/
def isNegative (pattern : UInt64) : Bool :=
  pattern &&& signBit != 0

/-- Whether a pattern stands for a number, an infinity excluded. -/
def isFinite (pattern : UInt64) : Bool :=
  pattern &&& infinity != infinity

/-- Whether a pattern stands for no number. -/
def isNaN (pattern : UInt64) : Bool :=
  !isFinite pattern && pattern.toNat % 2 ^ 52 != 0

/-- Whether a pattern stands for a zero of either sign. -/
def isZero (pattern : UInt64) : Bool :=
  pattern.toNat % 2 ^ 63 == 0

/-- Whether a pattern stands for a number above zero. -/
def isPositive (pattern : UInt64) : Bool :=
  !isNaN pattern && !isNegative pattern && !isZero pattern

/-- The result of an operation, as a pattern. An operand that is no number is the result, the first
one of two; an operation that has no result gives the not-a-number with its sign bit set. -/
def combine (op : Float → Float → Float) (p q : UInt64) : UInt64 :=
  if isNaN p then p ||| notANumber
  else if isNaN q then q ||| notANumber
  else
    let pattern := (op (Float.ofBits p) (Float.ofBits q)).toBits
    if isNaN pattern then signBit ||| notANumber else pattern

/-- The integer that a finite pattern stands for exactly, if it stands for one. -/
def toInt? (pattern : UInt64) : Option Int :=
  if !isFinite pattern then none
  else
    let (m, e) := parts pattern
    let sign : Int := if isNegative pattern then -1 else 1
    if e ≥ 0 then some (sign * (m * 2 ^ e.toNat : Nat))
    else if m % 2 ^ (-e).toNat = 0 then some (sign * (m / 2 ^ (-e).toNat : Nat))
    else none

end FlowGate.Binary64

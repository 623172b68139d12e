import FlowGate.Decimal.Shortest
import FlowGate.Error

/-!
# Numbers, whole or in floating point

A number is whole or in floating point. Numbers are ordered by their exact values. Two whole numbers
are combined exactly; a whole number that meets a floating-point number is rounded to one first.

## Main definitions

* `Number` — whole numbers and floating-point numbers
* `Number.order?` — the order of two numbers, `none` if one of them is no number
* `Comparison` — the ways in which numbers are compared
* `Number.add`, `Number.sub`, `Number.mul`, `Number.div` — arithmetic
* `Number.bound` — the largest size that a number admits

## Main results

* `Number.stands_whole_atMost`, `Number.stands_whole_less`, … —
  comparisons of whole numbers
* `Number.bound_whole` — a whole number that is not negative admits itself
-/

namespace FlowGate

/-- A whole number, or the bit pattern of a floating-point number. -/
inductive Number
  | whole (n : Int)
  | float (pattern : UInt64)
  deriving DecidableEq, Repr

/-- Where a number lies: below or above every finite number, at a ratio with a positive denominator,
or nowhere. -/
inductive Extent
  | below
  | ratio (num : Int) (den : Nat)
  | above
  | nowhere
  deriving DecidableEq, Repr

/-- The ways in which numbers are compared. -/
inductive Comparison
  | less
  | atMost
  | more
  | atLeast
  deriving DecidableEq, Repr

namespace Comparison

/-- The sign of a comparison. -/
def symbol : Comparison → String
  | less => "<"
  | atMost => "<="
  | more => ">"
  | atLeast => ">="

/-- Whether a comparison holds for an order; none holds where there is no order. -/
def holds : Comparison → Option Ordering → Bool
  | _, none => false
  | less, some o => o.isLT
  | atMost, some o => o.isLE
  | more, some o => o.isGT
  | atLeast, some o => o.isGE

end Comparison

namespace Number

/-- Where a number lies. -/
def extent : Number → Extent
  | whole n => .ratio n 1
  | float pattern =>
    if Binary64.isNaN pattern then .nowhere
    else if !Binary64.isFinite pattern then
      if Binary64.isNegative pattern then .below else .above
    else
      let (m, e) := Binary64.parts pattern
      let num : Int := if Binary64.isNegative pattern then -m else m
      if e ≥ 0 then .ratio (num * (2 ^ e.toNat : Nat)) 1 else .ratio num (2 ^ (-e).toNat)

/-- The order of two numbers by their exact values. -/
def order? (x y : Number) : Option Ordering :=
  match x.extent, y.extent with
  | .nowhere, _ | _, .nowhere => none
  | .ratio m d, .ratio n e => some (compare (m * e) (n * d))
  | .below, .below | .above, .above => some .eq
  | .below, _ | _, .above => some .lt
  | .above, _ | _, .below => some .gt

/-- Whether a comparison holds between two numbers. -/
def stands (c : Comparison) (x y : Number) : Bool := c.holds (x.order? y)

/-- Whether a number is above zero. -/
def isPositive (x : Number) : Bool := x.stands .more (.whole 0)

/-- The largest size that is at most the number, at most `2 ^ 64`; `-1` if no size is. -/
def bound (x : Number) : Int :=
  match x.extent with
  | .ratio m d => max (-1) (min (m / d) (2 ^ 64))
  | .above => 2 ^ 64
  | .below | .nowhere => -1

/-- The text of a number. -/
def text : Number → String
  | whole n => toString n
  | float pattern => Decimal.render .plain pattern

/-! ### Arithmetic -/

/-- A number in floating point; a whole number may be too large for it. -/
def pattern : Number → Except Error UInt64
  | whole n =>
    match Binary64.ofInt? n with
    | some pattern => .ok pattern
    | none => .error (.overflow .integerTooLarge)
  | float pattern => .ok pattern

/-- An operation on numbers, given for whole numbers and in floating point. -/
def combine (exact : Int → Int → Int) (rounded : Float → Float → Float) (x y : Number) :
    Except Error Number :=
  match x, y with
  | whole m, whole n => .ok (whole (exact m n))
  | _, _ => do return float (Binary64.combine rounded (← x.pattern) (← y.pattern))

/-- The sum of two numbers. -/
def add : Number → Number → Except Error Number := combine (· + ·) (· + ·)

/-- The difference of two numbers. -/
def sub : Number → Number → Except Error Number := combine (· - ·) (· - ·)

/-- The product of two numbers. -/
def mul : Number → Number → Except Error Number := combine (· * ·) (· * ·)

/-- The quotient of two numbers by a positive one, as a pattern. That of whole numbers is rounded
once. -/
def div (x y : Number) : Except Error UInt64 :=
  match x, y with
  | whole m, whole n =>
    match Binary64.nearest? m.natAbs n.natAbs with
    | some pattern => .ok (if m < 0 then pattern ||| Binary64.signBit else pattern)
    | none => .error (.overflow .quotientTooLarge)
  | _, _ => do return Binary64.combine (· / ·) (← x.pattern) (← y.pattern)

/-! ### Whole numbers -/

@[simp] theorem extent_whole (n : Int) : (whole n).extent = .ratio n 1 := rfl

@[simp] theorem order?_whole (m n : Int) : (whole m).order? (whole n) = some (compare m n) := by
  simp [order?]

@[simp] theorem stands_whole_atMost (m n : Int) :
    (whole m).stands .atMost (whole n) = decide (m ≤ n) := by
  rw [stands, order?_whole, Comparison.holds, Bool.eq_iff_iff, Ordering.isLE_iff_ne_gt]
  simp [Int.compare_eq_gt]

@[simp] theorem stands_whole_less (m n : Int) :
    (whole m).stands .less (whole n) = decide (m < n) := by
  rw [stands, order?_whole, Comparison.holds, Bool.eq_iff_iff, Ordering.isLT_iff_eq_lt]
  simp [Int.compare_eq_lt]

@[simp] theorem stands_whole_more (m n : Int) :
    (whole m).stands .more (whole n) = decide (m > n) := by
  rw [stands, order?_whole, Comparison.holds, Bool.eq_iff_iff, Ordering.isGT_iff_eq_gt]
  simp [Int.compare_eq_gt]

@[simp] theorem stands_whole_atLeast (m n : Int) :
    (whole m).stands .atLeast (whole n) = decide (m ≥ n) := by
  rw [stands, order?_whole, Comparison.holds, Bool.eq_iff_iff, Ordering.isGE_iff_ne_lt]
  simp [Int.compare_eq_lt]

/-- A whole number that is not negative, and not larger than any size, admits itself. -/
theorem bound_whole {n : Int} (hn : 0 ≤ n) (hlarge : n ≤ 2 ^ 64) : (whole n).bound = n := by
  simp only [bound, extent_whole]
  omega

end Number

end FlowGate

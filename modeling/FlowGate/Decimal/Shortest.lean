import FlowGate.Decimal.Binary64

/-!
# Shortest decimal text

A finite number is written with the fewest significant digits that read back as the same number,
and among those with the digits nearest to it.

## Main definitions

* `Decimal.shortest` — digits and exponent of ten of a positive finite number
* `Layout` — when a number is written positionally and how an exponent looks
* `Decimal.render` — the text of a number in a layout
-/

namespace FlowGate.Decimal

/-- `a / b ≤ c / d` for positive denominators. -/
def ratioLE (a b c d : Nat) : Bool := a * d ≤ c * b

/-- `a / b < c / d` for positive denominators. -/
def ratioLT (a b c d : Nat) : Bool := a * d < c * b

/-- A positive number as an exact ratio, with the ends of the interval that rounds to it, all over
one denominator. The ends belong to the interval iff the significand is even. -/
structure Target where
  low : Nat
  value : Nat
  high : Nat
  denominator : Nat
  closed : Bool

/-- The interval around a positive finite pattern. The gap below a power of two is half as wide. -/
def Target.ofPattern (pattern : UInt64) : Target :=
  let (m, e) := Binary64.parts pattern
  let low := if m = 2 ^ 52 ∧ e > -1074 then 4 * m - 1 else 4 * m - 2
  let up := e - 2
  let scale := if up ≥ 0 then 2 ^ up.toNat else 1
  { low := low * scale
    value := 4 * m * scale
    high := (4 * m + 2) * scale
    denominator := if up ≥ 0 then 1 else 2 ^ (-up).toNat
    closed := m % 2 == 0 }

/-- Whether `n / d` rounds to the target. -/
def Target.admits (t : Target) (n d : Nat) : Bool :=
  if t.closed then ratioLE t.low t.denominator n d && ratioLE n d t.high t.denominator
  else ratioLT t.low t.denominator n d && ratioLT n d t.high t.denominator

/-- `digits · 10 ^ exponent` as a ratio. -/
def ratio (digits : Nat) (exponent : Int) : Nat × Nat :=
  if exponent ≥ 0 then (digits * 10 ^ exponent.toNat, 1) else (digits, 10 ^ (-exponent).toNat)

/-- The multiple of `10 ^ exponent` nearest to the target that rounds to it, a tie going to the
even one. -/
def onGrid? (t : Target) (exponent : Int) : Option Nat :=
  let (n, d) := if exponent ≥ 0 then (t.value, t.denominator * 10 ^ exponent.toNat)
    else (t.value * 10 ^ (-exponent).toNat, t.denominator)
  let admitted (k : Nat) : Bool := let (a, b) := ratio k exponent; t.admits a b
  let nearest := Binary64.roundHalfEven n d
  let below := n / d
  -- The nearest may lie outside where the interval is narrower on one side.
  if admitted nearest then some nearest
  else if admitted below then some below
  else if admitted (below + 1) then some (below + 1)
  else none

/-- The exponent of ten of the leading digit of `n / d`, sought downwards from `start`. -/
def leadingPlace (n d : Nat) (start : Int) : Nat → Int
  | 0 => start
  | fuel + 1 =>
    let (a, b) := ratio 1 start
    if ratioLE a b n d then start else leadingPlace n d (start - 1) fuel

/-- The first hit among the grids of `17 - more`, …, 17 digits. -/
def search (t : Target) (leading : Int) : (more : Nat) → Nat × Int
  | 0 => ((onGrid? t (leading - 16)).getD 0, leading - 16)
  | more + 1 =>
    let exponent := leading - (15 - more : Int)
    match onGrid? t exponent with
    | some k => (k, exponent)
    | none => search t leading more

/-- Removes the zeros at the end of a positive number, moving them into the exponent. -/
def strip (digits : Nat) (exponent : Int) : Nat → Nat × Int
  | 0 => (digits, exponent)
  | fuel + 1 =>
    if digits % 10 = 0 then strip (digits / 10) (exponent + 1) fuel else (digits, exponent)

/-- The digits and the exponent of ten of the shortest text of a positive finite pattern. -/
def shortest (pattern : UInt64) : Nat × Int :=
  let t := Target.ofPattern pattern
  let leading := leadingPlace t.value t.denominator 309 640
  let (digits, exponent) := search t leading 16
  strip digits exponent 20

/-- How numbers look: from which decimal exponent on they are written with an exponent, and how
many digits an exponent has at least. -/
structure Layout where
  positionalFrom : Int
  positionalBelow : Int
  exponentDigits : Nat

/-- Numbers from `0.0001` up to sixteen places before the point are written positionally and keep
a digit behind the point; an exponent has a sign and two digits. -/
def Layout.plain : Layout := ⟨-4, 16, 2⟩

/-- A run of zeros. -/
def zeros (n : Nat) : List Char := List.replicate n '0'

/-- The exponent part of a text. -/
def exponentText (layout : Layout) (e : Int) : List Char :=
  let digits := Nat.toDigits 10 e.natAbs
  'e' :: (if e < 0 then '-' else '+') :: zeros (layout.exponentDigits - digits.length) ++ digits

/-- The text of `digits · 10 ^ exponent`. -/
def place (layout : Layout) (digits : Nat) (exponent : Int) : List Char :=
  let ds := Nat.toDigits 10 digits
  let leading := exponent + ds.length - 1
  if layout.positionalFrom ≤ leading ∧ leading < layout.positionalBelow then
    if exponent ≥ 0 then ds ++ zeros exponent.toNat ++ ['.', '0']
    else if leading ≥ 0 then ds.take (leading.toNat + 1) ++ '.' :: ds.drop (leading.toNat + 1)
    else '0' :: '.' :: zeros ((-leading).toNat - 1) ++ ds
  else
    ds.take 1 ++ (if ds.length > 1 then '.' :: ds.drop 1 else []) ++ exponentText layout leading

/-- The text of a number given by its bit pattern. -/
def render (layout : Layout) (pattern : UInt64) : String :=
  if Binary64.isNaN pattern then "nan"
  else
    let sign := if Binary64.isNegative pattern then ['-'] else []
    let body :=
      if !Binary64.isFinite pattern then ['i', 'n', 'f']
      else if Binary64.isZero pattern then ['0', '.', '0']
      else
        let (digits, exponent) := shortest pattern
        place layout digits exponent
    String.ofList (sign ++ body)

/-- The text of a nonnegative finite number with a fixed count of places behind the point, a half
going to the even neighbour. -/
def fixed (places : Nat) (pattern : UInt64) : String :=
  let (m, e) := Binary64.parts pattern
  let (n, d) := if e ≥ 0 then (m * 2 ^ e.toNat, 1) else (m, 2 ^ (-e).toNat)
  let units := Binary64.roundHalfEven (n * 10 ^ places) d
  let behind := Nat.toDigits 10 (units % 10 ^ places)
  String.ofList (Nat.toDigits 10 (units / 10 ^ places) ++
    '.' :: zeros (places - behind.length) ++ behind)

end FlowGate.Decimal

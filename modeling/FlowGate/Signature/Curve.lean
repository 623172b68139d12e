import FlowGate.Bytes.Basic

/-!
# The curve of edwards25519

Points of the twisted Edwards curve `-x² + y² = 1 + d x² y²` over the field of `2 ^ 255 - 19`
elements, in extended coordinates, with the group law and the encoding in 32 bytes.

## Main definitions

* `Curve.Point` — a point in extended coordinates
* `Curve.Point.add`, `Curve.Point.mul` — the group law and multiples
* `Curve.Point.encode`, `Curve.decode?` — 32 bytes for a point, and back
* `Curve.Point.hasSmallOrder` — the points whose order divides eight
-/

namespace FlowGate.Curve

/-- The size of the field. -/
def field : Nat := 2 ^ 255 - 19

/-- The order of the base point. -/
def order : Nat := 2 ^ 252 + 27742317777372353535851937790883648493

/-- `b ^ e` modulo the size of the field, by squaring. -/
def power (b e : Nat) : Nat :=
  if e = 0 then 1
  else
    let half := power (b * b % field) (e / 2)
    if e % 2 = 1 then half * b % field else half
termination_by e
decreasing_by omega

/-- The inverse of a field element, zero for zero. -/
def inverse (x : Nat) : Nat := power x (field - 2)

/-- The difference of two field elements. -/
def sub (x y : Nat) : Nat := (x + field - y) % field

/-- The curve constant `d`. -/
def d : Nat := 37095705934669439343138083508754565189542113879843219016388785533085940283555

/-- A square root of `-1`. -/
def rootOfMinusOne : Nat :=
  19681161376707505956807079304988542015446066515923890162744021073123829784752

/-- A point `(x / z, y / z)` with `t = x y / z`. -/
structure Point where
  (x y z t : Nat)

namespace Point

/-- The neutral point. -/
def zero : Point := ⟨0, 1, 1, 0⟩

/-- The sum of two points; the formula has no exceptions on this curve. -/
def add (p q : Point) : Point :=
  let a := sub p.y p.x * sub q.y q.x % field
  let b := (p.y + p.x) * (q.y + q.x) % field
  let c := p.t * (2 * d) % field * q.t % field
  let e := 2 * p.z * q.z % field
  let f := sub b a
  let g := sub e c
  let h := (e + c) % field
  let i := (b + a) % field
  ⟨f * g % field, h * i % field, g * h % field, f * i % field⟩

/-- Twice a point. -/
def double (p : Point) : Point :=
  let a := p.x * p.x % field
  let b := p.y * p.y % field
  let c := 2 * p.z * p.z % field
  let h := (a + b) % field
  let s := (p.x + p.y) % field
  let e := sub h (s * s % field)
  let g := sub a b
  let f := (c + g) % field
  ⟨e * f % field, g * h % field, f * g % field, e * h % field⟩

/-- The opposite point. -/
def neg (p : Point) : Point := ⟨sub 0 p.x, p.y, p.z, sub 0 p.t⟩

/-- A multiple of a point, by doubling. -/
def mul (n : Nat) (p : Point) : Point :=
  if n = 0 then zero
  else
    let rest := mul (n / 2) p.double
    if n % 2 = 1 then p.add rest else rest
termination_by n
decreasing_by omega

/-- The 32 bytes of a point: its second coordinate, with the parity of the first in the top bit. -/
def encode (p : Point) : Bytes :=
  let i := inverse p.z
  let x := p.x * i % field
  let y := p.y * i % field
  Bytes.ofNat 32 (y + x % 2 * 2 ^ 255)

/-- Whether eight times the point is neutral. -/
def hasSmallOrder (p : Point) : Bool :=
  let q := p.double.double.double
  q.x == 0 && q.y == q.z

/-- The point that generates the signature group. -/
def base : Point :=
  let x := 15112221349535400772501151409588531511454012693041857206046113283949847762202
  let y := 46316835694926478169428394003475163141307993866256225615783033603165251855960
  ⟨x, y, 1, x * y % field⟩

end Point

/-- A square root of `u / v` in the field, if there is one. -/
def rootOfRatio? (u v : Nat) : Option Nat :=
  let v₃ := v * v % field * v % field
  let v₇ := v₃ * v₃ % field * v % field
  -- A candidate: its square is the ratio up to a fourth root of one.
  let r := u * v₃ % field * power (u * v₇ % field) ((field - 5) / 8) % field
  let check := v * r % field * r % field
  if check = u % field then some r
  else if check = sub 0 (u % field) then some (r * rootOfMinusOne % field)
  else none

/-- The point that 32 bytes encode; the second coordinate has to be below the size of the field. -/
def decode? (bs : Bytes) : Option Point :=
  let n := Bytes.toNat bs
  let y := n % 2 ^ 255
  let odd := n / 2 ^ 255
  if bs.length ≠ 32 ∨ y ≥ field then none
  else
    let y₂ := y * y % field
    (rootOfRatio? (sub y₂ 1) ((d * y₂ + 1) % field)).map fun r =>
      -- Of the two roots the one with the right parity; zero is even in either case.
      let x := if r % 2 = odd then r else sub 0 r
      ⟨x, y, 1, x * y % field⟩

end FlowGate.Curve

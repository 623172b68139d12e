import FlowGate.Decimal.Binary64
import FlowGate.Text.Digit
import FlowGate.Text.UpperCase

/-!
# Reading decimal numbers

A decimal text has an optional sign, digits of any script with an optional point and exponent, or
one of the words for infinity and not-a-number in any case; blanks at its ends do not count and an
underscore may stand between two digits. It is read as the nearest number.

## Main definitions

* `Decimal.Numeral` — digits, how many of them stand behind the point, and the exponent
* `Decimal.read?` — the bit pattern of a decimal text, `none` for any other text
-/

namespace FlowGate.Decimal

/-- The blanks that do not count at the ends of a number: all but the four information separators. -/
def isPadding (c : Char) : Bool :=
  Text.isBlank c && !(0x1c ≤ c.toNat && c.toNat ≤ 0x1f)

/-- A text with decimal digits of any script replaced by those of ASCII, without the blanks at its
ends. -/
def normalize (cs : List Char) : List Char :=
  (Text.trim isPadding cs).map fun c =>
    match Text.decimalValue? c with
    | some d => Char.ofNat (48 + d)
    | none => c

/-- Drops underscores, each of which has to stand between two digits. -/
def dropUnderscores? : (previous : Char) → List Char → Option (List Char)
  | _, [] => some []
  | previous, '_' :: rest =>
    match rest with
    | c :: _ => if previous.isDigit && c.isDigit then dropUnderscores? '_' rest else none
    | [] => none
  | _, c :: rest => (dropUnderscores? c rest).map (c :: ·)

/-- The values of the decimal digits at the start of a text, and the rest. -/
def takeDigits (cs : List Char) : List Nat × List Char :=
  ((cs.takeWhile Char.isDigit).map (·.toNat - 48), cs.dropWhile Char.isDigit)

/-- A sign at the start of a text, and the rest. -/
def takeSign : List Char → Bool × List Char
  | '-' :: rest => (true, rest)
  | '+' :: rest => (false, rest)
  | cs => (false, cs)

/-- A number in decimal form: `digits` without the point, `behind` of which stand behind it, times
a power of ten. -/
structure Numeral where
  digits : List Nat
  behind : Nat
  exponent : Int

/-- The exponent part, which has to end the text. -/
def readExponent? : List Char → Option Int
  | [] => some 0
  | c :: rest =>
    if c = 'e' ∨ c = 'E' then
      let (negative, rest) := takeSign rest
      match takeDigits rest with
      | ([], _) => none
      | (ds, []) => some (if negative then -(Text.ofDecimal ds) else Text.ofDecimal ds)
      | _ => none
    else none

/-- A number without sign. -/
def Numeral.read? (cs : List Char) : Option Numeral :=
  let (whole, rest) := takeDigits cs
  let (behind, rest) :=
    match rest with
    | '.' :: rest => takeDigits rest
    | rest => ([], rest)
  if whole.isEmpty && behind.isEmpty then none
  else (readExponent? rest).map fun e => ⟨whole ++ behind, behind.length, e⟩

/-- The nearest pattern, infinity for what exceeds every finite number. A leading digit beyond the
place 400 or below the place `-400` decides without the power of ten being computed. -/
def Numeral.nearest (x : Numeral) : UInt64 :=
  let n := Text.ofDecimal x.digits
  let places := (x.digits.dropWhile (· == 0)).length
  let exponent := x.exponent - x.behind
  if n = 0 ∨ exponent + places < -400 then 0
  else if exponent + places > 400 then Binary64.infinity
  else
    let found := if exponent ≥ 0 then Binary64.nearest? (n * 10 ^ exponent.toNat) 1
      else Binary64.nearest? n (10 ^ (-exponent).toNat)
    found.getD Binary64.infinity

/-- The words that stand for what is not a finite number. -/
def readWord? (cs : List Char) : Option UInt64 :=
  let word := String.ofList (cs.map Char.toUpper)
  if word = "INF" ∨ word = "INFINITY" then some Binary64.infinity
  else if word = "NAN" then some Binary64.notANumber
  else none

/-- The bit pattern of a decimal text. -/
def read? (text : List Char) : Option UInt64 := do
  let cs ← dropUnderscores? '_' (normalize text)
  let (negative, body) := takeSign cs
  let pattern ← (readWord? body).orElse fun _ => (Numeral.read? body).map Numeral.nearest
  return if negative then pattern ||| Binary64.signBit else pattern

end FlowGate.Decimal

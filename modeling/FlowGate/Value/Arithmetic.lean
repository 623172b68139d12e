import FlowGate.Value

/-!
# Arithmetic on values of any kind

Numbers and truth values are compared and combined, and sequences of one kind are ordered entry by
entry and joined; anything else fails, and the failure names the kinds on both sides.

## Main definitions

* `Value.compare` — whether a comparison holds between two values
* `Value.plus`, `Value.minus`, `Value.times` — arithmetic
* `Value.toIndex` — the whole number that a value counts as
* `Value.asBytes`, `Value.spelled` — the byte string that a value turns into or spells

## Main results

* `Value.compare_int_atMost` — the comparison of integers
-/

namespace FlowGate.Value

/-- Whether a comparison holds between two values. -/
def compare (c : Comparison) (v w : Value) : Except Error Bool :=
  match v, w with
  | text s, text t => .ok (c.holds (some (Ord.compare s.toList t.toList)))
  | bytes s, bytes t => .ok (c.holds (some (Ord.compare s t)))
  | v, w =>
    match v.number?, w.number? with
    | some x, some y => .ok (x.stands c y)
    | _, _ => .error (.wrongType (.unordered c.symbol v.kindName w.kindName))

/-- Fails with the given cause unless a comparison holds between two values. -/
def demand (c : Comparison) (v w : Value) (error : Error) : Except Error Unit := do
  ensure (← v.compare c w) error

/-- An operation on two values that count as numbers; `symbol` is its sign. -/
def combine {α : Type} (symbol : String) (op : Number → Number → Except Error α) (v w : Value) :
    Except Error α :=
  match v.number?, w.number? with
  | some x, some y => op x y
  | _, _ => .error (.wrongType (.unsupported symbol v.kindName w.kindName))

/-- The difference of two values. -/
def minus : Value → Value → Except Error Number := combine "-" Number.sub

/-- The product of two values. -/
def times : Value → Value → Except Error Number := combine "*" Number.mul

/-- A number as a value. -/
def ofNumber : Number → Value
  | .whole n => int n
  | .float pattern => float pattern

/-- The sum of two numbers, or one sequence after another of its kind. -/
def plus : Value → Value → Except Error Value
  | text s, text t => .ok (text (s ++ t))
  | bytes s, bytes t => .ok (bytes (s ++ t))
  | list vs, list ws => .ok (list (vs ++ ws))
  | script s, script t => .ok (script (s ++ t))
  | script _, _ => .error (.wrongType .notScript)
  | bytes _, w => .error (.wrongType (.notJoinable w.kind))
  -- A sequence refuses whatever is not of its kind, numbers included.
  | v@(text _), w | v@(list _), w => .error (.wrongType (.notAppendable v.kind w.kind))
  | v, w => return ofNumber (← combine "+" Number.add v w)

/-- The whole number that a value counts as. -/
def toIndex (v : Value) : Except Error Int :=
  match v.number? with
  | some (.whole n) => .ok n
  | _ => .error (.wrongType (.notIndex v.kindName))

/-- Counts below this can be formed. -/
def countLimit : Int := 2 ^ 63

/-- A count, unless it is too large to be formed, on either side of zero. -/
def toCount (n : Int) : Except Error Int := do
  ensure (-countLimit ≤ n && n < countLimit) (.overflow .countTooLarge)
  return n

/-! ### Bytes -/

/-- A value as one byte. -/
def toByte (v : Value) : Except Error UInt8 := do
  let n ← v.toIndex
  ensure (0 ≤ n && n < 256) (.invalid .byteRange)
  return UInt8.ofNat n.toNat

/-- The byte string that a value turns into: a count gives as many zeros, and a list its entries. -/
def asBytes : Value → Except Error Bytes
  | bytes bs => .ok bs
  | script s => .ok s.code
  | list items => items.mapM toByte
  | text _ => .error (.wrongType .noEncoding)
  | v =>
    match v.number? with
    | some (.whole n) => do
      let n ← toCount n
      ensure (0 ≤ n) (.invalid .negativeCount)
      return List.replicate n.toNat 0
    | _ => .error (.wrongType (.notConvertible v.kindName))

/-- The bytes that a sequence spells. -/
def spelled : Value → Except Error Bytes
  | bytes bs => .ok bs
  | list items => items.mapM toByte
  | v => .error (.wrongType (.notConvertible v.kindName))

/-! ### Integers -/

@[simp] theorem compare_int (c : Comparison) (m n : Int) :
    (int m).compare c (int n) = .ok ((Number.whole m).stands c (.whole n)) := rfl

/-- Integers compare as they are. -/
theorem compare_int_atMost (m n : Int) :
    (int m).compare .atMost (int n) = .ok (decide (m ≤ n)) := by
  simp

end FlowGate.Value

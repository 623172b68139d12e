import FlowGate.Error

/-!
# Script numbers

Numbers on the stack are byte strings: the magnitude with its least significant byte first, and the
sign in the top bit of the last byte. Zero is the empty string. A script accepts only the shortest
form of a number, and only up to a size.

## Main definitions

* `ScriptNumber.encode` — the shortest form of a number
* `ScriptNumber.value` — the number that any byte string stands for
* `ScriptNumber.isMinimal` — whether a byte string is a shortest form
* `ScriptNumber.decode` — the number of a shortest form of limited size
* `Truth.holds`, `Truth.encode` — byte strings as truth values
-/

namespace FlowGate

namespace ScriptNumber

/-- The bytes of a magnitude, least significant first and without zeros at the end. -/
def magnitude (n : Nat) : Bytes :=
  if n = 0 then [] else UInt8.ofNat n :: magnitude (n / 256)
termination_by n
decreasing_by omega

/-- Puts the sign into the top bit of the last byte, or into a byte of its own if that bit is taken
by the magnitude. -/
def sign (negative : Bool) : Bytes → Bytes
  | [] => []
  | [b] =>
    if b &&& 0x80 ≠ 0 then [b, if negative then 0x80 else 0]
    else [if negative then b ||| 0x80 else b]
  | b :: c :: bs => b :: sign negative (c :: bs)

/-- The shortest form of a number. -/
def encode (n : Int) : Bytes :=
  sign (n < 0) (magnitude n.natAbs)

/-- The number that a byte string stands for, whether or not it is a shortest form. -/
def value (bs : Bytes) : Int :=
  let n := bs.toNat
  -- The top bit of the last byte is the sign, and not a part of the magnitude.
  let half := 128 * 256 ^ (bs.length - 1)
  if n < half then n else -((n : Int) - half)

/-- A byte string is a shortest form if its last byte carries more than the sign, or if the byte
before needs the top bit for the magnitude. -/
def isMinimal : Bytes → Bool
  | [] => true
  | [b] => b &&& 0x7f != 0
  | [a, b] => b &&& 0x7f != 0 || a &&& 0x80 != 0
  | _ :: b :: c :: bs => isMinimal (b :: c :: bs)

/-- The number of a shortest form of at most `maxSize` bytes. -/
def decode (maxSize : Int) (bs : Bytes) : Except ExecFault Int :=
  if (bs.length : Int) > maxSize then .error .numberTooLong
  else if isMinimal bs then .ok (value bs)
  else .error .numberNotMinimal

/-- The largest size of a number that an operation takes from the stack. -/
def operandSize : Int := 4

end ScriptNumber

namespace Truth

/-- A byte string is true unless all its bytes are zero, the sign bit of the last one aside. -/
def holds : Bytes → Bool
  | [] => false
  | [b] => b != 0 && b != 0x80
  | b :: c :: bs => b != 0 || holds (c :: bs)

/-- The byte string of a truth value. -/
def encode (b : Bool) : Bytes := if b then [1] else []

@[simp] theorem holds_encode (b : Bool) : holds (encode b) = b := by
  cases b <;> rfl

end Truth

end FlowGate

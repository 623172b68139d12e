import FlowGate.Script.Number

/-!
# Push instructions

The shortest instruction that puts given data, or a given number, onto the stack.

## Main definitions

* `Push.data` — the instruction for a byte string
* `Push.data?` — the same, refusing data whose length does not fit into four bytes
* `Push.number` — the instruction for a number
* `Push.number?` — the same, refusing a number whose bytes no push takes
-/

namespace FlowGate.Push

/-- The longest data that has a push instruction. -/
def maxLength : Nat := 2 ^ 32 - 1

/-- The opcode of a push whose length follows in `width` bytes. -/
def countedLead : (width : Nat) → UInt8
  | 1 => 0x4c
  | 2 => 0x4d
  | _ => 0x4e

/-- A push with the length of the data in `width` bytes. -/
def counted (width : Nat) (data : Bytes) : Bytes :=
  countedLead width :: Bytes.ofNat width data.length ++ data

/-- A push whose opcode is the length of the data. -/
def direct (data : Bytes) : Bytes :=
  UInt8.ofNat data.length :: data

/-- The shortest push of a byte string. -/
def data (bs : Bytes) : Bytes :=
  if bs.length ≤ 75 then direct bs
  else if bs.length ≤ 0xff then counted 1 bs
  else if bs.length ≤ 0xffff then counted 2 bs
  else counted 4 bs

/-- The shortest push of a byte string whose length fits into four bytes. -/
def data? (bs : Bytes) : Except Error Bytes := do
  ensure (bs.length ≤ maxLength) (.invalid .dataTooLong)
  return data bs

/-- The shortest push of a number: a single opcode from `-1` to `16`, else a push of its bytes. -/
def number (n : Int) : Bytes :=
  if n = -1 then [0x4f]
  else if 1 ≤ n ∧ n ≤ 16 then [UInt8.ofNat (0x50 + n.toNat)]
  else data (ScriptNumber.encode n)

/-- The shortest push of a number the length of whose bytes fits into four bytes. -/
def number? (n : Int) : Except Error Bytes := do
  ensure ((ScriptNumber.encode n).length ≤ maxLength) (.invalid .dataTooLong)
  return number n

end FlowGate.Push

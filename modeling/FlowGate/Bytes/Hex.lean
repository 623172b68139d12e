import FlowGate.Bytes.Nibbles

/-!
# Hexadecimal text

Bytes are written as two lower-case digits, the high half first, and read in either case.

## Main definitions

* `Hex.encode` — the hexadecimal text of a byte string
* `Hex.decode?` — the bytes of a hexadecimal text, `none` for any other text

## Main results

* `Hex.decode?_encode` — reading what was written gives the bytes back
-/

namespace FlowGate.Hex

/-- The digit of a number below sixteen. -/
def digit (n : Nat) : Char :=
  if n < 10 then Char.ofNat (48 + n) else Char.ofNat (87 + n)

/-- The value of a hexadecimal digit of either case. -/
def value? (c : Char) : Option Nat :=
  if '0' ≤ c ∧ c ≤ '9' then some (c.toNat - 48)
  else if 'a' ≤ c ∧ c ≤ 'f' then some (c.toNat - 87)
  else if 'A' ≤ c ∧ c ≤ 'F' then some (c.toNat - 55)
  else none

/-- The characters of the hexadecimal text of a byte string. -/
def encodeChars (bs : Bytes) : List Char :=
  bs.toNibbles.map digit

/-- The hexadecimal text of a byte string. -/
def encode (bs : Bytes) : String :=
  String.ofList (encodeChars bs)

/-- The bytes of a text of an even number of hexadecimal digits. -/
def decode? (cs : List Char) : Option Bytes :=
  (cs.mapM value?).bind Bytes.ofNibbles?

/-- A text is hexadecimal if its digits make whole bytes. -/
def isHex (cs : List Char) : Bool :=
  (decode? cs).isSome

theorem value?_digit {n : Nat} (h : n < 16) : value? (digit n) = some n := by
  revert n
  decide

theorem mapM_value?_map_digit {ns : List Nat} (h : ∀ n ∈ ns, n < 16) :
    (ns.map digit).mapM value? = some ns := by
  induction ns with
  | nil => rfl
  | cons n ns ih =>
    simp only [List.mem_cons, forall_eq_or_imp] at h
    simp [value?_digit h.1, ih h.2]

/-- Reading the text of a byte string gives the byte string back. -/
@[simp] theorem decode?_encodeChars (bs : Bytes) : decode? (encodeChars bs) = some bs := by
  simp [decode?, encodeChars, mapM_value?_map_digit fun _ => Bytes.lt_of_mem_toNibbles]

/-- The same for the text as a string. -/
theorem decode?_encode (bs : Bytes) : decode? (encode bs).toList = some bs := by
  simp [encode]

end FlowGate.Hex

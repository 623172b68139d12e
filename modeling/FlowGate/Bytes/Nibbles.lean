import FlowGate.Bytes.Basic

/-!
# Nibbles

A byte is two nibbles, the high half first. The order of the bytes is kept.

## Main definitions

* `Bytes.toNibbles` — the nibbles of a byte string
* `Bytes.ofNibbles?` — the byte string of an even number of nibbles

## Main results

* `Bytes.ofNibbles?_toNibbles` — pairing the nibbles of a byte string gives it back
-/

namespace FlowGate.Bytes

/-- The two nibbles of each byte, high half first. -/
def toNibbles (bs : Bytes) : List Nat :=
  bs.flatMap fun b => [b.toNat / 16, b.toNat % 16]

/-- Pairs nibbles into bytes, which go behind the reverse of `done`. -/
def pairNibbles? (done : Bytes) : List Nat → Option Bytes
  | [] => some done.reverse
  | [_] => none
  | high :: low :: rest => pairNibbles? (UInt8.ofNat (16 * high + low) :: done) rest

/-- The byte string of an even number of nibbles. -/
def ofNibbles? (nibbles : List Nat) : Option Bytes :=
  pairNibbles? [] nibbles

@[simp] theorem toNibbles_nil : toNibbles [] = [] := rfl

@[simp] theorem toNibbles_cons (b : UInt8) (bs : Bytes) :
    toNibbles (b :: bs) = b.toNat / 16 :: b.toNat % 16 :: toNibbles bs := rfl

@[simp] theorem length_toNibbles (bs : Bytes) : (toNibbles bs).length = 2 * bs.length := by
  induction bs with
  | nil => rfl
  | cons b bs ih => simp only [toNibbles_cons, List.length_cons, ih]; omega

/-- A nibble is below sixteen. -/
theorem lt_of_mem_toNibbles {bs : Bytes} {n : Nat} (h : n ∈ toNibbles bs) : n < 16 := by
  induction bs with
  | nil => simp at h
  | cons b bs ih =>
    have hb := b.toNat_lt
    simp only [toNibbles_cons, List.mem_cons] at h
    rcases h with rfl | rfl | h
    · omega
    · omega
    · exact ih h

theorem pairNibbles?_toNibbles (done bs : Bytes) :
    pairNibbles? done (toNibbles bs) = some (done.reverse ++ bs) := by
  induction bs generalizing done with
  | nil => simp [pairNibbles?]
  | cons b bs ih =>
    have hb : UInt8.ofNat (16 * (b.toNat / 16) + b.toNat % 16) = b := by
      rw [Nat.div_add_mod, UInt8.ofNat_toNat]
    simp [pairNibbles?, ih, hb]

/-- Pairing the nibbles of a byte string gives it back. -/
@[simp] theorem ofNibbles?_toNibbles (bs : Bytes) : ofNibbles? (toNibbles bs) = some bs := by
  simp [ofNibbles?, pairNibbles?_toNibbles]

end FlowGate.Bytes

import FlowGate.Power

/-!
# Byte strings

A byte string is a list of bytes. This file gives its little-endian reading as a number and the
little-endian form of a fixed width.

## Main definitions

* `Bytes` — byte strings
* `Bytes.ofNat` — the low bytes of a number, least significant first
* `Bytes.toNat` — the number that a byte string spells, least significant first

## Main results

* `Bytes.length_ofNat` — the form has the asked width
* `Bytes.toNat_ofNat` — reading the form of `width` bytes gives the number modulo `256 ^ width`
* `Bytes.ofNat_toNat` — every byte string is the form of its own number
-/

namespace FlowGate

/-- A byte string, first byte first. -/
abbrev Bytes := List UInt8

namespace Bytes

/-- The `width` low bytes of `n`, least significant byte first. -/
def ofNat : (width n : Nat) → Bytes
  | 0, _ => []
  | width + 1, n => UInt8.ofNat n :: ofNat width (n / 256)

/-- The number that a byte string spells with its least significant byte first. -/
def toNat : Bytes → Nat
  | [] => 0
  | b :: bs => b.toNat + 256 * toNat bs

@[simp] theorem length_ofNat (width n : Nat) : (ofNat width n).length = width := by
  induction width generalizing n with
  | zero => rfl
  | succ width ih => simp [ofNat, ih]

@[simp] theorem toNat_nil : toNat [] = 0 := rfl

theorem toNat_cons (b : UInt8) (bs : Bytes) : toNat (b :: bs) = b.toNat + 256 * toNat bs := rfl

@[simp] theorem toNat_singleton (b : UInt8) : toNat [b] = b.toNat := by
  rw [toNat_cons, toNat_nil, Nat.mul_zero, Nat.add_zero]

/-- A byte string spells a number below `256` to the power of its length. -/
theorem toNat_lt (bs : Bytes) : toNat bs < 256 ^ bs.length := by
  induction bs with
  | nil => simp
  | cons b bs ih =>
    have hb := b.toNat_lt
    simp only [toNat_cons, List.length_cons, Nat.pow_succ]
    omega

theorem toNat_append (as bs : Bytes) :
    toNat (as ++ bs) = toNat as + 256 ^ as.length * toNat bs := by
  induction as with
  | nil => simp
  | cons a as ih =>
    simp only [List.cons_append, toNat_cons, ih, List.length_cons, Nat.pow_succ, Nat.mul_add,
      ← Nat.mul_assoc]
    rw [Nat.mul_comm (256 ^ as.length) 256]
    omega

/-- Reading the form of `width` bytes gives back the number, less what the width cuts off. -/
theorem toNat_ofNat (width n : Nat) : toNat (ofNat width n) = n % 256 ^ width := by
  induction width generalizing n with
  | zero => simp [ofNat, Nat.mod_one]
  | succ width ih =>
    have h : n % 256 ^ (width + 1) = n % 256 + 256 * (n / 256 % 256 ^ width) := by
      rw [Nat.pow_succ, Nat.mul_comm, Nat.mod_mul]
    simp [ofNat, toNat_cons, ih, h]

/-- Every byte string is the form of the number it spells. -/
theorem ofNat_toNat (bs : Bytes) : ofNat bs.length (toNat bs) = bs := by
  induction bs with
  | nil => rfl
  | cons b bs ih =>
    have hb := b.toNat_lt
    have hlow : UInt8.ofNat (b.toNat + 256 * toNat bs) = b := by
      apply UInt8.toNat_inj.mp
      simp only [UInt8.toNat_ofNat']
      omega
    have hhigh : (b.toNat + 256 * toNat bs) / 256 = toNat bs := by omega
    simp only [List.length_cons, toNat_cons, ofNat, hlow, hhigh, ih]

end Bytes

end FlowGate

import FlowGate.Bytes.Nibbles

/-!
# Leading bytes and nibbles

The leading bytes of a little-endian form are the low digits of its number, and the leading nibbles
of a byte string are those of its leading bytes.

## Main results

* `forall_byte` — what holds of the bytes of all numbers below 256 holds of every byte
* `Bytes.toNat_eq_zero_iff` — which byte strings spell zero
* `Bytes.take_ofNat`, `Bytes.toNat_take` — the leading bytes of a form and their number
* `Bytes.toNibbles_injective`, `Bytes.take_toNibbles` — nibbles determine their bytes
-/

namespace FlowGate

/-- What holds of the bytes of all numbers below 256 holds of every byte. -/
theorem forall_byte {P : UInt8 → Prop} (h : ∀ n < 256, P (UInt8.ofNat n)) (b : UInt8) : P b := by
  have hb := h b.toNat b.toNat_lt
  rwa [UInt8.ofNat_toNat] at hb

namespace Bytes

/-- A byte string spells zero if all its bytes are zero. -/
theorem toNat_eq_zero_iff {bs : Bytes} : toNat bs = 0 ↔ ∀ b ∈ bs, b = 0 := by
  induction bs with
  | nil => simp
  | cons b bs ih =>
    rw [toNat_cons, List.forall_mem_cons, ← ih, ← UInt8.toNat_inj, UInt8.toNat_zero]
    omega

/-- The leading bytes of a form are the form of a smaller width. -/
theorem take_ofNat {k width : Nat} (h : k ≤ width) (n : Nat) :
    (ofNat width n).take k = ofNat k n := by
  induction k generalizing width n with
  | zero => rfl
  | succ k ih =>
    obtain ⟨width, rfl⟩ : ∃ w, width = w + 1 := ⟨width - 1, by omega⟩
    rw [ofNat, List.take_succ_cons, ih (Nat.le_of_succ_le_succ h), ofNat]

/-- The leading bytes spell the number without what they cut off. -/
theorem toNat_take (k : Nat) (bs : Bytes) : toNat (bs.take k) = toNat bs % 256 ^ k := by
  by_cases h : k ≤ bs.length
  · have hlength : (bs.take k).length = k := by rw [List.length_take, Nat.min_eq_left h]
    have hsplit : toNat bs = toNat (bs.take k) + 256 ^ k * toNat (bs.drop k) := by
      have happend := toNat_append (bs.take k) (bs.drop k)
      rwa [List.take_append_drop, hlength] at happend
    have hlt := toNat_lt (bs.take k)
    rw [hlength] at hlt
    rw [hsplit, Nat.add_mul_mod_self_left, Nat.mod_eq_of_lt hlt]
  · have hle := Nat.le_of_not_le h
    have hlt := Nat.lt_of_lt_of_le (toNat_lt bs) (Nat.pow_le_pow_right (by decide) hle)
    rw [List.take_of_length_le hle, Nat.mod_eq_of_lt hlt]

theorem toNibbles_append (as bs : Bytes) : toNibbles (as ++ bs) = toNibbles as ++ toNibbles bs :=
  List.flatMap_append

/-- Byte strings with the same nibbles are the same. -/
theorem toNibbles_injective {as bs : Bytes} (h : as.toNibbles = bs.toNibbles) : as = bs := by
  have hpairs := congrArg ofNibbles? h
  rw [ofNibbles?_toNibbles, ofNibbles?_toNibbles] at hpairs
  exact Option.some.inj hpairs

/-- The leading nibbles are those of the leading bytes. -/
theorem take_toNibbles (k : Nat) (bs : Bytes) :
    bs.toNibbles.take (2 * k) = toNibbles (bs.take k) := by
  induction k generalizing bs with
  | zero => rfl
  | succ k ih =>
    cases bs with
    | nil => simp
    | cons b bs => rw [Nat.mul_succ, toNibbles_cons, List.take_succ_cons, List.take_succ_cons, ih,
        List.take_succ_cons, toNibbles_cons]

end Bytes

end FlowGate

import FlowGate.Proofs.Script.Canonical

/-!
# Truth values as numbers

A byte string is a true value exactly if the number that it stands for is not zero, whether or not
it is a shortest form. Zero has many forms: any number of zero bytes, with or without the sign in
the last one.

## Main results

* `ScriptNumber.value_append_single` — the sign is the top bit of the last byte, and the other bits
  are the magnitude
* `ScriptNumber.value_append_single_eq_zero_iff` — the forms of zero
* `Truth.holds_eq` — a byte string is true if it stands for another number than zero
* `Checked.holds_iff_ne_zero` — the truth of byte strings, of shortest forms and of what is read
-/

namespace FlowGate

namespace ScriptNumber

/-! ### Sign and magnitude -/

theorem toNat_and_magnitude (b : UInt8) :
    b.toNat = (b &&& 0x7f).toNat + if 128 ≤ b.toNat then 128 else 0 := by
  revert b
  apply forall_byte
  decide +kernel

/-- The sign of a number is the top bit of the last byte, and the other bits are its magnitude. -/
theorem value_append_single (low : Bytes) (last : UInt8) :
    value (low ++ [last]) =
      (if 128 ≤ last.toNat then -1 else 1) * (Bytes.toNat (low ++ [last &&& 0x7f]) : Int) := by
  have hbare := toNat_and_magnitude last
  by_cases hsign : 128 ≤ last.toNat
  · rw [if_pos hsign] at hbare ⊢
    rw [value_append_of_eq_add _ hbare, Int.neg_one_mul]
  · -- Without the sign the last byte is all magnitude.
    rw [if_neg hsign, Nat.add_zero, UInt8.toNat_inj] at hbare
    rw [if_neg hsign, ← hbare, value_append_of_lt low (Nat.lt_of_not_le hsign), Int.one_mul]

/-- A byte string stands for zero if all its bytes are zero, the sign aside. -/
theorem value_append_single_eq_zero_iff (low : Bytes) (last : UInt8) :
    value (low ++ [last]) = 0 ↔ (∀ b ∈ low, b = 0) ∧ last &&& 0x7f = 0 := by
  have hfactor : (if 128 ≤ last.toNat then -1 else 1 : Int) ≠ 0 := by
    split <;> decide
  rw [value_append_single, Int.mul_eq_zero, or_iff_right hfactor, Int.natCast_eq_zero,
    Bytes.toNat_eq_zero_iff, List.forall_mem_append, List.forall_mem_singleton]

end ScriptNumber

/-! ### Truth values -/

namespace Truth

open ScriptNumber

theorem holds_cons (b : UInt8) {bs : Bytes} (h : bs ≠ []) :
    holds (b :: bs) = (b != 0 || holds bs) := by
  obtain ⟨c, rest, rfl⟩ := List.exists_cons_of_ne_nil h
  rw [holds]

theorem holds_singleton (b : UInt8) : holds [b] = (b &&& 0x7f != 0) := by
  revert b
  apply forall_byte
  decide +kernel

/-- A byte string is true if one of its bytes is not zero, the sign aside. -/
theorem holds_append_single (low : Bytes) (last : UInt8) :
    holds (low ++ [last]) = true ↔ ¬ ((∀ b ∈ low, b = 0) ∧ last &&& 0x7f = 0) := by
  -- The bytes in front are looked at one by one, and the last one only if they are zero.
  induction low with
  | nil => simp [holds_singleton]
  | cons b low ih =>
    rw [List.cons_append, holds_cons b (by simp), Bool.or_eq_true, ih, bne_iff_ne,
      List.forall_mem_cons, and_assoc]
    exact Classical.not_and_iff_not_or_not.symm

/-- A byte string is true if it stands for another number than zero. -/
theorem holds_eq (bs : Bytes) : holds bs = decide (value bs ≠ 0) := by
  rcases List.eq_nil_or_concat bs with rfl | ⟨low, last, rfl⟩
  · rfl
  · rw [List.concat_eq_append, Bool.eq_iff_iff, holds_append_single, decide_eq_true_eq, ne_eq,
      value_append_single_eq_zero_iff]

end Truth

/-! ### Readers of values -/

namespace Checked

open ScriptNumber

/-- A number that was read is the one that its bytes stand for, whatever limits their size. -/
theorem value_eq_of_decodeNumber {bs : Bytes} {maxSize : Value} {m : Int}
    (h : decodeNumber (.bytes bs) maxSize = .ok m) : value bs = m := by
  obtain ⟨found, hfound, h⟩ := bind_ok_iff.mp h
  obtain rfl := Value.bytes.inj (Value.toBytes_eq_ok_iff.mp hfound)
  obtain ⟨-, -, h⟩ := bind_ok_iff.mp h
  cases hdecode : decode bs.length bs with
  | error fault =>
    rw [hdecode] at h
    cases h
  | ok n =>
    rw [hdecode] at h
    obtain rfl := Except.ok.inj h
    exact (decode_eq_ok_iff.mp hdecode).2.2

/-- A byte string of any length is true if the number that it stands for is not zero, minimal or
not. So the shortest form of a number is true if the number is not zero, and a byte string that is
read as a number, under whatever limit of its size, is true if this number is not zero. -/
theorem holds_iff_ne_zero (bs : Bytes) (n m : Int) (maxSize : Value) :
    holds (.bytes bs) = .ok (decide (value bs ≠ 0)) ∧
    (∃ form, encodeNumber (.int n) = .ok form ∧ holds (.bytes form) = .ok (decide (n ≠ 0))) ∧
    (decodeNumber (.bytes bs) maxSize = .ok m → holds (.bytes bs) = .ok (decide (m ≠ 0))) := by
  have hholds : ∀ form : Bytes, holds (.bytes form) = .ok (decide (value form ≠ 0)) :=
    fun form => congrArg Except.ok (Truth.holds_eq form)
  refine ⟨hholds bs, ⟨encode n, rfl, ?_⟩, fun hread => ?_⟩
  · rw [hholds, value_encode]
  · rw [hholds, value_eq_of_decodeNumber hread]

/-- The number -128 takes a second byte for its sign, and is read and true. The same sign behind a
zero byte is a form of zero: no number is read from it, and it is not true. -/
theorem holds_iff_ne_zero_sample :
    decodeNumber (.bytes [0x80, 0x80]) (.int 4) = .ok (-128) ∧
      holds (.bytes [0x80, 0x80]) = .ok true ∧ holds (.bytes [0x00, 0x80]) = .ok false := by
  have hread : decodeNumber (.bytes [0x80, 0x80]) (.int 4) = .ok (-128) := rfl
  exact ⟨hread, (holds_iff_ne_zero [0x80, 0x80] 0 (-128) (.int 4)).2.2 hread,
    (holds_iff_ne_zero [0x00, 0x80] 0 0 (.int 4)).1⟩

end Checked

end FlowGate

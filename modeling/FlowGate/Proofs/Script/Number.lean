import FlowGate.Proofs.Bytes.Basic
import FlowGate.Script.Number

/-!
# Shortest forms of numbers

The shortest form of a number reads back as that number, and its length is the least that leaves a
bit for the sign.

## Main results

* `ScriptNumber.value_encode` — the shortest form of a number stands for the number
* `ScriptNumber.isMinimal_encode` — it is accepted as a shortest form
* `ScriptNumber.length_encode_le_iff` — how many bytes it takes
* `ScriptNumber.decode_encode` — it is read back where its size is allowed
* `ScriptNumber.natAbs_le_of_decode_eq_ok` — a number that an operation took has 31 bits
-/

namespace FlowGate

namespace ScriptNumber

/-! ### Signs of bytes -/

theorem and_sign_ne_zero_iff (b : UInt8) : b &&& 0x80 ≠ 0 ↔ 128 ≤ b.toNat := by
  revert b
  apply forall_byte
  decide +kernel

theorem toNat_or_sign (b : UInt8) (h : b.toNat < 128) : (b ||| 0x80).toNat = b.toNat + 128 := by
  revert b
  apply forall_byte
  decide +kernel

theorem or_sign_and_magnitude_ne_zero (b : UInt8) (hpos : b ≠ 0) (h : b.toNat < 128) :
    (b ||| 0x80) &&& 0x7f ≠ 0 := by
  revert b
  apply forall_byte
  decide +kernel

theorem and_magnitude_ne_zero (b : UInt8) (hpos : b ≠ 0) (h : b.toNat < 128) : b &&& 0x7f ≠ 0 := by
  revert b
  apply forall_byte
  decide +kernel

/-! ### Magnitudes -/

theorem magnitude_zero : magnitude 0 = [] := by
  rw [magnitude]
  rfl

theorem magnitude_of_ne_zero {n : Nat} (h : n ≠ 0) :
    magnitude n = UInt8.ofNat n :: magnitude (n / 256) := by
  rw [magnitude, if_neg h]

/-- The bytes of a magnitude spell it. -/
theorem toNat_magnitude (n : Nat) : (magnitude n).toNat = n := by
  -- Behind its first byte a magnitude goes on with that of a smaller number.
  induction n using Nat.strongRecOn with
  | ind n ih =>
    by_cases h : n = 0
    · rw [h, magnitude_zero]
      rfl
    · rw [magnitude_of_ne_zero h, Bytes.toNat_cons, ih (n / 256) (by omega)]
      simp only [UInt8.toNat_ofNat']
      omega

/-- A magnitude that is not zero ends with a byte that is not zero. -/
theorem exists_magnitude_eq_append {n : Nat} (h : n ≠ 0) :
    ∃ low last, magnitude n = low ++ [last] ∧ last ≠ 0 := by
  induction n using Nat.strongRecOn with
  | ind n ih =>
    rw [magnitude_of_ne_zero h]
    by_cases hsmall : n / 256 = 0
    · refine ⟨[], UInt8.ofNat n, by rw [hsmall, magnitude_zero]; rfl, fun hzero => h ?_⟩
      have htoNat := congrArg UInt8.toNat hzero
      simp only [UInt8.toNat_ofNat', UInt8.toNat_zero] at htoNat
      omega
    · obtain ⟨low, last, heq, hlast⟩ := ih (n / 256) (by omega) hsmall
      exact ⟨UInt8.ofNat n :: low, last, by rw [heq]; rfl, hlast⟩

/-! ### Signs -/

theorem sign_append (negative : Bool) (low : Bytes) (last : UInt8) :
    sign negative (low ++ [last]) = low ++ sign negative [last] := by
  induction low with
  | nil => rfl
  | cons b low ih =>
    have hne : low ++ [last] ≠ [] := by simp
    obtain ⟨c, rest, hrest⟩ := List.exists_cons_of_ne_nil hne
    rw [List.cons_append, List.cons_append, ← ih, hrest, sign]

theorem isMinimal_cons (b : UInt8) {bs : Bytes} (h : 2 ≤ bs.length) :
    isMinimal (b :: bs) = isMinimal bs := by
  match bs, h with
  | c :: d :: bs, _ => rw [isMinimal]

theorem isMinimal_append_pair (low : Bytes) (a b : UInt8) :
    isMinimal (low ++ [a, b]) = (b &&& 0x7f != 0 || a &&& 0x80 != 0) := by
  -- Only the last two bytes count, so the ones in front are taken off.
  induction low with
  | nil => rfl
  | cons c low ih => rw [List.cons_append, isMinimal_cons c (by simp), ih]

theorem isMinimal_append_single (low : Bytes) {last : UInt8} (h : last &&& 0x7f ≠ 0) :
    isMinimal (low ++ [last]) = true := by
  rcases List.eq_nil_or_concat low with rfl | ⟨init, a, rfl⟩
  · simp [isMinimal, h]
  · rw [List.concat_eq_append, List.append_assoc]
    exact (isMinimal_append_pair init a last).trans (by simp [h])

/-! ### Shortest forms -/

theorem encode_zero : encode 0 = [] := by
  simp [encode, magnitude_zero, sign]

/-- The shortest form of a number whose magnitude leaves the top bit of its last byte free. -/
theorem encode_of_free {n : Int} {low : Bytes} {last : UInt8}
    (hmagnitude : magnitude n.natAbs = low ++ [last]) (hfree : last.toNat < 128) :
    encode n = low ++ [if n < 0 then last ||| 0x80 else last] := by
  have hand : ¬ last &&& 0x80 ≠ 0 := by
    rw [and_sign_ne_zero_iff]
    omega
  rw [encode, hmagnitude, sign_append, sign, if_neg hand]
  simp only [decide_eq_true_eq]

/-- The shortest form of a number whose magnitude takes the top bit of its last byte. -/
theorem encode_of_taken {n : Int} {low : Bytes} {last : UInt8}
    (hmagnitude : magnitude n.natAbs = low ++ [last]) (htaken : 128 ≤ last.toNat) :
    encode n = low ++ [last, if n < 0 then 0x80 else 0] := by
  rw [encode, hmagnitude, sign_append, sign, if_pos ((and_sign_ne_zero_iff last).mpr htaken)]
  simp only [decide_eq_true_eq]

/-- The shortest form of a number is accepted as one. -/
theorem isMinimal_encode (n : Int) : isMinimal (encode n) = true := by
  by_cases hzero : n = 0
  · rw [hzero, encode_zero]
    rfl
  · obtain ⟨low, last, hmagnitude, hlast⟩ :=
      exists_magnitude_eq_append (Int.natAbs_ne_zero.mpr hzero)
    by_cases htaken : 128 ≤ last.toNat
    · rw [encode_of_taken hmagnitude htaken, isMinimal_append_pair]
      simp [(and_sign_ne_zero_iff last).mpr htaken]
    · -- The sign, if there is one, is set in a byte that is not zero without it.
      rw [encode_of_free hmagnitude (Nat.lt_of_not_le htaken)]
      apply isMinimal_append_single
      split
      · exact or_sign_and_magnitude_ne_zero last hlast (Nat.lt_of_not_le htaken)
      · exact and_magnitude_ne_zero last hlast (Nat.lt_of_not_le htaken)

/-- A byte string with its last byte set apart, as a number. -/
theorem toNat_append_single (low : Bytes) (last : UInt8) :
    Bytes.toNat (low ++ [last]) = Bytes.toNat low + 256 ^ low.length * last.toNat := by
  rw [Bytes.toNat_append, Bytes.toNat_singleton]

/-- A byte string whose last byte lacks the sign stands for a natural number. -/
theorem value_append_of_lt (low : Bytes) {last : UInt8} (h : last.toNat < 128) :
    value (low ++ [last]) = (Bytes.toNat (low ++ [last]) : Int) := by
  have hlow := Bytes.toNat_lt low
  have hle : 256 ^ low.length * (last.toNat + 1) ≤ 256 ^ low.length * 128 :=
    Nat.mul_le_mul_left _ h
  rw [Nat.mul_add, Nat.mul_one] at hle
  have hlt : Bytes.toNat (low ++ [last]) < 128 * 256 ^ ((low ++ [last]).length - 1) := by
    rw [toNat_append_single, List.length_append, List.length_singleton, Nat.add_sub_cancel]
    omega
  simp only [value, hlt, if_true]

/-- A byte string whose last byte has the sign stands for the opposite of the rest. -/
theorem value_append_of_eq_add {low : Bytes} {last : UInt8} (bare : UInt8)
    (h : last.toNat = bare.toNat + 128) :
    value (low ++ [last]) = -(Bytes.toNat (low ++ [bare]) : Int) := by
  have hsum : Bytes.toNat (low ++ [last]) =
      Bytes.toNat (low ++ [bare]) + 128 * 256 ^ low.length := by
    rw [toNat_append_single, toNat_append_single, h, Nat.mul_add]
    omega
  simp only [value, hsum, List.length_append, List.length_singleton, Nat.add_sub_cancel]
  rw [if_neg (by omega)]
  omega

/-- The shortest form of a number stands for the number. -/
theorem value_encode (n : Int) : value (encode n) = n := by
  by_cases hzero : n = 0
  · rw [hzero, encode_zero]
    rfl
  · obtain ⟨low, last, hmagnitude, hlast⟩ :=
      exists_magnitude_eq_append (Int.natAbs_ne_zero.mpr hzero)
    have hnatAbs : Bytes.toNat (low ++ [last]) = n.natAbs := by rw [← hmagnitude, toNat_magnitude]
    by_cases htaken : 128 ≤ last.toNat
    · -- The sign has a byte of its own behind the magnitude.
      have hzeroByte : Bytes.toNat (low ++ [last] ++ [0]) = n.natAbs := by
        rw [toNat_append_single, hnatAbs]
        rfl
      rw [encode_of_taken hmagnitude htaken]
      split
      · rw [show low ++ [last, (0x80 : UInt8)] = low ++ [last] ++ [0x80] by simp,
          value_append_of_eq_add 0 (by decide), hzeroByte]
        omega
      · rw [show low ++ [last, (0 : UInt8)] = low ++ [last] ++ [0] by simp,
          value_append_of_lt _ (by decide), hzeroByte]
        omega
    · -- The sign is the top bit of the last byte of the magnitude.
      have hfree := Nat.lt_of_not_le htaken
      rw [encode_of_free hmagnitude hfree]
      split
      · rw [value_append_of_eq_add last (toNat_or_sign last hfree), hnatAbs]
        omega
      · rw [value_append_of_lt low hfree, hnatAbs]
        omega

/-! ### Sizes -/

/-- Below the bound for a number of further bytes, bytes whose last one has the top bit leave room for
one more byte. -/
theorem toNat_append_lt_iff_of_taken (low : Bytes) {last : UInt8} (h : 128 ≤ last.toNat) (k : Nat) :
    Bytes.toNat (low ++ [last]) < 128 * 256 ^ k ↔ low.length < k := by
  have hlow := Bytes.toNat_lt low
  rw [toNat_append_single]
  constructor
  · intro hlt
    apply Nat.lt_of_not_le
    intro hk
    -- The last byte alone exceeds the bound.
    have hpow : 256 ^ k ≤ 256 ^ low.length := Nat.pow_le_pow_right (by decide) hk
    have hmul : 256 ^ low.length * 128 ≤ 256 ^ low.length * last.toNat := Nat.mul_le_mul_left _ h
    omega
  · intro hk
    have hpow : 256 ^ (low.length + 1) ≤ 256 ^ k := Nat.pow_le_pow_right (by decide) hk
    have hmul : 256 ^ low.length * last.toNat ≤ 256 ^ low.length * 255 :=
      Nat.mul_le_mul_left _ (Nat.le_of_lt_succ last.toNat_lt)
    rw [Nat.pow_succ] at hpow
    omega

/-- If the last byte has not the top bit, and is not zero, the bytes fill the room. -/
theorem toNat_append_lt_iff_of_free (low : Bytes) {last : UInt8} (hne : last ≠ 0)
    (h : last.toNat < 128) (k : Nat) :
    Bytes.toNat (low ++ [last]) < 128 * 256 ^ k ↔ low.length ≤ k := by
  have hlow := Bytes.toNat_lt low
  rw [toNat_append_single]
  constructor
  · intro hlt
    apply Nat.le_of_not_lt
    intro hk
    have hpow : 256 ^ (k + 1) ≤ 256 ^ low.length := Nat.pow_le_pow_right (by decide) hk
    have hpos : 1 ≤ last.toNat := Nat.pos_of_ne_zero fun hzero => hne (UInt8.toNat_inj.mp hzero)
    have hmul : 256 ^ low.length * 1 ≤ 256 ^ low.length * last.toNat :=
      Nat.mul_le_mul_left _ hpos
    rw [Nat.pow_succ] at hpow
    omega
  · intro hk
    have hpow : 256 ^ low.length ≤ 256 ^ k := Nat.pow_le_pow_right (by decide) hk
    have hmul : 256 ^ low.length * last.toNat ≤ 256 ^ low.length * 127 :=
      Nat.mul_le_mul_left _ (Nat.le_of_lt_succ h)
    omega

/-- How many bytes the shortest form of a number takes: the top bit of the last one is left for the
sign. -/
theorem length_encode_le_iff (n : Int) (k : Nat) :
    (encode n).length ≤ k + 1 ↔ n.natAbs < 128 * 256 ^ k := by
  by_cases hzero : n = 0
  · have hpos := Nat.pow_pos (n := k) (show 0 < 256 by decide)
    rw [hzero, encode_zero, List.length_nil, Int.natAbs_zero]
    omega
  · obtain ⟨low, last, hmagnitude, hlast⟩ :=
      exists_magnitude_eq_append (Int.natAbs_ne_zero.mpr hzero)
    rw [← toNat_magnitude n.natAbs, hmagnitude]
    by_cases htaken : 128 ≤ last.toNat
    · rw [toNat_append_lt_iff_of_taken low htaken, encode_of_taken hmagnitude htaken]
      simp only [List.length_append, List.length_cons, List.length_nil]
      omega
    · have hfree := Nat.lt_of_not_le htaken
      rw [toNat_append_lt_iff_of_free low hlast hfree, encode_of_free hmagnitude hfree]
      simp only [List.length_append, List.length_cons, List.length_nil]
      omega

/-- Different numbers have different shortest forms. -/
theorem encode_injective {m n : Int} (h : encode m = encode n) : m = n := by
  rw [← value_encode m, h, value_encode]

/-- The shortest form of a number is read back where its size is allowed. -/
theorem decode_encode {maxSize n : Int} (h : ((encode n).length : Int) ≤ maxSize) :
    decode maxSize (encode n) = .ok n := by
  rw [decode, if_neg (by omega), if_pos (isMinimal_encode n), value_encode]

/-- An operation takes a number of up to four bytes. -/
theorem decode_operand_of_length_le {n : Int} (h : (encode n).length ≤ 4) :
    decode operandSize (encode n) = .ok n :=
  decode_encode (Int.ofNat_le.mpr h)

/-- A number of more than four bytes is too long for an operation. -/
theorem decode_operand_of_lt_length {n : Int} (h : 4 < (encode n).length) :
    decode operandSize (encode n) = .error .numberTooLong :=
  if_pos (Int.ofNat_lt.mpr h)

/-- A number that an operation takes has a magnitude of 31 bits. -/
theorem decode_operand_encode (n : Int) :
    decode operandSize (encode n) =
      if n.natAbs ≤ 2 ^ 31 - 1 then .ok n else .error .numberTooLong := by
  have hiff := length_encode_le_iff n 3
  by_cases hlength : (encode n).length ≤ 4
  · have hsmall := hiff.mp hlength
    rw [decode_operand_of_length_le hlength, if_pos (by omega)]
  · have hlarge := mt hiff.mpr hlength
    rw [decode_operand_of_lt_length (Nat.lt_of_not_le hlength), if_neg (by omega)]

/-- A number that was read is the one that its bytes stand for, and they are its shortest form. -/
theorem decode_eq_ok_iff {maxSize n : Int} {bs : Bytes} :
    decode maxSize bs = .ok n ↔
      (bs.length : Int) ≤ maxSize ∧ isMinimal bs = true ∧ value bs = n := by
  unfold decode
  split
  · simp only [reduceCtorEq, false_iff]
    omega
  · split <;> simp_all

/-- The number that a byte string stands for fits the length of the string. -/
theorem natAbs_value_lt (bs : Bytes) (h : bs ≠ []) :
    (value bs).natAbs < 128 * 256 ^ (bs.length - 1) := by
  have hlt := Bytes.toNat_lt bs
  have hpos : 0 < bs.length := List.length_pos_iff.mpr h
  have hpow : 256 ^ bs.length = 256 * 256 ^ (bs.length - 1) := by
    rw [← Nat.pow_succ', Nat.succ_eq_add_one, Nat.sub_add_cancel hpos]
  simp only [value]
  split <;> omega

/-- A number that an operation took from the stack has a magnitude of 31 bits. -/
theorem natAbs_le_of_decode_eq_ok {n : Int} {bs : Bytes} (h : decode operandSize bs = .ok n) :
    n.natAbs ≤ 2 ^ 31 - 1 := by
  obtain ⟨hlength, -, rfl⟩ := decode_eq_ok_iff.mp h
  by_cases hnil : bs = []
  · rw [hnil]
    decide
  · -- Four bytes leave 31 bits beside the sign.
    have hlt := natAbs_value_lt bs hnil
    have hpow : 256 ^ (bs.length - 1) ≤ 256 ^ 3 := by
      apply Nat.pow_le_pow_right (by decide)
      simp only [operandSize] at hlength
      omega
    omega

end ScriptNumber

end FlowGate

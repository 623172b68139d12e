import FlowGate.Checked.Codec
import FlowGate.Proofs.Script.Number

/-!
# Shortest forms are canonical

A byte string that is accepted as a shortest form is the shortest form of the number it stands for.
So a number has one form that is read, and reading gives up no byte string but those that are forms
of no number, or too long.

## Main results

* `ScriptNumber.magnitude_toNat` — bytes that do not end with a zero are those of their magnitude
* `ScriptNumber.encode_value` — a byte string that is minimal is the shortest form of its number
* `ScriptNumber.decode_eq_ok_iff_eq_encode` — what is read is a shortest form of limited size
* `Checked.decodeNumber_int` — values are read as operations read their operands
* `Checked.encode_decode_canonical` — shortest forms and the numbers that are read from them
-/

namespace FlowGate

namespace ScriptNumber

/-! ### Magnitudes -/

/-- Bytes that do not end with a zero spell a number that is not zero. -/
theorem toNat_append_single_pos (low : Bytes) {last : UInt8} (h : last ≠ 0) :
    0 < Bytes.toNat (low ++ [last]) :=
  Nat.pos_of_ne_zero fun hzero => h (Bytes.toNat_eq_zero_iff.mp hzero last (by simp))

/-- Bytes that do not end with a zero are those of the magnitude that they spell. -/
theorem magnitude_toNat (low : Bytes) {last : UInt8} (h : last ≠ 0) :
    magnitude (Bytes.toNat (low ++ [last])) = low ++ [last] := by
  induction low with
  | nil =>
    have hpos := toNat_append_single_pos [] h
    have hlt := last.toNat_lt
    rw [List.nil_append, Bytes.toNat_singleton] at hpos ⊢
    rw [magnitude_of_ne_zero (by omega), UInt8.ofNat_toNat, Nat.div_eq_of_lt hlt, magnitude_zero]
  | cons b low ih =>
    -- The first byte is the remainder, and the others spell the quotient.
    have hlt := b.toNat_lt
    have hpos := toNat_append_single_pos low h
    have hsum : Bytes.toNat (b :: (low ++ [last])) =
        b.toNat + 256 * Bytes.toNat (low ++ [last]) := Bytes.toNat_cons _ _
    have hremainder : UInt8.ofNat (Bytes.toNat (b :: (low ++ [last]))) = b := by
      apply UInt8.toNat_inj.mp
      rw [UInt8.toNat_ofNat', hsum]
      omega
    have hquotient : Bytes.toNat (b :: (low ++ [last])) / 256 = Bytes.toNat (low ++ [last]) := by
      omega
    rw [List.cons_append, magnitude_of_ne_zero (by omega), hremainder, hquotient, ih]

/-! ### Last bytes -/

/-- A byte with more than the sign is a byte that is not zero, alone or with the sign. -/
theorem exists_eq_or_sign_of_and_magnitude_ne_zero (b : UInt8) (h : b &&& 0x7f ≠ 0) :
    ∃ bare : UInt8, bare ≠ 0 ∧ bare.toNat < 128 ∧ (b = bare ∨ b = bare ||| 0x80) := by
  refine ⟨b &&& 0x7f, h, ?_, ?_⟩
  · revert b
    apply forall_byte
    decide +kernel
  · revert b
    apply forall_byte
    decide +kernel

theorem eq_zero_or_sign_of_and_magnitude_eq_zero (b : UInt8) (h : b &&& 0x7f = 0) :
    b = 0 ∨ b = 0x80 := by
  revert b
  apply forall_byte
  decide +kernel

/-- A byte string is minimal if its last byte has more than the sign, or the byte before has its top
bit taken. -/
theorem isMinimal_append_iff (low : Bytes) (last : UInt8) :
    isMinimal (low ++ [last]) = true ↔
      last &&& 0x7f ≠ 0 ∨ ∃ init a, low = init ++ [a] ∧ 128 ≤ a.toNat := by
  rcases List.eq_nil_or_concat low with rfl | ⟨init, a, rfl⟩
  · simp [isMinimal]
  · rw [List.concat_eq_append, List.append_assoc, List.cons_append, List.nil_append,
      isMinimal_append_pair]
    simp only [Bool.or_eq_true, bne_iff_ne, and_sign_ne_zero_iff, List.append_singleton_inj]
    refine or_congr_right ⟨fun ha => ⟨init, a, ⟨rfl, rfl⟩, ha⟩, ?_⟩
    rintro ⟨init, a, ⟨rfl, rfl⟩, ha⟩
    exact ha

/-! ### Shortest forms -/

/-- Bytes whose last one has more than the sign are the shortest form of their number. -/
theorem encode_value_of_free (low : Bytes) {last : UInt8} (h : last &&& 0x7f ≠ 0) :
    encode (value (low ++ [last])) = low ++ [last] := by
  obtain ⟨bare, hne, hfree, hlast⟩ := exists_eq_or_sign_of_and_magnitude_ne_zero last h
  have hpos := toNat_append_single_pos low hne
  have hmagnitude : ∀ n : Int, n.natAbs = Bytes.toNat (low ++ [bare]) →
      magnitude n.natAbs = low ++ [bare] := fun n hn => hn ▸ magnitude_toNat low hne
  rcases hlast with rfl | rfl
  · rw [value_append_of_lt low hfree, encode_of_free (hmagnitude _ (Int.natAbs_natCast _)) hfree,
      if_neg (by omega)]
  · rw [value_append_of_eq_add bare (toNat_or_sign bare hfree),
      encode_of_free (hmagnitude _ (Int.natAbs_neg _)) hfree, if_pos (by omega)]

/-- Bytes whose last one is the sign alone, or nothing, are the shortest form of their number if the
byte before has its top bit taken. -/
theorem encode_value_of_taken (init : Bytes) {a last : UInt8} (ha : 128 ≤ a.toNat)
    (h : last &&& 0x7f = 0) :
    encode (value (init ++ [a] ++ [last])) = init ++ [a] ++ [last] := by
  have hne : a ≠ 0 := by
    rintro rfl
    exact absurd ha (by decide)
  have hpos := toNat_append_single_pos init hne
  have hmagnitude : ∀ n : Int, n.natAbs = Bytes.toNat (init ++ [a]) →
      magnitude n.natAbs = init ++ [a] := fun n hn => hn ▸ magnitude_toNat init hne
  have hzeroByte : Bytes.toNat (init ++ [a] ++ [0]) = Bytes.toNat (init ++ [a]) := by
    rw [toNat_append_single]
    rfl
  -- The last byte is the sign alone, set or not.
  rcases eq_zero_or_sign_of_and_magnitude_eq_zero last h with rfl | rfl
  · rw [value_append_of_lt _ (by decide), hzeroByte,
      encode_of_taken (hmagnitude _ (Int.natAbs_natCast _)) ha, if_neg (by omega)]
    simp
  · rw [value_append_of_eq_add 0 (by decide), hzeroByte,
      encode_of_taken (hmagnitude _ (Int.natAbs_neg _)) ha, if_pos (by omega)]
    simp

/-- A byte string that is minimal is the shortest form of the number it stands for. -/
theorem encode_value {bs : Bytes} (h : isMinimal bs = true) : encode (value bs) = bs := by
  rcases List.eq_nil_or_concat bs with rfl | ⟨low, last, rfl⟩
  · exact encode_zero
  · rw [List.concat_eq_append] at h ⊢
    by_cases hlast : last &&& 0x7f = 0
    · obtain ⟨init, a, rfl, ha⟩ := ((isMinimal_append_iff low last).mp h).resolve_left (by simpa)
      exact encode_value_of_taken init ha hlast
    · exact encode_value_of_free low hlast

/-- What is read is a number's shortest form, of limited size. -/
theorem decode_eq_ok_iff_eq_encode {maxSize n : Int} {bs : Bytes} :
    decode maxSize bs = .ok n ↔ (bs.length : Int) ≤ maxSize ∧ bs = encode n := by
  constructor
  · intro h
    obtain ⟨hlength, hminimal, rfl⟩ := decode_eq_ok_iff.mp h
    exact ⟨hlength, (encode_value hminimal).symm⟩
  · rintro ⟨hlength, rfl⟩
    exact decode_encode hlength

/-- The shortest form of a number fits a size if the number, its sign aside, leaves one bit of it
free. -/
theorem length_encode_le_iff_natAbs_lt (n : Int) {k : Nat} (hk : 1 ≤ k) :
    (encode n).length ≤ k ↔ n.natAbs < 2 ^ (8 * k - 1) := by
  obtain ⟨k, rfl⟩ := Nat.exists_eq_add_of_le' hk
  have hpow : 128 * 256 ^ k = 2 ^ (8 * (k + 1) - 1) := by
    rw [show 128 = 2 ^ 7 by rfl, show 256 = 2 ^ 8 by rfl, ← Nat.pow_mul, ← Nat.pow_add]
    congr 1
    omega
  rw [length_encode_le_iff, hpow]

end ScriptNumber

/-! ### Readers of values -/

namespace Checked

open ScriptNumber

/-- A byte string is read as a number of limited size as it is by an operation. -/
theorem decodeNumber_int (bs : Bytes) (maxSize : Int) :
    decodeNumber (.bytes bs) (.int maxSize) = ofExec (decode maxSize bs) := by
  have hbytes : (Value.bytes bs).toBytes "number" = .ok bs := rfl
  rw [decodeNumber, FlowGate.bind_of_eq_ok hbytes, Value.demand, Value.compare_int_atMost]
  by_cases hlength : (bs.length : Int) ≤ maxSize
  · have hwhole : decode bs.length bs = decode maxSize bs := by
      have hfits : ¬ (bs.length : Int) > maxSize := Int.not_lt.mpr hlength
      have hself : ¬ (bs.length : Int) > bs.length := Int.lt_irrefl _
      simp only [decode, hfits, hself, if_false]
    simp [hlength, hwhole, bind, Except.bind]
  · have hlong : decode maxSize bs = .error .numberTooLong := if_pos (Int.lt_of_not_ge hlength)
    simp [hlength, hlong, ofExec, ensure, bind, Except.bind]

theorem decodeNumber_eq_ok_iff {bs : Bytes} {maxSize n : Int} :
    decodeNumber (.bytes bs) (.int maxSize) = .ok n ↔
      (bs.length : Int) ≤ maxSize ∧ bs = encode n := by
  rw [decodeNumber_int, ← decode_eq_ok_iff_eq_encode]
  cases decode maxSize bs <;> simp [ofExec]

/-- Numbers and their shortest forms belong to each other one by one. A form is read back as its
number wherever its size is allowed. A byte string is read exactly if it is not too long and the
shortest form of a number, which then gives it back. And a form takes no more than a number of bytes
exactly if the magnitude of its number leaves one bit of them free. -/
theorem encode_decode_canonical (n maxSize : Int) (bs : Bytes) (k : Nat) :
    (∃ form, encodeNumber (.int n) = .ok form ∧
      ((form.length : Int) ≤ maxSize → decodeNumber (.bytes form) (.int maxSize) = .ok n) ∧
      (1 ≤ k → (form.length ≤ k ↔ n.natAbs < 2 ^ (8 * k - 1)))) ∧
    ((∃ m, decodeNumber (.bytes bs) (.int maxSize) = .ok m) ↔
      (bs.length : Int) ≤ maxSize ∧ ∃ m, encodeNumber (.int m) = .ok bs) ∧
    ∀ m, decodeNumber (.bytes bs) (.int maxSize) = .ok m → encodeNumber (.int m) = .ok bs := by
  have hencode : ∀ {m form}, encodeNumber (.int m) = .ok form ↔ form = encode m := by
    intro m form
    change Except.ok (encode m) = _ ↔ _
    rw [Except.ok.injEq, eq_comm]
  simp only [hencode, decodeNumber_eq_ok_iff]
  refine ⟨⟨encode n, rfl, fun hlength => ⟨hlength, rfl⟩, length_encode_le_iff_natAbs_lt n⟩, ?_, ?_⟩
  · rw [exists_and_left]
  · rintro m ⟨-, hform⟩
    exact hform

/-- The number -255 takes a second byte for its sign. The form of -1 with such a byte, which it does
not need, is no number's shortest form. -/
theorem encode_decode_canonical_sample :
    decodeNumber (.bytes (encode (-255))) (.int 2) = .ok (-255) ∧
      ¬ ∃ m, encodeNumber (.int m) = .ok [0x01, 0x80] := by
  obtain ⟨⟨form, hform, hread, hsize⟩, hiff, -⟩ := encode_decode_canonical (-255) 2 [0x01, 0x80] 2
  obtain rfl : encode (-255) = form := Except.ok.inj hform
  have hlength : (encode (-255)).length ≤ 2 := (hsize (by decide)).mpr (by decide)
  refine ⟨hread (Int.ofNat_le.mpr hlength), fun hcanonical => ?_⟩
  obtain ⟨m, hm⟩ := hiff.mpr ⟨by decide, hcanonical⟩
  cases hm

end Checked

end FlowGate

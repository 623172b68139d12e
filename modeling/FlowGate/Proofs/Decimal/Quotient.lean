import FlowGate.Decimal.Number

/-!
# Quotients in floating point

The quotient of two whole numbers in floating point is the number nearest to the exact one. For
numbers of 31 bits no whole number lies between the two: the last place that is kept is so small
that a quotient above a whole number stays above it. So rounding the quotient up gives what rounding
up the exact one would.

## Main definitions

* `Number.ceil?` — the least whole number that is not below a number

## Main results

* `Binary64.roundHalfEven_le`, `Binary64.le_roundHalfEven` — rounding keeps to a side of a whole
  number
* `Binary64.exists_lastPlace_eq` — the last place of a quotient of numbers of 31 bits
* `Binary64.exists_extent_nearest?_eq` — the value of the nearest pattern
* `Number.exists_div_ceil?_eq` — the floating-point quotient rounded up
-/

namespace FlowGate

namespace Binary64

/-! ### Rounding -/

theorem roundHalfEven_cases (num den : Nat) :
    roundHalfEven num den = num / den ∨ roundHalfEven num den = num / den + 1 := by
  simp only [roundHalfEven]
  split
  · exact .inr rfl
  · exact .inl rfl

/-- Rounding does not exceed a whole number that is not exceeded. -/
theorem roundHalfEven_le {num den bound : Nat} (hden : 0 < den) (h : num ≤ bound * den) :
    roundHalfEven num den ≤ bound := by
  have hquotient : num / den ≤ bound := Nat.div_le_of_le_mul (by rwa [Nat.mul_comm])
  rcases Nat.lt_or_eq_of_le hquotient with hlt | heq
  · rcases roundHalfEven_cases num den with hround | hround <;> omega
  · -- The quotient is exact, so there is nothing to round.
    have hexact : num % den = 0 := by
      have hdivision := Nat.div_add_mod num den
      rw [heq, Nat.mul_comm] at hdivision
      omega
    have hround : roundHalfEven num den = num / den := by
      simp only [roundHalfEven, hexact]
      rw [if_neg]
      simp
      omega
    exact Nat.le_of_eq (hround.trans heq)

/-- Rounding does not fall below a whole number that is not fallen below. -/
theorem le_roundHalfEven {num den bound : Nat} (hden : 0 < den) (h : bound * den ≤ num) :
    bound ≤ roundHalfEven num den := by
  have hquotient := (Nat.le_div_iff_mul_le hden).mpr h
  rcases roundHalfEven_cases num den with hround | hround <;> omega

/-! ### The last place -/

/-- Numbers are compared after scaling as they are after multiplying out. -/
theorem scaled_le_iff (num den a b : Nat) :
    (scaled num den ((a : Int) - b)).2 ≤ (scaled num den ((a : Int) - b)).1 ↔
      den * 2 ^ a ≤ num * 2 ^ b := by
  rcases Nat.lt_or_ge a b with hlt | hge
  · obtain ⟨c, rfl⟩ := Nat.exists_eq_add_of_lt hlt
    have hshift : (a : Int) - (a + c + 1 : Nat) = -(c + 1 : Nat) := by omega
    rw [hshift, scaled, if_neg (by omega), Int.neg_neg, Int.toNat_natCast, Nat.add_assoc,
      Nat.pow_add 2 a, Nat.mul_comm (2 ^ a), ← Nat.mul_assoc]
    exact (Nat.mul_le_mul_right_iff (Nat.two_pow_pos a)).symm
  · obtain ⟨c, rfl⟩ := Nat.exists_eq_add_of_le hge
    have hshift : ((b + c : Nat) : Int) - b = c := by omega
    rw [hshift, scaled, if_pos (Int.natCast_nonneg c), Int.toNat_natCast, Nat.pow_add,
      Nat.mul_comm (2 ^ b), ← Nat.mul_assoc]
    exact (Nat.mul_le_mul_right_iff (Nat.two_pow_pos b)).symm

/-- The last place is 52 places below the leading bit, which the lengths of the numbers tell up to
one place. -/
theorem lastPlace_eq (num den : Nat) :
    lastPlace num den =
      max ((if den * 2 ^ num.log2 ≤ num * 2 ^ den.log2 then (num.log2 : Int) - den.log2
        else (num.log2 : Int) - den.log2 - 1) - 52) (-1074) := by
  simp only [← scaled_le_iff]
  rfl

/-- The last place of a quotient of numbers of 31 bits lies behind the point, and it leaves a
significand of 53 bits. -/
theorem exists_lastPlace_eq {num den : Nat} (hnum : 0 < num) (hnum' : num < 2 ^ 31) (hden : 0 < den)
    (hden' : den < 2 ^ 31) :
    ∃ k : Nat, lastPlace num den = -k ∧ 1 < k ∧ k < 1074 ∧ 2 ^ 52 * den ≤ num * 2 ^ k ∧
      num * 2 ^ k ≤ 2 ^ 53 * den := by
  have hnumLog := (Nat.log2_lt (Nat.ne_of_gt hnum)).mpr hnum'
  have hdenLog := (Nat.log2_lt (Nat.ne_of_gt hden)).mpr hden'
  have hnumLe := Nat.log2_self_le (Nat.ne_of_gt hnum)
  have hdenLe := Nat.log2_self_le (Nat.ne_of_gt hden)
  have hnumLt := Nat.le_of_lt (@Nat.lt_log2_self num)
  have hdenLt := Nat.le_of_lt (@Nat.lt_log2_self den)
  rw [lastPlace_eq]
  generalize num.log2 = a at *
  generalize den.log2 = b at *
  have hpos := Nat.two_pow_pos a
  by_cases h : den * 2 ^ a ≤ num * 2 ^ b
  · -- The leading bit is where the lengths put it.
    have hscale : 2 ^ (52 + b - a) * 2 ^ a = 2 ^ 52 * 2 ^ b := by
      rw [← Nat.pow_add, ← Nat.pow_add, Nat.sub_add_cancel (by omega)]
    refine ⟨52 + b - a, by rw [if_pos h]; omega, by omega, by omega, ?_, ?_⟩
    · apply Nat.le_of_mul_le_mul_right _ hpos
      calc
        2 ^ 52 * den * 2 ^ a = 2 ^ 52 * (den * 2 ^ a) := Nat.mul_assoc _ _ _
        _ ≤ 2 ^ 52 * (num * 2 ^ b) := Nat.mul_le_mul_left _ h
        _ = num * 2 ^ (52 + b - a) * 2 ^ a := by rw [Nat.mul_assoc num, hscale]; ac_rfl
    · calc
        num * 2 ^ (52 + b - a) ≤ 2 ^ (a + 1) * 2 ^ (52 + b - a) := Nat.mul_le_mul_right _ hnumLt
        _ = 2 ^ 53 * 2 ^ b := by rw [← Nat.pow_add, ← Nat.pow_add]; congr 1; omega
        _ ≤ 2 ^ 53 * den := Nat.mul_le_mul_left _ hdenLe
  · -- It is one place lower.
    have hscale : 2 ^ (53 + b - a) * 2 ^ a = 2 ^ 53 * 2 ^ b := by
      rw [← Nat.pow_add, ← Nat.pow_add, Nat.sub_add_cancel (by omega)]
    refine ⟨53 + b - a, by rw [if_neg h]; omega, by omega, by omega, ?_, ?_⟩
    · calc
        2 ^ 52 * den ≤ 2 ^ 52 * 2 ^ (b + 1) := Nat.mul_le_mul_left _ hdenLt
        _ = 2 ^ a * 2 ^ (53 + b - a) := by rw [← Nat.pow_add, ← Nat.pow_add]; congr 1; omega
        _ ≤ num * 2 ^ (53 + b - a) := Nat.mul_le_mul_right _ hnumLe
    · apply Nat.le_of_mul_le_mul_right _ hpos
      calc
        num * 2 ^ (53 + b - a) * 2 ^ a = 2 ^ 53 * (num * 2 ^ b) := by
          rw [Nat.mul_assoc num, hscale]
          ac_rfl
        _ ≤ 2 ^ 53 * (den * 2 ^ a) := Nat.mul_le_mul_left _ (Nat.le_of_not_le h)
        _ = 2 ^ 53 * den * 2 ^ a := (Nat.mul_assoc _ _ _).symm

/-- The pattern nearest to a quotient of numbers of 31 bits. -/
theorem exists_nearest?_eq {num den : Nat} (hnum : 0 < num) (hnum' : num < 2 ^ 31) (hden : 0 < den)
    (hden' : den < 2 ^ 31) :
    ∃ (k : Nat) (pattern : UInt64), nearest? num den = some pattern ∧ 1 < k ∧ k < 1074 ∧
      2 ^ 52 * den ≤ num * 2 ^ k ∧ num * 2 ^ k ≤ 2 ^ 53 * den ∧
      pattern.toNat = (1074 - k) * 2 ^ 52 + roundHalfEven (num * 2 ^ k) den := by
  obtain ⟨k, hplace, hpos, hlt, hlow, hhigh⟩ := exists_lastPlace_eq hnum hnum' hden hden'
  have hround : roundHalfEven (num * 2 ^ k) den ≤ 2 ^ 53 := roundHalfEven_le hden hhigh
  have hscaled : scaled num den (-k) = (num * 2 ^ k, den) := by
    rw [scaled, if_neg (by omega), Int.neg_neg, Int.toNat_natCast]
  have hshift : (-(k : Int) + 1074).toNat = 1074 - k := by omega
  have hsmall : (1074 - k) * 2 ^ 52 + roundHalfEven (num * 2 ^ k) den < infinity.toNat := by
    have hinfinity : infinity.toNat = 2047 * 2 ^ 52 := by decide
    omega
  refine ⟨k, .ofNat ((1074 - k) * 2 ^ 52 + roundHalfEven (num * 2 ^ k) den), ?_, hpos, hlt, hlow,
    hhigh, ?_⟩
  · simp only [nearest?, if_neg (Nat.ne_of_gt hnum), hplace, hscaled, hshift, if_pos hsmall]
  · rw [UInt64.toNat_ofNat', Nat.mod_eq_of_lt]
    exact Nat.lt_trans hsmall (by decide)

/-! ### The value of a pattern -/

/-- A pattern below that of infinity stands for a finite number that is not negative. -/
theorem isFinite_of_lt {pattern : UInt64} (h : pattern.toNat < infinity.toNat) :
    isFinite pattern = true := by
  have hinfinity : infinity.toNat = 2047 * 2 ^ 52 := by decide
  rw [isFinite, bne_iff_ne]
  intro hand
  -- The exponent of infinity has all its bits set, and a smaller one does not.
  have hshift : (pattern.toNat >>> 52) &&& (infinity.toNat >>> 52) = infinity.toNat >>> 52 := by
    rw [← Nat.shiftRight_and_distrib, ← UInt64.toNat_and, hand]
  have hmask : infinity.toNat >>> 52 = 2 ^ 11 - 1 := by decide
  rw [hmask, Nat.and_two_pow_sub_one_eq_mod, Nat.shiftRight_eq_div_pow] at hshift
  omega

theorem isNegative_of_lt {pattern : UInt64} (h : pattern.toNat < infinity.toNat) :
    isNegative pattern = false := by
  have hsign : signBit.toNat = 2 ^ 63 := by decide
  have hlt : pattern.toNat < 2 ^ 63 := Nat.lt_trans h (by decide)
  have hand : pattern &&& signBit = 0 := by
    apply UInt64.toNat_inj.mp
    rw [UInt64.toNat_and, hsign]
    apply Nat.eq_of_testBit_eq
    intro i
    rw [Nat.testBit_and, Nat.testBit_two_pow, UInt64.toNat_zero, Nat.zero_testBit]
    by_cases hi : 63 = i
    · rw [← hi, Nat.testBit_lt_two_pow hlt, Bool.false_and]
    · rw [decide_eq_false hi, Bool.and_false]
  rw [isNegative, hand]
  rfl

theorem isNaN_of_lt {pattern : UInt64} (h : pattern.toNat < infinity.toNat) :
    isNaN pattern = false := by
  rw [isNaN, isFinite_of_lt h]
  rfl

/-- The parts of a pattern are read off its number. A significand that was rounded up to 54 bits
has carried into the exponent. -/
theorem parts_cases {pattern : UInt64} {k r : Nat} (hk : 1 < k) (hk' : k < 1074) (hlow : 2 ^ 52 ≤ r)
    (hhigh : r ≤ 2 ^ 53) (h : pattern.toNat = (1074 - k) * 2 ^ 52 + r) :
    parts pattern = (r, -(k : Int)) ∨
      r = 2 ^ 53 ∧ parts pattern = (2 ^ 52, -((k - 1 : Nat) : Int)) := by
  rcases Nat.lt_or_eq_of_le hhigh with hlt | rfl
  · have hfraction : pattern.toNat % 2 ^ 52 = r - 2 ^ 52 := by omega
    have hexponent : pattern.toNat / 2 ^ 52 % 2 ^ 11 = 1075 - k := by omega
    left
    rw [parts, hfraction, hexponent, if_neg (by omega), Prod.mk.injEq]
    omega
  · have hfraction : pattern.toNat % 2 ^ 52 = 0 := by omega
    have hexponent : pattern.toNat / 2 ^ 52 % 2 ^ 11 = 1076 - k := by omega
    right
    rw [parts, hfraction, hexponent, if_neg (by omega), Prod.mk.injEq]
    omega

/-- The value of a pattern that was put together from a last place and a significand. -/
theorem exists_extent_eq {pattern : UInt64} {k r : Nat} (hk : 1 < k) (hk' : k < 1074)
    (hlow : 2 ^ 52 ≤ r) (hhigh : r ≤ 2 ^ 53) (h : pattern.toNat = (1074 - k) * 2 ^ 52 + r) :
    ∃ num den : Nat, (Number.float pattern).extent = .ratio num den ∧ 0 < den ∧
      num * 2 ^ k = r * den := by
  have hlt : pattern.toNat < infinity.toNat := by
    have hinfinity : infinity.toNat = 2047 * 2 ^ 52 := by decide
    omega
  have hextent : ∀ significand place : Nat, 0 < place →
      parts pattern = (significand, -(place : Int)) →
      (Number.float pattern).extent = .ratio significand (2 ^ place) := by
    intro significand place hplace hparts
    simp only [Number.extent, isNaN_of_lt hlt, isFinite_of_lt hlt, isNegative_of_lt hlt, hparts]
    rw [if_neg Bool.false_ne_true, if_neg (by decide), if_neg Bool.false_ne_true,
      if_neg (by omega), Int.neg_neg, Int.toNat_natCast]
  -- If rounding has carried, the pattern has the next power of two.
  rcases parts_cases hk hk' hlow hhigh h with hparts | ⟨rfl, hparts⟩
  · exact ⟨r, 2 ^ k, hextent r k (by omega) hparts, Nat.two_pow_pos k, rfl⟩
  · refine ⟨2 ^ 52, 2 ^ (k - 1), hextent _ _ (by omega) hparts, Nat.two_pow_pos _, ?_⟩
    rw [← Nat.pow_add, ← Nat.pow_add]
    congr 1
    omega

end Binary64

namespace Number

/-- The least whole number that is not below a number, if the number is finite. -/
def ceil? (x : Number) : Option Int :=
  match x.extent with
  | .ratio num den => some (-(-num / den))
  | _ => none

/-- A ratio between a whole number and the one below it is rounded up to the former. -/
theorem ceil?_eq_some {x : Number} {num den ceil : Nat} (h : x.extent = .ratio num den)
    (hlow : ceil * den < num + den) (hhigh : num ≤ ceil * den) : x.ceil? = some (ceil : Int) := by
  have hden : 0 < den := by omega
  have hsplit : -(num : Int) = ((ceil * den - num : Nat) : Int) + -(ceil : Int) * den := by
    rw [Int.natCast_sub hhigh, Int.natCast_mul, Int.neg_mul]
    omega
  have hzero : ((ceil * den - num : Nat) : Int) / den = 0 :=
    Int.ediv_eq_zero_of_lt (Int.natCast_nonneg _) (by omega)
  simp only [ceil?, h]
  rw [hsplit, Int.add_mul_ediv_right _ _ (by omega), hzero, Int.zero_add, Int.neg_neg]

/-- The exact quotient lies between its ceiling and the whole number below. -/
theorem exists_ceil_eq {m n : Nat} (hm : 0 < m) (hn : 0 < n) :
    ∃ below, (m + n - 1) / n = below + 1 ∧ below * n < m ∧ m ≤ (below + 1) * n := by
  have hlow := Nat.div_mul_le_self (m + n - 1) n
  have hhigh := Nat.lt_div_mul_add (a := m + n - 1) hn
  have hpos : 0 < (m + n - 1) / n := Nat.div_pos (by omega) hn
  obtain ⟨below, hceil⟩ := Nat.exists_eq_add_one.mpr hpos
  rw [hceil, Nat.add_mul, Nat.one_mul] at hlow hhigh
  refine ⟨below, hceil, by omega, ?_⟩
  rw [Nat.add_mul, Nat.one_mul]
  omega

/-- The quotient of two numbers of 31 bits in floating point, rounded up, is the exact quotient
rounded up. -/
theorem exists_div_ceil?_eq {m n : Nat} (hm : 0 < m) (hm' : m < 2 ^ 31) (hn : 0 < n)
    (hn' : n < 2 ^ 31) :
    ∃ quotient, (whole m).div (whole n) = .ok quotient ∧
      (float quotient).ceil? = some (((m + n - 1) / n : Nat) : Int) := by
  obtain ⟨k, pattern, hnearest, hk, hk', hlow, hhigh, hpattern⟩ :=
    Binary64.exists_nearest?_eq hm hm' hn hn'
  obtain ⟨num, den, hextent, hden, hvalue⟩ := Binary64.exists_extent_eq hk hk'
    (Binary64.le_roundHalfEven hn hlow) (Binary64.roundHalfEven_le hn hhigh) hpattern
  have hdiv : (whole m).div (whole n) = .ok pattern := by
    simp only [div, Int.natAbs_natCast, hnearest]
    rw [if_neg (by omega)]
  obtain ⟨below, hceil, hbelow, habove⟩ := exists_ceil_eq hm hn
  rw [hceil]
  -- One unit of the last place is less than what the quotient exceeds a whole number by.
  have hunit : n ≤ 2 ^ k := by
    have hlarge : m * 2 ^ k ≤ 2 ^ 31 * 2 ^ k := Nat.mul_le_mul_right _ (Nat.le_of_lt hm')
    omega
  have hround : below * 2 ^ k + 1 ≤ Binary64.roundHalfEven (m * 2 ^ k) n := by
    apply Binary64.le_roundHalfEven hn
    calc
      (below * 2 ^ k + 1) * n = below * n * 2 ^ k + n := by
        rw [Nat.add_mul, Nat.one_mul, Nat.mul_right_comm]
      _ ≤ below * n * 2 ^ k + 2 ^ k := Nat.add_le_add_left hunit _
      _ = (below * n + 1) * 2 ^ k := by rw [Nat.add_mul, Nat.one_mul]
      _ ≤ m * 2 ^ k := Nat.mul_le_mul_right _ hbelow
  have hround' : Binary64.roundHalfEven (m * 2 ^ k) n ≤ (below + 1) * 2 ^ k := by
    apply Binary64.roundHalfEven_le hn
    calc
      m * 2 ^ k ≤ (below + 1) * n * 2 ^ k := Nat.mul_le_mul_right _ habove
      _ = (below + 1) * 2 ^ k * n := Nat.mul_right_comm _ _ _
  refine ⟨pattern, hdiv, ceil?_eq_some hextent ?_ ?_⟩
  · have hbelow' : below * den < num := by
      apply Nat.lt_of_mul_lt_mul_right (a := 2 ^ k)
      calc
        below * den * 2 ^ k = below * 2 ^ k * den := Nat.mul_right_comm _ _ _
        _ < Binary64.roundHalfEven (m * 2 ^ k) n * den := Nat.mul_lt_mul_of_pos_right hround hden
        _ = num * 2 ^ k := hvalue.symm
    rw [Nat.add_mul, Nat.one_mul]
    omega
  · apply Nat.le_of_mul_le_mul_right _ (Nat.two_pow_pos k)
    calc
      num * 2 ^ k = Binary64.roundHalfEven (m * 2 ^ k) n * den := hvalue
      _ ≤ (below + 1) * 2 ^ k * den := Nat.mul_le_mul_right _ hround'
      _ = (below + 1) * den * 2 ^ k := Nat.mul_right_comm _ _ _

end Number

end FlowGate

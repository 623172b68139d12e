import FlowGate.Checked.Codec
import FlowGate.Checked.Script
import FlowGate.Proofs.Script.Push
import FlowGate.Proofs.Text.Numeral
import Mathlib.Data.Nat.Digits.Lemmas

/-!
# Decimal literals

A decimal literal is read as the number that its digits stand for, and spells the push of this
number. The literals from 0 to 16 are also names of opcodes, and then they are not read as numbers
at all; but the opcodes that they name are the pushes of these numbers. So leading zeros, or a minus
before a zero, make no difference although they change how a literal is looked up.

## Main definitions

* `Source.IsDecimalLiteral` — digits, possibly behind a minus
* `Source.digitsValue`, `Source.literalValue` — the number that a literal stands for

## Main results

* `Source.isDecimal_iff` — the symbols that are recognized as decimal literals
* `Source.IsDecimalLiteral.eq_toString_of_resolve?` — the literals that are names as well
* `spells_decimal`, `spells_toString` — a literal, or the numeral of a number, spells the push of its
  number
* `Checked.compile_decimal` — a text of one literal assembles to the push of its number
-/

namespace FlowGate

namespace Source

/-- The minus of a literal that has one. -/
def minus (negative : Bool) : List Char := if negative then ['-'] else []

/-- A symbol that consists of decimal digits, possibly behind a minus. -/
structure IsDecimalLiteral (symbol : String) (negative : Bool) (digits : List Char) : Prop where
  toList_eq : symbol.toList = minus negative ++ digits
  ne_nil : digits ≠ []
  isDigit : ∀ c ∈ digits, c.isDigit = true

/-- The number that decimal digits stand for: each counts ten times as much as the one behind it. -/
def digitsValue (digits : List Char) : Nat :=
  Nat.ofDigits 10 (digits.map (·.toNat - '0'.toNat)).reverse

/-- The number that a literal stands for. -/
def literalValue (negative : Bool) (digits : List Char) : Int :=
  if negative then -digitsValue digits else digitsValue digits

variable {symbol : String} {negative : Bool} {digits : List Char}

/-! ### Digits -/

theorem ofDecimal_eq_digitsValue (digits : List Char) :
    Text.ofDecimal (digits.map (·.toNat - 48)) = digitsValue digits := by
  rw [digitsValue, Nat.ofDigits_eq_foldr, List.foldr_reverse, Text.ofDecimal]
  congr 1
  funext n d
  rw [Nat.cast_id, Nat.add_comm]

/-- Digits stand for the same number here and in the conversion of numbers to text. -/
theorem digitsValue_toString (n : Nat) : digitsValue (toString n).toList = n := by
  have hchars : Text.ofDecimal ((toString n).toList.map (·.toNat - 48)) =
      Nat.ofDigitChars 10 (toString n).toList 0 := by
    rw [Text.ofDecimal, List.foldl_map, Nat.ofDigitChars_eq_foldl]
    rfl
  rw [← ofDecimal_eq_digitsValue, hchars, Nat.toString_eq_repr, Nat.toList_repr,
    Nat.ofDigitChars_ten_toDigits]

theorem digitsValue_lt (h : ∀ c ∈ digits, c.isDigit = true) :
    digitsValue digits < 10 ^ digits.length := by
  have hdigit : ∀ d ∈ (digits.map (·.toNat - '0'.toNat)).reverse, d < 10 := by
    intro d hd
    obtain ⟨c, hc, rfl⟩ := List.mem_map.mp (List.mem_reverse.mp hd)
    exact forall_digit (P := fun c => c.toNat - '0'.toNat < 10) (by decide) (h c hc)
  have hlt := Nat.ofDigits_lt_base_pow_length (by decide) hdigit
  rwa [List.length_reverse, List.length_map] at hlt

theorem natAbs_literalValue (negative : Bool) (digits : List Char) :
    (literalValue negative digits).natAbs = digitsValue digits := by
  cases negative
  · rfl
  · exact Int.natAbs_neg _

/-! ### Reading literals -/

namespace IsDecimalLiteral

theorem decimalDigits_eq (h : IsDecimalLiteral symbol negative digits) :
    decimalDigits symbol = (negative, digits) := by
  have hlist := h.toList_eq
  unfold decimalDigits
  cases negative with
  | true =>
    rw [hlist]
    rfl
  | false =>
    change symbol.toList = digits at hlist
    rw [hlist]
    split
    · next cs hminus =>
      exact absurd (h.isDigit '-' List.mem_cons_self) (by decide)
    · rfl

theorem eq_minus_or_isDigit (h : IsDecimalLiteral symbol negative digits) :
    ∀ c ∈ symbol.toList, c = '-' ∨ c.isDigit = true := by
  intro c hc
  rw [h.toList_eq, List.mem_append] at hc
  rcases hc with hminus | hdigit
  · cases negative with
    | false => cases hminus
    | true => exact .inl (List.mem_singleton.mp hminus)
  · exact .inr (h.isDigit c hdigit)

/-- The characters of a literal are no letters, no blanks and no marks of comments. -/
theorem isSettled (h : IsDecimalLiteral symbol negative digits) :
    ∀ c ∈ symbol.toList, Text.IsSettled c := by
  intro c hc
  rcases h.eq_minus_or_isDigit c hc with rfl | hdigit
  · decide
  · exact forall_digit (P := Text.IsSettled) (by decide) hdigit

theorem isWord (h : IsDecimalLiteral symbol negative digits) : IsWord symbol := by
  refine ⟨?_, fun c hc => (h.isSettled c hc).2⟩
  rw [h.toList_eq]
  exact List.append_ne_nil_of_right_ne_nil _ h.ne_nil

theorem capital_eq (h : IsDecimalLiteral symbol negative digits) :
    OpTable.capital symbol = symbol := by
  rw [OpTable.capital, Text.upper_eq_self fun c hc => (h.isSettled c hc).1, String.ofList_toList]

end IsDecimalLiteral

/-- The symbols that are recognized as decimal literals. -/
theorem isDecimal_iff :
    isDecimal symbol = true ↔ ∃ negative digits, IsDecimalLiteral symbol negative digits := by
  constructor
  · intro h
    rw [isDecimal, Bool.and_eq_true, Bool.not_eq_true', List.isEmpty_eq_false_iff,
      List.all_eq_true] at h
    refine ⟨(decimalDigits symbol).1, (decimalDigits symbol).2, ?_, h.1, h.2⟩
    unfold decimalDigits
    split
    · next cs hlist => exact hlist
    · rfl
  · rintro ⟨negative, digits, h⟩
    rw [isDecimal, h.decimalDigits_eq, Bool.and_eq_true, Bool.not_eq_true',
      List.isEmpty_eq_false_iff, List.all_eq_true]
    exact ⟨h.ne_nil, h.isDigit⟩

/-- A literal of limited length is read as the number that it stands for. -/
theorem IsDecimalLiteral.readDecimal_eq (h : IsDecimalLiteral symbol negative digits)
    (hlength : digits.length ≤ maxLiteralDigits) :
    readDecimal symbol = .ok (literalValue negative digits) := by
  rw [readDecimal, h.decimalDigits_eq]
  simp only [hlength, decide_true, ensure_true, ofDecimal_eq_digitsValue]
  rfl

/-- The numeral of a number. -/
theorem isDecimalLiteral_toString (n : Nat) :
    IsDecimalLiteral (toString n) false (toString n).toList :=
  ⟨rfl, toList_toString_ne_nil n, fun _ => isDigit_of_mem_toString⟩

/-! ### Names that are literals -/

/-- The literals that are names as well are the numerals from 0 to 16. -/
theorem IsDecimalLiteral.eq_toString_of_resolve? (h : IsDecimalLiteral symbol negative digits)
    {name : String} (hname : OpTable.standard.resolve? symbol = some name) :
    ∃ n : Nat, n < 17 ∧ symbol = toString n ∧ literalValue negative digits = n := by
  cases negative with
  | true =>
    have hminus := OpTable.not_minus_of_resolve? hname
    rw [h.capital_eq, h.toList_eq] at hminus
    exact absurd rfl hminus
  | false =>
    have hlist : symbol.toList = digits := h.toList_eq
    have hnumeral := (OpTable.of_resolve?_eq_some hname).2
    rw [h.capital_eq, hlist, List.all_eq_true] at hnumeral
    obtain ⟨n, hn, rfl⟩ := List.mem_map.mp (hnumeral h.isDigit)
    refine ⟨n, List.mem_range.mp hn, rfl, ?_⟩
    rw [← hlist]
    exact congrArg Int.ofNat (digitsValue_toString n)

end Source

/-- The push of a small number is the opcode that its numeral names. -/
theorem number_eq_of_lt {n : Nat} (h : n < 17) :
    Push.number n = [UInt8.ofNat (if n = 0 then 0 else 0x50 + n)] := by
  by_cases hzero : n = 0
  · subst hzero
    simp [Push.number, ScriptNumber.encode_zero, Push.data, Push.direct]
  · rw [Push.number, if_neg (by omega), if_pos (by omega), if_neg hzero, Int.toNat_natCast]

variable {symbol : String} {negative : Bool} {digits : List Char}

/-- A decimal literal spells the push of its number. -/
theorem spells_decimal (h : Source.IsDecimalLiteral symbol negative digits)
    (hlength : digits.length ≤ maxLiteralDigits) :
    Spells .standard [symbol] (Push.number (Source.literalValue negative digits)) := by
  cases hresolve : OpTable.standard.resolve? symbol with
  | some name =>
    -- The opcodes that small numerals name push their numbers.
    obtain ⟨n, hn, rfl, hvalue⟩ := h.eq_toString_of_resolve? hresolve
    rw [hvalue, number_eq_of_lt hn]
    exact spells_opcode h.isWord (OpTable.opcodeOf?_toString hn)
  | none =>
    have hliteral : Item.ofLiteral symbol =
        .ok (.number (Source.literalValue negative digits)) := by
      rw [Item.ofLiteral, if_pos (Source.isDecimal_iff.mpr ⟨_, _, h⟩), h.readDecimal_eq hlength]
      rfl
    exact spells_literal h.isWord hresolve hliteral

/-- A numeral spells the push of its number. -/
theorem spells_toString {n : Nat} (h : n < 10 ^ maxLiteralDigits) :
    Spells .standard [toString n] (Push.number n) := by
  have hlength : (toString n).toList.length ≤ maxLiteralDigits := by
    rw [Nat.toString_eq_repr, Nat.toList_repr]
    exact (Nat.length_toDigits_le_iff (by decide) (by decide)).mpr h
  have hspells := spells_decimal (Source.isDecimalLiteral_toString n) hlength
  rwa [show Source.literalValue false (toString n).toList = n from
    congrArg Int.ofNat (Source.digitsValue_toString n)] at hspells

/-! ### Pushes of literals -/

/-- The number of a literal needs no more bytes than the literal has digits. -/
theorem length_encode_literalValue_le (h : Source.IsDecimalLiteral symbol negative digits) :
    (ScriptNumber.encode (Source.literalValue negative digits)).length ≤ digits.length := by
  obtain ⟨k, hk⟩ : ∃ k, digits.length = k + 1 :=
    Nat.exists_eq_succ_of_ne_zero (mt List.length_eq_zero_iff.mp h.ne_nil)
  have hlt := Source.digitsValue_lt h.isDigit
  have hbytes : 10 ^ (k + 1) ≤ 128 * 256 ^ k := by
    rw [Nat.pow_succ, Nat.mul_comm]
    exact Nat.mul_le_mul (by decide) (Nat.pow_le_pow_left (by decide) k)
  rw [hk] at hlt ⊢
  rw [ScriptNumber.length_encode_le_iff, Source.natAbs_literalValue]
  exact Nat.lt_of_lt_of_le hlt hbytes

/-- A text of one decimal literal has a push of its number, and assembles to this push, whether the
literal is the name of an opcode or not. -/
theorem Checked.compile_decimal {text : String} {negative : Bool} {digits : List Char}
    (h : Source.IsDecimalLiteral text negative digits)
    (hlength : digits.length ≤ maxLiteralDigits) :
    ∃ code, Checked.pushNumber (.int (Source.literalValue negative digits)) = .ok code ∧
      Checked.compile .standard (.text text) = .ok code := by
  have hsize : (ScriptNumber.encode (Source.literalValue negative digits)).length ≤
      Push.maxLength :=
    Nat.le_trans (length_encode_literalValue_le h) (Nat.le_trans hlength (by decide))
  have htoInt : (Value.int (Source.literalValue negative digits)).toInt "number" =
      .ok (Source.literalValue negative digits) := rfl
  refine ⟨Push.number (Source.literalValue negative digits), ?_, ?_⟩
  · rw [pushNumber, bind_of_eq_ok htoInt]
    exact Push.number?_eq_ok_iff.mpr ⟨hsize, rfl⟩
  · rw [compile_text, FlowGate.compile, bind_of_eq_ok h.isWord.reads.symbols_eq]
    exact (spells_decimal h hlength).assemble_eq

/-- A literal that is the name of an opcode, the same number with leading zeros, and a zero with a
minus. -/
theorem Checked.compile_decimal_sample :
    Checked.compile .standard (.text "16") = .ok [0x60] ∧
      Checked.compile .standard (.text "0016") = .ok [0x60] ∧
      Checked.compile .standard (.text "-0") = .ok [0x00] := by
  have hsample : ∀ (text : String) (negative : Bool) (digits : List Char) (n : Int) (code : Bytes),
      text.toList = Source.minus negative ++ digits → digits ≠ [] →
      digits.all Char.isDigit = true → digits.length ≤ 4 →
      Source.literalValue negative digits = n → Checked.pushNumber (.int n) = .ok code →
      Checked.compile .standard (.text text) = .ok code := by
    intro text negative digits n code hlist hne hdigits hshort hvalue hcode
    obtain ⟨found, hpush, hcompile⟩ := Checked.compile_decimal
      ⟨hlist, hne, List.all_eq_true.mp hdigits⟩ (Nat.le_trans hshort (by decide))
    rw [hvalue, hcode] at hpush
    rwa [Except.ok.inj hpush]
  have hsixteen : Checked.pushNumber (.int 16) = .ok [0x60] := by decide +kernel
  have hzero : Checked.pushNumber (.int 0) = .ok [0x00] := by decide +kernel
  refine ⟨hsample "16" false ['1', '6'] 16 _ ?_ ?_ ?_ ?_ ?_ hsixteen,
    hsample "0016" false ['0', '0', '1', '6'] 16 _ ?_ ?_ ?_ ?_ ?_ hsixteen,
    hsample "-0" true ['0'] 0 _ ?_ ?_ ?_ ?_ ?_ hzero⟩
  all_goals decide +kernel

end FlowGate

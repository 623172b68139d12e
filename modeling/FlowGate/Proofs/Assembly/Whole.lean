import FlowGate.Proofs.Assembly.Lossless
import FlowGate.Proofs.Script.Number

/-!
# Source text assembles to whole instructions

Every item of source text assembles to one whole instruction: an opcode that stands alone, or a push
with its data. So the byte code of a source text never ends inside a push, and can be disassembled.
This needs that the names of the opcodes can be told apart.

## Main results

* `IsInstruction.data`, `IsInstruction.number` — the shortest pushes are whole instructions
* `Item.isInstruction_of_ofLiteral`, `OpTable.WellNamed.isInstruction_of_ofPush` — so are literals
  and explicit pushes
* `OpTable.WellNamed.exists_cut_of_compile` — byte code that was assembled can be cut
* `OpTable.WellNamed.exists_cut_code` — so can the byte code of scripts, however they were made
-/

namespace FlowGate

/-! ### Shortest pushes -/

namespace IsInstruction

theorem data {bs : Bytes} (h : bs.length ≤ Push.maxLength) : IsInstruction (Push.data bs) := by
  unfold Push.data
  split
  · next hdirect =>
    have htoNat : (UInt8.ofNat bs.length).toNat = bs.length :=
      UInt8.toNat_ofNat_of_lt' (Nat.lt_of_le_of_lt hdirect (by decide))
    by_cases hzero : bs.length = 0
    · -- Nothing is pushed by an opcode that stands alone.
      obtain rfl := List.length_eq_zero_iff.mp hzero
      exact .opcode _ (.inl htoNat)
    · exact .direct _ bs (by omega) (by omega) htoNat.symm
  · split
    · exact .counted 1 bs (.inl rfl) (by omega)
    · split
      · exact .counted 2 bs (.inr (.inl rfl)) (by omega)
      · exact .counted 4 bs (.inr (.inr rfl)) (by simp only [Push.maxLength] at h; omega)

theorem number {n : Int} (h : (ScriptNumber.encode n).length ≤ Push.maxLength) :
    IsInstruction (Push.number n) := by
  unfold Push.number
  split
  · exact .opcode _ (.inr (by decide))
  · split
    · next hsmall =>
      have hcode : (UInt8.ofNat (0x50 + n.toNat)).toNat = 0x50 + n.toNat :=
        UInt8.toNat_ofNat_of_lt' (by simp only [UInt8.size]; omega)
      exact .opcode _ (.inr (by omega))
    · exact data h

end IsInstruction

/-! ### Numerals -/

namespace Source

/-- Decimal digits spell a number below ten to the power of their count. -/
theorem ofDecimal_lt {digits : List Nat} (h : ∀ d ∈ digits, d < 10) :
    Text.ofDecimal digits < 10 ^ digits.length := by
  -- Behind digits that are read already, the next digit is the lowest one.
  have hbehind : ∀ n, digits.foldl (fun n d => 10 * n + d) n < (n + 1) * 10 ^ digits.length := by
    induction digits with
    | nil => simp
    | cons d digits ih =>
      intro n
      rw [List.forall_mem_cons] at h
      rw [List.foldl_cons, List.length_cons, Nat.pow_succ]
      calc digits.foldl (fun n d => 10 * n + d) (10 * n + d)
          < (10 * n + d + 1) * 10 ^ digits.length := ih h.2 _
        _ ≤ ((n + 1) * 10) * 10 ^ digits.length := Nat.mul_le_mul_right _ (by omega)
        _ = (n + 1) * (10 ^ digits.length * 10) := by
          rw [Nat.mul_assoc, Nat.mul_comm 10]
  simpa [Text.ofDecimal] using hbehind 0

/-- A decimal literal is limited in length, and so is its number. -/
theorem natAbs_lt_of_readDecimal {symbol : String} {n : Int} (hdecimal : isDecimal symbol = true)
    (h : readDecimal symbol = .ok n) : n.natAbs < 10 ^ maxLiteralDigits := by
  rw [isDecimal, Bool.and_eq_true, List.all_eq_true] at hdecimal
  obtain ⟨-, hdigits⟩ := hdecimal
  rw [readDecimal] at h
  generalize decimalDigits symbol = read at h hdigits
  obtain ⟨negative, digits⟩ := read
  obtain ⟨_, hlength, hvalue⟩ := bind_ok_iff.mp h
  have hlength := of_decide_eq_true (ensure_eq_ok_iff.mp hlength)
  -- Numerals are limited by the number of their digits.
  have hlt : Text.ofDecimal (digits.map (·.toNat - 48)) < 10 ^ maxLiteralDigits := by
    refine Nat.lt_of_lt_of_le (ofDecimal_lt fun d hd => ?_) ?_
    · obtain ⟨c, hc, rfl⟩ := List.mem_map.mp hd
      have hdigit := hdigits c hc
      simp only [Char.isDigit, Bool.and_eq_true, decide_eq_true_eq, UInt32.le_iff_toNat_le,
        ge_iff_le] at hdigit
      have hnine : c.toNat ≤ 57 := hdigit.2
      omega
    · rw [List.length_map]
      exact Nat.pow_le_pow_right (by decide) hlength
  obtain rfl := Except.ok.inj hvalue
  split <;> omega

end Source

/-! ### Items -/

theorem ScriptNumber.length_encode_le_maxLength {n : Int} (h : n.natAbs < 10 ^ maxLiteralDigits) :
    (encode n).length ≤ Push.maxLength := by
  have hbound : 10 ^ maxLiteralDigits ≤ 128 * 256 ^ 2150 := by decide +kernel
  have hlength := (length_encode_le_iff n 2150).mpr (Nat.lt_of_lt_of_le h hbound)
  simp only [Push.maxLength]
  omega

namespace Item

/-- A literal is a whole instruction. -/
theorem isInstruction_of_ofLiteral {symbol : String} {item : Item}
    (h : ofLiteral symbol = .ok item) : IsInstruction item.code := by
  rw [ofLiteral] at h
  split at h
  · next hdecimal =>
    obtain ⟨n, hn, hitem⟩ := bind_ok_iff.mp h
    obtain rfl := Except.ok.inj hitem
    exact .number (ScriptNumber.length_encode_le_maxLength
      (Source.natAbs_lt_of_readDecimal hdecimal hn))
  · split at h
    · obtain ⟨_, hlength, hitem⟩ := bind_ok_iff.mp h
      obtain rfl := Except.ok.inj hitem
      exact .data (of_decide_eq_true (ensure_eq_ok_iff.mp hlength))
    · cases h

end Item

namespace OpTable

variable {t : OpTable} (ht : t.Reachable) {code : Nat} {name : String}
include ht

/-- The counted pushes bear the names of counted pushes. -/
theorem Reachable.exists_lengthWidth?_name (hlow : 75 < code) (hhigh : code ≤ 78) :
    ∃ width, Item.lengthWidth? (t.name code) = some width := by
  have hcounted : ∀ width, (width = 1 ∨ width = 2 ∨ width = 4) →
      code = (Push.countedLead width).toNat → Item.lengthWidth? (t.name code) = some width := by
    rintro width hwidth rfl
    exact Instruction.operandAfter_eq_counted (ht.operandAfter_countedLead hwidth)
  have hcodes : code = 76 ∨ code = 77 ∨ code = 78 := by omega
  rcases hcodes with hcode | hcode | hcode
  · exact ⟨1, hcounted 1 (.inl rfl) hcode⟩
  · exact ⟨2, hcounted 2 (.inr (.inl rfl)) hcode⟩
  · exact ⟨4, hcounted 4 (.inr (.inr rfl)) hcode⟩

/-- An opcode whose name asks for no argument stands alone. -/
theorem Reachable.stands_alone (h : ¬ Item.takesArgument (t.name code) = true) :
    code = 0 ∨ 78 < code := by
  by_contra hrange
  apply h
  rw [Item.takesArgument_iff]
  by_cases hdirect : code ≤ 75
  · exact .inr (ht.hasDirectStem (by omega) hdirect)
  · obtain ⟨width, hwidth⟩ := ht.exists_lengthWidth?_name (show 75 < code by omega) (by omega)
    rw [hwidth]
    exact .inl rfl

variable (hnamed : t.WellNamed)
include hnamed

/-- An explicit push is a whole instruction. -/
theorem WellNamed.isInstruction_of_ofPush {argument : String} {item : Item}
    (hname : t.codeOf? name = some code) (htakes : Item.takesArgument name = true)
    (h : Item.ofPush t name argument = .ok item) : IsInstruction item.code := by
  obtain ⟨hlt, hcode⟩ := ht.regular.name_eq_of_codeOf? hname
  obtain ⟨data, ⟨width, hwidth, hdata, rfl⟩ | ⟨hwidth, hdata, rfl⟩⟩ :=
    Item.exists_data_of_ofPush h
  · refine .counted width data ?_ hdata
    rcases lengthWidth?_cases hwidth with ⟨-, rfl⟩ | ⟨-, rfl⟩ | ⟨-, rfl⟩ <;> simp
  · rw [hname, Option.getD_some] at hdata
    subst hcode
    -- The name of a direct push, whose opcode is the length.
    have hrange := hnamed.le_of_takesArgument code hlt htakes
    have hdirect : code ≤ 75 := by
      by_contra hover
      obtain ⟨width, hcounted⟩ :=
        ht.exists_lengthWidth?_name (show 75 < code by omega) (by omega)
      rw [hwidth] at hcounted
      cases hcounted
    have htoNat : (UInt8.ofNat code).toNat = code := UInt8.toNat_ofNat_of_lt' hlt
    rw [hname, Option.getD_some]
    exact .direct _ data (by omega) (by omega) (by omega)

/-- Every item of a sequence of symbols is a whole instruction. -/
theorem WellNamed.isInstruction_of_ofSymbols {symbols : List String} {items : List Item}
    (h : Item.ofSymbols t symbols = .ok items) : ∀ item ∈ items, IsInstruction item.code := by
  -- The induction takes a symbol, with its argument if it has one, off the front.
  fun_induction Item.ofSymbols t symbols generalizing items with
  | case1 =>
    obtain rfl := Except.ok.inj h
    simp
  | case2 => cases h
  | case3 symbol name hresolve htakes argument rest ih =>
    obtain ⟨item, hitem, hrest⟩ := bind_ok_iff.mp h
    obtain ⟨others, hothers, hcons⟩ := bind_ok_iff.mp hrest
    obtain rfl := Except.ok.inj hcons
    obtain ⟨-, code, hcode⟩ := resolve?_eq_some_iff.mp hresolve
    exact List.forall_mem_cons.mpr
      ⟨hnamed.isInstruction_of_ofPush ht hcode htakes hitem, ih hothers⟩
  | case4 symbol rest name hresolve htakes ih =>
    obtain ⟨others, hothers, hcons⟩ := bind_ok_iff.mp h
    obtain rfl := Except.ok.inj hcons
    obtain ⟨-, code, hcode⟩ := resolve?_eq_some_iff.mp hresolve
    obtain ⟨hlt, hname⟩ := ht.regular.name_eq_of_codeOf? hcode
    subst hname
    have halone := ht.stands_alone htakes
    have htoNat : (UInt8.ofNat code).toNat = code := UInt8.toNat_ofNat_of_lt' hlt
    refine List.forall_mem_cons.mpr ⟨?_, ih hothers⟩
    rw [Item.code, hcode, Option.getD_some]
    exact .opcode _ (by omega)
  | case5 symbol rest hresolve ih =>
    obtain ⟨item, hitem, hrest⟩ := bind_ok_iff.mp h
    obtain ⟨others, hothers, hcons⟩ := bind_ok_iff.mp hrest
    obtain rfl := Except.ok.inj hcons
    exact List.forall_mem_cons.mpr ⟨Item.isInstruction_of_ofLiteral hitem, ih hothers⟩

/-- Byte code that was assembled from source text can be cut into instructions. -/
theorem WellNamed.exists_cut_of_compile {source : String} {code : Bytes}
    (h : compile t source = .ok code) :
    ∃ instructions, Instruction.cut t code = .ok instructions := by
  obtain ⟨symbols, -, hassemble⟩ := bind_ok_iff.mp h
  obtain ⟨items, hitems, hcode⟩ := bind_ok_iff.mp hassemble
  obtain rfl := Except.ok.inj hcode
  rw [List.flatMap_def]
  refine hnamed.exists_cut_flatten ht fun x hx => ?_
  obtain ⟨item, hitem, rfl⟩ := List.mem_map.mp hx
  exact hnamed.isInstruction_of_ofSymbols ht hitems item hitem

/-- The byte code of a script that was made from source text or from byte code can be cut into
instructions. -/
theorem WellNamed.exists_cut_code {s : Script}
    (h : (∃ source, Script.ofSource t source = .ok s) ∨ ∃ code, Script.ofCode t code = .ok s) :
    ∃ instructions, Instruction.cut t s.code = .ok instructions := by
  rcases h with ⟨source, hsource⟩ | ⟨code, hcode⟩
  · obtain ⟨code, hcompile, hs⟩ := bind_ok_iff.mp hsource
    obtain rfl := Except.ok.inj hs
    exact hnamed.exists_cut_of_compile ht hcompile
  · obtain ⟨lines, hlines, hs⟩ := bind_ok_iff.mp hcode
    obtain rfl := Except.ok.inj hs
    obtain ⟨instructions, hcut, -⟩ := disassemble_eq_ok_iff.mp
      (Checked.disassemble_eq_ok_iff.mp hlines)
    exact ⟨instructions, hcut⟩

end OpTable

end FlowGate

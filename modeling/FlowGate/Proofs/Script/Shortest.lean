import FlowGate.Checked.Codec
import FlowGate.Proofs.Script.Push
import FlowGate.Proofs.Machine.Failing

/-!
# Pushes are as short as they can be

The push of a byte string or of a number puts it onto every stack that takes it. A byte string can
also be pushed with its length in more bytes than it needs, and a number as data where it has an
opcode of its own. None of these is shorter.

## Main definitions

* `Push.IsPush` — single push instructions
* `Push.Puts` — those that put a given byte string onto some stack
* `Push.IsShortest` — a push that puts it onto every stack that takes it, and is as short as any

## Main results

* `Machine.Does.sameOutcome_push`, `Machine.Does.sameOutcome_push_of_lt` — a script that pushes,
  within the limits of the stack and beyond
* `Push.IsPush.exists_does_push`, `Push.IsPush.push_cases` — what pushes of data push, and what
  pushes of data or of numbers do
* `Checked.isShortest_push` — the pushes that are made are the shortest
-/

namespace FlowGate

open Exec

variable {p : Primitives}

/-! ### Scripts that push -/

namespace Machine.Does

variable {t : OpTable} {code bs item : Bytes} {cache : Cache} {stack : Stack}

/-- A push puts its item onto a stack that takes it, and changes nothing else. -/
theorem sameOutcome_push (h : Machine.Does p t code (push bs))
    (hsize : (bs.length : Int) ≤ stack.maxItemSize) (hroom : stack.items.length < stack.maxItems) :
    (runScript p t code cache stack).SameOutcome
      ⟨none, .start code { stack with items := bs :: stack.items } cache, cache⟩ :=
  h.sameOutcome_of_eq_ok (push_eq_ok_iff.mpr ⟨hsize, hroom, rfl⟩) rfl

/-- A push of an item that is too large fails, and changes nothing. -/
theorem sameOutcome_push_of_lt (h : Machine.Does p t code (push bs))
    (hsize : stack.maxItemSize < bs.length) :
    (runScript p t code cache stack).SameOutcome
      ⟨some .itemTooLarge, .start code stack cache, cache⟩ :=
  h.sameOutcome_of_eq_error (push_eq_error_of_lt hsize) rfl

/-- The item that a push leaves on top is the one that it pushes. -/
theorem eq_of_push (h : Machine.Does p t code (push bs))
    (hok : (runScript p t code cache stack).isOk = true)
    (hitems : (runScript p t code cache stack).final.stack.items = item :: stack.items) :
    bs = item := by
  obtain ⟨m, hm⟩ := runScript_isOk_iff.mp hok
  rw [(runScript_of_interpret_eq_ok hm).2.1] at hitems
  rw [h.interpret_eq] at hm
  obtain ⟨-, -, rfl⟩ := push_eq_ok_iff.mp hm
  exact (List.cons.inj hitems).1

/-- An opcode that fails at once does not run well. -/
theorem isOk_of_fail {fault : ExecFault} (h : Machine.Does p t code (fail fault)) :
    (runScript p t code cache stack).isOk = false := by
  rw [ScriptRun.isOk, h.fault_eq_some ⟨_, rfl⟩]
  rfl

end Machine.Does

namespace Push

variable {code bs : Bytes} {n : Int}

/-! ### Lengths -/

theorem length_counted (width : Nat) (bs : Bytes) :
    (counted width bs).length = 1 + width + bs.length := by
  rw [counted, List.cons_append, List.length_cons, List.length_append, Bytes.length_ofNat]
  omega

/-- The push of a byte string is its bytes with one, two, three or five in front. -/
theorem length_data (bs : Bytes) :
    (data bs).length = bs.length +
      if bs.length ≤ 75 then 1 else if bs.length ≤ 0xff then 2
      else if bs.length ≤ 0xffff then 3 else 5 := by
  unfold data
  split_ifs
  · rw [direct, List.length_cons]
  · rw [length_counted]
    omega
  · rw [length_counted]
    omega
  · rw [length_counted]
    omega

/-- A length in more bytes than needed makes no push shorter. -/
theorem length_data_le_counted {width : Nat} (hwidth : width = 1 ∨ width = 2 ∨ width = 4)
    (h : bs.length < 256 ^ width) : (data bs).length ≤ (counted width bs).length := by
  rw [length_data, length_counted]
  rcases hwidth with rfl | rfl | rfl
  all_goals split_ifs
  all_goals omega

/-- The push of a number is not longer than that of its bytes. -/
theorem length_number_le (n : Int) : (number n).length ≤ (data (ScriptNumber.encode n)).length := by
  have hpos : 1 ≤ (data (ScriptNumber.encode n)).length := by
    rw [length_data]
    split_ifs <;> omega
  unfold number
  split_ifs
  · exact hpos
  · exact hpos
  · exact Nat.le_refl _

/-- The numbers that have an opcode of their own. -/
theorem length_number_of_le (hlow : n = -1 ∨ 1 ≤ n) (hhigh : n ≤ 16) : (number n).length = 1 := by
  unfold number
  split_ifs
  · rfl
  · rfl
  · omega

end Push

/-! ### Single push instructions -/

namespace Push

/-- The last opcode of a push of data, which is empty, or as long as the opcode says or the bytes
behind it. -/
def lastOfData : Nat := 0x4e

/-- The last opcode of a push of a number. -/
def lastOfNumber : Nat := 0x60

/-- A single instruction with an opcode up to `last`. -/
structure IsPush (last : Nat) (code : Bytes) : Prop where
  isInstruction : IsInstruction code
  lead_le : ∀ lead ∈ code.head?, lead.toNat ≤ last

/-- A single instruction with an opcode up to `last` that on some stack, with some cache, runs well
and puts a byte string on top. -/
structure Puts (p : Primitives) (last : Nat) (code bs : Bytes) : Prop extends IsPush last code where
  exists_run : ∃ cache stack, (runScript p .standard code cache stack).isOk = true ∧
    (runScript p .standard code cache stack).final.stack.items = bs :: stack.items

/-- A shortest push among the instructions with an opcode up to `last`: one that puts a byte string
onto every stack with room for it, or fails where the stack takes no item of its size, and that is
not longer than any of them that puts it onto some stack. -/
structure IsShortest (p : Primitives) (last : Nat) (code bs : Bytes) : Prop
    extends IsPush last code where
  run_of_le : ∀ (cache : Cache) (stack : Stack), stack.items.length < stack.maxItems →
    (bs.length : Int) ≤ stack.maxItemSize → (runScript p .standard code cache stack).SameOutcome
      ⟨none, .start code { stack with items := bs :: stack.items } cache, cache⟩
  run_of_lt : ∀ (cache : Cache) (stack : Stack), stack.items.length < stack.maxItems →
    stack.maxItemSize < bs.length → (runScript p .standard code cache stack).SameOutcome
      ⟨some .itemTooLarge, .start code stack cache, cache⟩
  length_le : ∀ other, Puts p last other bs → code.length ≤ other.length

variable {code bs : Bytes} {n : Int}

theorem toNat_countedLead_le (width : Nat) : (countedLead width).toNat ≤ lastOfData := by
  unfold countedLead
  split <;> decide

theorem isPush_counted {width : Nat} (hwidth : width = 1 ∨ width = 2 ∨ width = 4)
    (h : bs.length < 256 ^ width) : IsPush lastOfData (counted width bs) where
  isInstruction := .counted width bs hwidth h
  lead_le := by
    rintro lead hlead
    obtain rfl := Option.mem_some_iff.mp hlead
    exact toNat_countedLead_le width

theorem isPush_direct (h : bs.length ≤ 75) : IsPush lastOfData (direct bs) := by
  have htoNat : (UInt8.ofNat bs.length).toNat = bs.length :=
    UInt8.toNat_ofNat_of_lt' (Nat.lt_of_le_of_lt h (by decide))
  constructor
  · by_cases hzero : bs.length = 0
    · obtain rfl := List.length_eq_zero_iff.mp hzero
      exact .opcode 0 (.inl rfl)
    · exact .direct _ bs (by omega) (by omega) htoNat.symm
  · rintro lead hlead
    obtain rfl := Option.mem_some_iff.mp hlead
    rw [htoNat, lastOfData]
    omega

/-- The push of a byte string is a single push of data. -/
theorem isPush_data (h : bs.length ≤ maxLength) : IsPush lastOfData (data bs) := by
  unfold data
  split_ifs with hdirect hone htwo
  · exact isPush_direct hdirect
  · exact isPush_counted (.inl rfl) (by omega)
  · exact isPush_counted (.inr (.inl rfl)) (by omega)
  · exact isPush_counted (.inr (.inr rfl)) (by simp only [maxLength] at h; omega)

/-- The push of a number is a single push of a number. -/
theorem isPush_number (h : (ScriptNumber.encode n).length ≤ maxLength) :
    IsPush lastOfNumber (number n) := by
  have hopcode : ∀ lead : UInt8, 78 < lead.toNat → lead.toNat ≤ lastOfNumber →
      IsPush lastOfNumber [lead] := by
    refine fun lead hlow hhigh => ⟨.opcode lead (.inr hlow), ?_⟩
    rintro other hother
    obtain rfl := Option.mem_some_iff.mp hother
    exact hhigh
  unfold number
  split_ifs with hminus hsmall
  · exact hopcode 0x4f (by decide) (by decide)
  · have htoNat : (UInt8.ofNat (0x50 + n.toNat)).toNat = 0x50 + n.toNat :=
      UInt8.toNat_ofNat_of_lt' (by simp only [UInt8.size]; omega)
    exact hopcode _ (by omega) (by rw [htoNat, lastOfNumber]; omega)
  · have hdata := isPush_data h
    exact ⟨hdata.isInstruction, fun lead hlead =>
      Nat.le_trans (hdata.lead_le lead hlead) (by decide)⟩

/-! ### What single push instructions push -/

/-- A push of data pushes some data, and is not shorter than the push that is made for it. -/
theorem IsPush.exists_does_push (h : IsPush lastOfData code) :
    ∃ bs, Machine.Does p .standard code (push bs) ∧ bs.length ≤ maxLength ∧
      (data bs).length ≤ code.length := by
  obtain ⟨hcode, hlead⟩ := h
  cases hcode with
  | opcode lead hcode =>
    -- Among these opcodes only zero stands alone.
    have hzero : lead = 0 := by
      have hle := hlead lead rfl
      simp only [lastOfData] at hle
      exact UInt8.toNat_inj.mp (by rw [UInt8.toNat_zero]; omega)
    subst hzero
    have hdoes : Machine.Does p .standard (direct []) (push []) := does_direct (Nat.zero_le _)
    exact ⟨[], hdoes, Nat.zero_le _, Nat.le_refl _⟩
  | direct lead bs hpos hle hlength =>
    have hcode : lead :: bs = direct bs := by
      rw [direct, hlength, UInt8.ofNat_toNat]
    have hshort : bs.length ≤ 75 := hlength ▸ hle
    refine ⟨bs, hcode ▸ does_direct hshort, by simp only [maxLength]; omega, ?_⟩
    exact Nat.le_of_eq (by rw [length_data, if_pos hshort, List.length_cons])
  | counted width bs hwidth hlength =>
    refine ⟨bs, does_counted (operation_countedLead hwidth) hlength, ?_,
      length_data_le_counted hwidth hlength⟩
    simp only [maxLength]
    rcases hwidth with rfl | rfl | rfl <;> omega

/-- Behind the opcodes of the pushes of data an opcode stands alone. -/
theorem eq_singleton_of_lastOfData_lt (h : IsInstruction code) {lead : UInt8}
    (hhead : lead ∈ code.head?) (hlead : lastOfData < lead.toNat) : code = [lead] := by
  cases h with
  | opcode other hcode =>
    obtain rfl := Option.mem_some_iff.mp hhead
    rfl
  | direct other bs hpos hle hlength =>
    obtain rfl := Option.mem_some_iff.mp hhead
    simp only [lastOfData] at hlead
    omega
  | counted width bs hwidth hlength =>
    obtain rfl := Option.mem_some_iff.mp hhead
    exact absurd (toNat_countedLead_le width) (Nat.not_le_of_lt hlead)

/-- A number from -1 to 16 is a single byte, or none. -/
theorem length_encode_le_one (hlow : n = -1 ∨ 1 ≤ n) (hhigh : n ≤ 16) :
    (ScriptNumber.encode n).length ≤ 1 :=
  (ScriptNumber.length_encode_le_iff n 0).mpr (by omega)

/-- Behind the opcodes of the pushes of data come those of the numbers from -1 to 16 without zero,
and one that is not assigned. -/
theorem number_opcode_cases {lead : UInt8} (hlow : lastOfData < lead.toNat)
    (hhigh : lead.toNat ≤ lastOfNumber) :
    (∃ n : Int, (n = -1 ∨ 1 ≤ n) ∧ n ≤ 16 ∧
        Machine.Does p .standard [lead] (push (ScriptNumber.encode n))) ∨
      Machine.Does p .standard [lead] (fail (.unassigned lead.toNat)) := by
  simp only [lastOfData, lastOfNumber] at hlow hhigh
  -- The opcode of a number is its push.
  have hnumber : ∀ n : Int, (n = -1 ∨ 1 ≤ n) → n ≤ 16 → number n = [lead] →
      Machine.Does p .standard [lead] (push (ScriptNumber.encode n)) := by
    intro n hn hle hcode
    rw [← hcode]
    exact does_number (Nat.le_trans (length_encode_le_one hn hle) (by decide))
  by_cases hminus : lead.toNat = 0x4f
  · have hlead : lead = 0x4f := UInt8.toNat_inj.mp hminus
    exact .inl ⟨-1, .inl rfl, by decide, hnumber (-1) (.inl rfl) (by decide) (by rw [hlead]; rfl)⟩
  by_cases hfree : lead.toNat = 0x50
  · have hop : OpTable.standard.operation lead.toNat = .unassigned lead.toNat := by
      rw [hfree]
      decide +kernel
    exact .inr (Machine.does_opcode OpTable.aligned_standard hop rfl)
  · refine .inl ⟨(lead.toNat - 0x50 : Nat), .inr (by omega), by omega,
      hnumber _ (.inr (by omega)) (by omega) ?_⟩
    rw [number, if_neg (by omega), if_pos (by omega), Int.toNat_natCast,
      Nat.add_sub_cancel' (by omega), UInt8.ofNat_toNat]

/-- A push of data or of a number pushes some data or some number, and is not shorter than the push
that is made for it, or it fails. -/
theorem IsPush.push_cases (h : IsPush lastOfNumber code) :
    (∃ bs, Machine.Does p .standard code (push bs) ∧ bs.length ≤ maxLength ∧
        (data bs).length ≤ code.length) ∨
      (∃ n, Machine.Does p .standard code (push (ScriptNumber.encode n)) ∧
        (ScriptNumber.encode n).length ≤ maxLength ∧ (number n).length ≤ code.length) ∨
      ∃ fault, Machine.Does p .standard code (fail fault) := by
  by_cases hdata : ∀ lead ∈ code.head?, lead.toNat ≤ lastOfData
  · exact .inl (IsPush.exists_does_push ⟨h.isInstruction, hdata⟩)
  · simp only [not_forall, Nat.not_le] at hdata
    obtain ⟨lead, hhead, hlow⟩ := hdata
    obtain rfl := eq_singleton_of_lastOfData_lt h.isInstruction hhead hlow
    rcases number_opcode_cases hlow (h.lead_le lead hhead) with ⟨n, hn, hle, hdoes⟩ | hdoes
    · exact .inr (.inl ⟨n, hdoes, Nat.le_trans (length_encode_le_one hn hle) (by decide),
        Nat.le_of_eq (length_number_of_le hn hle)⟩)
    · exact .inr (.inr ⟨_, hdoes⟩)

/-- No push of data is shorter than the one that is made. -/
theorem Puts.length_data_le (h : Puts p lastOfData code bs) :
    bs.length ≤ maxLength ∧ (data bs).length ≤ code.length := by
  obtain ⟨pushed, hdoes, hsize, hlength⟩ := h.toIsPush.exists_does_push (p := p)
  obtain ⟨cache, stack, hok, hitems⟩ := h.exists_run
  obtain rfl := hdoes.eq_of_push hok hitems
  exact ⟨hsize, hlength⟩

/-- No push of a number is shorter than the one that is made. -/
theorem Puts.length_number_le (h : Puts p lastOfNumber code (ScriptNumber.encode n)) :
    (ScriptNumber.encode n).length ≤ maxLength ∧ (number n).length ≤ code.length := by
  obtain ⟨cache, stack, hok, hitems⟩ := h.exists_run
  rcases h.toIsPush.push_cases (p := p) with
    ⟨pushed, hdoes, hsize, hlength⟩ | ⟨k, hdoes, hsize, hlength⟩ | ⟨fault, hdoes⟩
  · obtain rfl := hdoes.eq_of_push hok hitems
    exact ⟨hsize, Nat.le_trans (Push.length_number_le n) hlength⟩
  · obtain rfl := ScriptNumber.encode_injective (hdoes.eq_of_push hok hitems)
    exact ⟨hsize, hlength⟩
  · rw [hdoes.isOk_of_fail] at hok
    cases hok

/-! ### The pushes that are made -/

/-- A push that is not longer than any other is a shortest one. -/
theorem IsPush.isShortest {last : Nat} (h : IsPush last code)
    (hdoes : Machine.Does p .standard code (push bs))
    (hlength : ∀ other, Puts p last other bs → code.length ≤ other.length) :
    IsShortest p last code bs where
  toIsPush := h
  run_of_le _ _ hroom hsize := hdoes.sameOutcome_push hsize hroom
  run_of_lt _ _ _ hsize := hdoes.sameOutcome_push_of_lt hsize
  length_le := hlength

theorem isShortest_data (h : bs.length ≤ maxLength) : IsShortest p lastOfData (data bs) bs :=
  (isPush_data h).isShortest (does_data h) fun _ hother => hother.length_data_le.2

theorem isShortest_number (h : (ScriptNumber.encode n).length ≤ maxLength) :
    IsShortest p lastOfNumber (number n) (ScriptNumber.encode n) :=
  (isPush_number h).isShortest (does_number h) fun _ hother => hother.length_number_le.2

end Push

/-- The push of a byte string shorter than `2 ^ 32` puts it onto every stack with room for it if the
stack takes items of its size, and otherwise fails since the item is too large. It is not longer than
any push of data that puts the byte string. The push of a number whose bytes are that short puts
these bytes just so, and is not longer than any push of data or of a number that puts them. Other
numbers are refused, and no single push puts their bytes. -/
theorem Checked.isShortest_push (p : Primitives) :
    (∀ bs : Bytes, bs.length < 2 ^ 32 → ∃ code, Checked.pushData (.bytes bs) = .ok code ∧
      Push.IsShortest p Push.lastOfData code bs) ∧
    (∀ n : Int, (ScriptNumber.encode n).length < 2 ^ 32 →
      ∃ code, Checked.pushNumber (.int n) = .ok code ∧
        Push.IsShortest p Push.lastOfNumber code (ScriptNumber.encode n)) ∧
    (∀ n : Int, 2 ^ 32 ≤ (ScriptNumber.encode n).length →
      Checked.pushNumber (.int n) = .error (.invalid .dataTooLong) ∧
        ∀ other, ¬ Push.Puts p Push.lastOfNumber other (ScriptNumber.encode n)) ∧
    ExecFault.itemTooLarge.message = "Stack item size too large" := by
  have hmaxLength : ∀ size : Nat, size < 2 ^ 32 ↔ size ≤ Push.maxLength := by
    simp only [Push.maxLength]
    omega
  refine ⟨fun bs hbs => ?_, fun n hn => ?_, fun n hn => ?_, rfl⟩
  · rw [hmaxLength] at hbs
    exact ⟨Push.data bs, Push.data?_eq_ok_iff.mpr ⟨hbs, rfl⟩, Push.isShortest_data hbs⟩
  · rw [hmaxLength] at hn
    exact ⟨Push.number n, Push.number?_eq_ok_iff.mpr ⟨hn, rfl⟩, Push.isShortest_number hn⟩
  · -- The form of the number is too long for any push.
    have hlong : ¬ (ScriptNumber.encode n).length ≤ Push.maxLength := by
      rw [← hmaxLength]
      omega
    refine ⟨?_, fun other hother => hlong hother.length_number_le.1⟩
    change Push.number? n = _
    rw [Push.number?, decide_eq_false hlong]
    rfl

/-- The byte of the number 5 takes two bytes to push as data, and one as a number. -/
theorem Checked.isShortest_push_sample :
    Push.IsShortest .standard Push.lastOfData [0x01, 0x05] [0x05] ∧
      Push.IsShortest .standard Push.lastOfNumber [0x55] (ScriptNumber.encode 5) := by
  obtain ⟨hdata, hnumber, -⟩ := Checked.isShortest_push .standard
  obtain ⟨code, hcode, hshortest⟩ := hdata [0x05] (by decide)
  obtain rfl : [0x01, 0x05] = code := Except.ok.inj hcode
  have hfive : Checked.pushNumber (.int 5) = .ok [0x55] := by decide +kernel
  obtain ⟨code, hcode, hsmall⟩ := hnumber 5 (by decide +kernel)
  obtain rfl : [0x55] = code := Except.ok.inj (hfive.symm.trans hcode)
  exact ⟨hshortest, hsmall⟩

end FlowGate

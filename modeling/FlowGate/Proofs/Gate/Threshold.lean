import FlowGate.Checked.Gate
import FlowGate.Proofs.Gate.FirstFault

/-!
# The comparison with a threshold and the numbers that a role accepts

A role accepts numbers by comparing them as they are. Its script compares what was pushed for them,
which it can read only up to four bytes. Both agree on every number: the script succeeds behind the
push of a number if the role accepts it, and then leaves the number where it is.

## Main definitions

* `Gate.pushAndCompare` — the push of a number and the comparison with the threshold of a role
* `Gate.thresholdFault` — the fault of that script on a number that is not accepted

## Main results

* `Gate.pushAndCompare_eq_ok`, `Gate.fails_pushAndCompare` — what it does on numbers that are
  accepted, and on others
* `Checked.accepts_int` — a role accepts values that are integers as it does these
* `Gate.exists_thresholdCheck_isOk_iff_accepts` — the script agrees with the role
-/

namespace FlowGate

open Exec Operation

/-- Values that are integers are accepted as these are. -/
theorem Checked.accepts_int (role : GateRole) (x : Int) :
    Checked.accepts role (.int x) = .ok (role.accepts x) := by
  by_cases hlow : -GateRole.maxNumber ≤ x
  · by_cases hhigh : x ≤ GateRole.maxNumber
    · have hin : ¬ (x < -GateRole.maxNumber ∨ GateRole.maxNumber < x) := by omega
      cases role <;> simp [Checked.accepts, GateRole.accepts, hlow, hhigh, hin, bind, Except.bind]
    · simp [Checked.accepts, GateRole.accepts, hlow, hhigh, bind, Except.bind, pure, Except.pure]
  · simp [Checked.accepts, GateRole.accepts, hlow, bind, Except.bind, pure, Except.pure]

theorem Checked.thresholdCheck_role (t : OpTable) (role : GateRole) :
    Checked.thresholdCheck t (.role role) = Gate.thresholdCheck t role := by
  have hrole : Checked.role (.role role) = .ok role := rfl
  rw [Checked.thresholdCheck, FlowGate.bind_of_eq_ok hrole]

namespace Gate

variable {p : Primitives} {m : Machine} {role : GateRole} {x : Int}

/-- Puts a number and compares it with the threshold of a role. -/
def pushAndCompare (role : GateRole) (x : Int) (p : Primitives) : Exec Unit := do
  push (ScriptNumber.encode x)
  compareThreshold role p

/-- The fault on a number that is not accepted: the comparison fails on a number of four bytes, the
number cannot be read if it has more, and cannot be put if it is larger than an item. -/
def thresholdFault (x : Int) : ExecFault :=
  if (ScriptNumber.encode x).length ≤ 4 then .verifyFailed
  else if (ScriptNumber.encode x).length ≤ 520 then .numberTooLong
  else .itemTooLarge

theorem does_pushAndCompare (role : GateRole)
    (h : (ScriptNumber.encode x).length ≤ Push.maxLength) (p : Primitives) :
    Machine.Does p .standard (Push.number x ++ thresholdCode role) (pushAndCompare role x p) :=
  (Push.does_number h).append OpTable.aligned_standard ((writes_threshold role).does p)

section
variable (hmaxItems : m.stack.maxItems = 1000) (hmaxItemSize : m.stack.maxItemSize = 520)
  (hroom : m.stack.items.length + 2 < 1000)
include hmaxItems hmaxItemSize hroom

/-- A number that fits an item is put, and then compared. -/
theorem pushAndCompare_eq_compareThreshold (hsize : (ScriptNumber.encode x).length ≤ 520) :
    pushAndCompare role x p m =
      compareThreshold role p (m.withItems (ScriptNumber.encode x :: m.stack.items)) := by
  have hpush : push (ScriptNumber.encode x) m =
      .ok () (m.withItems (ScriptNumber.encode x :: m.stack.items)) :=
    push_eq_ok_iff.mpr ⟨by omega, by omega, rfl⟩
  rw [pushAndCompare, Exec.bind_of_eq_ok hpush]

/-- A number that is accepted is left on the stack. -/
theorem pushAndCompare_eq_ok (h : role.accepts x = true) :
    pushAndCompare role x p m = .ok () (m.withItems (ScriptNumber.encode x :: m.stack.items)) := by
  have hlength := role.length_le_of_accepts h
  rw [pushAndCompare_eq_compareThreshold hmaxItems hmaxItemSize hroom (by omega)]
  exact (compareThreshold_eq_ok_iff (by exact hmaxItems) (by exact hmaxItemSize)).mpr
    ⟨_, _, x, rfl, by simpa using hroom, ScriptNumber.decode_operand_of_length_le hlength, h,
      rfl⟩

/-- A number that is not accepted fails. -/
theorem fails_pushAndCompare (h : role.accepts x = false) :
    Fails (pushAndCompare role x p) m (thresholdFault x) := by
  rw [thresholdFault]
  by_cases hsize : (ScriptNumber.encode x).length ≤ 520
  · rw [Fails, pushAndCompare_eq_compareThreshold hmaxItems hmaxItemSize hroom hsize, if_pos hsize]
    -- What was pushed is read again, up to four bytes.
    by_cases hlength : (ScriptNumber.encode x).length ≤ 4
    · rw [if_pos hlength]
      exact fails_compareThreshold_of_not_accepts (by exact hmaxItems) (by exact hmaxItemSize) rfl
        (by simpa using hroom) (ScriptNumber.decode_operand_of_length_le hlength) h
    · rw [if_neg hlength]
      exact fails_compareThreshold (by exact hmaxItems) (by exact hmaxItemSize) rfl hsize
        (by simpa using hroom)
        (ScriptNumber.decode_operand_of_lt_length (Nat.lt_of_not_le hlength))
  · rw [if_neg (by omega), if_neg hsize]
    exact fails_bind_iff.mpr (.inl ⟨m, push_eq_error_of_lt (by omega)⟩)

end

/-! ### The script -/

section
variable (hsize : (ScriptNumber.encode x).length ≤ Push.maxLength) (cache : Cache)
include hsize

/-- The script leaves a number that is accepted on the stack, and the cache as it is. -/
theorem sameOutcome_threshold_of_accepts (p : Primitives) (h : role.accepts x = true) :
    (runScript p .standard (Push.number x ++ thresholdCode role) cache .empty).SameOutcome
      ⟨none, .start (Push.number x ++ thresholdCode role)
        { Stack.empty with items := [ScriptNumber.encode x] } cache, cache⟩ :=
  (does_pushAndCompare role hsize p).sameOutcome_of_eq_ok
    (pushAndCompare_eq_ok rfl rfl (show 0 + 2 < 1000 by decide) h) rfl

/-- The script fails on a number that is not accepted. -/
theorem fault_threshold_of_not_accepts (p : Primitives) (h : role.accepts x = false) :
    (runScript p .standard (Push.number x ++ thresholdCode role) cache .empty).fault =
      some (thresholdFault x) :=
  (does_pushAndCompare role hsize p).fault_eq_some
    (fails_pushAndCompare rfl rfl (show 0 + 2 < 1000 by decide) h)

theorem isOk_threshold_iff (p : Primitives) :
    (runScript p .standard (Push.number x ++ thresholdCode role) cache .empty).isOk = true ↔
      role.accepts x = true := by
  rw [ScriptRun.isOk]
  cases h : role.accepts x with
  | true => simp [(sameOutcome_threshold_of_accepts hsize cache p h).fault_eq]
  | false => simp [fault_threshold_of_not_accepts hsize cache p h]

end

/-- Behind the push of a number the comparison with the threshold of a role succeeds if the role
accepts the number, of whatever size it is, and then leaves the number on the stack, and the cache as
it is. A number of more than four bytes is not accepted, and where a number is not accepted the
script fails: the comparison with a number of four bytes, the reading of one that has more, and the
push of one that is larger than an item. -/
theorem exists_thresholdCheck_isOk_iff_accepts (p : Primitives) (role : GateRole) (x : Int)
    (cache : Cache) :
    ∃ check, Checked.thresholdCheck .standard (.role role) = .ok check ∧
      ((∃ code, Checked.pushNumber (.int x) = .ok code ∧
          (runScript p .standard (code ++ check.code) cache .empty).isOk = true) ↔
        Checked.accepts role (.int x) = .ok true) ∧
      (∀ code, Checked.pushNumber (.int x) = .ok code →
        (runScript p .standard (code ++ check.code) cache .empty).isOk = true →
          (runScript p .standard (code ++ check.code) cache .empty).SameOutcome
            ⟨none, .start (code ++ check.code)
              { Stack.empty with items := [ScriptNumber.encode x] } cache, cache⟩) ∧
      (4 < (ScriptNumber.encode x).length → Checked.accepts role (.int x) = .ok false) ∧
      ∀ code, Checked.pushNumber (.int x) = .ok code → Checked.accepts role (.int x) = .ok false →
        (runScript p .standard (code ++ check.code) cache .empty).fault =
          some (thresholdFault x) := by
  obtain ⟨source, hcheck⟩ := exists_thresholdCheck_eq role
  have hpush : ∀ {code}, Checked.pushNumber (.int x) = .ok code ↔
      (ScriptNumber.encode x).length ≤ Push.maxLength ∧ code = Push.number x :=
    Push.number?_eq_ok_iff
  simp only [Checked.thresholdCheck_role, Checked.accepts_int, Except.ok.injEq, hpush]
  refine ⟨_, hcheck, ⟨?_, ?_⟩, ?_, role.accepts_eq_false_of_length, ?_⟩
  · rintro ⟨code, ⟨hsize, rfl⟩, hok⟩
    exact (isOk_threshold_iff hsize cache p).mp hok
  · intro h
    -- A number that is accepted is short, and so it has a push.
    have hsize := Nat.le_trans (role.length_le_of_accepts h) (show 4 ≤ Push.maxLength by decide)
    exact ⟨_, ⟨hsize, rfl⟩, (isOk_threshold_iff hsize cache p).mpr h⟩
  · rintro code ⟨hsize, rfl⟩ hok
    exact sameOutcome_threshold_of_accepts hsize cache p
      ((isOk_threshold_iff hsize cache p).mp hok)
  · rintro code ⟨hsize, rfl⟩ h
    exact fault_threshold_of_not_accepts hsize cache p h

/-- The number 128 takes a second byte for its sign, and is more than 100. The number `-2 ^ 31` takes
a fifth one, and though it is less than 200 it cannot be read. -/
theorem exists_thresholdCheck_isOk_iff_accepts_sample :
    (∃ check code, Checked.thresholdCheck .standard (.role .f1) = .ok check ∧
        Checked.pushNumber (.int 128) = .ok code ∧
        (runScript .standard .standard (code ++ check.code) .empty .empty).isOk = true) ∧
      ∃ check code, Checked.thresholdCheck .standard (.role .f2) = .ok check ∧
        Checked.pushNumber (.int (-2 ^ 31)) = .ok code ∧
        (runScript .standard .standard (code ++ check.code) .empty .empty).fault =
          some .numberTooLong := by
  constructor
  · obtain ⟨check, hcheck, hiff, -⟩ :=
      exists_thresholdCheck_isOk_iff_accepts .standard .f1 128 .empty
    obtain ⟨code, hcode, hok⟩ := hiff.mpr (by rw [Checked.accepts_int]; rfl)
    exact ⟨check, code, hcheck, hcode, hok⟩
  · obtain ⟨check, hcheck, -, -, hlong, hfault⟩ :=
      exists_thresholdCheck_isOk_iff_accepts .standard .f2 (-2 ^ 31) .empty
    have hcode : Checked.pushNumber (.int (-2 ^ 31)) = .ok (Push.number (-2 ^ 31)) :=
      Push.number?_eq_ok_iff.mpr ⟨by decide +kernel, rfl⟩
    have hkind : thresholdFault (-2 ^ 31) = .numberTooLong := by decide +kernel
    rw [hkind] at hfault
    exact ⟨check, _, hcheck, hcode, hfault _ hcode (hlong (by decide +kernel))⟩

end Gate

end FlowGate

import FlowGate.Proofs.Machine.Actions

/-!
# Running byte code without a tape

A tape only tells which bytes come next. This file runs byte code directly: an instruction is cut
off the front, its operation is done, and the rest is run. A run on a tape has the same outcome, so
what holds of a run can be proved by recursion on byte code.

## Main definitions

* `Exec.TapeFree` — actions that neither read nor move the tape
* `Tape.Ahead` — the bytes that lie ahead of the position of a tape
* `Machine.interpret` — byte code run directly

## Main results

* `Operation.tapeFree_act` — no operation looks at the tape once its operand is read
* `Machine.exists_runTape_eq` — a run on a tape has the outcome of the byte code ahead
* `runScript_isOk_iff`, `authorizes_iff` — runs and verdicts in terms of `Machine.interpret`
-/

namespace FlowGate

/-! ### Actions without a tape -/

namespace Exec

/-- The same outcome with another tape. -/
def atTape {α : Type} (tape : Tape) :
    EStateM.Result ExecFault Machine α → EStateM.Result ExecFault Machine α
  | .ok a m => .ok a { m with tape }
  | .error fault m => .error fault { m with tape }

/-- An action that neither reads nor moves the tape: on a machine with another tape it does the
same. -/
def TapeFree {α : Type} (x : Exec α) : Prop :=
  ∀ (m : Machine) (tape : Tape), x { m with tape } = atTape tape (x m)

variable {α β : Type}

theorem TapeFree.bind {x : Exec α} {f : α → Exec β} (hx : x.TapeFree) (hf : ∀ a, (f a).TapeFree) :
    (x >>= f).TapeFree := by
  intro m tape
  change EStateM.bind x f _ = atTape tape (EStateM.bind x f m)
  unfold EStateM.bind
  rw [hx m tape]
  cases x m with
  | ok a n => exact hf a n tape
  | error fault n => rfl

/-- Whether such an action succeeds, and which stack it leaves, does not depend on the tape. -/
theorem TapeFree.exists_eq_ok_iff {x : Exec α} (hx : x.TapeFree) (m : Machine) (tape : Tape)
    {a : α} {Q : Stack → Prop} :
    (∃ m', x { m with tape } = .ok a m' ∧ Q m'.stack) ↔ ∃ m', x m = .ok a m' ∧ Q m'.stack := by
  -- With the other tape the outcome is the same, but for the tape.
  rw [hx m tape]
  cases h : x m with
  | error fault n => simp [atTape]
  | ok b n =>
    simp only [atTape, EStateM.Result.ok.injEq]
    constructor
    · rintro ⟨m', ⟨rfl, rfl⟩, hstack⟩
      exact ⟨n, ⟨rfl, rfl⟩, hstack⟩
    · rintro ⟨m', ⟨rfl, rfl⟩, hstack⟩
      exact ⟨_, ⟨rfl, rfl⟩, hstack⟩

/-- The elementary actions look at the stacks and the cache only. -/
theorem closed_tapeFree : Closed @TapeFree where
  pure _ := fun _ _ => rfl
  bind := TapeFree.bind
  fail _ := fun _ _ => rfl
  push item := by
    intro m tape
    unfold push
    cases m.stack.push item <;> rfl
  pop := by
    intro m tape
    unfold pop
    cases m.stack.pop <;> rfl
  openAlt := fun _ _ => rfl
  pushAlt item := by
    intro m tape
    unfold pushAlt
    cases m.cache.altStack.push item <;> rfl
  popAlt := by
    intro m tape
    unfold popAlt
    cases m.cache.altStack.pop <;> rfl
  depth := fun _ _ => rfl
  sighash := by
    intro m tape
    unfold sighash
    cases m.cache.sighash? <;> rfl

end Exec

/-- No operation looks at the tape once its operand is read. -/
theorem Operation.tapeFree_act (p : Primitives) (data : Bytes) (op : Operation) :
    (op.act p data).TapeFree :=
  Exec.closed_tapeFree.act p data op

/-! ### The bytes ahead -/

namespace Tape

/-- The bytes between the position of a tape and its end. -/
def Ahead (t : Tape) (code : Bytes) : Prop :=
  ∃ done, t.data.toList = done ++ code ∧ t.pointer = done.length

variable {t : Tape} {code : Bytes} {n : Nat}

theorem ahead_ofBytes (code : Bytes) : (ofBytes code).Ahead code :=
  ⟨[], by simp [ofBytes], rfl⟩

theorem Ahead.size_eq (h : t.Ahead code) : (t.data.size : Int) = t.pointer + code.length := by
  obtain ⟨done, hdata, hpointer⟩ := h
  rw [← Array.length_toList, hdata, hpointer, List.length_append]
  omega

theorem Ahead.isDone_iff (h : t.Ahead code) : t.isDone = true ↔ code = [] := by
  have hsize := h.size_eq
  rw [isDone, decide_eq_true_iff, ← List.length_eq_zero_iff]
  omega

theorem Ahead.remaining_eq (h : t.Ahead code) : t.remaining = code.length := by
  rw [remaining, h.size_eq]
  omega

/-- A read gives the first bytes ahead and moves behind them. -/
theorem Ahead.exists_read_eq (h : t.Ahead code) (hn : n ≤ code.length) :
    ∃ u : Tape, u.Ahead (code.drop n) ∧ t.read n = .ok (code.take n, u) := by
  have hsize := h.size_eq
  obtain ⟨done, hdata, hpointer⟩ := h
  refine ⟨{ t with pointer := t.pointer + n }, ⟨done ++ code.take n, ?_, ?_⟩, ?_⟩
  · rw [List.append_assoc, List.take_append_drop]
    exact hdata
  · simp only [hpointer, List.length_append, List.length_take]
    omega
  · -- Neither end of the part that is read lies before the start of the tape or behind its end.
    rw [read_eq_ok_iff]
    refine ⟨by omega, ?_, rfl⟩
    have hstop : done.length + n - done.length = n := by omega
    simp only [slice, place, hpointer, hdata, show ¬ ((done.length : Int) < 0) by omega,
      show ¬ ((done.length : Int) + n < 0) by omega, if_false, Int.toNat_natCast,
      show ((done.length : Int) + n).toNat = done.length + n by omega, hstop, List.drop_left]

/-- A read of more bytes than lie ahead fails. -/
theorem Ahead.read_eq_error (h : t.Ahead code) (hn : code.length < n) :
    t.read n = .error .readPastEnd := by
  have hsize := h.size_eq
  have hpast : ¬ t.pointer + n ≤ t.data.size := by omega
  simp [read, look, hpast, bind, Except.bind]

end Tape

namespace Operation

variable {m : Machine} {code data rest : Bytes} {o : Operand}

open Exec

theorem exists_read_eq (h : m.tape.Ahead code) {n : Nat} (hn : n ≤ code.length) :
    ∃ tape : Tape, tape.Ahead (code.drop n) ∧
      Exec.read n m = .ok (code.take n) { m with tape } := by
  obtain ⟨tape, htape, hread⟩ := h.exists_read_eq hn
  exact ⟨tape, htape, by simp [Exec.read, hread]⟩

theorem read_eq_error (h : m.tape.Ahead code) {n : Nat} (hn : code.length < n) :
    Exec.read n m = .error .readPastEnd m := by
  simp [Exec.read, h.read_eq_error hn]

/-- An operand that lies ahead is read from the tape as it is cut off byte code. -/
theorem exists_readOperand_eq (h : m.tape.Ahead code) (hsplit : o.split? code = some (data, rest)) :
    ∃ tape : Tape, tape.Ahead rest ∧ readOperand o m = .ok data { m with tape } := by
  cases o with
  | none =>
    obtain ⟨rfl, rfl⟩ : [] = data ∧ code = rest := by simpa [Operand.split?] using hsplit
    exact ⟨m.tape, h, rfl⟩
  | fixed size =>
    simp only [Operand.split?, Option.ite_none_right_eq_some, Option.some.injEq, Prod.mk.injEq,
      List.length_take] at hsplit
    obtain ⟨hsize, rfl, rfl⟩ := hsplit
    exact exists_read_eq h (by omega)
  | counted width =>
    simp only [Operand.split?, Option.ite_none_right_eq_some, Option.some.injEq, Prod.mk.injEq,
      List.length_take, List.length_drop] at hsplit
    obtain ⟨⟨hwidth, hcount⟩, rfl, rfl⟩ := hsplit
    -- First the count is read, then as many bytes as it says.
    obtain ⟨tape₁, htape₁, hread₁⟩ := exists_read_eq h (show width ≤ code.length by omega)
    obtain ⟨tape₂, htape₂, hread₂⟩ := exists_read_eq
      (show ({ m with tape := tape₁ } : Machine).tape.Ahead (code.drop width) from htape₁)
      (show Bytes.toNat (code.take width) ≤ (code.drop width).length by
        rw [List.length_drop]; omega)
    rw [List.drop_drop] at htape₂
    refine ⟨tape₂, htape₂, ?_⟩
    change EStateM.bind (Exec.read width) _ m = _
    simp only [EStateM.bind, hread₁, hread₂]

/-- An operand that is cut off fails to be read. -/
theorem exists_readOperand_eq_error (h : m.tape.Ahead code) (hsplit : o.split? code = none) :
    ∃ tape : Tape, readOperand o m = .error .readPastEnd { m with tape } := by
  cases o with
  | none => simp [Operand.split?] at hsplit
  | fixed size =>
    simp only [Operand.split?, ite_eq_right_iff, reduceCtorEq, imp_false, List.length_take]
      at hsplit
    exact ⟨m.tape, read_eq_error h (by omega)⟩
  | counted width =>
    simp only [Operand.split?, ite_eq_right_iff, reduceCtorEq, imp_false, List.length_take,
      List.length_drop] at hsplit
    -- Either the count is cut off or the bytes that it counts.
    change ∃ tape : Tape, EStateM.bind (Exec.read width) _ m = _
    by_cases hwidth : width ≤ code.length
    · obtain ⟨tape, htape, hread⟩ := exists_read_eq h hwidth
      refine ⟨tape, ?_⟩
      simp only [EStateM.bind, hread]
      exact read_eq_error htape (by rw [List.length_drop]; omega)
    · refine ⟨m.tape, ?_⟩
      simp only [EStateM.bind, read_eq_error h (Nat.lt_of_not_le hwidth)]

end Operation

/-! ### Byte code run directly -/

namespace Machine

/-- Runs byte code directly: cuts the first instruction off, does its operation, and runs the
rest. -/
def interpret (p : Primitives) (t : OpTable) (code : Bytes) : Exec Unit :=
  match code with
  | [] => pure ()
  | lead :: rest =>
    match _h : (t.operation lead.toNat).operand.split? rest with
    | none => Exec.fail .readPastEnd
    | some (data, rest) => do
      (t.operation lead.toNat).act p data
      interpret p t rest
termination_by code.length
decreasing_by
  simp only [List.length_cons]
  exact Nat.lt_succ_of_le (Operand.length_le_of_split? _h)

variable {p : Primitives} {t : OpTable} {lead : UInt8} {code data rest : Bytes}

@[simp] theorem interpret_nil : interpret p t [] = pure () := by
  rw [interpret]

theorem interpret_cons_of_some
    (h : (t.operation lead.toNat).operand.split? code = some (data, rest)) :
    interpret p t (lead :: code) = (do
      (t.operation lead.toNat).act p data
      interpret p t rest) := by
  rw [interpret]
  split
  · next h' => rw [h] at h'; cases h'
  · next h' => rw [h] at h'; cases h'; rfl

theorem interpret_cons_of_none (h : (t.operation lead.toNat).operand.split? code = none) :
    interpret p t (lead :: code) = Exec.fail .readPastEnd := by
  rw [interpret]
  split
  · rfl
  · next h' => rw [h] at h'; cases h'

/-- A run has every property that operations have and that sequences inherit. -/
theorem interpret_of_closed {P : ∀ {α : Type}, Exec α → Prop} (h : Exec.Closed @P)
    (p : Primitives) (t : OpTable) (code : Bytes) : P (interpret p t code) := by
  fun_induction interpret p t code with
  | case1 => exact h.pure ()
  | case2 lead rest hsplit => exact h.fail _
  | case3 lead code data rest hsplit ih => exact h.bind (h.act p data _) fun _ => ih

theorem tapeFree_interpret (p : Primitives) (t : OpTable) (code : Bytes) :
    (interpret p t code).TapeFree :=
  interpret_of_closed Exec.closed_tapeFree p t code

/-- One step of a run on a tape does the operation of the instruction ahead. -/
theorem exists_step_eq {m : Machine} (h : m.tape.Ahead (lead :: code))
    (hsplit : (t.operation lead.toNat).operand.split? code = some (data, rest)) :
    ∃ tape : Tape, tape.Ahead rest ∧
      step p t m = (t.operation lead.toNat).act p data { m with tape } := by
  obtain ⟨tape₁, htape₁, hlead⟩ := Operation.exists_read_eq h (Nat.le_add_left 1 code.length)
  obtain ⟨tape, htape, hoperand⟩ := Operation.exists_readOperand_eq
    (show ({ m with tape := tape₁ } : Machine).tape.Ahead code from htape₁) hsplit
  refine ⟨tape, htape, ?_⟩
  simp only [step, bind, EStateM.bind, hlead, List.take_succ_cons, List.take_zero,
    Bytes.toNat_singleton, Operation.run, hoperand]

/-- A step fails on an instruction that is cut off. -/
theorem exists_step_eq_error {m : Machine} (h : m.tape.Ahead (lead :: code))
    (hsplit : (t.operation lead.toNat).operand.split? code = none) :
    ∃ tape : Tape, step p t m = .error .readPastEnd { m with tape } := by
  obtain ⟨tape₁, htape₁, hlead⟩ := Operation.exists_read_eq h (Nat.le_add_left 1 code.length)
  obtain ⟨tape, hoperand⟩ := Operation.exists_readOperand_eq_error
    (show ({ m with tape := tape₁ } : Machine).tape.Ahead code from htape₁) hsplit
  refine ⟨tape, ?_⟩
  simp only [step, bind, EStateM.bind, hlead, List.take_succ_cons, List.take_zero,
    Bytes.toNat_singleton, Operation.run, hoperand]

theorem steps_of_isDone {m : Machine} (h : m.tape.isDone = true) (count : Nat) :
    steps p t count m = .ok () m := by
  cases count with
  | zero => rfl
  | succ count => simp [steps, bind, EStateM.bind, isDone, h, pure, EStateM.pure]

theorem steps_succ_eq {m : Machine} (h : m.tape.isDone = false) (count : Nat) :
    steps p t (count + 1) m = EStateM.bind (step p t) (fun _ => steps p t count) m := by
  simp [steps, bind, EStateM.bind, isDone, h]

/-- As many steps as there are bytes ahead have the outcome of the byte code ahead. -/
theorem exists_steps_eq {m : Machine} {n : Nat} (h : m.tape.Ahead code) (hn : code.length ≤ n) :
    ∃ tape : Tape, steps p t n m = Exec.atTape tape (interpret p t code m) := by
  -- The induction is on the steps. Every step takes an instruction, so at least one byte, off what
  -- lies ahead, and the steps that are left over find the tape at its end.
  induction n generalizing m code with
  | zero =>
    obtain rfl := List.length_eq_zero_iff.mp (Nat.le_zero.mp hn)
    exact ⟨m.tape, by rw [interpret_nil]; rfl⟩
  | succ n ih =>
    cases code with
    | nil =>
      refine ⟨m.tape, ?_⟩
      rw [steps_of_isDone (h.isDone_iff.mpr rfl), interpret_nil]
      rfl
    | cons lead code =>
      have hgoes : m.tape.isDone = false := by
        rw [← Bool.not_eq_true, h.isDone_iff]
        exact List.cons_ne_nil lead code
      rw [steps_succ_eq hgoes, EStateM.bind]
      -- Either the next instruction is cut off, or it is taken and the rest follows.
      cases hsplit : (t.operation lead.toNat).operand.split? code with
      | none =>
        obtain ⟨tape, hstep⟩ := exists_step_eq_error (p := p) h hsplit
        exact ⟨tape, by rw [hstep, interpret_cons_of_none hsplit]; rfl⟩
      | some cut =>
        obtain ⟨data, rest⟩ := cut
        obtain ⟨tape, htape, hstep⟩ := exists_step_eq (p := p) h hsplit
        -- The step does the operation with the tape moved on, which the operation does not see.
        rw [hstep, interpret_cons_of_some hsplit, Operation.tapeFree_act p data _ m tape]
        change ∃ tape', _ = Exec.atTape tape' (EStateM.bind _ _ m)
        rw [EStateM.bind]
        cases (t.operation lead.toNat).act p data m with
        | error fault m' => exact ⟨tape, rfl⟩
        | ok _ m' =>
          have hrest : rest.length ≤ n :=
            Nat.le_trans (Operand.length_le_of_split? hsplit) (Nat.le_of_succ_le_succ hn)
          obtain ⟨tape', hrun⟩ := ih (m := { m' with tape }) htape hrest
          refine ⟨tape', ?_⟩
          simp only [Exec.atTape, hrun]
          rw [tapeFree_interpret p t rest m' tape]
          cases interpret p t rest m' <;> rfl

/-- A run on a tape has the outcome of the byte code ahead. -/
theorem exists_runTape_eq {m : Machine} (h : m.tape.Ahead code) :
    ∃ tape : Tape, runTape p t m = Exec.atTape tape (interpret p t code m) := by
  rw [runTape, h.remaining_eq, Int.toNat_natCast]
  exact exists_steps_eq h (Nat.le_refl _)

/-- A machine at the start of byte code. -/
def start (code : Bytes) (stack : Stack) (cache : Cache) : Machine :=
  ⟨.ofBytes code, stack, cache⟩

end Machine

section Run

variable {p : Primitives} {t : OpTable} {code : Bytes} {cache : Cache} {stack : Stack}

open Machine

/-- A script runs well if its byte code does, and then leaves the same stack and cache. -/
theorem runScript_of_interpret_eq_ok {m : Machine}
    (h : interpret p t code (start code stack cache) = .ok () m) :
    (runScript p t code cache stack).isOk = true ∧
      (runScript p t code cache stack).final.stack = m.stack ∧
      (runScript p t code cache stack).final.cache = m.cache := by
  obtain ⟨tape, hrun⟩ := exists_runTape_eq (p := p) (t := t)
    (show (start code stack cache).tape.Ahead code from Tape.ahead_ofBytes code)
  rw [h] at hrun
  have hscript : runScript p t code cache stack =
      ⟨none, { m with tape }, cache.afterCall m.cache⟩ := by
    simp only [runScript, show (⟨.ofBytes code, stack, cache⟩ : Machine) =
      start code stack cache from rfl, hrun, Exec.atTape]
  rw [hscript]
  exact ⟨rfl, rfl, rfl⟩

theorem runScript_isOk_iff :
    (runScript p t code cache stack).isOk = true ↔
      ∃ m, interpret p t code (start code stack cache) = .ok () m := by
  constructor
  · intro hok
    obtain ⟨tape, hrun⟩ := exists_runTape_eq (p := p) (t := t)
      (show (start code stack cache).tape.Ahead code from Tape.ahead_ofBytes code)
    cases h : interpret p t code (start code stack cache) with
    | ok u m => exact ⟨m, rfl⟩
    | error fault m =>
      rw [h] at hrun
      simp [ScriptRun.isOk, runScript, show (⟨.ofBytes code, stack, cache⟩ : Machine) =
        start code stack cache from rfl, hrun, Exec.atTape] at hok
  · rintro ⟨m, h⟩
    exact (runScript_of_interpret_eq_ok h).1

theorem ScriptRun.verdict_eq_true_iff {r : ScriptRun} :
    r.verdict = true ↔
      r.isOk = true ∧ ∃ item, r.final.stack.items = [item] ∧ Truth.holds item = true := by
  rw [verdict, Bool.and_eq_true]
  refine and_congr_right fun _ => ?_
  split
  · simp [*]
  · next hitems =>
    simp only [Bool.false_eq_true, false_iff, not_exists, not_and]
    intro item hitem
    exact (hitems item hitem).elim

/-- A script authorizes if its byte code runs well on an empty stack and leaves a single true
item. -/
theorem authorizes_iff :
    authorizes p t code cache = true ↔
      ∃ m, interpret p t code (start code .empty cache) = .ok () m ∧
        ∃ item, m.stack.items = [item] ∧ Truth.holds item = true := by
  rw [authorizes, ScriptRun.verdict_eq_true_iff, runScript_isOk_iff]
  constructor
  · rintro ⟨⟨m, h⟩, hitem⟩
    rw [(runScript_of_interpret_eq_ok h).2.1] at hitem
    exact ⟨m, h, hitem⟩
  · rintro ⟨m, h, hitem⟩
    refine ⟨⟨m, h⟩, ?_⟩
    rw [(runScript_of_interpret_eq_ok h).2.1]
    exact hitem

end Run

end FlowGate

import FlowGate.Proofs.Machine.Frame

/-!
# Runs as loops

A machine runs for a number of steps that is fixed beforehand. This file describes the loop that
has no such number: as long as the tape is not at its end, one more step is taken. The loop visits a
machine for every opcode that it takes. It ends for every tape, and what it ends with is what the
run ends with, so the number of steps is never too small.

## Main definitions

* `Machine.fetch` — the position of the opcode that comes next, and the opcode
* `Machine.Loops` — the loop, with the machines that it visits and its outcome
* `ScriptRun.ofOutcome` — what the run of a script gives when the loop has an outcome

## Main results

* `Machine.step_eq` — a step does the operation of the opcode that comes next
* `Machine.pointer_lt_step` — a step moves the tape on, even if it fails
* `Machine.Loops.unique` — a machine has only one loop
* `Machine.exists_loops_runTape` — a run is the loop
* `runScript_isOk_iff_loops` — when a script runs well
-/

namespace FlowGate

open Exec

/-! ### A step -/

namespace Exec

theorem leads_read (size : Nat) : (read size).Leads := by
  intro m
  unfold read
  cases hread : m.tape.read size with
  | ok taken =>
    obtain ⟨hle, -, htape⟩ := Tape.read_eq_ok_iff.mp hread
    have hpointer : m.tape.pointer ≤ taken.2.pointer := by
      rw [htape]
      exact Int.le_add_of_nonneg_right (Int.natCast_nonneg size)
    refine ⟨by rw [reached, htape], hpointer, fun _ => ?_, rfl, id, id, id⟩
    rw [reached, htape]
    exact hle
  | error fault => exact .refl m

theorem leads_readOperand (o : Operand) : (Operation.readOperand o).Leads := by
  cases o with
  | none => exact Machine.LeadsTo.refl
  | fixed size => exact leads_read size
  | counted width => exact Leads.bind (leads_read width) fun _ => leads_read _

end Exec

/-- Every operation leads on, its operand included. -/
theorem Operation.leads_run (p : Primitives) (op : Operation) : (op.run p).Leads :=
  Leads.bind (leads_readOperand op.operand) fun data => closed_leads.act p data op

namespace Machine

variable {p : Primitives} {t : OpTable} {m n : Machine}

/-- The position of the opcode that comes next, and the opcode. -/
def fetch (m : Machine) : Int × Nat :=
  (m.tape.pointer, Bytes.toNat (m.tape.part m.tape.pointer (m.tape.pointer + 1)))

/-- The machine with its tape behind the opcode that comes next. -/
def advance (m : Machine) : Machine :=
  { m with tape := { m.tape with pointer := m.tape.pointer + 1 } }

/-- A step does the operation of the opcode that comes next. -/
theorem step_eq (h : m.tape.isDone = false) :
    step p t m = (t.operation m.fetch.2).run p m.advance := by
  have hgoes : m.tape.pointer < m.tape.data.size := by
    rw [Tape.isDone, decide_eq_false_iff_not] at h
    omega
  have hread : m.tape.read (1 : Nat) = .ok (m.tape.part m.tape.pointer (m.tape.pointer + 1),
      m.advance.tape) := by
    rw [Tape.read_eq_ok_iff]
    exact ⟨hgoes, m.tape.part_eq_slice _ _, rfl⟩
  change EStateM.bind (Exec.read 1) _ m = _
  simp only [EStateM.bind, Exec.read, hread]
  rfl

theorem leadsTo_advance (h : m.tape.isDone = false) : m.LeadsTo m.advance := by
  rw [Tape.isDone, decide_eq_false_iff_not] at h
  refine ⟨rfl, ?_, fun _ => ?_, rfl, id, id, id⟩
  · exact Int.le_add_of_nonneg_right (by decide)
  · change m.tape.pointer + 1 ≤ m.tape.data.size
    omega

/-- A step leads on from behind the opcode that it takes. -/
theorem advance_leadsTo_step (p : Primitives) (t : OpTable) (h : m.tape.isDone = false) :
    m.advance.LeadsTo (reached (step p t m)) := by
  rw [step_eq h]
  exact Operation.leads_run p _ m.advance

theorem leadsTo_step (p : Primitives) (t : OpTable) (h : m.tape.isDone = false) :
    m.LeadsTo (reached (step p t m)) :=
  (leadsTo_advance h).trans (advance_leadsTo_step p t h)

/-- A step moves the tape on, even if it fails. -/
theorem pointer_lt_step (p : Primitives) (t : OpTable) (h : m.tape.isDone = false) :
    m.tape.pointer < (reached (step p t m)).tape.pointer :=
  Int.lt_of_lt_of_le (Int.lt_succ m.tape.pointer) (advance_leadsTo_step p t h).pointer_le

/-! ### The loop -/

/-- How a run ends, and the machine that it leaves. -/
abbrev Outcome := EStateM.Result ExecFault Machine Unit

/-- The loop of a machine: steps until the tape is at its end or a step fails. It visits the
machines from which the steps are taken. -/
inductive Loops (p : Primitives) (t : OpTable) : Machine → List Machine → Outcome → Prop
  | done {m : Machine} (hdone : m.tape.isDone = true) : Loops p t m [] (.ok () m)
  | fault {m m' : Machine} {fault : ExecFault} (hgoes : m.tape.isDone = false)
      (hstep : step p t m = .error fault m') : Loops p t m [m] (.error fault m')
  | next {m n : Machine} {visited : List Machine} {outcome : Outcome}
      (hgoes : m.tape.isDone = false) (hstep : step p t m = .ok () n)
      (hrest : Loops p t n visited outcome) : Loops p t m (m :: visited) outcome

/-- A machine has only one loop. -/
theorem Loops.unique {visited visited' : List Machine} {outcome outcome' : Outcome}
    (h : Loops p t m visited outcome) (h' : Loops p t m visited' outcome') :
    visited = visited' ∧ outcome = outcome' := by
  -- The tape decides whether a step is taken, and the step how it goes on.
  induction h generalizing visited' outcome' with
  | done hdone =>
    cases h' with
    | done => exact ⟨rfl, rfl⟩
    | fault hgoes | next hgoes =>
      rw [hdone] at hgoes
      cases hgoes
  | fault hgoes hstep =>
    cases h' with
    | done hdone =>
      rw [hgoes] at hdone
      cases hdone
    | fault _ hstep' =>
      cases hstep.symm.trans hstep'
      exact ⟨rfl, rfl⟩
    | next _ hstep' => cases hstep.symm.trans hstep'
  | next hgoes hstep _ ih =>
    cases h' with
    | done hdone =>
      rw [hgoes] at hdone
      cases hdone
    | fault _ hstep' => cases hstep.symm.trans hstep'
    | next _ hstep' hrest' =>
      cases hstep.symm.trans hstep'
      obtain ⟨rfl, rfl⟩ := ih hrest'
      exact ⟨rfl, rfl⟩

theorem exists_loops_steps (count : Nat) (h : m.tape.remaining ≤ count) :
    ∃ visited, Loops p t m visited (steps p t count m) := by
  -- The induction is on the number of steps, of which one is spent for every byte at most.
  induction count generalizing m with
  | zero =>
    refine ⟨[], .done ?_⟩
    rw [Tape.remaining] at h
    rw [Tape.isDone, decide_eq_true_iff]
    omega
  | succ count ih =>
    cases hdone : m.tape.isDone with
    | true =>
      refine ⟨[], ?_⟩
      rw [steps_of_isDone hdone]
      exact .done hdone
    | false =>
      have hdata := (leadsTo_step p t hdone).data_eq
      have hpointer := pointer_lt_step p t hdone
      rw [steps_succ_eq hdone, EStateM.bind]
      cases hstep : step p t m with
      | error fault n => exact ⟨[m], .fault hdone hstep⟩
      | ok _ n =>
        -- The byte of the opcode is behind the position now, and pays for the step.
        rw [hstep] at hdata hpointer
        have hremaining : n.tape.remaining ≤ count := by
          simp only [reached, Tape.remaining] at hdata hpointer h ⊢
          rw [hdata]
          omega
        obtain ⟨visited, hloops⟩ := ih hremaining
        exact ⟨m :: visited, .next hdone hstep hloops⟩

/-- A run is the loop: its number of steps is large enough for every tape. -/
theorem exists_loops_runTape (p : Primitives) (t : OpTable) (m : Machine) :
    ∃ visited, Loops p t m visited (runTape p t m) :=
  exists_loops_steps _ (Int.self_le_toNat _)

theorem Loops.runTape_eq {visited : List Machine} {outcome : Outcome}
    (h : Loops p t m visited outcome) : runTape p t m = outcome := by
  obtain ⟨visited', hrun⟩ := exists_loops_runTape p t m
  exact (hrun.unique h).2

end Machine

/-- What a run with an outcome gives to a caller with the given cache. -/
def ScriptRun.ofOutcome (cache : Cache) : Machine.Outcome → ScriptRun
  | .ok _ m => ⟨none, m, cache.afterCall m.cache⟩
  | .error fault m => ⟨some fault, m, cache.afterCall m.cache⟩

section Run

variable {p : Primitives} {t : OpTable} {code : Bytes} {cache : Cache} {stack : Stack}

open Machine

theorem runScript_eq_ofOutcome :
    runScript p t code cache stack = .ofOutcome cache (runTape p t (start code stack cache)) :=
  rfl

/-- A script leaves what its loop leaves. -/
theorem runScript_of_loops {visited : List Machine} {outcome : Outcome}
    (h : Loops p t (start code stack cache) visited outcome) :
    runScript p t code cache stack = .ofOutcome cache outcome := by
  rw [runScript_eq_ofOutcome, h.runTape_eq]

/-- A script runs well if its loop ends well. -/
theorem runScript_isOk_iff_loops :
    (runScript p t code cache stack).isOk = true ↔
      ∃ visited m, Loops p t (start code stack cache) visited (.ok () m) := by
  constructor
  · intro hok
    obtain ⟨visited, hrun⟩ := exists_loops_runTape p t (start code stack cache)
    rw [runScript_of_loops hrun] at hok
    cases houtcome : runTape p t (start code stack cache) with
    | ok _ m => exact ⟨visited, m, houtcome ▸ hrun⟩
    | error fault m =>
      rw [houtcome] at hok
      cases hok
  · rintro ⟨visited, m, hrun⟩
    rw [runScript_of_loops hrun]
    rfl

end Run

end FlowGate

import FlowGate.Checked.Bench
import FlowGate.Primitives
import FlowGate.Proofs.Assembly.StandardTable
import FlowGate.Proofs.Machine.Loop

/-!
# Runs end and stay inside their limits

A run of any byte code on any stacks that keep their limits takes at most as many opcodes as there
are bytes. The position moves on with every opcode and never passes the end. The run ends there, or
with a fault of the machine, and at no point does a stack hold more or larger items than it may.

## Main definitions

* `Machine.IsInside` — machines with a position inside the byte code and stacks within their limits
* `LimitedStack.IsNumeric` — stacks whose limits are numbers
* `Bench.ofOutcome` — what a run with an outcome leaves on a bench

## Main results

* `Machine.LeadsTo.isInside` — what a run reaches is inside if it started inside
* `Machine.Loops.pairwise_pointer` — the position moves on with every opcode
* `Bench.runTape_ends_inside` — how a run ends, and what holds until then
-/

namespace FlowGate

open Exec

namespace Machine

variable {p : Primitives} {t : OpTable} {m n : Machine} {code : Bytes} {visited : List Machine}
  {outcome : Outcome}

/-- A machine whose tape stands inside the byte code and whose stacks keep their limits. -/
structure IsInside (code : Bytes) (m : Machine) : Prop where
  data_eq : m.tape.data.toList = code
  pointer_nonneg : 0 ≤ m.tape.pointer
  pointer_le : m.tape.pointer ≤ code.length
  stack : m.stack.WithinLimits
  alt : m.cache.altStack.WithinLimits

theorem IsInside.size_eq (h : m.IsInside code) : m.tape.data.size = code.length := by
  rw [← Array.length_toList, h.data_eq]

/-- What a run reaches is inside if it started inside. -/
theorem LeadsTo.isInside (h : m.LeadsTo n) (hm : m.IsInside code) : n.IsInside code where
  data_eq := by rw [h.data_eq, hm.data_eq]
  pointer_nonneg := Int.le_trans hm.pointer_nonneg h.pointer_le
  pointer_le := by
    have hpointer := h.pointer_le_size
    rw [h.data_eq, hm.size_eq] at hpointer
    exact hpointer hm.pointer_le
  stack := h.stack hm.stack
  alt := h.alt hm.alt

theorem isInside_start (code : Bytes) {stack : Stack} {cache : Cache} (hstack : stack.WithinLimits)
    (halt : cache.altStack.WithinLimits) : (start code stack cache).IsInside code :=
  ⟨rfl, Int.le_refl 0, Int.natCast_nonneg _, hstack, halt⟩

theorem IsInside.pointer_eq_of_isDone (h : m.IsInside code) (hdone : m.tape.isDone = true) :
    m.tape.pointer = code.length := by
  rw [Tape.isDone, decide_eq_true_iff, h.size_eq] at hdone
  exact Int.le_antisymm h.pointer_le hdone

theorem IsInside.ofTape_eq (h : m.IsInside code) :
    ValueTape.ofTape m.tape = ⟨.bytes code, .int m.tape.pointer⟩ := by
  rw [ValueTape.ofTape, h.data_eq]

/-- The opcode that comes next is a single byte. -/
theorem fetch_lt (m : Machine) : m.fetch.2 < 256 := by
  have hlength : (m.tape.part m.tape.pointer (m.tape.pointer + 1)).length ≤ 1 := by
    rw [Tape.part_eq_slice, slice, List.length_take]
    unfold place
    split <;> split <;> omega
  refine Nat.lt_of_lt_of_le (Bytes.toNat_lt _) ?_
  exact Nat.pow_le_pow_right (by decide) hlength

namespace Loops

/-- A machine leads to all those that its loop visits, and to the one that it leaves. -/
theorem leadsTo (h : Loops p t m visited outcome) :
    ∀ k ∈ visited ++ [reached outcome], m.LeadsTo k := by
  -- The run goes through its machines step by step, and so do the relations between them.
  induction h with
  | @done m hdone =>
    intro k hk
    obtain rfl := List.mem_singleton.mp hk
    exact .refl _
  | @fault m n fault hgoes hstep =>
    have hlast := leadsTo_step p t hgoes
    rw [hstep] at hlast
    intro k hk
    rcases List.mem_cons.mp hk with rfl | hk
    · exact .refl k
    · obtain rfl := List.mem_singleton.mp hk
      exact hlast
  | @next m n visited outcome hgoes hstep _ ih =>
    have hfirst := leadsTo_step p t hgoes
    rw [hstep] at hfirst
    intro k hk
    rcases List.mem_cons.mp hk with rfl | hk
    · exact .refl k
    · exact hfirst.trans (ih k hk)

/-- The position moves on with every opcode. -/
theorem pairwise_pointer (h : Loops p t m visited outcome) :
    ((visited ++ [reached outcome]).map fun k => k.tape.pointer).Pairwise (· < ·) := by
  induction h with
  | done hdone => simp
  | @fault m n fault hgoes hstep =>
    have hlast := pointer_lt_step p t hgoes
    rw [hstep] at hlast
    simpa using hlast
  | @next m n visited outcome hgoes hstep hrest ih =>
    have hfirst := pointer_lt_step p t hgoes
    rw [hstep] at hfirst
    rw [List.cons_append, List.map_cons, List.pairwise_cons]
    refine ⟨fun pointer hpointer => ?_, ih⟩
    -- The position of the next machine lies between.
    obtain ⟨k, hk, rfl⟩ := List.mem_map.mp hpointer
    exact Int.lt_of_lt_of_le hfirst (hrest.leadsTo k hk).pointer_le

/-- A loop takes at most as many opcodes as there are bytes left. -/
theorem length_le (h : Loops p t m visited outcome) :
    visited.length ≤ m.tape.remaining.toNat := by
  induction h with
  | done hdone => exact Nat.zero_le _
  | @fault m n fault hgoes hstep =>
    rw [Tape.isDone, decide_eq_false_iff_not] at hgoes
    simp only [List.length_singleton, Tape.remaining]
    omega
  | @next m n visited outcome hgoes hstep hrest ih =>
    have hpointer := pointer_lt_step p t hgoes
    have hdata := (leadsTo_step p t hgoes).data_eq
    rw [hstep] at hpointer hdata
    rw [Tape.isDone, decide_eq_false_iff_not] at hgoes
    simp only [reached, Tape.remaining, List.length_cons] at ih hpointer hdata ⊢
    rw [hdata] at ih
    omega

/-- A loop that ends well ends with the tape. -/
theorem isDone_of_ok (h : Loops p t m visited (.ok () n)) : n.tape.isDone = true := by
  generalize houtcome : (EStateM.Result.ok () n : Outcome) = outcome at h
  induction h with
  | done hdone =>
    cases houtcome
    exact hdone
  | fault => cases houtcome
  | next _ _ _ ih => exact ih houtcome

end Loops

end Machine

/-! ### On a bench -/

/-- A stack whose limits are numbers. -/
def LimitedStack.IsNumeric (s : LimitedStack) : Prop :=
  s.maxItems.number?.isSome = true ∧ s.maxItemSize.number?.isSome = true

/-- With numbers for limits every fault is one of the machine. -/
theorem LimitedStack.IsNumeric.failure_eq {s : LimitedStack} (h : s.IsNumeric)
    (fault : ExecFault) : s.failure fault = .execution fault := by
  obtain ⟨hitems, hsize⟩ := h
  obtain ⟨n, hn⟩ := Option.isSome_iff_exists.mp hitems
  obtain ⟨k, hk⟩ := Option.isSome_iff_exists.mp hsize
  cases fault <;> simp [failure, againstLimit, hn, hk]

namespace Bench

variable {p : Primitives} {b : Bench} {code : Bytes}

/-- A run on byte code from its start is a run of the machine. -/
theorem runTape_bytes :
    b.runTape p ⟨.bytes code, .int 0⟩ = b.exec (.ofBytes code) (Machine.runTape p b.table) := by
  simp only [runTape, Value.number?]
  split
  · next hdone =>
    -- The machine takes no step either.
    have hsteps : Machine.runTape p b.table ⟨.ofBytes code, b.stack.stack, b.cache⟩ =
        .ok () ⟨.ofBytes code, b.stack.stack, b.cache⟩ := Machine.steps_of_isDone hdone _
    rw [exec, hsteps]
    rfl
  · rfl

/-- What a run with an outcome leaves on a bench. -/
def ofOutcome (b : Bench) : Machine.Outcome → BenchRun
  | .ok _ m => ⟨.ok (), .ofTape m.tape, b.keep m⟩
  | .error fault m => ⟨.error (b.stack.failure fault), .ofTape m.tape, b.keep m⟩

/-- A run on byte code leaves what its loop leaves. -/
theorem runTape_of_loops {visited : List Machine} {outcome : Machine.Outcome}
    (h : Machine.Loops p b.table (.start code b.stack.stack b.cache) visited outcome) :
    b.runTape p ⟨.bytes code, .int 0⟩ = b.ofOutcome outcome := by
  have hrun := h.runTape_eq
  rw [Machine.start] at hrun
  rw [runTape_bytes, exec, hrun]
  cases outcome <;> rfl

/-- A script authorizes if its loop on a stack of its own ends well and leaves a single true
item. -/
theorem authorize_bytes_iff :
    (b.authorize p (.bytes code)).1 = true ↔ ∃ visited m item,
      Machine.Loops p b.table (.start code .empty b.cache) visited (.ok () m) ∧
        m.stack.items = [item] ∧ Truth.holds item = true := by
  change (runScript p b.table code b.cache .empty).verdict = true ↔ _
  rw [ScriptRun.verdict_eq_true_iff, runScript_isOk_iff_loops]
  constructor
  · rintro ⟨⟨visited, m, h⟩, item, hitem⟩
    rw [runScript_of_loops h] at hitem
    exact ⟨visited, m, item, h, hitem⟩
  · rintro ⟨visited, m, item, h, hitem⟩
    refine ⟨⟨visited, m, h⟩, item, ?_⟩
    rw [runScript_of_loops h]
    exact hitem

/-- A run of byte code on stacks that keep their limits takes at most one opcode for each byte, all
of them opcodes of the table; its position moves on with every opcode; and everything that it visits
and leaves is inside, with the same limits. It ends at the end of the byte code, or with a fault of
the machine. No item that is put costs another one. And whether a script authorizes is decided by
such a run. -/
theorem runTape_ends_inside (p : Primitives) {b : Bench} (htable : b.table = .standard)
    (hnumeric : b.stack.IsNumeric) (hstack : b.stack.stack.WithinLimits)
    (halt : ∀ alt, b.cache.alt = some alt → alt.WithinLimits) (code : Bytes) :
    (∃ visited outcome,
      Machine.Loops p .standard (.start code b.stack.stack b.cache) visited outcome ∧
      visited.length ≤ code.length ∧
      (∀ m ∈ visited, ∃ name, OpTable.standard.name? m.fetch.2 = some name) ∧
      ((visited ++ [reached outcome]).map fun m => m.tape.pointer).Pairwise (· < ·) ∧
      (∀ m ∈ visited ++ [reached outcome], m.IsInside code ∧
        m.frame = (Machine.start code b.stack.stack b.cache).frame) ∧
      match outcome with
      | .ok _ m => b.runTape p ⟨.bytes code, .int 0⟩ =
          ⟨.ok (), ⟨.bytes code, .int code.length⟩, b.keep m⟩
      | .error fault m => b.runTape p ⟨.bytes code, .int 0⟩ =
          ⟨.error (.execution fault), ⟨.bytes code, .int m.tape.pointer⟩, b.keep m⟩) ∧
    (∀ (s s' : Stack) (item : Bytes), s.push item = .ok s' →
      s' = s.append item ∧ s'.items = item :: s.items) ∧
    ((b.authorize p (.bytes code)).1 = true ↔ ∃ visited m item,
      Machine.Loops p .standard (.start code .empty b.cache) visited (.ok () m) ∧
        m.stack.items = [item] ∧ Truth.holds item = true) := by
  have haltStack : b.cache.altStack.WithinLimits := by
    rw [Cache.altStack]
    cases hcache : b.cache.alt with
    | none => exact Stack.withinLimits_empty
    | some alt => exact halt alt hcache
  -- The start is inside, and every machine that the run comes to is reached from it.
  have hstart := Machine.isInside_start code hstack haltStack
  obtain ⟨visited, hloops⟩ :=
    Machine.exists_loops_runTape p .standard (.start code b.stack.stack b.cache)
  have hinside := fun m hm => (hloops.leadsTo m hm).isInside hstart
  have hlast := hinside _ (List.mem_append_right _ List.mem_cons_self)
  generalize Machine.runTape p .standard (.start code b.stack.stack b.cache) = outcome
    at hloops hinside hlast
  refine ⟨⟨visited, outcome, hloops, ?_, ?_, hloops.pairwise_pointer, ?_, ?_⟩, ?_, ?_⟩
  · -- As many opcodes as there are bytes left at the start.
    have hcount := hloops.length_le
    simpa [Tape.remaining, Machine.start, Tape.ofBytes] using hcount
  · exact fun m _ => OpTable.regular_standard.exists_name?_eq m.fetch_lt
  · exact fun m hm => ⟨hinside m hm, (hloops.leadsTo m hm).frame_eq⟩
  · rw [← htable] at hloops
    cases outcome with
    | ok _ m =>
      have hlast : m.IsInside code := hlast
      -- A run that succeeds has read the tape to its end.
      have hrun := runTape_of_loops hloops
      rwa [ofOutcome, hlast.ofTape_eq, hlast.pointer_eq_of_isDone hloops.isDone_of_ok] at hrun
    | error fault m =>
      have hlast : m.IsInside code := hlast
      have hrun := runTape_of_loops hloops
      rwa [ofOutcome, hlast.ofTape_eq, hnumeric.failure_eq] at hrun
  · intro s s' item hpush
    obtain ⟨-, hroom, rfl⟩ := Stack.push_eq_ok_iff.mp hpush
    exact ⟨(Stack.append_of_lt hroom item).symm, rfl⟩
  · -- A script is run from an empty stack, whatever lies on that of the bench.
    rw [← htable]
    exact authorize_bytes_iff

/-- A bench whose stacks have room for one item and are full. -/
def full : Bench where
  table := .standard
  stack := ⟨⟨[[1]], 1, 520⟩, .int 1, .int 520⟩
  cache := ⟨[], some ⟨[[2]], 1, 520⟩⟩

/-- Doubling the item of a full stack takes one opcode, fails, and leaves the stacks inside. -/
theorem runTape_full_ends_inside :
    (full.runTape .standard ⟨.bytes [0x76], .int 0⟩).result = .error (.execution .fullStack) ∧
      ∃ visited outcome,
        Machine.Loops .standard .standard (.start [0x76] full.stack.stack full.cache) visited
          outcome ∧
        visited.length ≤ 1 ∧ ∀ m ∈ visited ++ [reached outcome], m.IsInside [0x76] := by
  have hstack : full.stack.stack.WithinLimits := by simp [full, Stack.WithinLimits]
  have halt : ∀ alt, full.cache.alt = some alt → alt.WithinLimits := by
    simp [full, Stack.WithinLimits]
  obtain ⟨⟨visited, outcome, hloops, hlength, -, -, hinside, -⟩, -⟩ :=
    runTape_ends_inside .standard (b := full) rfl ⟨rfl, rfl⟩ hstack halt [0x76]
  refine ⟨?_, visited, outcome, hloops, hlength, fun m hm => (hinside m hm).1⟩
  decide +kernel

end Bench

end FlowGate

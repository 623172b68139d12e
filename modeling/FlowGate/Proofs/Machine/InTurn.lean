import FlowGate.Primitives
import FlowGate.Proofs.Assembly.StandardTable
import FlowGate.Proofs.Assembly.Whole
import FlowGate.Proofs.Machine.Loop

/-!
# Running byte code part by part

Byte code put together from whole instructions runs as its parts do one after the other: each part
on the stack that the one before left, with the cache that it gave back, up to the first that fails.
Only the last part may end inside an instruction.

## Main definitions

* `ScriptRun.SameOutcome` — runs with the same fault, the same stack and the same caches
* `ScriptRun.andThen` — a run, and another one with what it leaves if it succeeds
* `runInTurn` — the runs of several byte codes one after the other

## Main results

* `runScript_append` — a run of two byte codes put together
* `runScript_flatten` — a run of several byte codes put together
* `runScript_concat` — this for scripts that were made from text or from byte code
-/

namespace FlowGate

namespace ScriptRun

/-- Runs that cannot be told apart but by their tapes: with the same fault, if any, the same stack,
the same cache given back, and the same cache of the caller. -/
structure SameOutcome (r s : ScriptRun) : Prop where
  fault_eq : r.fault = s.fault
  stack_eq : r.final.stack = s.final.stack
  cache_eq : r.final.cache = s.final.cache
  caller_eq : r.caller = s.caller

variable {r s : ScriptRun}

theorem SameOutcome.refl (r : ScriptRun) : r.SameOutcome r := ⟨rfl, rfl, rfl, rfl⟩

theorem SameOutcome.symm (h : r.SameOutcome s) : s.SameOutcome r :=
  ⟨h.fault_eq.symm, h.stack_eq.symm, h.cache_eq.symm, h.caller_eq.symm⟩

theorem SameOutcome.trans {q : ScriptRun} (h : q.SameOutcome r) (h' : r.SameOutcome s) :
    q.SameOutcome s where
  fault_eq := h.fault_eq.trans h'.fault_eq
  stack_eq := h.stack_eq.trans h'.stack_eq
  cache_eq := h.cache_eq.trans h'.cache_eq
  caller_eq := h.caller_eq.trans h'.caller_eq

/-- A run with a copy of the cache `cache`, and if it succeeds another one on the stack that it
leaves, with a copy of the cache that it gives back. -/
def andThen (first : ScriptRun) (cache : Cache) (next : Cache → Stack → ScriptRun) : ScriptRun :=
  match first.fault with
  | some _ => first
  | none =>
    let second := next first.final.cache first.final.stack
    { second with caller := cache.afterCall second.caller }

theorem SameOutcome.andThen (h : r.SameOutcome s) (cache : Cache)
    {next next' : Cache → Stack → ScriptRun}
    (hnext : ∀ cache stack, (next cache stack).SameOutcome (next' cache stack)) :
    (r.andThen cache next).SameOutcome (s.andThen cache next') := by
  unfold ScriptRun.andThen
  rw [← h.fault_eq]
  cases r.fault with
  | some fault => exact h
  | none =>
    have hsecond := hnext r.final.cache r.final.stack
    rw [← h.cache_eq, ← h.stack_eq]
    exact ⟨hsecond.fault_eq, hsecond.stack_eq, hsecond.cache_eq,
      congrArg cache.afterCall hsecond.caller_eq⟩

end ScriptRun

/-- Runs several byte codes one after the other, up to the first that fails. -/
def runInTurn (p : Primitives) (t : OpTable) : List Bytes → Cache → Stack → ScriptRun
  | [], cache, stack => ⟨none, .start [] stack cache, cache⟩
  | code :: codes, cache, stack =>
    (runScript p t code cache stack).andThen cache (runInTurn p t codes)

/-! ### The caches of the callers -/

namespace Cache

theorem afterCall_self (cache : Cache) : cache.afterCall cache = cache := by
  rw [afterCall]
  split <;> rfl

/-- A caller that lends its cache to a run that lends it on finds what the last run left, since the
alternate stack, once there, is one and the same. -/
theorem afterCall_afterCall {caller cache final : Cache}
    (h : caller.alt.isSome → cache.alt.isSome) :
    caller.afterCall (cache.afterCall final) = caller.afterCall final := by
  cases hcaller : caller.alt with
  | none => rw [afterCall_of_alt_eq_none hcaller, afterCall_of_alt_eq_none hcaller]
  | some alt =>
    obtain ⟨own, hown⟩ := Option.isSome_iff_exists.mp (h (by rw [hcaller]; rfl))
    simp only [afterCall, hcaller, hown]

end Cache

/-! ### Two parts -/

section Run

variable {p : Primitives} {t : OpTable} {a b : Bytes}

open Machine

theorem sameOutcome_atTape (cache : Cache) (tape : Tape) (outcome : Outcome) :
    (ScriptRun.ofOutcome cache (Exec.atTape tape outcome)).SameOutcome
      (.ofOutcome cache outcome) := by
  cases outcome <;> exact ⟨rfl, rfl, rfl, rfl⟩

/-- A run of a script has the outcome of its byte code run directly, with any tape. -/
theorem sameOutcome_interpret (p : Primitives) (t : OpTable) (code : Bytes) (cache : Cache)
    (stack : Stack) (tape : Tape) :
    (runScript p t code cache stack).SameOutcome
      (.ofOutcome cache (interpret p t code ⟨tape, stack, cache⟩)) := by
  obtain ⟨behind, hrun⟩ := exists_runTape_eq (p := p) (t := t)
    (show (start code stack cache).tape.Ahead code from Tape.ahead_ofBytes code)
  have hdirect : interpret p t code ⟨tape, stack, cache⟩ =
      Exec.atTape tape (interpret p t code (start code stack cache)) :=
    tapeFree_interpret p t code (start code stack cache) tape
  rw [runScript_eq_ofOutcome, hrun, hdirect]
  exact (sameOutcome_atTape cache behind _).trans (sameOutcome_atTape cache tape _).symm

/-- Whole instructions in front of other byte code run first, and the other byte code then, on what
they leave. -/
theorem runScript_append (ht : t.Aligned) {instructions : List Instruction}
    (ha : Instruction.cut t a = .ok instructions) (b : Bytes) (cache : Cache) (stack : Stack) :
    (runScript p t (a ++ b) cache stack).SameOutcome
      ((runScript p t a cache stack).andThen cache (runScript p t b)) := by
  have hwhole := sameOutcome_interpret p t (a ++ b) cache stack (.ofBytes [])
  have hfirst := sameOutcome_interpret p t a cache stack (.ofBytes [])
  refine hwhole.trans (.trans ?_ (hfirst.symm.andThen cache fun _ _ => .refl _))
  rw [interpret_append ht ha]
  change (ScriptRun.ofOutcome cache (EStateM.bind _ _ _)).SameOutcome _
  rw [EStateM.bind]
  have hlead := leads_interpret p t a ⟨.ofBytes [], stack, cache⟩
  cases hrun : interpret p t a ⟨.ofBytes [], stack, cache⟩ with
  | error fault m => exact .refl _
  | ok _ m =>
    -- The second part runs on, with the cache that the first part gives back.
    rw [hrun] at hlead
    have hsecond := (ScriptRun.SameOutcome.refl (.ofOutcome cache (.ok () m))).andThen cache
      fun cache stack => sameOutcome_interpret p t b cache stack m.tape
    refine .trans ?_ hsecond.symm
    have hcaller : ∀ final, cache.afterCall final = cache.afterCall (m.cache.afterCall final) :=
      fun final => (Cache.afterCall_afterCall hlead.isSome_alt).symm
    change (ScriptRun.ofOutcome cache (interpret p t b m)).SameOutcome _
    simp only [ScriptRun.andThen, ScriptRun.ofOutcome]
    cases interpret p t b m with
    | ok _ n => exact ⟨rfl, rfl, rfl, hcaller n.cache⟩
    | error fault n => exact ⟨rfl, rfl, rfl, hcaller n.cache⟩

/-! ### Several parts -/

theorem runScript_nil (cache : Cache) (stack : Stack) :
    (runScript p t [] cache stack).SameOutcome ⟨none, .start [] stack cache, cache⟩ := by
  have hnil := sameOutcome_interpret p t [] cache stack (.ofBytes [])
  rw [interpret_nil] at hnil
  exact hnil.trans ⟨rfl, rfl, rfl, cache.afterCall_self⟩

/-- Byte codes put together, all but the last of whole instructions, run as they do in turn. -/
theorem runScript_flatten (ht : t.Aligned) {codes : List Bytes}
    (h : ∀ code ∈ codes.dropLast, ∃ instructions, Instruction.cut t code = .ok instructions)
    (cache : Cache) (stack : Stack) :
    (runScript p t codes.flatten cache stack).SameOutcome (runInTurn p t codes cache stack) := by
  induction codes generalizing cache stack with
  | nil => exact runScript_nil cache stack
  | cons code codes ih =>
    rw [List.flatten_cons, runInTurn]
    cases codes with
    | nil =>
      -- The last part may be anything, and nothing runs behind it.
      rw [List.flatten_nil, List.append_nil, runScript_eq_ofOutcome]
      cases runTape p t (start code stack cache) with
      | ok _ m => exact ⟨rfl, rfl, rfl, rfl⟩
      | error fault m => exact .refl _
    | cons other codes =>
      rw [List.dropLast_cons_cons, List.forall_mem_cons] at h
      obtain ⟨instructions, hcut⟩ := h.1
      have hfirst := runScript_append (p := p) ht hcut (other :: codes).flatten cache stack
      exact hfirst.trans ((ScriptRun.SameOutcome.refl _).andThen cache (ih h.2))

end Run

/-- Under the standard opcode table, byte code that can be disassembled with other byte code behind
it runs as the two do in turn, on any stack and with any cache. So scripts that were made from text
or from byte code run combined as they do in turn. -/
theorem runScript_concat (p : Primitives) :
    (∀ (a b : Bytes) (lines : List String) (cache : Cache) (stack : Stack),
      disassemble .standard a = .ok lines →
        (runScript p .standard (a ++ b) cache stack).SameOutcome
          ((runScript p .standard a cache stack).andThen cache (runScript p .standard b))) ∧
    ∀ (scripts : List Script) (cache : Cache) (stack : Stack),
      (∀ s ∈ scripts, (∃ source, Script.ofSource .standard source = .ok s) ∨
        ∃ code, Script.ofCode .standard code = .ok s) →
        (runScript p .standard (Script.concat scripts).code cache stack).SameOutcome
          (runInTurn p .standard (scripts.map Script.code) cache stack) := by
  constructor
  · intro a b lines cache stack hlines
    obtain ⟨instructions, hcut, -⟩ := disassemble_eq_ok_iff.mp hlines
    exact runScript_append OpTable.aligned_standard hcut b cache stack
  · intro scripts cache stack hmade
    rw [Script.code_concat, List.flatMap_def]
    refine runScript_flatten OpTable.aligned_standard (fun code hcode => ?_) cache stack
    obtain ⟨s, hs, rfl⟩ := List.mem_map.mp (List.dropLast_subset _ hcode)
    exact OpTable.wellNamed_standard.exists_cut_code .standard (hmade s hs)

/-- A number and the start of a push, which fails, and the script of a number with itself. -/
theorem runScript_concat_sample :
    (runScript .standard .standard ([0x51] ++ [0x02, 0x07]) .empty .empty).SameOutcome
        ((runScript .standard .standard [0x51] .empty .empty).andThen .empty
          (runScript .standard .standard [0x02, 0x07])) ∧
      (runScript .standard .standard (Script.concat [⟨"OP_1", [0x51]⟩, ⟨"OP_1", [0x51]⟩]).code
          .empty .empty).SameOutcome
        (runInTurn .standard .standard [[0x51], [0x51]] .empty .empty) := by
  have hlines : disassemble .standard [0x51] = .ok ["OP_1"] := by decide +kernel
  have hscript : Script.ofCode .standard [0x51] = .ok ⟨"OP_1", [0x51]⟩ := by decide +kernel
  obtain ⟨hpair, hlist⟩ := runScript_concat .standard
  refine ⟨hpair [0x51] [0x02, 0x07] ["OP_1"] .empty .empty hlines, ?_⟩
  refine hlist [⟨"OP_1", [0x51]⟩, ⟨"OP_1", [0x51]⟩] .empty .empty fun s hs => .inr ⟨[0x51], ?_⟩
  simp only [List.mem_cons, List.not_mem_nil, or_false, or_self] at hs
  rw [hs, hscript]

end FlowGate

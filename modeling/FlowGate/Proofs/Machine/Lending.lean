import FlowGate.Primitives
import FlowGate.Proofs.Machine.InTurn
import FlowGate.Proofs.Machine.Limits
import FlowGate.Proofs.Machine.Repetition
import FlowGate.Proofs.Script.Push

/-!
# What a run does to its caller's cache

A run gets a copy of its caller's cache. The copy is one of the outer layer only: an alternate stack
that the caller already has is shared with the run. So a run may leave the caller's alternate stack
with other items, and another run of the same script may then come to another verdict. This file
says when that happens. Everything else is as it should be: named values stay, and an alternate
stack that the run makes is not seen by the caller.

## Main definitions

* `Exec.KeepsCache` — actions that leave the cache as it is
* `Stack.IsInert`, `Cache.IsInert` — alternate stacks, if any, that hold nothing and take nothing
* `Exec.discard`, `Exec.stow` — taking an item from the alternate stack, and putting one there
* `repeated` — byte code written several times, and a true item behind it
* `Cache.FitsStack` — alternate stacks, if any, with items that fit on a usual stack
* `Cache.IsUsual` — alternate stacks, if any, with the usual limits

## Main results

* `Machine.Loops.cache_eq` — a run that does not reach the alternate stack leaves the cache
* `caller_eq_of_isInert` — a run changes nothing of an inert cache
* `exists_authorizes_ne` — of every other cache a script can tell whether it has been used
* `runScript_lends` — what a run leaves of its caller's cache, and which caches no run changes
-/

namespace FlowGate

open Exec

/-! ### Runs that leave the cache as it is -/

namespace Exec

variable {α β : Type}

/-- An action that leaves the cache as it is, whether it succeeds or fails. -/
def KeepsCache (x : Exec α) : Prop := ∀ m : Machine, (reached (x m)).cache = m.cache

theorem KeepsCache.bind {x : Exec α} {f : α → Exec β} (hx : x.KeepsCache)
    (hf : ∀ a, (f a).KeepsCache) : (x >>= f).KeepsCache := by
  intro m
  have hfirst := hx m
  change (reached (EStateM.bind x f m)).cache = m.cache
  unfold EStateM.bind
  cases hxm : x m with
  | ok a n =>
    rw [hxm] at hfirst
    exact (hf a n).trans hfirst
  | error fault n =>
    rw [hxm] at hfirst
    exact hfirst

/-- Only the actions on the alternate stack write to the cache. -/
theorem closedOnStack_keepsCache : ClosedOnStack @KeepsCache where
  pure _ := fun _ => rfl
  bind := KeepsCache.bind
  fail _ := fun _ => rfl
  push item := by
    intro m
    unfold push
    cases m.stack.push item <;> rfl
  pop := by
    intro m
    unfold pop
    cases m.stack.pop <;> rfl
  depth := fun _ => rfl
  sighash := by
    intro m
    unfold sighash
    cases m.cache.sighash? <;> rfl

theorem keepsCache_read (size : Nat) : (read size).KeepsCache := by
  intro m
  unfold read
  cases m.tape.read size <;> rfl

theorem keepsCache_readOperand (o : Operand) : (Operation.readOperand o).KeepsCache := by
  cases o with
  | none => exact fun _ => rfl
  | fixed size => exact keepsCache_read size
  | counted width => exact (keepsCache_read width).bind fun _ => keepsCache_read _

end Exec

namespace Machine

variable {p : Primitives} {t : OpTable} {m : Machine} {visited : List Machine} {outcome : Outcome}

/-- A step that does not reach the alternate stack leaves the cache as it is. -/
theorem cache_step_eq (h : m.tape.isDone = false) (hop : ¬ (t.operation m.fetch.2).UsesAlt) :
    (reached (step p t m)).cache = m.cache := by
  rw [step_eq h]
  exact (keepsCache_readOperand _).bind
    (fun data => closedOnStack_keepsCache.act p data hop) m.advance

/-- A run whose opcodes do not reach the alternate stack leaves the cache as it is. -/
theorem Loops.cache_eq (h : Loops p t m visited outcome)
    (hops : ∀ k ∈ visited, ¬ (t.operation k.fetch.2).UsesAlt) :
    (reached outcome).cache = m.cache := by
  induction h with
  | done => rfl
  | @fault m n fault hgoes hstep =>
    have hcache := cache_step_eq (p := p) hgoes (hops m List.mem_cons_self)
    rwa [hstep] at hcache
  | @next m n visited outcome hgoes hstep _ ih =>
    have hcache := cache_step_eq (p := p) hgoes (hops m List.mem_cons_self)
    rw [hstep] at hcache
    exact (ih fun k hk => hops k (List.mem_cons_of_mem m hk)).trans hcache

end Machine

/-! ### The caller's cache -/

namespace ScriptRun

theorem final_ofOutcome (cache : Cache) (outcome : Machine.Outcome) :
    (ofOutcome cache outcome).final = reached outcome := by
  cases outcome <;> rfl

theorem caller_ofOutcome (cache : Cache) (outcome : Machine.Outcome) :
    (ofOutcome cache outcome).caller = cache.afterCall (reached outcome).cache := by
  cases outcome <;> rfl

end ScriptRun

namespace Cache

variable {caller final : Cache} {alt : Stack}

theorem altStack_of_alt (h : caller.alt = some alt) : caller.altStack = alt := by
  rw [altStack, h, Option.getD_some]

theorem values_afterCall (caller final : Cache) :
    (caller.afterCall final).values = caller.values := by
  unfold afterCall
  split <;> rfl

theorem alt_afterCall (h : caller.alt = some alt) : (caller.afterCall final).alt = final.alt := by
  simp only [afterCall, h]

end Cache

section Caller

variable (p : Primitives) (t : OpTable) (code : Bytes) (cache : Cache) (stack : Stack)

open Machine

theorem runScript_caller_eq :
    (runScript p t code cache stack).caller =
      cache.afterCall (runScript p t code cache stack).final.cache := by
  rw [runScript_eq_ofOutcome, ScriptRun.caller_ofOutcome, ScriptRun.final_ofOutcome]

/-- A script leads on from its start. -/
theorem leadsTo_runScript_final :
    (start code stack cache).LeadsTo (runScript p t code cache stack).final := by
  obtain ⟨visited, hloops⟩ := exists_loops_runTape p t (start code stack cache)
  rw [runScript_of_loops hloops, ScriptRun.final_ofOutcome]
  exact hloops.leadsTo _ (List.mem_append_right _ List.mem_cons_self)

/-- The caller keeps its alternate stack, if it has one, with its limits. -/
theorem isSome_alt_caller :
    (runScript p t code cache stack).caller.alt.isSome = cache.alt.isSome := by
  rw [runScript_caller_eq]
  cases halt : cache.alt with
  | none => rw [Cache.afterCall_of_alt_eq_none halt, halt]
  | some alt =>
    rw [Cache.alt_afterCall halt]
    exact (leadsTo_runScript_final p t code cache stack).isSome_alt (Option.isSome_of_eq_some halt)

theorem altStack_caller_limits :
    (runScript p t code cache stack).caller.altStack.maxItems = cache.altStack.maxItems ∧
      (runScript p t code cache stack).caller.altStack.maxItemSize =
        cache.altStack.maxItemSize := by
  have hframe := (leadsTo_runScript_final p t code cache stack).frame_eq
  rw [runScript_caller_eq]
  cases halt : cache.alt with
  | none =>
    rw [Cache.afterCall_of_alt_eq_none halt]
    exact ⟨rfl, rfl⟩
  | some alt =>
    simp only [Cache.altStack, Cache.alt_afterCall halt]
    exact ⟨congrArg Frame.altMaxItems hframe, congrArg Frame.altMaxItemSize hframe⟩

variable {p t code cache stack}

/-- A caller whose alternate stack is left as it was finds its whole cache as it was. -/
theorem runScript_caller_eq_self
    (h : (runScript p t code cache stack).final.cache.altStack = cache.altStack) :
    (runScript p t code cache stack).caller = cache := by
  rw [runScript_caller_eq]
  cases halt : cache.alt with
  | none => rw [Cache.afterCall_of_alt_eq_none halt]
  | some alt =>
    -- The alternate stack that is lent is there at the end.
    obtain ⟨final, hfinal⟩ := Option.isSome_iff_exists.mp
      ((leadsTo_runScript_final p t code cache stack).isSome_alt (Option.isSome_of_eq_some halt))
    rw [Cache.altStack_of_alt hfinal, Cache.altStack_of_alt halt] at h
    rw [Cache.afterCall, halt]
    simp only [hfinal, h, ← halt]

/-- A run that changes its caller's cache has taken an opcode that reaches the alternate stack. -/
theorem exists_usesAlt_of_caller_ne (h : (runScript p t code cache stack).caller ≠ cache) :
    ∃ visited outcome, Loops p t (start code stack cache) visited outcome ∧
      ∃ m ∈ visited, (t.operation m.fetch.2).UsesAlt := by
  obtain ⟨visited, hloops⟩ := exists_loops_runTape p t (start code stack cache)
  refine ⟨visited, _, hloops, ?_⟩
  by_contra hnone
  have hcache := hloops.cache_eq fun m hm huses => hnone ⟨m, hm, huses⟩
  rw [runScript_of_loops hloops, ScriptRun.caller_ofOutcome, hcache] at h
  exact h cache.afterCall_self

end Caller

/-! ### Alternate stacks that no run changes -/

/-- A stack that holds nothing and takes nothing, not even an empty item. -/
def Stack.IsInert (s : Stack) : Prop := s.items = [] ∧ (s.maxItems = 0 ∨ s.maxItemSize < 0)

theorem Stack.IsInert.withinLimits {s : Stack} (h : s.IsInert) : s.WithinLimits := by
  rw [WithinLimits, h.1]
  exact ⟨Nat.zero_le _, by simp⟩

/-- With limits that let nothing in, a stack within its limits is inert. -/
theorem Stack.WithinLimits.isInert {s : Stack} (h : s.WithinLimits)
    (hlimits : s.maxItems = 0 ∨ s.maxItemSize < 0) : s.IsInert := by
  refine ⟨List.eq_nil_iff_forall_not_mem.mpr fun item hitem => ?_, hlimits⟩
  have hcount := List.length_pos_of_mem hitem
  have hsize := h.2 item hitem
  have hroom := h.1
  omega

/-- Nothing but the limits tells inert stacks apart. -/
theorem Stack.IsInert.eq {s s' : Stack} (h : s.IsInert) (h' : s'.IsInert)
    (hitems : s.maxItems = s'.maxItems) (hsize : s.maxItemSize = s'.maxItemSize) : s = s' := by
  have hempty : s.items = s'.items := h.1.trans h'.1.symm
  cases s
  cases s'
  simp_all only

/-- A cache without an alternate stack, or with one that holds nothing and takes nothing. -/
def Cache.IsInert (c : Cache) : Prop := ∀ alt, c.alt = some alt → alt.IsInert

/-- A run changes nothing of an inert cache. -/
theorem caller_eq_of_isInert {cache : Cache} (h : cache.IsInert) (p : Primitives) (t : OpTable)
    (code : Bytes) (stack : Stack) : (runScript p t code cache stack).caller = cache := by
  have hlead := leadsTo_runScript_final p t code cache stack
  rw [runScript_caller_eq]
  generalize (runScript p t code cache stack).final = m at hlead
  cases halt : cache.alt with
  | none => exact Cache.afterCall_of_alt_eq_none halt m.cache
  | some alt =>
    have hinert := h alt halt
    obtain ⟨final, hfinal⟩ := Option.isSome_iff_exists.mp
      (hlead.isSome_alt (Option.isSome_of_eq_some halt))
    have hstack : cache.altStack = alt := Cache.altStack_of_alt halt
    have hfinalStack : m.cache.altStack = final := Cache.altStack_of_alt hfinal
    -- The stack that the run leaves keeps the same limits, and so holds nothing either.
    have hitems : final.maxItems = alt.maxItems := by
      rw [← hstack, ← hfinalStack]
      exact congrArg Frame.altMaxItems hlead.frame_eq
    have hsize : final.maxItemSize = alt.maxItemSize := by
      rw [← hstack, ← hfinalStack]
      exact congrArg Frame.altMaxItemSize hlead.frame_eq
    have hwithin : final.WithinLimits :=
      hfinalStack ▸ hlead.alt (hstack ▸ hinert.withinLimits)
    have hsame : final = alt :=
      (hwithin.isInert (by rw [hitems, hsize]; exact hinert.2)).eq hinert hitems hsize
    simp only [Cache.afterCall, halt, hfinal, hsame]
    rw [← halt]

/-! ### Scripts that tell whether an alternate stack has been used -/

namespace Exec

open Operation

/-- Takes an item from the alternate stack and drops it. -/
def discard (p : Primitives) : Exec Unit := do
  fromAlt.act p []
  drop.act p []

/-- Puts an empty item onto the alternate stack. -/
def stow (p : Primitives) : Exec Unit := do
  (Operation.push []).act p []
  toAlt.act p []

variable {p : Primitives} {m m' : Machine} {u : Unit}

theorem discard_eq_ok_iff :
    discard p m = .ok u m' ↔ ∃ item rest, m.cache.altStack.items = item :: rest ∧
      (item.length : Int) ≤ m.stack.maxItemSize ∧ m.stack.items.length < m.stack.maxItems ∧
      m' = m.withAlt rest := by
  simp only [discard, bind_eq_ok_iff, act_fromAlt_eq_ok_iff, act_drop_eq_ok_iff]
  constructor
  · rintro ⟨-, n, ⟨item, rest, halt, hsize, hroom, rfl⟩, top, others, hitems, rfl⟩
    obtain ⟨rfl, rfl⟩ := List.cons.inj hitems
    exact ⟨item, rest, halt, hsize, hroom, rfl⟩
  · rintro ⟨item, rest, halt, hsize, hroom, rfl⟩
    exact ⟨(), _, ⟨item, rest, halt, hsize, hroom, rfl⟩, item, m.stack.items, rfl, rfl⟩

theorem stow_eq_ok_iff :
    stow p m = .ok u m' ↔ 0 ≤ m.stack.maxItemSize ∧ m.stack.items.length < m.stack.maxItems ∧
      0 ≤ m.cache.altStack.maxItemSize ∧
      m.cache.altStack.items.length < m.cache.altStack.maxItems ∧
      m' = m.withAlt ([] :: m.cache.altStack.items) := by
  simp only [stow, bind_eq_ok_iff, act_toAlt_eq_ok_iff]
  change (∃ a n, Exec.push [] m = .ok a n ∧ _) ↔ _
  simp only [push_eq_ok_iff]
  constructor
  · rintro ⟨-, n, ⟨hsize, hroom, rfl⟩, item, rest, hitems, haltSize, haltRoom, rfl⟩
    obtain ⟨rfl, rfl⟩ := List.cons.inj hitems
    exact ⟨hsize, hroom, haltSize, haltRoom, rfl⟩
  · rintro ⟨hsize, hroom, haltSize, haltRoom, rfl⟩
    exact ⟨(), _, ⟨hsize, hroom, rfl⟩, [], m.stack.items, rfl, haltSize, haltRoom, rfl⟩

/-- The alternate stack can be emptied over an empty stack if its items fit on that one. -/
theorem exists_times_discard_eq_ok (hstack : m.stack = .empty)
    (hsizes : ∀ item ∈ m.cache.altStack.items, (item.length : Int) ≤ Stack.defaultMaxItemSize) :
    ∃ m', times m.cache.altStack.items.length (discard p) m = .ok () m' ∧ m'.stack = .empty ∧
      m'.cache.altStack.items = [] := by
  generalize hitems : m.cache.altStack.items = items at hsizes
  induction items generalizing m with
  | nil => exact ⟨m, rfl, hstack, hitems⟩
  | cons item items ih =>
    have hfirst : discard p m = .ok () (m.withAlt items) := by
      rw [discard_eq_ok_iff, hstack]
      exact ⟨item, items, hitems, hsizes item List.mem_cons_self, by decide, rfl⟩
    obtain ⟨m', hrest, hlast⟩ := ih (m := m.withAlt items) hstack rfl
      fun x hx => hsizes x (List.mem_cons_of_mem item hx)
    exact ⟨m', bind_eq_ok_iff.mpr ⟨(), _, hfirst, hrest⟩, hlast⟩

/-- Over an empty stack the alternate stack can be filled up as far as it has room. -/
theorem exists_times_stow_eq_ok {n : Nat} (hstack : m.stack = .empty)
    (hsize : 0 ≤ m.cache.altStack.maxItemSize)
    (hroom : m.cache.altStack.items.length + n ≤ m.cache.altStack.maxItems) :
    ∃ m', times n (stow p) m = .ok () m' ∧ m'.stack = .empty ∧
      m'.cache.altStack.items.length = m.cache.altStack.items.length + n := by
  induction n generalizing m with
  | zero => exact ⟨m, rfl, hstack, rfl⟩
  | succ n ih =>
    have hfirst : stow p m = .ok () (m.withAlt ([] :: m.cache.altStack.items)) := by
      rw [stow_eq_ok_iff, hstack]
      exact ⟨by decide, by decide, hsize, by omega, rfl⟩
    have hlength : (m.withAlt ([] :: m.cache.altStack.items)).cache.altStack.items.length =
        m.cache.altStack.items.length + 1 := rfl
    obtain ⟨m', hrest, hempty, hlast⟩ :=
      ih (m := m.withAlt ([] :: m.cache.altStack.items)) hstack hsize
        (by rw [hlength, Nat.add_assoc, Nat.add_comm 1]; exact hroom)
    exact ⟨m', bind_eq_ok_iff.mpr ⟨(), _, hfirst, hrest⟩, hempty, by rw [hlast, hlength]; omega⟩

end Exec

section Repeated

open Machine

variable {p : Primitives} {code : Bytes} {x : Exec Unit} {cache : Cache} {n : Nat}

/-- Byte code written several times, and a true item behind it. -/
def repeated (n : Nat) (code : Bytes) : Bytes := (List.replicate n code).flatten ++ [0x51]

theorem does_repeated (h : Does p .standard code x) (n : Nat) :
    Does p .standard (repeated n code) (do
      times n x
      Exec.push (ScriptNumber.encode (1 : Nat))) := by
  have hmem : (0x51, "OP_1", Operation.push (ScriptNumber.encode (1 : Nat))) ∈
      OpTable.basicOperations := by
    decide +kernel
  exact (h.flatten_replicate OpTable.aligned_standard n).append OpTable.aligned_standard
    (does_of_mem hmem rfl)

/-- If an action can be done a number of times and leaves the stack empty, its byte code written as
often authorizes with a true item behind it. -/
theorem authorizes_repeated (h : Does p .standard code x) {m : Machine}
    (hrun : times n x (start (repeated n code) .empty cache) = .ok () m)
    (hstack : m.stack = .empty) :
    authorizes p .standard (repeated n code) cache = true ∧
      (runScript p .standard (repeated n code) cache .empty).final.cache = m.cache := by
  have hpush : Exec.push (ScriptNumber.encode (1 : Nat)) m =
      .ok () (m.withItems [ScriptNumber.encode (1 : Nat)]) := by
    rw [push_eq_ok_iff, hstack]
    exact ⟨by decide +kernel, by decide, rfl⟩
  have hwhole : interpret p .standard (repeated n code) (start (repeated n code) .empty cache) =
      .ok () (m.withItems [ScriptNumber.encode (1 : Nat)]) := by
    rw [(does_repeated h n).interpret_eq]
    exact bind_eq_ok_iff.mpr ⟨(), m, hrun, hpush⟩
  refine ⟨authorizes_iff.mpr ⟨_, hwhole, _, rfl, by decide +kernel⟩, ?_⟩
  rw [(runScript_of_interpret_eq_ok hwhole).2.2]
  rfl

/-- If an action fails at once, its byte code does not authorize, however often it is written. -/
theorem authorizes_repeated_eq_false (h : Does p .standard code x) (hn : n ≠ 0)
    (hfail : ∀ m m' : Machine, m.stack = .empty → m.cache = cache → x m ≠ .ok () m') :
    authorizes p .standard (repeated n code) cache = false := by
  rw [← Bool.not_eq_true, authorizes_iff]
  rintro ⟨m, hrun, -⟩
  rw [(does_repeated h n).interpret_eq] at hrun
  obtain ⟨u, k, htimes, -⟩ := bind_eq_ok_iff.mp hrun
  obtain ⟨n, rfl⟩ := Nat.exists_eq_succ_of_ne_zero hn
  obtain ⟨v, l, hfirst, -⟩ := bind_eq_ok_iff.mp htimes
  exact hfail _ l rfl rfl hfirst

theorem does_discard : Does p .standard [0x6c, 0x75] (discard p) := by
  have hfromAlt : (0x6c, "OP_FROMALTSTACK", Operation.fromAlt) ∈ OpTable.basicOperations := by
    decide +kernel
  have hdrop : (0x75, "OP_DROP", Operation.drop) ∈ OpTable.basicOperations := by decide +kernel
  exact (does_of_mem hfromAlt rfl).append OpTable.aligned_standard (does_of_mem hdrop rfl)

theorem does_stow : Does p .standard [0x00, 0x6b] (stow p) := by
  have hzero : (0x00, "OP_0", Operation.push []) ∈ OpTable.basicOperations := by decide +kernel
  have htoAlt : (0x6b, "OP_TOALTSTACK", Operation.toAlt) ∈ OpTable.basicOperations := by
    decide +kernel
  exact (does_of_mem hzero rfl).append OpTable.aligned_standard (does_of_mem htoAlt rfl)

end Repeated

/-! ### Which caches runs change -/

/-- A cache whose alternate stack, if any, holds only items that fit on a stack with the usual
limits. -/
def Cache.FitsStack (c : Cache) : Prop :=
  ∀ alt, c.alt = some alt → ∀ item ∈ alt.items, (item.length : Int) ≤ Stack.defaultMaxItemSize

/-- A cache whose alternate stack, if any, has the usual limits and keeps them. -/
def Cache.IsUsual (c : Cache) : Prop :=
  ∀ alt, c.alt = some alt → alt.maxItems = Stack.defaultMaxItems ∧
    alt.maxItemSize = Stack.defaultMaxItemSize ∧ alt.WithinLimits

section Caches

variable {cache : Cache} {alt : Stack}

open Machine

theorem Cache.IsUsual.fitsStack (h : cache.IsUsual) : cache.FitsStack := by
  intro alt halt item hitem
  obtain ⟨-, hsize, hwithin⟩ := h alt halt
  exact hsize ▸ hwithin.2 item hitem

/-- With the usual limits something can always be put or taken. -/
theorem Cache.IsUsual.isInert_iff (h : cache.IsUsual) : cache.IsInert ↔ cache.alt = none := by
  constructor
  · intro hinert
    rw [Option.eq_none_iff_forall_not_mem]
    intro alt halt
    obtain ⟨hitems, hsize, -⟩ := h alt halt
    have hlimits := (hinert alt halt).2
    rw [hitems, hsize] at hlimits
    exact absurd hlimits (by decide)
  · intro hnone alt halt
    rw [hnone] at halt
    cases halt

/-- A run gives a usual cache back as a usual cache. -/
theorem Cache.IsUsual.runScript (h : cache.IsUsual) (p : Primitives) (t : OpTable) (code : Bytes)
    (stack : Stack) : (runScript p t code cache stack).final.cache.IsUsual := by
  have hlead := leadsTo_runScript_final p t code cache stack
  generalize (FlowGate.runScript p t code cache stack).final = m at hlead
  -- The alternate stack of the start has the usual limits, whether it is there yet or not.
  have hstart : cache.altStack.maxItems = Stack.defaultMaxItems ∧
      cache.altStack.maxItemSize = Stack.defaultMaxItemSize ∧ cache.altStack.WithinLimits := by
    cases halt : cache.alt with
    | none =>
      rw [Cache.altStack, halt]
      exact ⟨rfl, rfl, Stack.withinLimits_empty⟩
    | some alt =>
      rw [Cache.altStack_of_alt halt]
      exact h alt halt
  intro alt halt
  rw [← Cache.altStack_of_alt halt]
  exact ⟨(congrArg Frame.altMaxItems hlead.frame_eq).trans hstart.1,
    (congrArg Frame.altMaxItemSize hlead.frame_eq).trans hstart.2.1, hlead.alt hstart.2.2⟩

variable (p : Primitives)

/-- If the alternate stack of the caller holds something, a script takes the item on top of it, even
where it fails for having no room for it. -/
theorem alt_caller_fromAlt {item : Bytes} {rest : List Bytes} (h : cache.alt = some alt)
    (hitems : alt.items = item :: rest) :
    (runScript p .standard [0x6c] cache .empty).caller.alt = some { alt with items := rest } := by
  have hmem : (0x6c, "OP_FROMALTSTACK", Operation.fromAlt) ∈ OpTable.basicOperations := by
    decide +kernel
  have hdoes : Does p .standard [0x6c] (Operation.fromAlt.act p []) := does_of_mem hmem rfl
  have hpopped : Operation.fromAlt.act p [] (start [0x6c] .empty cache) =
      Exec.push item ((start [0x6c] .empty cache).withAlt rest) := by
    simp only [Operation.act, bind, EStateM.bind, openAlt, popAlt, start, Cache.openAlt,
      Cache.altStack, h, Option.getD_some, Stack.pop, hitems, withAlt]
  rw [(sameOutcome_interpret p .standard [0x6c] cache .empty (.ofBytes [0x6c])).caller_eq,
    ScriptRun.caller_ofOutcome, Cache.alt_afterCall h, hdoes.interpret_eq]
  change (reached (Operation.fromAlt.act p [] (start [0x6c] .empty cache))).cache.alt = _
  rw [hpopped, closedOnStack_keepsCache.push item]
  change some { cache.altStack with items := rest } = _
  rw [Cache.altStack_of_alt h]

/-- What the next run finds on the alternate stack of its caller is what this one left there. -/
theorem altStack_caller_eq (h : cache.alt = some alt) (code : Bytes) :
    (runScript p .standard code cache .empty).caller.altStack =
      (runScript p .standard code cache .empty).final.cache.altStack := by
  rw [runScript_caller_eq, Cache.altStack, Cache.alt_afterCall h, Cache.altStack]

/-- If the alternate stack holds nothing but has room, a script fills it. Then there is no room. -/
theorem exists_authorizes_ne_of_nil (h : cache.alt = some alt) (hitems : alt.items = [])
    (hroom : alt.maxItems ≠ 0) (hsize : 0 ≤ alt.maxItemSize) :
    ∃ code, authorizes p .standard code cache = true ∧
      authorizes p .standard code (runScript p .standard code cache .empty).caller = false := by
  have hstack := Cache.altStack_of_alt h
  -- A script that fills the alternate stack has no room for itself the second time.
  obtain ⟨m, htimes, hempty, hlength⟩ := exists_times_stow_eq_ok (p := p) (n := alt.maxItems)
    (m := start (repeated alt.maxItems [0x00, 0x6b]) .empty cache) rfl
    (by change 0 ≤ cache.altStack.maxItemSize; rw [hstack]; exact hsize)
    (by change cache.altStack.items.length + _ ≤ cache.altStack.maxItems
        rw [hstack, hitems]; simp)
  obtain ⟨htrue, hcache⟩ := authorizes_repeated does_stow htimes hempty
  refine ⟨_, htrue, authorizes_repeated_eq_false does_stow hroom fun k k' _ hk hrun => ?_⟩
  obtain ⟨-, -, -, hagain, -⟩ := stow_eq_ok_iff.mp hrun
  rw [hk, (altStack_caller_limits p .standard _ cache .empty).1, altStack_caller_eq p h, hcache,
    hlength] at hagain
  change cache.altStack.items.length + _ < cache.altStack.maxItems at hagain
  rw [hstack, hitems] at hagain
  simp at hagain

/-- If the alternate stack holds something, a script takes it all. Then there is nothing to take. -/
theorem exists_authorizes_ne_of_ne_nil (hfits : cache.FitsStack) (h : cache.alt = some alt)
    (hitems : alt.items ≠ []) :
    ∃ code, authorizes p .standard code cache = true ∧
      authorizes p .standard code (runScript p .standard code cache .empty).caller = false := by
  have hstack := Cache.altStack_of_alt h
  obtain ⟨m, htimes, hempty, hnone⟩ := exists_times_discard_eq_ok (p := p)
    (m := start (repeated alt.items.length [0x6c, 0x75]) .empty cache) rfl
    (by change ∀ item ∈ cache.altStack.items, _; rw [hstack]; exact hfits alt h)
  change times cache.altStack.items.length _ _ = _ at htimes
  rw [hstack] at htimes
  obtain ⟨htrue, hcache⟩ := authorizes_repeated does_discard htimes hempty
  refine ⟨_, htrue, authorizes_repeated_eq_false does_discard
    (mt List.length_eq_zero_iff.mp hitems) fun k k' _ hk hrun => ?_⟩
  obtain ⟨top, below, htop, -⟩ := discard_eq_ok_iff.mp hrun
  rw [hk, altStack_caller_eq p h, hcache, hnone] at htop
  cases htop

/-- Of a cache that is not inert a script can tell whether it has been used: it authorizes at first,
and does not when it is run again. -/
theorem exists_authorizes_ne (hfits : cache.FitsStack) (h : ¬ cache.IsInert) :
    ∃ code, authorizes p .standard code cache = true ∧
      authorizes p .standard code (runScript p .standard code cache .empty).caller = false := by
  simp only [Cache.IsInert, not_forall] at h
  obtain ⟨alt, halt, hinert⟩ := h
  by_cases hitems : alt.items = []
  · obtain ⟨hroom, hsize⟩ := not_or.mp (not_and.mp hinert hitems)
    exact exists_authorizes_ne_of_nil p halt hitems hroom (Int.not_lt.mp hsize)
  · exact exists_authorizes_ne_of_ne_nil p hfits halt hitems

/-- No script changes anything of a cache if and only if the cache is inert. -/
theorem forall_caller_eq_iff :
    (∀ code, (runScript p .standard code cache .empty).caller = cache) ↔ cache.IsInert := by
  constructor
  · intro hsame
    by_contra hinert
    -- The items may be too large for the stack, and then no script can put them there.
    by_cases hempty : ∀ alt, cache.alt = some alt → alt.items = []
    · have hfits : cache.FitsStack := fun alt halt item hitem => by
        rw [hempty alt halt] at hitem
        cases hitem
      obtain ⟨code, htrue, hfalse⟩ := exists_authorizes_ne p hfits hinert
      rw [hsame, htrue] at hfalse
      cases hfalse
    · simp only [not_forall] at hempty
      obtain ⟨alt, halt, hitems⟩ := hempty
      obtain ⟨item, rest, hcons⟩ := List.exists_cons_of_ne_nil hitems
      have htaken := alt_caller_fromAlt p halt hcons
      rw [hsame, halt] at htaken
      have hrest : alt.items = rest := congrArg Stack.items (Option.some.inj htaken)
      exact List.cons_ne_self item rest (hcons.symm.trans hrest)
  · exact fun hinert code => caller_eq_of_isInert hinert p .standard code .empty

/-- What a run leaves of its caller's cache. The named values stay as they are, and whether there is
an alternate stack; and if anything changes, the run took an opcode that reaches the alternate
stack. No script changes anything of a cache if and only if the cache has no alternate stack, or one
that holds and takes nothing. Those are also the caches, at least of those whose items fit on a
stack, with which every script comes to the same verdict when it is run again. Of the caches that
runs with the usual limits give back, those are the ones without alternate stack. -/
theorem runScript_lends :
    (∀ (code : Bytes) (cache : Cache) (stack : Stack),
      (runScript p .standard code cache stack).caller.values = cache.values ∧
      (runScript p .standard code cache stack).caller.alt.isSome = cache.alt.isSome ∧
      ((runScript p .standard code cache stack).caller ≠ cache → ∃ visited outcome,
        Loops p .standard (start code stack cache) visited outcome ∧
          ∃ m ∈ visited, (OpTable.standard.operation m.fetch.2).UsesAlt)) ∧
    (∀ cache : Cache,
      (∀ code, (runScript p .standard code cache .empty).caller = cache) ↔ cache.IsInert) ∧
    (∀ cache : Cache, cache.FitsStack →
      ((∀ code, authorizes p .standard code (runScript p .standard code cache .empty).caller =
        authorizes p .standard code cache) ↔ cache.IsInert)) ∧
    ∀ cache : Cache, cache.IsUsual →
      cache.FitsStack ∧ (cache.IsInert ↔ cache.alt = none) ∧
      ∀ (code : Bytes) (stack : Stack),
        (runScript p .standard code cache stack).final.cache.IsUsual := by
  refine ⟨fun code cache stack => ⟨?_, ?_, ?_⟩, ?_, ?_, ?_⟩
  · rw [runScript_caller_eq, Cache.values_afterCall]
  · exact isSome_alt_caller p .standard code cache stack
  · exact exists_usesAlt_of_caller_ne
  · exact fun cache => forall_caller_eq_iff p
  · intro cache hfits
    constructor
    · intro hsame
      -- A cache that can change is told from what it becomes by some script.
      by_contra hinert
      obtain ⟨code, htrue, hfalse⟩ := exists_authorizes_ne p hfits hinert
      rw [hsame, htrue] at hfalse
      cases hfalse
    · intro hinert code
      rw [caller_eq_of_isInert hinert]
  · exact fun cache husual => ⟨husual.fitsStack, husual.isInert_iff, husual.runScript p .standard⟩

end Caches

/-- The cache that a run gives back that moved the number one to the alternate stack. -/
def moved : Cache := (runScript .standard .standard [0x51, 0x6b] .empty .empty).final.cache

/-- A script that takes an item from the alternate stack authorizes with that cache, and does not
when it is run with it again. -/
theorem runScript_lends_sample :
    (¬ ∀ code, (runScript .standard .standard code moved .empty).caller = moved) ∧
      (¬ ∀ code, authorizes .standard .standard code
          (runScript .standard .standard code moved .empty).caller =
        authorizes .standard .standard code moved) ∧
      authorizes .standard .standard [0x6c] moved = true ∧
      authorizes .standard .standard [0x6c]
        (runScript .standard .standard [0x6c] moved .empty).caller = false := by
  have hempty : Cache.empty.IsUsual := fun alt halt => by cases halt
  obtain ⟨-, hchanges, hverdict, husual⟩ := runScript_lends .standard
  have hmoved : moved.IsUsual := (husual .empty hempty).2.2 [0x51, 0x6b] .empty
  obtain ⟨hfits, hinert, -⟩ := husual moved hmoved
  have halt : moved.alt ≠ none := by decide +kernel
  refine ⟨fun h => halt ?_, fun h => halt ?_, ?_, ?_⟩
  · exact hinert.mp ((hchanges moved).mp h)
  · exact hinert.mp ((hverdict moved hfits).mp h)
  · decide +kernel
  · decide +kernel

end FlowGate

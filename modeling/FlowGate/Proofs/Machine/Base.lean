import FlowGate.Primitives
import FlowGate.Proofs.Machine.Loop
import Mathlib.Logic.ExistsUnique

/-!
# Runs on a base

The items of a stack may lie on a base of other items. Operations look at the top of the stack, and
only one of them counts its items. So a script that does not count, and that does not take more items
than a stack has, does on the stack with a base beneath it what it does on the stack alone, if there
is room for as many more items as the base has. It takes the same opcodes, ends or fails in the same
way, and leaves the base where it was.

## Main definitions

* `Stack.onto`, `Machine.onto` — a stack on a base, and a machine with such a stack
* `Exec.BaseFree` — actions that do on a base what they do without
* `Dispatches` — the opcodes that the run of a script takes

## Main results

* `Exec.closedOnTop_baseFree`, `Exec.closedOnAlt_baseFree` — the elementary actions but one are such
  actions, and so are sequences of them
* `Operation.baseFree_run` — so is every operation but the one that counts items
* `Machine.Loops.onto` — a run on a base
* `runScript_onto` — a script on a base
-/

namespace FlowGate

/-! ### Stacks on a base -/

/-- The stack with the items of a base beneath its own, the deepest one first, and with room for as
many more. -/
def Stack.onto (s : Stack) (base : List Bytes) : Stack :=
  { s with items := s.items ++ base.reverse, maxItems := s.maxItems + base.length }

namespace Stack

variable {s : Stack} {base : List Bytes}

theorem toList_onto : (s.onto base).toList = base ++ s.toList := by
  rw [toList, onto, List.reverse_append, List.reverse_reverse, toList]

theorem length_items_onto : (s.onto base).items.length = s.items.length + base.length := by
  rw [onto, List.length_append, List.length_reverse]

/-- An item is put onto a stack on a base as onto the stack. -/
theorem push_onto (item : Bytes) :
    (s.onto base).push item = (s.push item).map fun t => t.onto base := by
  by_cases hsize : (item.length : Int) > s.maxItemSize
  · rw [push, push, if_pos hsize]
    exact if_pos hsize
  · by_cases hroom : s.items.length < s.maxItems
    · rw [push_eq_ok_iff.mpr ⟨Int.not_lt.mp hsize, hroom, rfl⟩]
      refine push_eq_ok_iff.mpr ⟨Int.not_lt.mp hsize, ?_, rfl⟩
      rw [length_items_onto]
      exact Nat.add_lt_add_right hroom _
    · have hfull : ¬ (s.onto base).items.length < (s.onto base).maxItems := by
        rw [length_items_onto]
        exact fun h => hroom (Nat.lt_of_add_lt_add_right h)
      rw [push, push, if_neg hsize, if_neg hroom, if_neg hfull]
      exact if_neg hsize

/-- The top item of a stack is taken from it on a base as without. -/
theorem pop_onto (h : s.items ≠ []) :
    (s.onto base).pop = s.pop.map fun taken => (taken.1, taken.2.onto base) := by
  obtain ⟨items, maxItems, maxItemSize⟩ := s
  cases items with
  | nil => exact absurd rfl h
  | cons item items => rfl

end Stack

/-- The machine with its stack on a base. -/
def Machine.onto (m : Machine) (base : List Bytes) : Machine :=
  { m with stack := m.stack.onto base }

/-! ### Actions on a base -/

namespace Exec

variable {α β : Type}

/-- The same outcome on a base. -/
def onto (base : List Bytes) :
    EStateM.Result ExecFault Machine α → EStateM.Result ExecFault Machine α
  | .ok a m => .ok a (m.onto base)
  | .error fault m => .error fault (m.onto base)

/-- An action that has on a base the outcome that it has without, unless it lacks an item there. -/
def BaseFree (x : Exec α) : Prop :=
  ∀ (m : Machine) (base : List Bytes), (∀ n, x m ≠ .error .emptyStack n) →
    x (m.onto base) = onto base (x m)

theorem BaseFree.bind {x : Exec α} {f : α → Exec β} (hx : x.BaseFree) (hf : ∀ a, (f a).BaseFree) :
    (x >>= f).BaseFree := by
  intro m base hitems
  change EStateM.bind x f _ = onto base (EStateM.bind x f m)
  change ∀ n, EStateM.bind x f m ≠ _ at hitems
  unfold EStateM.bind at hitems ⊢
  cases hxm : x m with
  | ok a n =>
    rw [hx m base (by simp [hxm]), hxm]
    rw [hxm] at hitems
    exact hf a n base hitems
  | error fault n =>
    rw [hxm] at hitems
    have hfault : ∀ k, x m ≠ .error .emptyStack k := by
      rintro k hk
      rw [hxm] at hk
      cases hk
      exact hitems n rfl
    rw [hx m base hfault, hxm]
    rfl

/-- The actions on top of the stack reach the base only where the stack has no item. -/
theorem closedOnTop_baseFree : ClosedOnTop @BaseFree where
  pure _ := fun _ _ _ => rfl
  bind := BaseFree.bind
  fail _ := fun _ _ _ => rfl
  push item := by
    intro m base _
    unfold push
    rw [show (m.onto base).stack = m.stack.onto base from rfl, Stack.push_onto]
    cases m.stack.push item <;> rfl
  pop := by
    intro m base hitems
    -- With no item of its own the run would take one from below.
    have hne : m.stack.items ≠ [] := by
      intro hnil
      refine hitems m ?_
      rw [pop, Stack.pop, hnil]
    unfold pop
    rw [show (m.onto base).stack = m.stack.onto base from rfl, Stack.pop_onto hne]
    cases m.stack.pop <;> rfl
  sighash := by
    intro m base _
    unfold sighash
    rw [show (m.onto base).cache = m.cache from rfl]
    cases m.cache.sighash? <;> rfl

/-- The actions on the alternate stack do not reach the base. -/
theorem closedOnAlt_baseFree : ClosedOnAlt @BaseFree where
  openAlt := fun _ _ _ => rfl
  pushAlt item := by
    intro m base _
    unfold pushAlt
    rw [show (m.onto base).cache = m.cache from rfl]
    cases m.cache.altStack.push item <;> rfl
  popAlt := by
    intro m base _
    unfold popAlt
    rw [show (m.onto base).cache = m.cache from rfl]
    cases m.cache.altStack.pop <;> rfl

theorem baseFree_read (size : Nat) : (read size).BaseFree := by
  intro m base _
  unfold read
  rw [show (m.onto base).tape = m.tape from rfl]
  cases m.tape.read size <;> rfl

theorem baseFree_readOperand (o : Operand) : (Operation.readOperand o).BaseFree := by
  cases o with
  | none => exact fun _ _ _ => rfl
  | fixed size => exact baseFree_read size
  | counted width => exact (baseFree_read width).bind fun _ => baseFree_read _

end Exec

/-- Every operation but the one that counts the items of the stack does on a base what it does
without. -/
theorem Operation.baseFree_run (p : Primitives) {op : Operation} (hdepth : op ≠ .depth) :
    (op.run p).BaseFree := by
  refine (Exec.baseFree_readOperand op.operand).bind fun data => ?_
  by_cases hop : op.UsesAlt
  · exact Exec.closedOnTop_baseFree.act_of_usesAlt Exec.closedOnAlt_baseFree p data hop
  · exact Exec.closedOnTop_baseFree.act p data hop hdepth

/-! ### Runs on a base -/

namespace Machine

variable {p : Primitives} {t : OpTable} {m : Machine} {visited : List Machine} {outcome : Outcome}

theorem step_onto (base : List Bytes) (hgoes : m.tape.isDone = false)
    (hdepth : t.operation m.fetch.2 ≠ .depth) (hitems : ∀ n, step p t m ≠ .error .emptyStack n) :
    step p t (m.onto base) = Exec.onto base (step p t m) := by
  have hgoes' : (m.onto base).tape.isDone = false := hgoes
  rw [step_eq hgoes] at hitems
  rw [step_eq hgoes, step_eq hgoes']
  exact Operation.baseFree_run p hdepth m.advance base hitems

/-- A run that neither counts items nor lacks one visits on a base the machines that it visits
without, each on the base, and has the same outcome. -/
theorem Loops.onto (h : Loops p t m visited outcome)
    (hdepth : ∀ k ∈ visited, t.operation k.fetch.2 ≠ .depth)
    (hitems : ∀ n, outcome ≠ .error .emptyStack n) (base : List Bytes) :
    Loops p t (m.onto base) (visited.map fun k => k.onto base) (Exec.onto base outcome) := by
  -- The induction is on the loop, with the base beneath every machine that it visits.
  induction h with
  | done hdone => exact .done hdone
  | @fault m n fault hgoes hstep =>
    have honto := step_onto base hgoes (hdepth m List.mem_cons_self) (hstep ▸ hitems)
    rw [hstep] at honto
    exact .fault hgoes honto
  | @next m n visited outcome hgoes hstep _ ih =>
    have honto := step_onto (p := p) base hgoes (hdepth m List.mem_cons_self) (by simp [hstep])
    rw [hstep] at honto
    exact .next hgoes honto (ih (fun k hk => hdepth k (List.mem_cons_of_mem m hk)) hitems)

end Machine

/-! ### Scripts on a base -/

/-- The run of a script takes the given opcodes, one after the other. -/
def Dispatches (p : Primitives) (t : OpTable) (code : Bytes) (cache : Cache) (stack : Stack)
    (opcodes : List Nat) : Prop :=
  ∃ visited outcome, Machine.Loops p t (.start code stack cache) visited outcome ∧
    visited.map (fun m => m.fetch.2) = opcodes

section Script

variable {p : Primitives} {t : OpTable} {code : Bytes} {cache : Cache} {stack : Stack}
  {opcodes : List Nat}

open Machine

/-- Every run takes some opcodes, and no others. -/
theorem existsUnique_dispatches (p : Primitives) (t : OpTable) (code : Bytes) (cache : Cache)
    (stack : Stack) : ∃! opcodes, Dispatches p t code cache stack opcodes := by
  obtain ⟨visited, hrun⟩ := exists_loops_runTape p t (start code stack cache)
  refine ⟨_, ⟨visited, _, hrun, rfl⟩, ?_⟩
  rintro _ ⟨visited', _, hrun', rfl⟩
  rw [(hrun.unique hrun').1]

theorem Dispatches.exists_loops (h : Dispatches p t code cache stack opcodes) :
    ∃ visited, Loops p t (start code stack cache) visited
        (runTape p t (start code stack cache)) ∧
      visited.map (fun m => m.fetch.2) = opcodes := by
  obtain ⟨visited, outcome, hrun, hopcodes⟩ := h
  exact ⟨visited, hrun.runTape_eq ▸ hrun, hopcodes⟩

/-- A script whose run on a stack takes no opcode that counts items, and does not fail for lack of an
item, does the same on the stack on a base: its run takes the same opcodes, ends or fails in the
same way at the same position, leaves the same cache and the same to its caller, and leaves on the
base the stack that it leaves without. -/
theorem runScript_onto (p : Primitives) (code : Bytes) (cache : Cache) (stack : Stack)
    (base : List Bytes) {opcodes : List Nat}
    (hopcodes : Dispatches p .standard code cache stack opcodes)
    (hdepth : ∀ c ∈ opcodes, OpTable.standard.operation c ≠ .depth)
    (hitems : (runScript p .standard code cache stack).fault ≠ some .emptyStack) :
    let alone := runScript p .standard code cache stack
    let framed := runScript p .standard code cache (stack.onto base)
    Dispatches p .standard code cache (stack.onto base) opcodes ∧
      framed.fault = alone.fault ∧ framed.final.tape = alone.final.tape ∧
      framed.final.cache = alone.final.cache ∧ framed.caller = alone.caller ∧
      framed.final.stack = alone.final.stack.onto base := by
  intro alone framed
  obtain ⟨visited, hrun, rfl⟩ := hopcodes.exists_loops
  have hdepth' : ∀ k ∈ visited, OpTable.standard.operation k.fetch.2 ≠ .depth :=
    fun k hk => hdepth _ (List.mem_map_of_mem hk)
  have hitems' : ∀ n, runTape p .standard (start code stack cache) ≠ .error .emptyStack n := by
    intro n hn
    rw [runScript_eq_ofOutcome, hn] at hitems
    exact hitems rfl
  -- Neither counting nor running out of items tells the run that there are more below.
  have hbase := hrun.onto hdepth' hitems' base
  have hframed : framed = .ofOutcome cache
      (Exec.onto base (runTape p .standard (start code stack cache))) := runScript_of_loops hbase
  refine ⟨⟨_, _, hbase, ?_⟩, ?_⟩
  · rw [List.map_map]
    rfl
  · rw [hframed, show alone = .ofOutcome cache _ from runScript_eq_ofOutcome]
    cases runTape p .standard (start code stack cache) <;> exact ⟨rfl, rfl, rfl, rfl, rfl⟩

/-- A stack that is full with its single item. -/
def Stack.fullOfOne : Stack := ⟨[[1]], 1, defaultMaxItemSize⟩

/-- Doubling this item fails on a base as it does without, and leaves the base and the item. -/
theorem runScript_onto_fullOfOne :
    let framed := runScript .standard .standard [0x76] .empty (Stack.fullOfOne.onto [[7], [8]])
    Dispatches .standard .standard [0x76] .empty (Stack.fullOfOne.onto [[7], [8]]) [0x76] ∧
      framed.fault = some .fullStack ∧ framed.final.stack.toList = [[7], [8], [1]] := by
  intro framed
  have hopcodes : Dispatches .standard .standard [0x76] .empty .fullOfOne [0x76] :=
    ⟨[_], _, .fault rfl rfl, rfl⟩
  have hfault : (runScript .standard .standard [0x76] .empty .fullOfOne).fault =
      some .fullStack := by decide +kernel
  have hdepth : ∀ c ∈ [0x76], OpTable.standard.operation c ≠ .depth := by decide +kernel
  have hitems : (runScript .standard .standard [0x76] .empty .fullOfOne).fault ≠
      some .emptyStack := by
    rw [hfault]
    decide
  obtain ⟨hbase, hsame, -, -, -, hstack⟩ :=
    runScript_onto .standard [0x76] .empty .fullOfOne [[7], [8]] hopcodes hdepth hitems
  refine ⟨hbase, hsame.trans hfault, ?_⟩
  rw [hstack, Stack.toList_onto]
  decide +kernel

end Script

end FlowGate

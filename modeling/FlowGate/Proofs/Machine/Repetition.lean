import FlowGate.Proofs.Machine.Boundary

/-!
# Repeated operations

An operation that is done a number of times in a row: dropping items, and moving items to the
alternate stack and back.

## Main definitions

* `Exec.times` — an action done a number of times
* `Exec.Leaves` — an action succeeds and leaves given stacks
* `Stack.Moves` — a number of items move from one stack to another
* `Stack.HasRoomFor` — whether given items can be put onto a stack

## Main results

* `Machine.Does.flatten_replicate` — byte code written several times does its action as often
* `times_drop_eq_ok_iff`, `leaves_times_toAlt_iff`, `leaves_times_fromAlt_iff` — when a repeated
  operation succeeds, and what it leaves
* `leaves_park_iff` — items wait on the alternate stack while others are dropped
-/

namespace FlowGate

/-- An action done a number of times. -/
def Exec.times : Nat → Exec Unit → Exec Unit
  | 0, _ => pure ()
  | n + 1, x => do
    x
    times n x

/-- Byte code written several times does its action as often. -/
theorem Machine.Does.flatten_replicate {p : Primitives} {t : OpTable} {code : Bytes}
    {x : Exec Unit} (ht : t.Aligned) (h : Does p t code x) (n : Nat) :
    Does p t (List.replicate n code).flatten (Exec.times n x) := by
  induction n with
  | zero => exact does_nil p t
  | succ n ih =>
    rw [List.replicate_succ, List.flatten_cons]
    exact h.append ht ih

theorem Machine.Does.replicate {p : Primitives} {t : OpTable} {b : UInt8} {x : Exec Unit}
    (ht : t.Aligned) (h : Does p t [b] x) (n : Nat) :
    Does p t (List.replicate n b) (Exec.times n x) := by
  have hdoes := h.flatten_replicate ht n
  rwa [List.flatten_replicate_singleton] at hdoes

open Exec Operation

variable {p : Primitives} {m m' : Machine} {stack alt : Stack} {n : Nat} {u : Unit}

theorem times_drop_eq_ok_iff :
    times n (drop.act p []) m = .ok u m' ↔ ∃ top rest, m.stack.items = top ++ rest ∧
      top.length = n ∧ m' = m.withItems rest := by
  -- The items that are dropped are taken off one by one.
  induction n generalizing m with
  | zero =>
    simp only [times, pure_eq_ok_iff, List.length_eq_zero_iff]
    constructor
    · rintro ⟨-, rfl⟩
      exact ⟨[], m.stack.items, rfl, rfl, rfl⟩
    · rintro ⟨top, rest, hitems, rfl, rfl⟩
      rw [List.nil_append] at hitems
      exact ⟨trivial, by rw [← hitems, Machine.withItems_self]⟩
  | succ n ih =>
    simp only [times, bind_eq_ok_iff, act_drop_eq_ok_iff, ih]
    constructor
    · rintro ⟨-, k, ⟨item, others, hitems, rfl⟩, top, rest, hothers, hlength, rfl⟩
      rw [Machine.stack_items_withItems] at hothers
      refine ⟨item :: top, rest, ?_, by rw [List.length_cons, hlength], rfl⟩
      rw [hitems, hothers, List.cons_append]
    · rintro ⟨top, rest, hitems, hlength, rfl⟩
      obtain ⟨item, top, rfl⟩ := List.exists_cons_of_length_eq_add_one hlength
      exact ⟨(), _, ⟨item, top ++ rest, hitems, rfl⟩, top, rest, rfl, Nat.succ.inj hlength, rfl⟩

/-- An action succeeds and leaves the two stacks given. -/
def Exec.Leaves (x : Exec Unit) (m : Machine) (stack alt : Stack) : Prop :=
  ∃ m', x m = .ok () m' ∧ m'.stack = stack ∧ m'.cache.altStack = alt

theorem leaves_bind_iff {x y : Exec Unit} :
    Leaves (do x; y) m stack alt ↔ ∃ n, x m = .ok () n ∧ Leaves y n stack alt := by
  simp only [Leaves, bind_eq_ok_iff]
  constructor
  · rintro ⟨m', ⟨u, n, hx, hy⟩, hstack, halt⟩
    exact ⟨n, hx, m', hy, hstack, halt⟩
  · rintro ⟨n, hx, m', hy, hstack, halt⟩
    exact ⟨m', ⟨(), n, hx, hy⟩, hstack, halt⟩

/-- A script succeeds and leaves what the action of its byte code leaves. -/
theorem Machine.Does.leaves_iff {t : OpTable} {code : Bytes} {cache : Cache} {start : Stack}
    {x : Exec Unit} (h : Machine.Does p t code x) :
    Leaves x (.start code start cache) stack alt ↔
      (runScript p t code cache start).isOk = true ∧
        (runScript p t code cache start).final.stack = stack ∧
        (runScript p t code cache start).final.cache.altStack = alt := by
  constructor
  · rintro ⟨m, hx, rfl, rfl⟩
    rw [← h.interpret_eq] at hx
    obtain ⟨hok, hstack, hcache⟩ := runScript_of_interpret_eq_ok hx
    exact ⟨hok, hstack, by rw [hcache]⟩
  · rintro ⟨hok, rfl, rfl⟩
    obtain ⟨m, hm⟩ := runScript_isOk_iff.mp hok
    obtain ⟨-, hstack, hcache⟩ := runScript_of_interpret_eq_ok hm
    rw [h.interpret_eq] at hm
    exact ⟨m, hm, hstack.symm, by rw [hcache]⟩

/-- What is left when a number of items move from one stack to another, one after the other. They
must not be too large for the other stack, which needs room for them, and they arrive reversed. -/
def Stack.Moves (n : Nat) (source target source' target' : Stack) : Prop :=
  ∃ top rest, source.items = top ++ rest ∧ top.length = n ∧
    (∀ item ∈ top, (item.length : Int) ≤ target.maxItemSize) ∧ target.HasRoom n ∧
    source' = { source with items := rest } ∧
    target' = { target with items := top.reverse ++ target.items }

variable {source target source' target' : Stack}

theorem Stack.moves_zero_iff :
    Moves 0 source target source' target' ↔ source' = source ∧ target' = target := by
  constructor
  · rintro ⟨top, rest, hitems, hlength, -, -, rfl, rfl⟩
    obtain rfl := List.length_eq_zero_iff.mp hlength
    rw [List.nil_append] at hitems
    rw [← hitems]
    exact ⟨rfl, rfl⟩
  · rintro ⟨rfl, rfl⟩
    exact ⟨[], source'.items, rfl, rfl, by simp, .inl rfl, rfl, rfl⟩

/-- One item moves first. -/
theorem Stack.moves_succ_iff :
    Moves (n + 1) source target source' target' ↔ ∃ item rest, source.items = item :: rest ∧
      (item.length : Int) ≤ target.maxItemSize ∧ target.items.length < target.maxItems ∧
      Moves n { source with items := rest } { target with items := item :: target.items }
        source' target' := by
  constructor
  · rintro ⟨top, rest, hitems, hlength, hsizes, hrooms, rfl, rfl⟩
    obtain ⟨item, top, rfl⟩ := List.exists_cons_of_length_eq_add_one hlength
    obtain ⟨hsize, hsizes⟩ := List.forall_mem_cons.mp hsizes
    obtain ⟨hroom, hrooms⟩ := (Stack.hasRoom_succ_iff item).mp hrooms
    exact ⟨item, top ++ rest, hitems, hsize, hroom, top, rest, rfl, Nat.succ.inj hlength, hsizes,
      hrooms, rfl, by simp⟩
  · rintro ⟨item, others, hitems, hsize, hroom, top, rest, hothers, hlength, hsizes, hrooms, rfl,
      rfl⟩
    -- The items that move afterwards lay below the first one.
    obtain rfl : others = top ++ rest := hothers
    exact ⟨item :: top, rest, hitems, by rw [List.length_cons, hlength],
      List.forall_mem_cons.mpr ⟨hsize, hsizes⟩, (Stack.hasRoom_succ_iff item).mpr ⟨hroom, hrooms⟩,
      rfl, by simp⟩

/-- Items move to the alternate stack. -/
theorem leaves_times_toAlt_iff :
    Leaves (times n (toAlt.act p [])) m stack alt ↔
      Stack.Moves n m.stack m.cache.altStack stack alt := by
  induction n generalizing m with
  | zero =>
    simp only [times, Leaves, pure_eq_ok_iff, Stack.moves_zero_iff]
    constructor
    · rintro ⟨m', ⟨-, rfl⟩, rfl, rfl⟩
      exact ⟨rfl, rfl⟩
    · rintro ⟨rfl, rfl⟩
      exact ⟨m, ⟨trivial, rfl⟩, rfl, rfl⟩
  | succ n ih =>
    simp only [times, leaves_bind_iff, act_toAlt_eq_ok_iff, ih, Stack.moves_succ_iff]
    constructor
    · rintro ⟨k, ⟨item, rest, hitems, hsize, hroom, rfl⟩, hmoves⟩
      exact ⟨item, rest, hitems, hsize, hroom, hmoves⟩
    · rintro ⟨item, rest, hitems, hsize, hroom, hmoves⟩
      exact ⟨_, ⟨item, rest, hitems, hsize, hroom, rfl⟩, hmoves⟩

/-- Items move back from the alternate stack. -/
theorem leaves_times_fromAlt_iff :
    Leaves (times n (fromAlt.act p [])) m stack alt ↔
      Stack.Moves n m.cache.altStack m.stack alt stack := by
  induction n generalizing m with
  | zero =>
    simp only [times, Leaves, pure_eq_ok_iff, Stack.moves_zero_iff]
    constructor
    · rintro ⟨m', ⟨-, rfl⟩, rfl, rfl⟩
      exact ⟨rfl, rfl⟩
    · rintro ⟨rfl, rfl⟩
      exact ⟨m, ⟨trivial, rfl⟩, rfl, rfl⟩
  | succ n ih =>
    simp only [times, leaves_bind_iff, act_fromAlt_eq_ok_iff, ih, Stack.moves_succ_iff]
    constructor
    · rintro ⟨k, ⟨item, rest, hitems, hsize, hroom, rfl⟩, hmoves⟩
      exact ⟨item, rest, hitems, hsize, hroom, hmoves⟩
    · rintro ⟨item, rest, hitems, hsize, hroom, hmoves⟩
      exact ⟨_, ⟨item, rest, hitems, hsize, hroom, rfl⟩, hmoves⟩

/-- Whether given items can be put onto a stack: none of them is too large for it, and there is room
for all of them. -/
def Stack.HasRoomFor (s : Stack) (items : List Bytes) : Prop :=
  (∀ item ∈ items, (item.length : Int) ≤ s.maxItemSize) ∧ s.HasRoom items.length

section Parking

variable {kept dropped others : List Bytes} {count rest : Nat}

/-- Dropping items leaves the others. -/
theorem leaves_times_drop_iff (hitems : m.stack.items = dropped ++ others)
    (hrest : dropped.length = rest) :
    Leaves (times rest (drop.act p [])) m stack alt ↔
      stack = { m.stack with items := others } ∧ alt = m.cache.altStack := by
  simp only [Leaves, times_drop_eq_ok_iff]
  constructor
  · rintro ⟨m', ⟨top, below, htop, hlength, rfl⟩, rfl, rfl⟩
    obtain ⟨-, rfl⟩ := List.append_inj (hitems.symm.trans htop) (hrest.trans hlength.symm)
    exact ⟨rfl, rfl⟩
  · rintro ⟨rfl, rfl⟩
    exact ⟨_, ⟨dropped, others, hitems, hrest, rfl⟩, rfl, rfl⟩

/-- Items that wait on the alternate stack while others are dropped come back as they were. The
alternate stack has to take them. -/
theorem leaves_park_iff (hitems : m.stack.items = kept ++ (dropped ++ others))
    (hcount : kept.length = count) (hrest : dropped.length = rest)
    (hsizes : ∀ item ∈ kept, (item.length : Int) ≤ m.stack.maxItemSize)
    (hroom : others.length + count ≤ m.stack.maxItems) :
    Leaves (do
        (do times count (toAlt.act p []); times rest (drop.act p []))
        times count (fromAlt.act p [])) m stack alt ↔
      m.cache.altStack.HasRoomFor kept ∧
        stack = { m.stack with items := kept ++ others } ∧ alt = m.cache.altStack := by
  simp only [leaves_bind_iff, bind_eq_ok_iff]
  constructor
  · rintro ⟨n, ⟨u, k, hsave, hdropped⟩, hrestore⟩
    -- The first items go to the alternate stack,
    obtain ⟨top, below, htop, hlength, haltSizes, haltRoom, hkstack, hkalt⟩ :=
      leaves_times_toAlt_iff.mp ⟨k, hsave, rfl, rfl⟩
    obtain ⟨rfl, rfl⟩ := List.append_inj (hitems.symm.trans htop) (hcount.trans hlength.symm)
    -- the next ones are dropped,
    have hkitems : k.stack.items = dropped ++ others := by rw [hkstack]
    obtain ⟨hnstack, hnalt⟩ := (leaves_times_drop_iff hkitems hrest).mp ⟨n, hdropped, rfl, rfl⟩
    -- and the first ones come back.
    obtain ⟨top, below, htop, hlength, -, -, rfl, rfl⟩ := leaves_times_fromAlt_iff.mp hrestore
    rw [hnalt, hkalt] at htop ⊢
    obtain ⟨rfl, rfl⟩ := List.append_inj htop (by rw [List.length_reverse, hcount, hlength])
    rw [hnstack, hkstack, List.reverse_reverse]
    exact ⟨⟨haltSizes, hcount ▸ haltRoom⟩, rfl, rfl⟩
  · rintro ⟨⟨haltSizes, haltRoom⟩, rfl, rfl⟩
    rw [hcount] at haltRoom
    obtain ⟨k, hsave, hkstack, hkalt⟩ := leaves_times_toAlt_iff.mpr
      ⟨kept, dropped ++ others, hitems, hcount, haltSizes, haltRoom, rfl, rfl⟩
    have hkitems : k.stack.items = dropped ++ others := by rw [hkstack]
    obtain ⟨n, hdropped, hnstack, hnalt⟩ :=
      (leaves_times_drop_iff (p := p) hkitems hrest).mpr ⟨rfl, rfl⟩
    refine ⟨n, ⟨(), k, hsave, hdropped⟩, leaves_times_fromAlt_iff.mpr
      ⟨kept.reverse, m.cache.altStack.items, ?_, ?_, ?_, ?_, ?_, ?_⟩⟩
    · rw [hnalt, hkalt]
    · rw [List.length_reverse, hcount]
    · intro item hitem
      rw [hnstack, hkstack]
      exact hsizes item (List.mem_reverse.mp hitem)
    · rw [hnstack, hkstack]
      exact .inr hroom
    · rw [hnalt, hkalt]
    · rw [hnstack, hkstack, List.reverse_reverse]

end Parking

end FlowGate

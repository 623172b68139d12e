import FlowGate.Proofs.Gate.Layout
import FlowGate.Proofs.Machine.Lending

/-!
# Keeping the leading items

One part of a locking script keeps the leading nibbles of a digest. It does not look at what it
keeps: on any stack it keeps the leading ones of the items on top, in the order in which they lie
there, and drops the others. If the first nibble is on top, the leading items wait on the alternate
stack meanwhile, which has to take them and is afterwards what it was before.

## Main definitions

* `NibbleOrder.leading` — the leading ones of the items on top of a stack

## Main results

* `Gate.leaves_truncate_iff` — when leading items are kept, and what is left then
* `Gate.exists_truncation_keeps_leading` — the part is written for every width, and its run keeps
  the leading items
-/

namespace FlowGate

namespace NibbleOrder

/-- The leading ones of the items on top of a stack, the top one first: the deepest ones if the
first nibble lies deepest, else the topmost ones. -/
def leading : NibbleOrder → (count : Nat) → (items : List Bytes) → List Bytes
  | firstDeepest, count, items => items.drop (items.length - count)
  | firstOnTop, count, items => items.take count

variable {order : NibbleOrder} {count : Nat} {items : List Bytes}

theorem length_leading (h : count ≤ items.length) : (order.leading count items).length = count := by
  cases order with
  | firstDeepest =>
    rw [leading, List.length_drop]
    omega
  | firstOnTop => rw [leading, List.length_take_of_le h]

theorem mem_of_mem_leading {item : Bytes} (h : item ∈ order.leading count items) : item ∈ items := by
  cases order with
  | firstDeepest => exact List.mem_of_mem_drop h
  | firstOnTop => exact List.mem_of_mem_take h

end NibbleOrder

open Exec

namespace Gate

variable {p : Primitives} {m : Machine} {order : NibbleOrder} {needed rest : Nat}
  {top base : List Bytes} {stack alt : Stack}

/-- Of the items on top of a stack the leading ones are kept. Where they have to wait on the
alternate stack, it has to take them. -/
theorem leaves_truncate_iff (hitems : m.stack.items = top ++ base)
    (hlength : top.length = needed + rest)
    (hsizes : ∀ item ∈ top, (item.length : Int) ≤ m.stack.maxItemSize)
    (hroom : base.length + needed ≤ m.stack.maxItems) :
    Leaves (truncate needed rest order p) m stack alt ↔
      (order = .firstOnTop → m.cache.altStack.HasRoomFor (order.leading needed top)) ∧
      stack = { m.stack with items := order.leading needed top ++ base } ∧
      alt = m.cache.altStack := by
  cases order with
  | firstDeepest =>
    -- The items that are not kept are on top.
    have hsplit : m.stack.items =
        top.take rest ++ (NibbleOrder.leading .firstDeepest needed top ++ base) := by
      rw [NibbleOrder.leading, hlength, Nat.add_sub_cancel_left, ← List.append_assoc,
        List.take_append_drop, hitems]
    have hrest : (top.take rest).length = rest := List.length_take_of_le (by omega)
    rw [truncate, leaves_times_drop_iff hsplit hrest]
    constructor
    · intro hleft
      exact ⟨fun horder => NibbleOrder.noConfusion horder, hleft⟩
    · intro hleft
      exact hleft.2
  | firstOnTop =>
    -- They lie below the items that are kept.
    have hsplit : m.stack.items =
        NibbleOrder.leading .firstOnTop needed top ++ (top.drop needed ++ base) := by
      rw [NibbleOrder.leading, ← List.append_assoc, List.take_append_drop, hitems]
    have hkept : (NibbleOrder.leading .firstOnTop needed top).length = needed :=
      NibbleOrder.length_leading (by omega)
    have hdropped : (top.drop needed).length = rest := by
      rw [List.length_drop]
      omega
    rw [truncate, leaves_park_iff hsplit hkept hdropped
      (fun item hitem => hsizes item (NibbleOrder.mem_of_mem_leading hitem)) hroom]
    constructor
    · rintro ⟨halt, hleft⟩
      exact ⟨fun _ => halt, hleft⟩
    · rintro ⟨halt, hleft⟩
      exact ⟨halt rfl, hleft⟩

/-- The part that keeps leading items is written for every width and every number of items that it
admits. Run on a stack with items of that width on top, none of them too large, it succeeds if the
leading ones do not have to wait or the alternate stack takes them. Then it leaves them, as they
lay, on what lies below, and changes nothing of the alternate stack and of the cache of its
caller. -/
theorem exists_truncation_keeps_leading (p : Primitives) (order : NibbleOrder)
    {needed width : Nat} (h : needed ≤ width) :
    ∃ script, truncation .standard needed order width = .ok script ∧
      ∀ (stack : Stack) (cache : Cache) (top base : List Bytes), stack.items = top ++ base →
        top.length = width → stack.items.length ≤ stack.maxItems →
        (∀ item ∈ top, (item.length : Int) ≤ stack.maxItemSize) →
        ∃ run, runScript p .standard script.code cache stack = run ∧
          (run.isOk = true ↔
            (order = .firstOnTop → cache.altStack.HasRoomFor (order.leading needed top))) ∧
          (run.isOk = true →
            run.final.stack = { stack with items := order.leading needed top ++ base } ∧
              run.final.cache.altStack = cache.altStack ∧ run.caller = cache) := by
  obtain ⟨source, hscript⟩ := exists_truncation_eq h order
  refine ⟨_, hscript, fun stack cache top base hitems hwidth hcount hsizes => ⟨_, rfl, ?_⟩⟩
  have hroom : base.length + needed ≤ stack.maxItems := by
    rw [hitems, List.length_append] at hcount
    omega
  -- The run of the byte code leaves what its action leaves.
  have hdoes := (writes_truncation needed (width - needed) order).does p
  have hleaves : ∀ stack' alt', Leaves (truncate needed (width - needed) order p)
      (.start (truncationCode needed (width - needed) order) stack cache) stack' alt' ↔
        (order = .firstOnTop → cache.altStack.HasRoomFor (order.leading needed top)) ∧
        stack' = { stack with items := order.leading needed top ++ base } ∧
        alt' = cache.altStack :=
    fun _ _ => leaves_truncate_iff hitems (by omega) hsizes hroom
  simp only [hdoes.leaves_iff] at hleaves
  refine ⟨⟨fun hok => ((hleaves _ _).mp ⟨hok, rfl, rfl⟩).1,
    fun halt => ((hleaves _ _).mpr ⟨halt, rfl, rfl⟩).1⟩, fun hok => ?_⟩
  obtain ⟨-, hstack, halt⟩ := (hleaves _ _).mp ⟨hok, rfl, rfl⟩
  exact ⟨hstack, halt, runScript_caller_eq_self halt⟩

/-- Of three items on top of a stack the two topmost ones are kept. -/
theorem exists_truncation_keeps_leading_sample :
    ∃ script, truncation .standard (2 : Nat) .firstOnTop (3 : Nat) = .ok script ∧
      ∃ run, runScript .standard .standard script.code .empty
          { Stack.empty with items := [[1], [2], [3], [9]] } = run ∧
        run.isOk = true ∧ run.final.stack.items = [[1], [2], [9]] ∧ run.caller = .empty := by
  obtain ⟨script, hscript, hruns⟩ :=
    exists_truncation_keeps_leading .standard .firstOnTop (show 2 ≤ 3 by decide)
  obtain ⟨run, hrun, hok, hleft⟩ :=
    hruns { Stack.empty with items := [[1], [2], [3], [9]] } .empty [[1], [2], [3]] [[9]] rfl rfl
      (by decide) (by decide)
  have hsucceeds : run.isOk = true := hok.mpr fun _ => ⟨by decide, .inr (by decide)⟩
  obtain ⟨hstack, -, hcaller⟩ := hleft hsucceeds
  exact ⟨script, hscript, run, hrun, hsucceeds, by rw [hstack]; rfl, hcaller⟩

end Gate

end FlowGate

import FlowGate.Proofs.Gate.Execution

/-!
# Hashing a message in a script

A message that is pushed in limbs and hashed by a fragment leaves its digest, nibble by nibble. The
fragment writes the two lengths and the order into the script, and nothing else: the whole digest is
left, whatever width the fragment declares.

## Main definitions

* `Stack.HasLimbs` — a stack with the limbs of a message on top, and with room for hashing it

## Main results

* `Fragment.flatten_limbs`, `Fragment.length_limbs`, `Fragment.length_le_of_mem_limbs` — the limbs
  of a message
* `Gate.hashMessage_eq_ok` — hashing the limbs of a message leaves the nibbles of its digest
* `Gate.runScript_hashingCode` — the run of the byte code of a fragment
-/

namespace FlowGate

open Exec

/-! ### Limbs -/

namespace Fragment

/-- The limbs of a message make the message. -/
theorem flatten_limbs (size : Nat) (message : Bytes) : (limbs size message).flatten = message := by
  fun_induction limbs size message with
  | case1 => rfl
  | case2 b bs ih => rw [List.flatten_cons, ih, List.cons_append, List.take_append_drop]

/-- A message has as many limbs as its length asks for, counting a last one that is shorter. -/
theorem length_limbs (size : Nat) (message : Bytes) :
    (limbs size message).length = (message.length + size) / (size + 1) := by
  fun_induction limbs size message with
  | case1 => simp [Nat.div_eq_of_lt]
  | case2 b bs ih =>
    rw [List.length_cons, ih, List.length_drop, List.length_cons]
    by_cases hle : bs.length ≤ size
    · -- The first limb is the only one.
      have hzero : bs.length - size = 0 := Nat.sub_eq_zero_of_le hle
      have hone : bs.length + 1 + size = size + 1 + bs.length := by omega
      rw [hzero, Nat.zero_add, hone, Nat.add_div_left _ (Nat.succ_pos size),
        Nat.div_eq_of_lt (Nat.lt_succ_of_le hle), Nat.div_eq_of_lt (Nat.lt_succ_self size)]
    · have hrest : bs.length + 1 + size = bs.length - size + size + (size + 1) := by omega
      rw [hrest, Nat.add_div_right _ (Nat.succ_pos size)]

/-- A limb is not longer than it is asked to be, and not longer than the message. -/
theorem length_le_of_mem_limbs {size : Nat} {message limb : Bytes} (h : limb ∈ limbs size message) :
    limb.length ≤ min (size + 1) message.length := by
  fun_induction limbs size message with
  | case1 => cases h
  | case2 b bs ih =>
    rcases List.mem_cons.mp h with rfl | hmem
    · simp only [List.length_cons, List.length_take]
      omega
    · have hle := ih hmem
      rw [List.length_drop] at hle
      rw [List.length_cons]
      omega

end Fragment

/-! ### Running the byte code -/

/-- A stack with the limbs of a message on top, all but the last of one length. It has room for the
three numbers that go on top of them, and for the nibbles that take their place. -/
structure Stack.HasLimbs (stack : Stack) (size : Nat) (message : Bytes) (rest : List Bytes) :
    Prop where
  maxItems_eq : stack.maxItems = 1000
  maxItemSize_eq : stack.maxItemSize = 520
  items_eq : stack.items = (Fragment.limbs size message).reverse ++ rest
  numbers_le : stack.items.length + 3 ≤ 1000
  nibbles_le : rest.length + 64 ≤ 1000

namespace Gate

variable {p : Primitives} {message : Bytes} {size : Nat} {rest : List Bytes}

/-- On the limbs of a message the hash of a fragment leaves the nibbles of the digest, all
of them. -/
theorem hashMessage_eq_ok (order : NibbleOrder) {m : Machine}
    (h : m.stack.HasLimbs size message rest) (hne : message ≠ [])
    (hlength : message.length < 2 ^ 31) (hsize : size + 1 < 2 ^ 31) :
    hashMessage order message.length (size + 1) p m = .ok ()
      (m.withItems (nibbleItems (fromTop order (p.hash message).bytes.toNibbles) ++ rest)) := by
  have hnumbers := h.numbers_le
  have hwhole : (Fragment.limbs size message).reverse.reverse.flatten = message := by
    rw [List.reverse_reverse, Fragment.flatten_limbs]
  have hcount : (Fragment.limbs size message).reverse.length =
      (message.length + (size + 1) - 1) / (size + 1) := by
    rw [List.length_reverse, Fragment.length_limbs, Nat.add_succ_sub_one]
  -- With the two lengths and the order on top, the limbs are what the operation takes.
  have hoffers : (m.withItems (ScriptNumber.encode order.flag ::
      ScriptNumber.encode (size + 1 : Nat) :: ScriptNumber.encode message.length ::
        m.stack.items)).stack.OffersLimbs order (size + 1 : Nat) message.length
      (Fragment.limbs size message).reverse rest :=
    offersLimbs_of_items_eq order hlength (List.length_pos_iff.mpr hne) hsize (Nat.succ_pos size)
      (by rw [Machine.stack_items_withItems, h.items_eq]) hcount
  rw [hashMessage_eq_digest order hlength hsize h.maxItemSize_eq (by rw [h.maxItems_eq]; omega),
    digest_eq_of_offersLimbs hoffers, hwhole, if_pos rfl, Machine.withItems_withItems]
  exact (forM_push_nibbles_eq_ok_iff (m := m.withItems rest) _ h.maxItems_eq
    h.maxItemSize_eq).mpr ⟨h.nibbles_le, rfl⟩

/-- The byte code of a fragment, run on the limbs of a message, leaves all nibbles of its digest. -/
theorem runScript_hashingCode (order : NibbleOrder) {stack : Stack} (cache : Cache)
    (h : stack.HasLimbs size message rest) (hne : message ≠ []) (hlength : message.length < 2 ^ 31)
    (hsize : size + 1 < 2 ^ 31) :
    (runScript p .standard (hashingCode order message.length (size + 1)) cache stack).isOk = true ∧
      (runScript p .standard (hashingCode order message.length (size + 1)) cache
        stack).final.stack.items =
          nibbleItems (fromTop order (p.hash message).bytes.toNibbles) ++ rest := by
  have hdoes := does_hashingCode order (show message.length < 2 ^ 32 by omega)
    (show size + 1 < 2 ^ 32 by omega) p
  have hrun := hashMessage_eq_ok (p := p)
    (m := .start (hashingCode order message.length (size + 1)) stack cache) order h hne hlength
    hsize
  rw [← hdoes.interpret_eq] at hrun
  obtain ⟨hok, hstack, -⟩ := runScript_of_interpret_eq_ok hrun
  exact ⟨hok, by rw [hstack]; rfl⟩

end Gate

end FlowGate

import FlowGate.Proofs.Decimal.Quotient
import FlowGate.Proofs.Gate.Hashing
import FlowGate.Proofs.Gate.Witness
import FlowGate.Proofs.Machine.Failing

/-!
# Hashing in a script as on the host

A script that pushes a message in limbs and hashes them leaves the nibbles of the digest that the
host computes. The operation that hashes takes as many limbs as the two lengths on the stack ask
for. It counts them by a quotient in floating point, which is rounded up; that the count is exact is
part of what is proved here.

## Main results

* `Stack.OffersLimbs.exists_div_ceil?_eq` — the count of the limbs in floating point
* `Gate.exists_offersLimbs_of_isOk` — what the operation has taken if it succeeds
* `Gate.runScript_digest_of_ne` — what it has taken if the limbs do not make the message
* `Gate.runScript_pushes_hashingCode` — the run that pushes a message and hashes it
* `Fragment.exists_scripts_hash` — the scripts of a fragment hash as the host does
-/

namespace FlowGate

open Exec

variable {p : Primitives} {order : NibbleOrder}

/-! ### The operation -/

/-- The limbs that a stack offers are as many as the quotient of the two lengths, computed in
floating point and rounded up. -/
theorem Stack.OffersLimbs.exists_div_ceil?_eq {s : Stack} {limbLength messageLength : Int}
    {limbs rest : List Bytes} (h : s.OffersLimbs order limbLength messageLength limbs rest) :
    ∃ quotient, (Number.whole messageLength).div (.whole limbLength) = .ok quotient ∧
      (Number.float quotient).ceil? = some (limbs.length : Int) := by
  obtain ⟨flag, size, length, -, -, hsize, hlength⟩ := h.exists_items_eq
  have hsizeLt := ScriptNumber.natAbs_le_of_decode_eq_ok hsize
  have hlengthLt := ScriptNumber.natAbs_le_of_decode_eq_ok hlength
  have hlimbPos := h.limbLength_pos
  have hmessagePos := h.messageLength_pos
  have hcount := h.length_limbs
  -- Both lengths are numbers of 31 bits.
  obtain ⟨c, rfl⟩ := Int.eq_ofNat_of_zero_le (Int.le_of_lt hlimbPos)
  obtain ⟨m, rfl⟩ := Int.eq_ofNat_of_zero_le (Int.le_of_lt hmessagePos)
  have hsum : (m : Int) + c - 1 = ((m + c - 1 : Nat) : Int) := by omega
  rw [hsum, ← Int.natCast_ediv, Int.toNat_natCast] at hcount
  rw [hcount]
  exact Number.exists_div_ceil?_eq (by omega) (by omega) (by omega) (by omega)

namespace Gate

variable {stack : Stack} {cache : Cache}

/-- If the operation that hashes succeeds, the stack offered limbs that make a message of the given
length. It has taken them and the three numbers, and has left the nibbles of the digest. -/
theorem exists_offersLimbs_of_isOk
    (hok : (runScript p .standard [Fragment.digestOpcode] cache stack).isOk = true) :
    ∃ (order : NibbleOrder) (limbLength messageLength : Int) (limbs rest : List Bytes),
      stack.OffersLimbs order limbLength messageLength limbs rest ∧
        (limbs.reverse.flatten.length : Int) = messageLength ∧
        (runScript p .standard [Fragment.digestOpcode] cache stack).final.stack.items =
          nibbleItems (fromTop order (p.hash limbs.reverse.flatten).bytes.toNibbles) ++ rest := by
  obtain ⟨m, hrun⟩ := runScript_isOk_iff.mp hok
  obtain ⟨-, hstack, -⟩ := runScript_of_interpret_eq_ok hrun
  rw [(does_digest p).interpret_eq, digest_eq_ok_iff] at hrun
  obtain ⟨flag, size, length, limbs, rest, order, limbLength, messageLength, hitems, hflag, hsize,
    hlength, hlimb, hmessage, hcount, hwhole, hpush⟩ := hrun
  obtain ⟨-, -, rfl⟩ := forM_push_eq_ok_iff.mp hpush
  refine ⟨order, limbLength, messageLength, limbs, rest,
    ⟨⟨flag, size, length, hitems, hflag, hsize, hlength⟩, hlimb, hmessage, hcount⟩, hwhole, ?_⟩
  rw [hstack, fromTop, nibbleItems, List.map_reverse]
  rfl

/-- If the limbs that a stack offers do not make a message of the given length, the operation that
hashes has taken them and the three numbers when it fails. -/
theorem runScript_digest_of_ne {limbLength messageLength : Int} {limbs rest : List Bytes}
    (h : stack.OffersLimbs order limbLength messageLength limbs rest)
    (hne : (limbs.reverse.flatten.length : Int) ≠ messageLength) :
    (runScript p .standard [Fragment.digestOpcode] cache stack).fault = some .lengthMismatch ∧
      (runScript p .standard [Fragment.digestOpcode] cache stack).final.stack.items = rest := by
  have hdigest := digest_eq_of_offersLimbs (p := p)
    (m := .start [Fragment.digestOpcode] stack cache) h
  rw [if_neg hne] at hdigest
  obtain ⟨hfault, hstack⟩ := (does_digest p).runScript_of_eq_error hdigest
  exact ⟨hfault, by rw [hstack]; rfl⟩

/-! ### Pushing and hashing -/

/-- A message that is pushed in limbs and hashed leaves the nibbles of its digest on what was on the
stack before, in the order asked for. -/
theorem runScript_pushes_hashingCode {size : Nat} {message : Bytes} (hne : message ≠ [])
    (hlength : message.length < 2 ^ 31) (hsize : size + 1 < 2 ^ 31)
    (hlimbs : ∀ limb ∈ Fragment.limbs size message, limb.length ≤ 520)
    (hmaxItems : stack.maxItems = 1000) (hmaxItemSize : stack.maxItemSize = 520)
    (hnumbers : stack.items.length + (Fragment.limbs size message).length + 3 ≤ 1000)
    (hnibbles : stack.items.length + 64 ≤ 1000) :
    ∃ run, runScript p .standard ((Fragment.limbs size message).flatMap Push.data ++
          hashingCode order message.length (size + 1)) cache stack = run ∧
      run.isOk = true ∧ run.final.stack.toList =
        stack.toList ++ nibbleItems (order.arrange (p.hash message).bytes.toNibbles) := by
  have hpushes : Machine.Does p .standard ((Fragment.limbs size message).flatMap Push.data)
      (forM (Fragment.limbs size message) push) := by
    apply Machine.does_flatMap OpTable.aligned_standard
    intro limb hlimb
    exact Push.does_data (Nat.le_trans (hlimbs limb hlimb) (by decide))
  have hdoes := hpushes.append OpTable.aligned_standard
    (does_hashingCode order (show message.length < 2 ^ 32 by omega)
      (show size + 1 < 2 ^ 32 by omega) p)
  let start : Machine := .start ((Fragment.limbs size message).flatMap Push.data ++
    hashingCode order message.length (size + 1)) stack cache
  -- The limbs lie on top of the stack as they were pushed.
  have hpushed : (forM (Fragment.limbs size message) push) start =
      .ok () (start.withItems ((Fragment.limbs size message).reverse ++ stack.items)) := by
    refine forM_push_items_eq_ok_iff.mpr ⟨fun limb hlimb => ?_, .inr ?_, rfl⟩
    · change (limb.length : Int) ≤ stack.maxItemSize
      rw [hmaxItemSize]
      exact Int.ofNat_le.mpr (hlimbs limb hlimb)
    · change stack.items.length + _ ≤ stack.maxItems
      omega
  -- There they are as hashing takes them, with the room that it needs.
  have hhas : (start.withItems
      ((Fragment.limbs size message).reverse ++ stack.items)).stack.HasLimbs size message
        stack.items :=
    { maxItems_eq := hmaxItems
      maxItemSize_eq := hmaxItemSize
      items_eq := rfl
      numbers_le := by
        rw [Machine.stack_items_withItems, List.length_append, List.length_reverse]
        omega
      nibbles_le := hnibbles }
  have hhash := hashMessage_eq_ok (p := p) order hhas hne hlength hsize
  have hrun : Machine.interpret p .standard ((Fragment.limbs size message).flatMap Push.data ++
      hashingCode order message.length (size + 1)) start = .ok () (start.withItems
        (nibbleItems (fromTop order (p.hash message).bytes.toNibbles) ++ stack.items)) := by
    rw [hdoes.interpret_eq, Exec.bind_of_eq_ok hpushed, hhash, Machine.withItems_withItems]
  obtain ⟨hok, hstack, -⟩ := runScript_of_interpret_eq_ok hrun
  refine ⟨_, rfl, hok, ?_⟩
  rw [hstack, Stack.toList, Machine.stack_items_withItems, List.reverse_append, nibbleItems, fromTop,
    ← List.map_reverse, List.reverse_reverse, Stack.toList, nibbleItems]

end Gate

/-! ### The scripts of a fragment -/

open Gate

/-- A fragment hashes in the script as on the host. For a message and a limb length of 31 bits each,
where the limbs fit an item, the script that pushes the message is made, and so is the one that
hashes it. Run one after the other, on a stack with room for the limbs and three numbers, and for
the nibbles, they succeed and leave the nibbles of the digest on what was there before. The
operation itself takes, on every stack, three numbers and as many limbs as the quotient of the
lengths in floating point, rounded up. It succeeds only if the limbs have the length of the message
together. -/
theorem Fragment.exists_scripts_hash (p : Primitives) (order : NibbleOrder) (width : Int)
    {message : Bytes} {limbLength : Nat} (hne : message ≠ []) (hlength : message.length < 2 ^ 31)
    (hpos : 0 < limbLength) (hlimb : limbLength < 2 ^ 31)
    (hsize : min limbLength message.length ≤ 520) :
    (∃ pushing hashing, Fragment.pushMessage message limbLength = .ok pushing ∧
      (Fragment.limbwise order width).computeScript message.length limbLength = .ok hashing ∧
      ∀ (stack : Stack) (cache : Cache), stack.maxItems = 1000 → stack.maxItemSize = 520 →
        stack.items.length + (message.length + limbLength - 1) / limbLength + 3 ≤ 1000 →
        stack.items.length + 64 ≤ 1000 →
        ∃ run, runScript p .standard (pushing ++ hashing) cache stack = run ∧ run.isOk = true ∧
          run.final.stack.toList =
            stack.toList ++ nibbleItems (order.arrange (p.hash message).bytes.toNibbles)) ∧
    ∀ (stack : Stack) (cache : Cache),
      ∃ run, runScript p .standard [Fragment.digestOpcode] cache stack = run ∧
        (run.isOk = true →
          ∃ (order : NibbleOrder) (limbLength messageLength : Int) (limbs rest : List Bytes),
            stack.OffersLimbs order limbLength messageLength limbs rest ∧
              (limbs.reverse.flatten.length : Int) = messageLength ∧
              run.final.stack.items =
                nibbleItems (fromTop order (p.hash limbs.reverse.flatten).bytes.toNibbles) ++
                  rest) ∧
        ∀ (order : NibbleOrder) (limbLength messageLength : Int) (limbs rest : List Bytes),
          stack.OffersLimbs order limbLength messageLength limbs rest →
            (∃ quotient, (Number.whole messageLength).div (.whole limbLength) = .ok quotient ∧
              (Number.float quotient).ceil? = some (limbs.length : Int)) ∧
            ((limbs.reverse.flatten.length : Int) ≠ messageLength →
              run.fault = some .lengthMismatch ∧ run.final.stack.items = rest) := by
  refine ⟨?_, fun stack cache => ⟨_, rfl, exists_offersLimbs_of_isOk,
    fun order limbLength messageLength limbs rest h =>
      ⟨h.exists_div_ceil?_eq, runScript_digest_of_ne h⟩⟩⟩
  -- Limbs are cut by the number of bytes that follow the first of each.
  obtain ⟨size, rfl⟩ := Nat.exists_eq_add_one.mpr hpos
  have hlimbs : ∀ limb ∈ limbs size message, limb.length ≤ 520 := fun limb hmem =>
    Nat.le_trans (length_le_of_mem_limbs hmem) hsize
  have hpushing := pushMessage_eq_flatMap fun limb hmem =>
    Nat.le_trans (hlimbs limb hmem) (by decide : 520 ≤ Push.maxLength)
  -- The byte code of a fragment does not depend on its width.
  have hhashing : (limbwise order width).computeScript message.length (size + 1 : Nat) =
      .ok (hashingCode order message.length (size + 1)) :=
    computeScript_eq _ (List.length_pos_iff.mpr hne) (Nat.succ_pos size) (by omega) (by omega)
  refine ⟨_, _, hpushing, hhashing, fun stack cache hmaxItems hmaxItemSize hnumbers hnibbles => ?_⟩
  have hcount := length_limbs size message
  rw [Nat.add_succ_sub_one, ← hcount] at hnumbers
  exact runScript_pushes_hashingCode hne hlength hlimb hlimbs hmaxItems hmaxItemSize hnumbers
    hnibbles

/-- A message of twelve bytes in limbs of five is hashed on a stack with one item below. -/
theorem Fragment.exists_scripts_hash_sample :
    ∃ pushing hashing, Fragment.pushMessage (List.replicate 12 7) (5 : Nat) = .ok pushing ∧
      (Fragment.limbwise .firstOnTop 64).computeScript (12 : Nat) (5 : Nat) = .ok hashing ∧
      ∃ run, runScript .standard .standard (pushing ++ hashing) .empty
          { Stack.empty with items := [[9]] } = run ∧
        run.isOk = true ∧ run.final.stack.toList = [[9]] ++
          nibbleItems (Blake3.hash (List.replicate 12 7)).bytes.toNibbles.reverse := by
  obtain ⟨⟨pushing, hashing, hpushing, hhashing, hruns⟩, -⟩ :=
    Fragment.exists_scripts_hash .standard .firstOnTop 64
      (show (List.replicate 12 7 : Bytes) ≠ [] by decide) (by decide) (show 0 < 5 by decide)
      (by decide) (by decide)
  obtain ⟨run, hrun, hok, hleaves⟩ :=
    hruns { Stack.empty with items := [[9]] } .empty rfl rfl (by decide) (by decide)
  exact ⟨pushing, hashing, hpushing, hhashing, run, hrun, hok, hleaves⟩

end FlowGate

import FlowGate.Proofs.Gate.FlowSelection
import FlowGate.Proofs.Machine.Failing

/-!
# The first check that fails

The script of a gate makes its checks in a fixed order: the signature, the size of the number, its
comparison with the threshold, the length of the message, the nibbles of its digest. An offer that
is not admitted fails at the first of these checks that it does not stand, with the fault of that
check, and no later check decides anything.

## Main definitions

* `Gate.Refuses` — a gate refuses an offer with the fault of the first check that it fails

## Main results

* `Gate.fails_checkSignature`, `Gate.fails_compareThreshold`, `Gate.fails_hashLimbs`,
  `Gate.fails_matchNibbles` — when a part of the script fails
* `Gate.admits_or_exists_refuses` — an offer is admitted or refused
* `Gate.Refuses.fails_pass` — on an offer that is refused the script fails with that fault
* `Gate.runScript_append_code` — a witness that pushes an offer and a locking script, run together
* `Gate.exists_build_fault_eq` — how the witness of an input and a nonce fares
-/

namespace FlowGate

open Exec Operation

namespace Gate

variable {g : Gate} {p : Primitives} {m : Machine} {sighash : Value} {fault : ExecFault}
  {rest : List Bytes}

/-! ### The parts -/

/-- The check of a signature fails on one that is not valid. -/
theorem fails_checkSignature {key signature : Bytes} (hkey : key.length = Primitives.keyLength)
    (hframe : m.frame = .ofSighash sighash) (hitems : m.stack.items = signature :: rest)
    (hroom : m.stack.items.length < 1000) (h : p.verifyValue key sighash signature = false) :
    Fails (checkSignature key p) m .checkSigVerifyFailed := by
  have hsize : (key.length : Int) ≤ 520 := by
    rw [hkey]
    decide
  have hpush : push key m = .ok () (m.withItems (key :: m.stack.items)) :=
    push_eq_ok_iff.mpr ⟨by rwa [Machine.maxItemSize_of_frame hframe],
      by rwa [Machine.maxItems_of_frame hframe], rfl⟩
  have hitemsPushed : (m.withItems (key :: m.stack.items)).stack.items = key :: signature :: rest := by
    rw [Machine.stack_items_withItems, hitems]
  rw [checkSignature, fails_bind_of_eq_ok hpush]
  refine fails_checkSigVerify hitemsPushed hkey (Machine.sighash?_of_frame (by exact hframe)) ?_ ?_ h
  · rw [Machine.stack_maxItemSize_withItems, Machine.maxItemSize_of_frame hframe]
    decide
  · rw [Machine.stack_maxItems_withItems, Machine.maxItems_of_frame hframe]
    rw [hitems, List.length_cons] at hroom
    exact Nat.lt_of_succ_lt hroom

/-- The comparison with a threshold fails on a number that cannot be read. -/
theorem fails_compareThreshold {role : GateRole} {number : Bytes}
    (hmaxItems : m.stack.maxItems = 1000) (hmaxItemSize : m.stack.maxItemSize = 520)
    (hitems : m.stack.items = number :: rest) (hsize : number.length ≤ 520)
    (hroom : m.stack.items.length + 1 < 1000)
    (h : ScriptNumber.decode ScriptNumber.operandSize number = .error fault) :
    Fails (compareThreshold role p) m fault := by
  rw [Fails, compareThreshold_eq_of_items hmaxItems hmaxItemSize hitems hsize hroom]
  exact fails_bind_iff.mpr
    (.inl (fails_compare rfl (decode_encode_of_lt (natAbs_threshold_lt role)) h))

/-- The comparison with a threshold fails on a number that the role does not admit. -/
theorem fails_compareThreshold_of_not_accepts {role : GateRole} {number : Bytes} {n : Int}
    (hmaxItems : m.stack.maxItems = 1000) (hmaxItemSize : m.stack.maxItemSize = 520)
    (hitems : m.stack.items = number :: rest) (hroom : m.stack.items.length + 1 < 1000)
    (hdecode : ScriptNumber.decode ScriptNumber.operandSize number = .ok n)
    (h : role.accepts n = false) : Fails (compareThreshold role p) m .verifyFailed := by
  rw [Fails, compareThreshold_eq_of_decode hmaxItems hmaxItemSize hitems hroom hdecode]
  exact fails_verify rfl (by rw [Truth.holds_encode, h])

/-- Hashing fails on three limbs that are not twelve bytes together. -/
theorem fails_hashLimbs {order : NibbleOrder} {a b c : Bytes}
    (hframe : m.frame = .ofSighash sighash) (hitems : m.stack.items = c :: b :: a :: rest)
    (hroom : m.stack.items.length + 2 < 1000) (h : (a ++ b ++ c).length ≠ 12) :
    Fails (hashLimbs order p) m .lengthMismatch := by
  have hoffers : (m.withItems (ScriptNumber.encode order.flag :: ScriptNumber.encode (4 : Nat) ::
      ScriptNumber.encode (12 : Nat) :: m.stack.items)).stack.OffersLimbs order (4 : Nat)
      (12 : Nat) [c, b, a] rest :=
    offersLimbs_of_items_eq order (by decide) (by decide) (by decide) (by decide)
      (by rw [Machine.stack_items_withItems, hitems]; rfl) rfl
  have hflatten : [c, b, a].reverse.flatten = a ++ b ++ c := by simp
  rw [Fails, hashLimbs, hashMessage_eq_digest order (by decide) (by decide)
    (Machine.maxItemSize_of_frame hframe) (by rwa [Machine.maxItems_of_frame hframe])]
  exact fails_digest hoffers (by rw [hflatten]; exact_mod_cast h)

/-- The comparison of nibbles fails on as many others. -/
theorem fails_matchNibbles {expected actual : List Nat} (hexpected : ∀ n ∈ expected, n < 16)
    (hlength : actual.length = expected.length)
    (hitems : m.stack.items = nibbleItems actual ++ rest) (hroom : m.stack.items.length < 1000)
    (hmaxItems : m.stack.maxItems = 1000) (hmaxItemSize : m.stack.maxItemSize = 520)
    (h : actual ≠ expected) : Fails (matchNibbles expected p) m .equalVerifyFailed := by
  rw [matchNibbles]
  -- The first nibbles are compared first, and only if they agree the others are.
  induction expected generalizing actual m with
  | nil => exact absurd (List.length_eq_zero_iff.mp hlength) h
  | cons n expected ih =>
    obtain ⟨k, actual, rfl⟩ := List.exists_cons_of_length_eq_add_one hlength
    have hsize : ((ScriptNumber.encode n).length : Int) ≤ m.stack.maxItemSize := by
      rw [hmaxItemSize]
      have hlt := hexpected n List.mem_cons_self
      exact length_encode_le (by omega)
    have hpush : push (ScriptNumber.encode n) m =
        .ok () (m.withItems (ScriptNumber.encode n :: ScriptNumber.encode k ::
          (nibbleItems actual ++ rest))) :=
      push_eq_ok_iff.mpr ⟨hsize, by rwa [hmaxItems], by rw [hitems]; rfl⟩
    rw [List.forM_cons, bind_assoc, fails_bind_iff]
    refine .inr ⟨(), _, hpush, fails_bind_iff.mpr ?_⟩
    by_cases hfirst : k = n
    · subst hfirst
      have hrest : actual ≠ expected := fun heq => h (by rw [heq])
      rw [hitems] at hroom
      exact .inr ⟨(), _, act_equalVerify_eq_ok_iff.mpr ⟨_, _, rfl, rfl⟩,
        ih (fun k hk => hexpected k (List.mem_cons_of_mem _ hk)) (Nat.succ.inj hlength) rfl
          (Nat.lt_of_succ_lt hroom) hmaxItems hmaxItemSize hrest⟩
    · refine .inl (fails_equalVerify rfl fun hsame => hfirst ?_)
      exact (Int.ofNat_inj.mp (ScriptNumber.encode_injective hsame)).symm

/-- The comparison of a gate fails on the leading nibbles of a digest that has others. -/
theorem fails_matchNibbles_of_take_ne {digest : Digest} (hmaxItems : m.stack.maxItems = 1000)
    (hmaxItemSize : m.stack.maxItemSize = 520)
    (hitems : m.stack.items =
      nibbleItems (fromTop g.order (digest.bytes.toNibbles.take g.nibbles.length)))
    (h : digest.bytes.toNibbles.take g.nibbles.length ≠ g.nibbles) :
    Fails (matchNibbles (fromTop g.order g.nibbles) p) m .equalVerifyFailed := by
  have hcount := g.length_nibbles_le
  have hlengths : (fromTop g.order (digest.bytes.toNibbles.take g.nibbles.length)).length =
      (fromTop g.order g.nibbles).length := by
    simp only [length_fromTop, List.length_take, Bytes.length_toNibbles, Digest.length_bytes]
    omega
  have hroom : m.stack.items.length < 1000 := by
    rw [hitems, length_nibbleItems, hlengths, length_fromTop]
    omega
  exact fails_matchNibbles g.lt_of_mem_fromTop hlengths (by rw [hitems, List.append_nil]) hroom
    hmaxItems hmaxItemSize fun hsame => h (fromTop_inj.mp hsame)

/-! ### The whole script -/

/-- A gate refuses an offer with the fault of the first check that the offer does not stand. -/
inductive Refuses (g : Gate) (p : Primitives) (sighash : Value) (o : Offer) : ExecFault → Prop
  | signature (hverify : p.verifyValue g.key sighash o.signature = false) :
    Refuses g p sighash o .checkSigVerifyFailed
  | number {fault : ExecFault} (hverify : p.verifyValue g.key sighash o.signature = true)
    (hdecode : ScriptNumber.decode ScriptNumber.operandSize o.number = .error fault) :
    Refuses g p sighash o fault
  | threshold {n : Int} (hverify : p.verifyValue g.key sighash o.signature = true)
    (hdecode : ScriptNumber.decode ScriptNumber.operandSize o.number = .ok n)
    (haccepts : g.role.accepts n = false) : Refuses g p sighash o .verifyFailed
  | message {n : Int} (hverify : p.verifyValue g.key sighash o.signature = true)
    (hdecode : ScriptNumber.decode ScriptNumber.operandSize o.number = .ok n)
    (haccepts : g.role.accepts n = true) (hlength : o.message.length ≠ 12) :
    Refuses g p sighash o .lengthMismatch
  | nibbles {n : Int} (hverify : p.verifyValue g.key sighash o.signature = true)
    (hdecode : ScriptNumber.decode ScriptNumber.operandSize o.number = .ok n)
    (haccepts : g.role.accepts n = true) (hlength : o.message.length = 12)
    (hnibbles : (p.hash o.message).bytes.toNibbles.take g.nibbles.length ≠ g.nibbles) :
    Refuses g p sighash o .equalVerifyFailed

variable {o : Offer}

/-- An offer that is not admitted is refused. -/
theorem admits_or_exists_refuses (g : Gate) (p : Primitives) (sighash : Value) (o : Offer) :
    g.Admits p sighash o ∨ ∃ fault, g.Refuses p sighash o fault := by
  -- The conditions of the gate are gone through in the order of its checks.
  by_cases hverify : p.verifyValue g.key sighash o.signature = true
  swap
  · exact .inr ⟨_, .signature (Bool.eq_false_iff.mpr hverify)⟩
  cases hdecode : ScriptNumber.decode ScriptNumber.operandSize o.number with
  | error fault => exact .inr ⟨_, .number hverify hdecode⟩
  | ok n =>
    by_cases haccepts : g.role.accepts n = true
    swap
    · exact .inr ⟨_, .threshold hverify hdecode (Bool.eq_false_iff.mpr haccepts)⟩
    by_cases hlength : o.message.length = 12
    swap
    · exact .inr ⟨_, .message hverify hdecode haccepts hlength⟩
    by_cases hnibbles : (p.hash o.message).bytes.toNibbles.take g.nibbles.length = g.nibbles
    swap
    · exact .inr ⟨_, .nibbles hverify hdecode haccepts hlength hnibbles⟩
    exact .inl ⟨hverify, ⟨n, hdecode, haccepts⟩, hlength, hnibbles⟩

/-- On an offer that is refused the script of a gate fails with the fault of the refusal. -/
theorem Refuses.fails_pass (h : g.Refuses p sighash o fault)
    (hframe : m.frame = .ofSighash sighash) (hlist : m.stack.toList = o.toList)
    (hnumber : o.number.length ≤ 520)
    (haltRoom : g.order = .firstOnTop → m.cache.altStack.HasRoom g.nibbles.length) :
    Fails (g.pass p) m fault := by
  have hitems := Offer.items_eq hlist
  -- Each part of the script is reached if the parts before it succeed.
  rw [pass, passOfWidth, passEmitting]
  cases h with
  | signature hverify =>
    exact fails_bind_iff.mpr
      (.inl (fails_checkSignature g.length_key hframe hitems (by simp [hitems]) hverify))
  | number hverify hdecode =>
    rw [fails_bind_of_eq_ok (checkSignature_offer_eq_ok hframe hlist hverify)]
    exact fails_bind_iff.mpr (.inl (fails_compareThreshold (by exact Machine.maxItems_of_frame hframe)
      (by exact Machine.maxItemSize_of_frame hframe) rfl hnumber (by simp) hdecode))
  | threshold hverify hdecode haccepts =>
    rw [fails_bind_of_eq_ok (checkSignature_offer_eq_ok hframe hlist hverify)]
    exact fails_bind_iff.mpr (.inl
      (fails_compareThreshold_of_not_accepts (by exact Machine.maxItems_of_frame hframe)
        (by exact Machine.maxItemSize_of_frame hframe) rfl (by simp) hdecode haccepts))
  | message hverify hdecode haccepts hlength =>
    rw [fails_bind_of_eq_ok (checkSignature_offer_eq_ok hframe hlist hverify),
      fails_bind_of_eq_ok (compareThreshold_offer_eq_ok hframe hdecode haccepts),
      fails_bind_of_eq_ok (drop_offer_eq_ok p m o)]
    exact fails_bind_iff.mpr (.inl (fails_hashLimbs (by exact hframe) rfl (by simp) hlength))
  | nibbles hverify hdecode haccepts hlength hnibbles =>
    obtain ⟨m', htruncate, hstack, -⟩ :=
      exists_truncate_digest_eq_ok (p := p) hframe (p.hash o.message) haltRoom
    rw [fails_bind_of_eq_ok (checkSignature_offer_eq_ok hframe hlist hverify),
      fails_bind_of_eq_ok (compareThreshold_offer_eq_ok hframe hdecode haccepts),
      fails_bind_of_eq_ok (drop_offer_eq_ok p m o),
      fails_bind_of_eq_ok (hashLimbs_offer_eq_ok hframe hlength), fails_bind_of_eq_ok htruncate]
    refine fails_bind_iff.mpr (.inl (fails_matchNibbles_of_take_ne ?_ ?_ (by rw [hstack]) hnibbles))
    · rw [hstack]
      exact Machine.maxItems_of_frame hframe
    · rw [hstack]
      exact Machine.maxItemSize_of_frame hframe

/-! ### Runs -/

/-- A witness that pushes an offer and the locking script of a gate, run together. If the gate
refuses the offer, the run has the fault of the refusal, and if it admits the offer, a single item
is left. -/
theorem runScript_append_code (g : Gate) (sighash : Value) {witness : Bytes}
    (hdoes : Machine.Does p .standard witness (forM o.toList push))
    (hsizes : ∀ item ∈ o.toList, item.length ≤ 520) :
    ∃ run, runScript p .standard (witness ++ g.code) (.ofSighash sighash) .empty = run ∧
      (∀ fault, g.Refuses p sighash o fault → run.fault = some fault) ∧
      (g.Admits p sighash o → run.fault = none ∧ run.final.stack.toList = [[1]] ∧
        run.final.cache.altStack.items = []) := by
  have hall := hdoes.append OpTable.aligned_standard (g.does_code p)
  let start : Machine := .start (witness ++ g.code) .empty (.ofSighash sighash)
  have hframe : start.frame = .ofSighash sighash := Machine.frame_start _ _
  -- The offer is pushed onto the empty stack, which has room for it.
  have hpush : (forM o.toList push) start = .ok () (start.withItems o.toList.reverse) :=
    forM_push_start_eq_ok_iff.mpr ⟨hsizes, by simp [Offer.toList], rfl⟩
  have hlist : (start.withItems o.toList.reverse).stack.toList = o.toList := by
    rw [Stack.toList, Machine.stack_items_withItems, List.reverse_reverse]
  have haltRoom : g.order = .firstOnTop →
      (start.withItems o.toList.reverse).cache.altStack.HasRoom g.nibbles.length :=
    fun _ => g.hasRoom_ofSighash sighash
  refine ⟨_, rfl, fun fault hrefuses => ?_, fun hadmits => ?_⟩
  · have hnumber : o.number.length ≤ 520 := hsizes _ (by simp [Offer.toList])
    refine hall.fault_eq_some ((fails_bind_of_eq_ok hpush).mpr ?_)
    exact hrefuses.fails_pass (by exact hframe) hlist hnumber haltRoom
  · obtain ⟨m, hpass, hitems, halt⟩ := hadmits.exists_pass_eq_ok (by exact hframe) hlist haltRoom
    have hrun : Machine.interpret p .standard (witness ++ g.code) start = .ok () m := by
      rw [hall.interpret_eq, Exec.bind_of_eq_ok hpush, hpass]
    obtain ⟨hok, hstack, hcache⟩ := runScript_of_interpret_eq_ok hrun
    refine ⟨Option.isNone_iff_eq_none.mp hok, ?_, ?_⟩
    · rw [hstack, Stack.toList, hitems]
      decide +kernel
    · rw [hcache, halt]
      rfl

/-! ### Inputs and nonces -/

/-- The message of a fault that the offer of an input and a nonce is refused with, or of none if it
is admitted, is that of the first condition that they violate. -/
theorem map_message_ofFlow {input nonce : Nat} {signature : Bytes} {fate : Option ExecFault}
    (hrefused : ∀ fault, g.Refuses p sighash (.ofFlow input nonce signature) fault →
      fate = some fault)
    (hadmitted : g.Admits p sighash (.ofFlow input nonce signature) → fate = none) :
    fate.map ExecFault.message =
      if p.verifyValue g.key sighash signature = false then some "OP_CHECKSIGVERIFY check failed"
      else if 2 ^ 31 ≤ input then some "script number overflow"
      else if g.role.accepts input = false then some "OP_VERIFY check failed"
      else if (p.hash (Flow.message input nonce)).bytes.toNibbles.take g.nibbles.length ≠
          g.nibbles then
        some "OP_EQUALVERIFY check failed"
      else none := by
  have hlength : (Offer.ofFlow input nonce signature).message.length = 12 := by
    rw [Offer.message_ofFlow, Flow.length_message]
  -- The conditions are those of the checks, each under the ones before it.
  by_cases hverify : p.verifyValue g.key sighash signature = false
  · rw [if_pos hverify, hrefused _ (.signature hverify)]
    rfl
  rw [if_neg hverify]
  have hvalid := eq_true_of_ne_false hverify
  by_cases hlarge : 2 ^ 31 ≤ input
  · have hdecode : ScriptNumber.decode ScriptNumber.operandSize
        (Offer.ofFlow input nonce signature).number = .error .numberTooLong := by
      rw [Offer.ofFlow, ScriptNumber.decode_operand_encode, if_neg (by omega)]
    rw [if_pos hlarge, hrefused _ (.number hvalid hdecode)]
    rfl
  rw [if_neg hlarge]
  have hdecode : ScriptNumber.decode ScriptNumber.operandSize
      (Offer.ofFlow input nonce signature).number = .ok (input : Int) :=
    decode_encode_of_lt (Nat.lt_of_not_le hlarge)
  by_cases haccepts : g.role.accepts input = false
  · rw [if_pos haccepts, hrefused _ (.threshold hvalid hdecode haccepts)]
    rfl
  rw [if_neg haccepts]
  have hadmits := eq_true_of_ne_false haccepts
  rw [← Offer.message_ofFlow input nonce signature]
  by_cases hnibbles : (p.hash (Offer.ofFlow input nonce signature).message).bytes.toNibbles.take
      g.nibbles.length = g.nibbles
  · rw [if_neg (not_not_intro hnibbles),
      hadmitted ⟨hvalid, ⟨input, hdecode, hadmits⟩, hlength, hnibbles⟩]
    rfl
  · rw [if_pos hnibbles, hrefused _ (.nibbles hvalid hdecode hadmits hlength hnibbles)]
    rfl

/-- The locking script of a gate is built, and so is the witness of an input and a nonce with a
signature that fits an item. Their run fails at the first of the conditions that is violated, and
with its message: the signature is valid, the input is a number of 31 bits, the role accepts it, and
the digest of the message starts with the nibbles of the gate. If none is violated, the run leaves a
single true item, and nothing on the alternate stack. -/
theorem exists_build_fault_eq (p : Primitives) (g : Gate) (sighash : Value) {input nonce : Nat}
    {signature : Bytes} (hinput : input < 2 ^ 32) (hnonce : nonce < 2 ^ 64)
    (hsignature : signature.length ≤ 520) :
    ∃ locking w, g.args.build .standard = .ok locking ∧
      Gate.witness .standard input nonce signature Fragment.limbLength = .ok w ∧
      ∃ run, runScript p .standard (w ++ locking).code (.ofSighash sighash) .empty = run ∧
        run.fault.map ExecFault.message =
          (if p.verifyValue g.key sighash signature = false then
            some "OP_CHECKSIGVERIFY check failed"
          else if 2 ^ 31 ≤ input then some "script number overflow"
          else if g.role.accepts input = false then some "OP_VERIFY check failed"
          else if (p.hash (Flow.message input nonce)).bytes.toNibbles.take g.nibbles.length ≠
              g.nibbles then
            some "OP_EQUALVERIFY check failed"
          else none) ∧
        (run.fault = none →
          run.final.stack.toList = [[1]] ∧ run.final.cache.altStack.items = []) := by
  obtain ⟨locking, hbuild, hcode⟩ := g.exists_build_eq
  obtain ⟨w, hw, hdoes⟩ :=
    exists_witness_eq hinput hnonce (Nat.le_trans hsignature (by decide : 520 ≤ Push.maxLength))
  obtain ⟨run, hrun, hrefused, hadmitted⟩ := runScript_append_code g sighash (hdoes p)
    (Offer.length_le_of_mem_ofFlow hinput nonce hsignature)
  rw [← hcode, ← Script.code_append] at hrun
  refine ⟨locking, w, hbuild, hw, run, hrun,
    map_message_ofFlow hrefused fun hadmits => (hadmitted hadmits).1, fun hnone => ?_⟩
  -- A run without a fault is that of an offer that is not refused.
  rcases admits_or_exists_refuses g p sighash (.ofFlow input nonce signature) with
    hadmits | ⟨fault, hrefuses⟩
  · exact (hadmitted hadmits).2
  · rw [hrefused fault hrefuses] at hnone
    cases hnone

/-- A gate for the nibbles that start the digest of the input 123 lets it through with the sample
signature, and a gate for another second nibble stops it there. The input 100, which their role does
not accept and which has another digest, already fails at the signature if there is none. -/
theorem exists_build_fault_eq_sample :
    ∃ locking other valid unsigned,
      (samplePair .firstOnTop 11 11).args.build .standard = .ok locking ∧
      (samplePair .firstOnTop 11 10).args.build .standard = .ok other ∧
      Gate.witness .standard (123 : Nat) (0 : Nat) sampleSignature Fragment.limbLength =
        .ok valid ∧
      Gate.witness .standard (100 : Nat) (0 : Nat) [] Fragment.limbLength = .ok unsigned ∧
      (runScript .standard .standard (valid ++ locking).code (.ofSighash (.bytes []))
        .empty).final.stack.toList = [[1]] ∧
      (runScript .standard .standard (valid ++ other).code (.ofSighash (.bytes []))
        .empty).fault.map ExecFault.message = some "OP_EQUALVERIFY check failed" ∧
      (runScript .standard .standard (unsigned ++ locking).code (.ofSighash (.bytes []))
        .empty).fault.map ExecFault.message = some "OP_CHECKSIGVERIFY check failed" := by
  have hsignature : sampleSignature.length ≤ 520 := by
    rw [length_sampleSignature]
    decide
  obtain ⟨locking, valid, hlocking, hvalid, passing, hpassing, hpasses, hleaves⟩ :=
    exists_build_fault_eq .standard (samplePair .firstOnTop 11 11) (.bytes [])
      (show 123 < 2 ^ 32 by decide) (show 0 < 2 ^ 64 by decide) hsignature
  obtain ⟨other, valid', hother, hvalid', stopped, hstopped, hstops, -⟩ :=
    exists_build_fault_eq .standard (samplePair .firstOnTop 11 10) (.bytes [])
      (show 123 < 2 ^ 32 by decide) (show 0 < 2 ^ 64 by decide) hsignature
  obtain ⟨locking', unsigned, hlocking', hunsigned, refused, hrefused, hrefuses, -⟩ :=
    exists_build_fault_eq .standard (samplePair .firstOnTop 11 11) (.bytes [])
      (show 100 < 2 ^ 32 by decide) (show 0 < 2 ^ 64 by decide)
      (show ([] : Bytes).length ≤ 520 by decide)
  obtain rfl := Except.ok.inj (hlocking.symm.trans hlocking')
  obtain rfl := Except.ok.inj (hvalid.symm.trans hvalid')
  have hverify : ∀ second : Fin 16, ¬ Primitives.standard.verifyValue
      (samplePair .firstOnTop 11 second).key (.bytes []) sampleSignature = false := by
    intro second
    simp only [samplePair, verifyValue_sampleSignature, Bool.true_eq_false, not_false_eq_true]
  -- Of the two gates only the second one expects other nibbles.
  have hsame : ¬ (Primitives.standard.hash (Flow.message 123 0)).bytes.toNibbles.take
      (samplePair .firstOnTop 11 11).nibbles.length ≠ (samplePair .firstOnTop 11 11).nibbles :=
    not_not_intro toNibbles_hash_sample.1
  have hdiffers : (Primitives.standard.hash (Flow.message 123 0)).bytes.toNibbles.take
      (samplePair .firstOnTop 11 10).nibbles.length ≠ (samplePair .firstOnTop 11 10).nibbles := by
    change (Blake3.hash (Flow.message 123 0)).bytes.toNibbles.take 2 ≠ [11, 10]
    rw [toNibbles_hash_sample.1]
    decide
  rw [if_neg (hverify 11), if_neg (by decide), if_neg (by decide), if_neg hsame,
    Option.map_eq_none_iff] at hpasses
  rw [if_neg (hverify 10), if_neg (by decide), if_neg (by decide), if_pos hdiffers] at hstops
  rw [if_pos (by decide +kernel)] at hrefuses
  refine ⟨locking, other, valid, unsigned, hlocking, hother, hvalid, hunsigned, ?_, ?_, ?_⟩
  · rw [hpassing]
    exact (hleaves hpasses).1
  · rw [hstopped]
    exact hstops
  · rw [hrefused]
    exact hrefuses

end Gate

end FlowGate

import FlowGate.Proofs.Flow.Selection
import FlowGate.Proofs.Gate.Spending

/-!
# The witness of an input and a nonce

The witness that is made for an input and a nonce pushes the message in three limbs, the input as a
number, and a signature. So the input is pushed twice, as a number and within the message; no gate
asks that the two agree.

## Main definitions

* `Offer.ofFlow` — the offer of an input, a nonce and a signature

## Main results

* `Gate.exists_witness_eq` — the witness of an input and a nonce pushes their offer
* `Gate.exists_build_number_free` — a gate does not tie the number to the message
-/

namespace FlowGate

open Exec

/-- The offer of an input and a nonce with a signature: the message in limbs of four bytes, the
input as a number, and the signature. -/
def Offer.ofFlow (input nonce : Nat) (signature : Bytes) : Offer where
  first := Bytes.ofNat 4 input
  second := (Bytes.ofNat 8 nonce).take 4
  third := (Bytes.ofNat 8 nonce).drop 4
  number := ScriptNumber.encode input
  signature := signature

/-- Items of allowed size remain so if the number is replaced by another of allowed size. -/
theorem Offer.length_le_of_mem_with_number {o : Offer} {number : Bytes}
    (h : ∀ item ∈ o.toList, item.length ≤ 520) (hnumber : number.length ≤ 520) :
    ∀ item ∈ ({ o with number } : Offer).toList, item.length ≤ 520 := by
  simp only [toList, List.forall_mem_cons] at h ⊢
  obtain ⟨hfirst, hsecond, hthird, -, hsignature, hnil⟩ := h
  exact ⟨hfirst, hsecond, hthird, hnumber, hsignature, hnil⟩

theorem Offer.message_ofFlow (input nonce : Nat) (signature : Bytes) :
    (ofFlow input nonce signature).message = Flow.message input nonce := by
  rw [message, ofFlow, Flow.message, List.append_assoc, List.take_append_drop]

namespace Fragment

theorem limbs_of_ne_nil {size : Nat} {message : Bytes} (h : message ≠ []) :
    limbs size message = message.take (size + 1) :: limbs size (message.drop (size + 1)) := by
  obtain ⟨b, bs, rfl⟩ := List.exists_cons_of_ne_nil h
  rw [limbs]
  rfl

/-- Limbs are cut off one after the other. -/
theorem limbs_append {size : Nat} {limb : Bytes} (h : limb.length = size + 1) (message : Bytes) :
    limbs size (limb ++ message) = limb :: limbs size message := by
  have hne : limb ++ message ≠ [] := by
    intro hnil
    rw [(List.append_eq_nil_iff.mp hnil).1] at h
    exact absurd h (Nat.succ_ne_zero size).symm
  rw [limbs_of_ne_nil hne, List.take_left' h, List.drop_left' h]

/-- The message of an input and a nonce has three limbs. -/
theorem limbs_message (input nonce : Nat) :
    limbs 3 (Flow.message input nonce) =
      [Bytes.ofNat 4 input, (Bytes.ofNat 8 nonce).take 4, (Bytes.ofNat 8 nonce).drop 4] := by
  have hsecond : ((Bytes.ofNat 8 nonce).take 4).length = 4 := by simp
  have hthird : ((Bytes.ofNat 8 nonce).drop 4).length = 4 := by simp
  have hend : limbs 3 [] = [] := by rw [limbs]
  calc
    limbs 3 (Flow.message input nonce)
    _ = limbs 3 (Bytes.ofNat 4 input ++ ((Bytes.ofNat 8 nonce).take 4 ++
          ((Bytes.ofNat 8 nonce).drop 4 ++ []))) := by
      rw [List.append_nil, List.take_append_drop, Flow.message]
    _ = [Bytes.ofNat 4 input, (Bytes.ofNat 8 nonce).take 4, (Bytes.ofNat 8 nonce).drop 4] := by
      rw [limbs_append (Bytes.length_ofNat 4 input), limbs_append hsecond, limbs_append hthird,
        hend]

theorem mapM_data? {items : List Bytes} (h : ∀ item ∈ items, item.length ≤ Push.maxLength) :
    items.mapM Push.data? = .ok (items.map Push.data) := by
  apply mapM_eq_ok
  intro item hitem
  exact Push.data?_eq_ok_iff.mpr ⟨h item hitem, rfl⟩

/-- A message is pushed limb by limb. -/
theorem pushMessage_eq_flatMap {size : Nat} {message : Bytes}
    (h : ∀ limb ∈ limbs size message, limb.length ≤ Push.maxLength) :
    pushMessage message (size + 1 : Nat) = .ok ((limbs size message).flatMap Push.data) := by
  have hensure : ensure (((size + 1 : Nat) : Int) > 0) (.invalid (.notPositive "limb_len")) =
      .ok () := by
    rw [decide_eq_true (Int.natCast_pos.mpr (Nat.succ_pos size)), ensure_true]
  have hsize : ((size + 1 : Nat) : Int).toNat - 1 = size := rfl
  simp only [pushMessage, hensure, hsize, mapM_data? h, bind, Except.bind, pure, Except.pure,
    List.flatMap_def]

/-- The message of an input and a nonce is pushed in three limbs. -/
theorem pushMessage_eq (input nonce : Nat) :
    pushMessage (Flow.message input nonce) limbLength =
      .ok ([Bytes.ofNat 4 input, (Bytes.ofNat 8 nonce).take 4,
        (Bytes.ofNat 8 nonce).drop 4].flatMap Push.data) := by
  have hmax : 4 ≤ Push.maxLength := by decide
  rw [← limbs_message]
  apply pushMessage_eq_flatMap
  rw [limbs_message]
  simpa using hmax

end Fragment

namespace Gate

/-- A witness is made if its message, its limbs and its symbols are. -/
theorem witness_eq_ok {t : OpTable} {input nonce limbLength : Int} {signature message code : Bytes}
    {a b : Script} (hmessage : Flow.message? input nonce = .ok message)
    (hlimbs : Fragment.pushMessage message limbLength = .ok code)
    (ha : Script.ofCode t code = .ok a)
    (hb : ofSymbols t [toString input, "x" ++ Hex.encode signature] = .ok b) :
    Gate.witness t input nonce signature limbLength = .ok (a ++ b) := by
  simp only [Gate.witness, hmessage, hlimbs, ha, hb, bind, Except.bind, pure, Except.pure]

/-- The witness of an input and a nonce pushes their offer. -/
theorem exists_witness_eq {input nonce : Nat} {signature : Bytes} (hinput : input < 2 ^ 32)
    (hnonce : nonce < 2 ^ 64) (hsignature : signature.length ≤ Push.maxLength) :
    ∃ w, Gate.witness .standard input nonce signature Fragment.limbLength = .ok w ∧
      ∀ p, Machine.Does p .standard w.code
        (forM (Offer.ofFlow input nonce signature).toList push) := by
  have hlimbs : ∀ p, Machine.Does p .standard
      ([Bytes.ofNat 4 input, (Bytes.ofNat 8 nonce).take 4,
        (Bytes.ofNat 8 nonce).drop 4].flatMap Push.data)
      (forM [Bytes.ofNat 4 input, (Bytes.ofNat 8 nonce).take 4, (Bytes.ofNat 8 nonce).drop 4]
        push) := by
    intro p
    apply Machine.does_flatMap OpTable.aligned_standard
    intro item hitem
    apply Push.does_data
    have hmax : 4 ≤ Push.maxLength := by decide
    revert item
    simpa using hmax
  obtain ⟨source, hscript⟩ := (hlimbs .standard).exists_ofCode_eq
  have hsymbols := (writes_toString hinput).append (writes_hex hsignature)
  have hwitness := witness_eq_ok (Flow.message?_eq hinput hnonce)
    (Fragment.pushMessage_eq input nonce) hscript hsymbols.spells.ofSymbols_eq
  refine ⟨_, hwitness, fun p => ?_⟩
  have hall := (hlimbs p).append OpTable.aligned_standard (hsymbols.does p)
  rw [Script.code_append]
  -- The actions are those of the five items, only grouped in another way.
  simpa only [Offer.ofFlow, Offer.toList, List.forM_cons, List.forM_nil, bind_assoc, pure_bind,
    bind_pure_unit] using hall

/-! ### The two copies of the input -/

variable {p : Primitives} {g : Gate} {sighash : Value}

/-- A run on an empty stack leaves items of allowed size only. -/
theorem length_le_of_mem_witnessRun {witness : Bytes}
    (hok : (witnessRun p sighash witness).isOk = true) {item : Bytes}
    (hitem : item ∈ (witnessRun p sighash witness).final.stack.toList) : item.length ≤ 520 := by
  obtain ⟨m, hrun⟩ := runScript_isOk_iff.mp hok
  rw [witnessRun, (runScript_of_interpret_eq_ok hrun).2.1, Stack.toList, List.mem_reverse] at hitem
  -- An empty stack is within its limits, and runs neither exceed nor change them.
  have hlimits := Machine.staysWithin_interpret p .standard witness _ () m hrun
    Stack.withinLimits_empty
  have hframe := Machine.frame_of_interpret_eq_ok hrun
  have hsize := hlimits.2 item hitem
  rw [Machine.maxItemSize_of_frame hframe] at hsize
  exact Int.ofNat_le.mp hsize

/-- Another number that the role admits may take the place of the number of an offer. -/
theorem Admits.with_number {o : Offer} {number : Bytes} {k : Int} (h : g.Admits p sighash o)
    (hdecode : ScriptNumber.decode ScriptNumber.operandSize number = .ok k)
    (haccepts : g.role.accepts k = true) : g.Admits p sighash { o with number } where
  verifyValue_eq := h.verifyValue_eq
  exists_decode_eq := ⟨k, hdecode, haccepts⟩
  length_message := h.length_message
  take_nibbles_eq := h.take_nibbles_eq

/-- An offer of an input and a nonce that is admitted has the input for its number. -/
theorem decode_number_of_admits_ofFlow {input nonce : Nat} {signature : Bytes}
    (hinput : input < 2 ^ 32) (h : g.Admits p sighash (.ofFlow input nonce signature)) :
    ScriptNumber.decode ScriptNumber.operandSize (Offer.ofFlow input nonce signature).number =
      .ok (Bytes.toNat ((Offer.ofFlow input nonce signature).message.take 4) : Int) := by
  obtain ⟨n, hdecode, -⟩ := h.exists_decode_eq
  -- The number is the shortest form of the input, whatever size it has.
  have hnumber : n = input := by
    have hvalue := (ScriptNumber.decode_eq_ok_iff.mp hdecode).2.2
    rw [← hvalue]
    exact ScriptNumber.value_encode input
  have htake : Bytes.toNat ((Offer.ofFlow input nonce signature).message.take 4) = input := by
    rw [Offer.message_ofFlow, Flow.message, List.take_left' (Bytes.length_ofNat 4 input),
      Bytes.toNat_ofNat, Nat.mod_eq_of_lt hinput]
  rw [hdecode, hnumber, htake]

/-- A witness that can be disassembled and spends leaves a number that the role of the gate admits,
and a message whose digest the gate lets pass. The two are not tied: the same limbs and the same
signature spend with every other number that the role admits. If a witness that is made for an input
and a nonce spends, its number is the first word of its message. -/
theorem exists_build_number_free (p : Primitives) (g : Gate) (sighash : Value) {witness : Bytes}
    {lines : List String} (h : disassemble .standard witness = .ok lines) :
    ∃ locking, g.args.build .standard = .ok locking ∧
      (spends p .standard locking.code witness sighash = true →
        ∃ (o : Offer) (n : Int), (witnessRun p sighash witness).final.stack.toList = o.toList ∧
          ScriptNumber.decode ScriptNumber.operandSize o.number = .ok n ∧
          g.role.accepts n = true ∧ o.message.length = 12 ∧
          (p.hash o.message).bytes.toNibbles.take g.nibbles.length = g.nibbles ∧
          ∀ number k, ScriptNumber.decode ScriptNumber.operandSize number = .ok k →
            g.role.accepts k = true →
            spends p .standard locking.code ({ o with number } : Offer).pushes sighash = true) ∧
      ∀ (input nonce : Nat) (signature : Bytes), input < 2 ^ 32 → nonce < 2 ^ 64 →
        signature.length ≤ Push.maxLength →
        ∃ w, Gate.witness .standard input nonce signature Fragment.limbLength = .ok w ∧
          (spends p .standard locking.code w.code sighash = true →
            ∃ o : Offer, (witnessRun p sighash w.code).final.stack.toList = o.toList ∧
              ScriptNumber.decode ScriptNumber.operandSize o.number =
                .ok (Bytes.toNat (o.message.take 4) : Int)) := by
  obtain ⟨locking, hbuild, hcode⟩ := g.exists_build_eq
  obtain ⟨instructions, hcut, -⟩ := disassemble_eq_ok_iff.mp h
  refine ⟨locking, hbuild, ?_, ?_⟩
  · -- Nothing that the gate asks of the number depends on the message.
    rw [hcode]
    intro hspends
    obtain ⟨o, hok, hlist, hadmits, -⟩ := (spends_code_iff hcut).mp hspends
    obtain ⟨n, hdecode, haccepts⟩ := hadmits.exists_decode_eq
    refine ⟨o, n, hlist, hdecode, haccepts, hadmits.length_message, hadmits.take_nibbles_eq, ?_⟩
    intro number k hnumber hk
    -- The other items have been on a stack, and a number that can be read is short.
    have hsizes : ∀ item ∈ o.toList, item.length ≤ 520 := by
      intro item hitem
      rw [← hlist] at hitem
      exact length_le_of_mem_witnessRun hok hitem
    have hlength : (number.length : Int) ≤ ScriptNumber.operandSize :=
      (ScriptNumber.decode_eq_ok_iff.mp hnumber).1
    have hle : number.length ≤ 4 := Int.ofNat_le.mp hlength
    apply (hadmits.with_number hnumber hk).spends_pushes
    exact Offer.length_le_of_mem_with_number hsizes (Nat.le_trans hle (by decide))
  · intro input nonce signature hinput hnonce hsignature
    obtain ⟨w, hw, hdoes⟩ := exists_witness_eq hinput hnonce hsignature
    refine ⟨w, hw, fun hspends => ?_⟩
    rw [hcode, spends_iff_of_does (hdoes p)] at hspends
    obtain ⟨hsizes, hadmits⟩ := hspends
    have hcount : (Offer.ofFlow input nonce signature).toList.length ≤ 1000 := by
      simp [Offer.toList]
    exact ⟨_, (witnessRun_of_does (hdoes p) hsizes hcount).2.1,
      decode_number_of_admits_ofFlow hinput hadmits⟩

/-- The witness that pushes the sample offer spends from a gate that admits it, and so do the same
items with 101 for the number. -/
theorem exists_build_number_free_sample :
    ∃ (lines : List String) (locking : Script),
      disassemble .standard sampleOffer.pushes = .ok lines ∧
      (samplePair .firstOnTop 7 14).args.build .standard = .ok locking ∧
      ∃ o : Offer, (witnessRun .standard (.bytes []) sampleOffer.pushes).final.stack.toList =
          o.toList ∧
        spends .standard .standard locking.code ({ o with number := [101] } : Offer).pushes
          (.bytes []) = true := by
  obtain ⟨lines, hlines⟩ := Offer.exists_disassemble_eq length_le_of_mem_sampleOffer
  obtain ⟨locking, hbuild, hfree, -⟩ :=
    exists_build_number_free .standard (samplePair .firstOnTop 7 14) (.bytes []) hlines
  have hspends : spends .standard .standard locking.code sampleOffer.pushes (.bytes []) = true := by
    rw [code_of_build_eq_ok hbuild]
    exact (admits_sampleOffer .firstOnTop).spends_pushes length_le_of_mem_sampleOffer
  obtain ⟨o, n, hlist, -, -, -, -, hnumber⟩ := hfree hspends
  have hdecode : ScriptNumber.decode ScriptNumber.operandSize [101] = .ok 101 :=
    ScriptNumber.decode_eq_ok_iff.mpr ⟨by decide, by decide, by decide⟩
  exact ⟨lines, locking, hlines, hbuild, o, hlist, hnumber [101] 101 hdecode (by decide)⟩

/-- It is not so that the number of every spending witness is the first word of its message. -/
theorem not_forall_number_eq :
    ¬ ∀ (g : Gate) (sighash : Value) (witness : Bytes) (lines : List String) (locking : Script)
      (o : Offer) (n : Int), g.args.build .standard = .ok locking →
      disassemble .standard witness = .ok lines →
      spends .standard .standard locking.code witness sighash = true →
      (witnessRun .standard sighash witness).final.stack.toList = o.toList →
      ScriptNumber.decode ScriptNumber.operandSize o.number = .ok n →
      n = Bytes.toNat (o.message.take 4) := by
  intro h
  obtain ⟨locking, hbuild, hcode⟩ := (samplePair .firstOnTop 7 14).exists_build_eq
  obtain ⟨lines, hlines⟩ := Offer.exists_disassemble_eq length_le_of_mem_sampleOffer
  have hspends : spends .standard .standard locking.code sampleOffer.pushes (.bytes []) = true := by
    rw [hcode]
    exact (admits_sampleOffer .firstOnTop).spends_pushes length_le_of_mem_sampleOffer
  have hdoes := Offer.does_pushes length_le_of_mem_sampleOffer .standard
  obtain ⟨-, hlist, -⟩ := witnessRun_of_does hdoes length_le_of_mem_sampleOffer (by decide)
  have hdecode : ScriptNumber.decode ScriptNumber.operandSize sampleOffer.number = .ok 123 :=
    ScriptNumber.decode_eq_ok_iff.mpr ⟨by decide, by decide, by decide⟩
  have hequal := h (samplePair .firstOnTop 7 14) (.bytes []) _ lines locking sampleOffer 123 hbuild
    hlines hspends hlist hdecode
  exact absurd hequal (by decide)

/-- The digest of the input 123 and the nonce zero starts with two nibbles 11 and ends with 3
and 4. -/
theorem toNibbles_hash_sample :
    (Blake3.hash (Flow.message 123 0)).bytes.toNibbles.take 2 = [11, 11] ∧
      (Blake3.hash (Flow.message 123 0)).bytes.toNibbles.drop 62 = [3, 4] := by
  have hlength : (Flow.message 123 0).length ≤ 64 := by decide
  rw [Blake3.hash_of_length_le hlength]
  decide +kernel

end Gate

end FlowGate

import FlowGate.Proofs.Gate.FlowSelection
import FlowGate.Proofs.Gate.Hashing

/-!
# The declared width of a digest

A fragment declares how many nibbles its digest has, and a locking script drops and compares as
many. The byte code of the fragment leaves the nibbles of the whole digest, whatever is declared. So
the locking script of a gate can be spent as it should if the declared width is that of a whole
digest. For a smaller one some nibbles are never taken off the stack, and then no witness of whole
instructions spends.

## Main results

* `Gate.length_of_passOfWidth_eq_ok` — how many items a locking script leaves
* `Gate.eq_of_spends_codeOfWidth` — only for the whole width a script can be spent
* `Gate.exists_build_ofWidth_spends_iff` — what fragment and script do for a declared width
-/

namespace FlowGate

open Exec Operation

namespace Gate

variable {g : Gate} {p : Primitives} {m m' : Machine} {sighash : Value} {width : Nat}

/-- Keeping the leading nibbles changes nothing of the stack but its items, and leaves as many fewer
as are dropped. -/
theorem exists_of_truncate_eq_ok {order : NibbleOrder} {needed rest : Nat}
    (h : truncate needed rest order p m = .ok () m') :
    ∃ items, m'.stack = { m.stack with items } ∧ items.length + rest = m.stack.items.length := by
  cases order with
  | firstDeepest =>
    obtain ⟨top, items, hitems, hlength, rfl⟩ := times_drop_eq_ok_iff.mp h
    refine ⟨items, rfl, ?_⟩
    rw [hitems, List.length_append, hlength, Nat.add_comm]
  | firstOnTop =>
    -- As many items come back as have been moved away.
    simp only [truncate, bind_eq_ok_iff] at h
    obtain ⟨u, k, ⟨v, j, hsave, hdrop⟩, hrestore⟩ := h
    obtain ⟨saved, below, hitems, hsaved, -, -, hjstack, -⟩ :=
      leaves_times_toAlt_iff.mp ⟨j, hsave, rfl, rfl⟩
    obtain ⟨dropped, left, hleft, hdropped, rfl⟩ := times_drop_eq_ok_iff.mp hdrop
    obtain ⟨restored, -, -, hrestored, -, -, -, hstack⟩ :=
      leaves_times_fromAlt_iff.mp ⟨m', hrestore, rfl, rfl⟩
    obtain rfl : below = dropped ++ left := by rw [← hleft, hjstack]
    refine ⟨restored.reverse ++ left, ?_, ?_⟩
    · rw [hstack, Machine.withItems, hjstack]
    · rw [hitems]
      simp only [List.length_append, List.length_reverse]
      omega

/-- The locking script of a gate takes an offer of five items, and it leaves its mark on those
nibbles of the whole digest that exceed the declared width. -/
theorem length_of_passOfWidth_eq_ok (hframe : m.frame = .ofSighash sighash)
    (hcount : g.nibbles.length ≤ width) (h : g.passOfWidth width p m = .ok () m') :
    ∃ below, m.stack.items.length = below + 5 ∧
      m'.stack.items.length + width = below + 64 + 1 := by
  obtain ⟨o, below, n, kept, matched, hoffer, -, -, -, -, -, htruncate, hmatch, hpush⟩ :=
    exists_offer_of_passEmitting_eq_ok hframe h
  obtain ⟨items, hstack, hitems⟩ := exists_of_truncate_eq_ok htruncate
  obtain ⟨-, left, hleft, -, rfl⟩ := matchNibbles_eq_ok_iff.mp hmatch
  obtain ⟨-, -, rfl⟩ := push_eq_ok_iff.mp hpush
  -- The lengths of the stacks that were passed through add up.
  rw [hstack] at hleft
  have hlengths := congrArg List.length hleft
  simp only [Machine.stack_items_withItems, List.length_append, length_nibbleItems,
    length_fromTop, Bytes.length_toNibbles, Digest.length_bytes] at hlengths hitems
  refine ⟨below.length, ?_, ?_⟩
  · rw [hoffer, List.length_append, Nat.add_comm]
    rfl
  · simp only [Machine.stack_items_withItems, List.length_cons]
    omega

/-- A witness of whole instructions spends from the locking script of a gate only if the declared
width is that of a whole digest. -/
theorem eq_of_spends_codeOfWidth {witness : Bytes} {instructions : List Instruction}
    (hcount : g.nibbles.length ≤ width) (hwidth : width ≤ 64)
    (hcut : Instruction.cut .standard witness = .ok instructions)
    (h : spends p .standard (g.codeOfWidth width) witness sighash = true) : width = 64 := by
  rw [spends, authorizes_append_iff OpTable.aligned_standard hcut] at h
  obtain ⟨m, hrun, m', hpass, item, hitem, -⟩ := h
  rw [(g.does_codeOfWidth width p).interpret_eq] at hpass
  obtain ⟨below, -, hlength⟩ :=
    length_of_passOfWidth_eq_ok (Machine.frame_of_interpret_eq_ok hrun) hcount hpass
  -- A single item is left, which is the mark.
  rw [hitem, List.length_singleton] at hlength
  omega

/-- The leading nibbles of a digest are all of them only if they are as many. -/
theorem toNibbles_eq_take_iff (hwidth : width ≤ 64) {digest : Digest} :
    digest.bytes.toNibbles = digest.bytes.toNibbles.take width ↔ width = 64 := by
  have hlength : digest.bytes.toNibbles.length = 64 := by
    rw [Bytes.length_toNibbles, Digest.length_bytes]
  constructor
  · intro h
    have hshort := congrArg List.length h
    rw [List.length_take, hlength] at hshort
    omega
  · rintro rfl
    exact (List.take_of_length_le (Nat.le_of_eq hlength)).symm

variable {hash : Bytes → Digest} {check : (key message signature : Bytes) → Bool}

/-- The witness of an input and a nonce spends if the declared width is that of a whole digest, the
signature is valid, the role accepts the input, and the digest starts with the nibbles of the
gate. -/
theorem exists_witness_spends_codeOfWidth_iff (hcount : g.nibbles.length ≤ width)
    (hwidth : width ≤ 64) {input nonce : Nat} {signature : Bytes} (hinput : input < 2 ^ 32)
    (hnonce : nonce < 2 ^ 64)
    (hsignature : signature.length ≤ Push.maxLength) :
    ∃ w, Gate.witness .standard input nonce signature Fragment.limbLength = .ok w ∧
      (spends (.ofScheme hash check) .standard (g.codeOfWidth width) w.code sighash = true ↔
        width = 64 ∧ (Primitives.ofScheme hash check).verifyValue g.key sighash signature = true ∧
          g.role.accepts input = true ∧
          (hash (Flow.message input nonce)).bytes.toNibbles.take g.nibbles.length = g.nibbles) := by
  obtain ⟨w, hw, hdoes⟩ := exists_witness_eq hinput hnonce hsignature
  refine ⟨w, hw, ?_⟩
  by_cases hwhole : width = 64
  · subst hwhole
    -- For the whole width the script is that of the gate.
    change spends (.ofScheme hash check) .standard g.code w.code sighash = true ↔ _
    rw [spends_iff_of_does (hdoes _), admits_ofFlow_iff]
    constructor
    · rintro ⟨-, hadmits⟩
      exact ⟨rfl, hadmits⟩
    · rintro ⟨-, hverify, hadmits⟩
      -- A signature that verifies is short enough to be an item of the stack.
      have hlength : signature.length ≤ 520 := by
        rw [Primitives.length_of_verifyValue_ofScheme hverify]
        decide
      exact ⟨Offer.length_le_of_mem_ofFlow hinput nonce hlength, hverify, hadmits⟩
  · obtain ⟨instructions, hcut⟩ := (hdoes .standard).exists_cut
    constructor
    · intro hspends
      -- For a smaller one too many items are left at the end.
      exact absurd (eq_of_spends_codeOfWidth hcount hwidth hcut hspends) hwhole
    · rintro ⟨heq, -⟩
      exact absurd heq hwhole

/-- What a hash with a declared width does. Its byte code, run on the limbs of any message, leaves
the nibbles of the whole digest, so that it leaves the declared number of leading ones exactly if
that is all. The locking script of a gate is built for every width that its nibbles fit. The witness
of an input and a nonce spends from it if the width is that of a whole digest, the signature is
valid, the role accepts the input, and the digest starts with the nibbles. -/
theorem exists_build_ofWidth_spends_iff (hash : Bytes → Digest)
    (check : (key message signature : Bytes) → Bool) (g : Gate) (sighash : Value)
    (hcount : g.nibbles.length ≤ width) (hwidth : width ≤ 64) :
    (∀ (message : Bytes) (size : Nat), message ≠ [] → message.length < 2 ^ 31 → size + 1 < 2 ^ 31 →
      ∃ code, (Fragment.limbwise g.order width).computeScript message.length (size + 1 : Nat) =
          .ok code ∧
        ∀ (stack : Stack) (rest : List Bytes) (cache : Cache), stack.HasLimbs size message rest →
          ∃ run, runScript (.ofScheme hash check) .standard code cache stack = run ∧
            run.isOk = true ∧
            run.final.stack.items =
              nibbleItems (fromTop g.order (hash message).bytes.toNibbles) ++ rest ∧
            (run.final.stack.items =
                nibbleItems (fromTop g.order ((hash message).bytes.toNibbles.take width)) ++ rest ↔
              width = 64)) ∧
    ∃ locking, (g.argsOfWidth width).build .standard = .ok locking ∧
      ∀ (input nonce : Nat) (signature : Bytes), input < 2 ^ 32 → nonce < 2 ^ 64 →
        signature.length ≤ Push.maxLength →
        ∃ w, Gate.witness .standard input nonce signature Fragment.limbLength = .ok w ∧
          (spends (.ofScheme hash check) .standard locking.code w.code sighash = true ↔
            width = 64 ∧
              (Primitives.ofScheme hash check).verifyValue g.key sighash signature = true ∧
              g.role.accepts input = true ∧
              (hash (Flow.message input nonce)).bytes.toNibbles.take g.nibbles.length =
                g.nibbles) := by
  constructor
  · intro message size hne hlength hsize
    have hpositive : 0 < message.length := List.length_pos_iff.mpr hne
    have hcode : (Fragment.limbwise g.order width).computeScript message.length (size + 1 : Nat) =
        .ok (hashingCode g.order message.length (size + 1)) :=
      computeScript_eq _ hpositive (Nat.succ_pos size) (by omega) (by omega)
    refine ⟨_, hcode, fun stack rest cache hlimbs => ?_⟩
    obtain ⟨hok, hitems⟩ := runScript_hashingCode (p := .ofScheme hash check) g.order cache hlimbs
      hne hlength hsize
    refine ⟨_, rfl, hok, hitems, ?_⟩
    -- All nibbles are left, which are the declared ones only if none is missing.
    rw [hitems, List.append_cancel_right_eq, nibbleItems_inj, fromTop_inj]
    exact toNibbles_eq_take_iff hwidth
  · obtain ⟨locking, hbuild, hcode⟩ := g.exists_build_ofWidth_eq hcount
    refine ⟨locking, hbuild, fun input nonce signature hinput hnonce hsignature => ?_⟩
    rw [hcode]
    exact exists_witness_spends_codeOfWidth_iff hcount hwidth hinput hnonce hsignature

/-- A gate for the nibbles that start the digest of the input 123 accepts everything about the input
and the sample signature. With a declared width of 63 the witness still does not spend, and with a
width of 64 it does. -/
theorem exists_build_ofWidth_spends_iff_sample :
    ∃ narrow whole w,
      ((samplePair .firstDeepest 11 11).argsOfWidth 63).build .standard = .ok narrow ∧
      ((samplePair .firstDeepest 11 11).argsOfWidth 64).build .standard = .ok whole ∧
      Gate.witness .standard (123 : Nat) (0 : Nat) sampleSignature Fragment.limbLength = .ok w ∧
      spends .standard .standard narrow.code w.code (.bytes []) = false ∧
      spends .standard .standard whole.code w.code (.bytes []) = true := by
  have hinput : 123 < 2 ^ 32 := by decide
  have hnonce : 0 < 2 ^ 64 := by decide
  have hsignature : sampleSignature.length ≤ Push.maxLength := by
    rw [length_sampleSignature]
    decide
  obtain ⟨-, narrow, hnarrow, hspendsNarrow⟩ := exists_build_ofWidth_spends_iff Blake3.hash
    Ed25519.verify (samplePair .firstDeepest 11 11) (.bytes []) (show 2 ≤ 63 by decide) (by decide)
  obtain ⟨-, whole, hwhole, hspendsWhole⟩ := exists_build_ofWidth_spends_iff Blake3.hash
    Ed25519.verify (samplePair .firstDeepest 11 11) (.bytes []) (show 2 ≤ 64 by decide) (by decide)
  obtain ⟨w, hw, hiff⟩ := hspendsNarrow 123 0 sampleSignature hinput hnonce hsignature
  obtain ⟨w', hw', hiff'⟩ := hspendsWhole 123 0 sampleSignature hinput hnonce hsignature
  obtain rfl := Except.ok.inj (hw.symm.trans hw')
  rw [Primitives.ofScheme_standard] at hiff hiff'
  refine ⟨narrow, whole, w, hnarrow, hwhole, hw, ?_,
    hiff'.mpr ⟨rfl, ?_, by decide, toNibbles_hash_sample.1⟩⟩
  · exact Bool.eq_false_iff.mpr fun hspends => absurd (hiff.mp hspends).1 (by decide)
  · simp only [samplePair, verifyValue_sampleSignature]

end Gate

end FlowGate

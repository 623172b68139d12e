import FlowGate.Presign.Flow
import FlowGate.Primitives
import FlowGate.Proofs.Flow.Selection
import FlowGate.Proofs.Gate.Remembering
import FlowGate.Proofs.Presign.Signing

/-!
# Presigned flows are active for their signers

For parameters that the protocol admits, a flow id of their width and signers whose signatures
verify, presigning never fails. It gives a flow with two steps, one for each role, and each step
locks the value to the locking script of its role and is signed by all signers. So the flow is
active for some signers exactly if each of them has the key of a signer that presigned it.

## Main definitions

* `LockingCall.ofFlow` — the call for the locking script of a role and a flow id
* `PresignedStep.IsPresigned` — what a presigned step is for such a call

## Main results

* `Config.exists_idNibbles_eq` — flow ids of the admitted width have nibbles
* `LockingCall.exists_answer_ofFlow` — the locking script of a role and a flow id
* `Presign.exists_signedStep_eq` — a step is built and signed
* `Presign.exists_flow_eq` — a flow is presigned, and for whom it is active
-/

namespace FlowGate

/-! ### Parameters -/

/-- Flow ids of the width that the parameters give have nibbles for the prefix of the parameters. -/
theorem Config.exists_idNibbles_eq {config : Config} {flowId : Int}
    (hconfig : config.validate = .ok ()) (hpos : 0 ≤ flowId)
    (hlt : flowId < 2 ^ config.l.toNat) :
    ∃ nibbles, Flow.idNibbles flowId config.b = .ok nibbles ∧ nibbles.length ≤ 64 ∧
      ∀ n ∈ nibbles, n < 16 := by
  obtain ⟨⟨⟩, hmax, hconfig⟩ := bind_ok_iff.mp hconfig
  obtain ⟨⟨⟩, hmultiple, hconfig⟩ := bind_ok_iff.mp hconfig
  obtain ⟨⟨⟩, hwidth, hcounts⟩ := bind_ok_iff.mp hconfig
  simp only [ensure_eq_ok_iff, Bool.and_eq_true, decide_eq_true_eq, beq_iff_eq]
    at hmax hmultiple hwidth hcounts
  obtain ⟨b, hb⟩ := Int.eq_ofNat_of_zero_le (show 0 ≤ config.b by omega)
  obtain ⟨n, rfl⟩ := Int.eq_ofNat_of_zero_le hpos
  -- The flow id fits into a word.
  have hbound : n < 2 ^ 32 := by
    have hpow : (2 : Int) ^ config.l.toNat ≤ 2 ^ 32 := by
      exact_mod_cast Nat.pow_le_pow_right (show 0 < 2 by decide)
        (show config.l.toNat ≤ 32 by omega)
    omega
  rw [hb]
  exact Flow.exists_idNibbles_eq (by omega) (by omega) hbound

/-! ### Steps -/

/-- The call for the locking script of a role with a key and the nibbles of a flow id, and with the
usual fragment. -/
def LockingCall.ofFlow (role : GateRole) (key : Bytes) (nibbles : List Nat) : LockingCall :=
  ⟨.role role, .bytes key, .list (nibbles.map fun n : Nat => .int n), .none⟩

theorem LockingCall.args_ofFlow (role : GateRole) (key : Bytes) (nibbles : List Nat) :
    (ofFlow role key nibbles).args = .ok (.ofNibbles role key .firstDeepest nibbles) :=
  rfl

/-- The call gives the same script whatever calls there were before: it is the one that is built,
remembered or not. -/
theorem LockingCall.exists_answer_ofFlow (role : GateRole) {key : Bytes} {nibbles : List Nat}
    (hkey : key.length = Primitives.keyLength) (hcount : nibbles.length ≤ 64)
    (hnibbles : ∀ n ∈ nibbles, n < 16) :
    ∃ script, ∀ calls,
      ((ofFlow role key nibbles).answer .standard (.after .standard calls)).1 = .ok script := by
  have hcontent : Fragment.default.identity = .content := rfl
  obtain ⟨script, hscript, -⟩ :=
    Gate.exists_build_eq ⟨role, key, nibbles, .firstDeepest, hkey, hcount, hnibbles⟩
  change LockingArgs.build .standard (.ofNibbles role key .firstDeepest nibbles) = _ at hscript
  refine ⟨script, fun calls => ?_⟩
  rw [answer_of_args_eq_ok (args_ofFlow role key nibbles)]
  exact (LockingCache.sound_after .standard calls).build_eq_ok hcontent hscript

/-- A step that is presigned for the locking script of a call and a value: its script is the one that
the call gives after any other calls, it locks the value to this script, its message commits to
both, and exactly the keys of the signers have signed it. -/
structure PresignedStep.IsPresigned (p : Primitives) (call : LockingCall) (value : Int)
    (signers : List Signer) (s : PresignedStep) : Prop where
  exists_script : ∃ script : Script, s.code = script.code ∧
    ∀ calls, (call.answer .standard (.after .standard calls)).1 = .ok script
  template_eq : s.template = ⟨s.code, value⟩
  exists_digest : ∃ digest, Sighash.ofOutput s.code value = .ok digest ∧ s.sighash = digest.bytes
  signedBy : s.SignedBy p (signers.map Signer.key)

theorem Sighash.exists_ofOutput_eq {value : Int} (code : Bytes) (hpos : 0 ≤ value)
    (hlt : value < 2 ^ 64) : ∃ digest, ofOutput code value = .ok digest := by
  have hrange : (0 ≤ value && decide (value < 2 ^ 64)) = true := by
    rw [Bool.and_eq_true, decide_eq_true_eq, decide_eq_true_eq]
    exact ⟨hpos, hlt⟩
  rw [ofOutput, hrange]
  exact ⟨_, rfl⟩

namespace Presign

variable {p : Primitives} {signers : List Signer} {key : Bytes} {nibbles : List Nat} {value : Int}

/-- A step is built and signed, whatever is remembered of the calls before. -/
theorem exists_signedStep_eq (hkey : key.length = Primitives.keyLength)
    (hcount : nibbles.length ≤ 64) (hnibbles : ∀ n ∈ nibbles, n < 16) (hpos : 0 ≤ value)
    (hlt : value < 2 ^ 64) (hcorrect : ∀ x ∈ signers, x.IsCorrect p) (calls : List LockingCall)
    (role : GateRole) :
    ∃ s, signedStep p .standard (.after .standard calls)
          (.ofNibbles role key .firstDeepest nibbles) (.ok value) signers =
        (.ok s, .after .standard (calls ++ [.ofFlow role key nibbles])) ∧
      s.IsPresigned p (.ofFlow role key nibbles) value signers := by
  obtain ⟨script, hanswer⟩ := LockingCall.exists_answer_ofFlow role hkey hcount hnibbles
  have hbuild : (LockingCache.after .standard calls).build .standard
      (.ofNibbles role key .firstDeepest nibbles) =
        (.ok script, .after .standard (calls ++ [.ofFlow role key nibbles])) := by
    rw [← LockingCall.answer_of_args_eq_ok (LockingCall.args_ofFlow role key nibbles),
      LockingCache.after_concat]
    exact Prod.ext (hanswer calls) rfl
  -- Its message is signed by all signers.
  obtain ⟨digest, hdigest⟩ := Sighash.exists_ofOutput_eq script.code hpos hlt
  obtain ⟨signatures, hsign, hsigned⟩ := PresignedStep.exists_signAll_eq hcorrect
    (PresignedStep.signedBy_unsigned p script.code value digest.bytes)
  refine ⟨{ PresignedStep.unsigned script.code value digest.bytes with signatures }, ?_,
    ⟨script, rfl, hanswer⟩, rfl, ⟨digest, hdigest, rfl⟩, hsigned⟩
  have hstep : (Except.ok value : Except Error Int).bind (PresignedStep.ofOutput script.code) =
      .ok (.unsigned script.code value digest.bytes) := by
    rw [Except.bind, PresignedStep.ofOutput, bind_of_eq_ok hdigest]
    rfl
  simp only [signedStep, step, hbuild, hstep, hsign]

/-- A flow is active for signers whose keys have signed all its steps, and for no others. -/
theorem isActive_iff {flowId : Int} {steps : List PresignedStep} {keys : List Bytes}
    (hne : steps ≠ []) (h : ∀ s ∈ steps, s.SignedBy p keys) {others : List Signer} :
    (⟨flowId, steps⟩ : PresignedFlow).isActive p others = true ↔ ∀ x ∈ others, x.key ∈ keys := by
  rw [PresignedFlow.isActive, Bool.and_eq_true, List.all_eq_true, Bool.not_eq_true',
    List.isEmpty_eq_false_iff]
  constructor
  · rintro ⟨-, hcomplete⟩
    obtain ⟨s, hs⟩ := List.exists_mem_of_ne_nil steps hne
    exact (h s hs).isComplete_iff.mp (hcomplete s hs)
  · exact fun hkeys => ⟨hne, fun s hs => (h s hs).isComplete_iff.mpr hkeys⟩

/-- With parameters that the protocol admits, a flow id of their width, at least one signer, a key
for the locking scripts and a value of 64 bits, a flow is presigned if the signatures of the signers
verify. It has a step for each role, and it is active for those signers whose keys are among those of
the signers that presigned it. -/
theorem exists_flow_eq (p : Primitives) (calls : List LockingCall) {config : Config} {flowId : Int}
    {signers : List Signer} {key : Bytes} {value : Int} (hconfig : config.validate = .ok ())
    (hflowId : 0 ≤ flowId ∧ flowId < 2 ^ config.l.toNat) (hsigners : signers ≠ [])
    (hkey : key.length = Primitives.keyLength) (hvalue : 0 ≤ value ∧ value < 2 ^ 64)
    (hcorrect : ∀ x ∈ signers, x.IsCorrect p) :
    ∃ nibbles first second, Flow.idNibbles flowId config.b = .ok nibbles ∧
      flow p .standard (.after .standard calls) config (.ok flowId) signers (.bytes key) (.ok value)
          .default =
        (.ok ⟨flowId, [first, second]⟩, .after .standard
          (calls ++ [.ofFlow .f1 key nibbles] ++ [.ofFlow .f2 key nibbles])) ∧
      first.IsPresigned p (.ofFlow .f1 key nibbles) value signers ∧
      second.IsPresigned p (.ofFlow .f2 key nibbles) value signers ∧
      ∀ others : List Signer, (⟨flowId, [first, second]⟩ : PresignedFlow).isActive p others = true ↔
        ∀ x ∈ others, x.key ∈ signers.map Signer.key := by
  obtain ⟨nibbles, hnibbles, hcount, hlt⟩ :=
    Config.exists_idNibbles_eq hconfig hflowId.1 hflowId.2
  have hcheck : checkFlow config (.ok flowId) signers = .ok (flowId, nibbles) := by
    have hrange : (0 ≤ flowId && decide (flowId < 2 ^ config.l.toNat)) = true := by
      rw [Bool.and_eq_true, decide_eq_true_eq, decide_eq_true_eq]
      exact hflowId
    have hsome : (!signers.isEmpty) = true := by
      rwa [Bool.not_eq_true', List.isEmpty_eq_false_iff]
    simp only [checkFlow, hconfig, hrange, hsome, hnibbles, ensure_true, bind, Except.bind]
    rfl
  -- The script of the second step is built after that of the first one has been.
  obtain ⟨first, hfirst, hfirstIs⟩ := exists_signedStep_eq hkey hcount hlt hvalue.1 hvalue.2
    hcorrect calls .f1
  obtain ⟨second, hsecond, hsecondIs⟩ := exists_signedStep_eq hkey hcount hlt hvalue.1 hvalue.2
    hcorrect (calls ++ [.ofFlow .f1 key nibbles]) .f2
  refine ⟨nibbles, first, second, hnibbles, ?_, hfirstIs, hsecondIs, fun others => ?_⟩
  · simp only [LockingArgs.ofNibbles, LockingArgs.ofFragment] at hfirst hsecond
    simp only [flow, hcheck, Fragment.default, hfirst, hsecond]
  · -- Both steps are signed by the same keys, so these are the ones that count.
    refine isActive_iff (List.cons_ne_nil _ _) fun s hs => ?_
    simp only [List.mem_cons, List.not_mem_nil, or_false] at hs
    rcases hs with rfl | rfl
    · exact hfirstIs.signedBy
    · exact hsecondIs.signedBy

/-- The check of signatures that accepts those of one seed, and no others. -/
def accepting (seed : Bytes) : Primitives where
  hash := Primitives.standard.hash
  verify key message signature :=
    key == Ed25519.publicKey seed && signature == Ed25519.sign seed message

/-- The signer of a seed. -/
def seeded (seed : Bytes) : Signer := ⟨Ed25519.publicKey seed, Ed25519.sign seed⟩

/-- A signer who signs twice presigns the flow 3 of 16. The flow is active for nobody in particular,
and for a single signer exactly if the key is the same. -/
theorem exists_flow_eq_sample :
    let seed := List.replicate Signer.seedLength 1
    let p := accepting seed
    ∃ presigned scripts,
      flow p .standard (.after .standard []) ⟨1, 1, 4, 8, 1⟩ (.ok 3) [seeded seed, seeded seed]
          (.bytes (List.replicate Primitives.keyLength 0)) (.ok 1000) .default =
        (.ok presigned, scripts) ∧
      presigned.steps.length = 2 ∧ presigned.isActive p [] = true ∧
      ∀ x : Signer, presigned.isActive p [x] = true ↔ x.key = Ed25519.publicKey seed := by
  intro seed p
  have hcorrect : ∀ x ∈ [seeded seed, seeded seed], x.IsCorrect p := by
    intro x hx message
    simp only [List.mem_cons, List.not_mem_nil, or_false, or_self] at hx
    subst hx
    simp only [seeded, p, accepting, beq_self_eq_true, Bool.and_self]
  have hconfig : Config.validate ⟨1, 1, 4, 8, 1⟩ = .ok () := rfl
  have hflowId : (0 : Int) ≤ 3 ∧ (3 : Int) < 2 ^ Int.toNat 4 := by decide
  have hkey : (List.replicate Primitives.keyLength (0 : UInt8)).length = Primitives.keyLength :=
    List.length_replicate
  have hvalue : (0 : Int) ≤ 1000 ∧ (1000 : Int) < 2 ^ 64 := by decide
  obtain ⟨nibbles, first, second, -, hflow, -, -, hactive⟩ :=
    exists_flow_eq p [] hconfig hflowId (List.cons_ne_nil _ _) hkey hvalue hcorrect
  refine ⟨_, _, hflow, rfl, (hactive []).mpr (by simp), fun x => (hactive [x]).trans ?_⟩
  simp [seeded]

end Presign

end FlowGate

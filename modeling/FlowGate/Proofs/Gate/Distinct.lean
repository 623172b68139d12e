import FlowGate.Proofs.Gate.Swallowing
import FlowGate.Proofs.Presign.Flow

/-!
# Different gates have different scripts

The byte code of a locking script determines its gate: the role, the key, the leading nibbles and
their order. Two runs of it vary in length, the drops and the comparisons, and what one of them
gains the other may lose, but the length of the two together still tells how many nibbles there are.
A message to sign is the hash of a byte string that determines the byte code and the value. So if
steps for different gates or values have the same message, there is a collision of the hash
function.

## Main definitions

* `LockingCall.Gives` — a call gives a script, whatever calls there were before

## Main results

* `Gate.code_injective` — a gate is determined by the byte code of its locking script
* `Sighash.preimage_inj` — byte code and value are determined by what is hashed for them
* `Presign.exists_eq_of_signedStep` — the message of a step is the hash for its gate and its value
* `LockingCall.tells_apart` — scripts and messages of different gates and values
-/

namespace FlowGate

/-! ### The byte code of a gate -/

namespace Gate

/-- The length of the byte code that keeps the leading ones of 64 nibbles tells their number,
together with the byte code that compares them. -/
theorem eq_of_length_truncationCode {n n' : Nat} (hn : n ≤ 64) (hn' : n' ≤ 64) (order : NibbleOrder)
    (h : (truncationCode n (64 - n) order).length + 2 * n =
      (truncationCode n' (64 - n') order).length + 2 * n') : n = n' := by
  cases order with
  | firstDeepest =>
    simp only [truncationCode, List.length_replicate] at h
    omega
  | firstOnTop =>
    simp only [truncationCode, List.length_append, List.length_replicate] at h
    omega

theorem matchCode_cons {n : Nat} (h : n < 16) (nibbles : List Nat) :
    matchCode (n :: nibbles) =
      UInt8.ofNat (if n = 0 then 0 else 0x50 + n) :: 0x88 :: matchCode nibbles := by
  rw [matchCode, List.flatMap_cons, ← matchCode, number_eq_of_lt (Nat.lt_succ_of_lt h)]
  rfl

/-- Nibbles are determined by the byte code that compares them. -/
theorem eq_of_matchCode_eq {xs ys : List Nat} (hxs : ∀ n ∈ xs, n < 16) (hys : ∀ n ∈ ys, n < 16)
    (h : matchCode xs = matchCode ys) : xs = ys := by
  have hlength : xs.length = ys.length := by
    have hbytes := congrArg List.length h
    rw [length_matchCode hxs, length_matchCode hys] at hbytes
    omega
  -- Every nibble has the same number of bytes, and the first of them tells it.
  induction xs generalizing ys with
  | nil => exact (List.length_eq_zero_iff.mp hlength.symm).symm
  | cons x xs ih =>
    cases ys with
    | nil => cases hlength
    | cons y ys =>
      rw [List.forall_mem_cons] at hxs hys
      rw [matchCode_cons hxs.1, matchCode_cons hys.1] at h
      obtain ⟨hbyte, hrest⟩ := List.cons.inj h
      have hnibble : x = y := by
        have hnat := congrArg UInt8.toNat hbyte
        simp only [UInt8.toNat_ofNat'] at hnat
        split at hnat <;> split at hnat <;> omega
      have htail := ih hxs.2 hys.2 (List.cons.inj hrest).2 (Nat.succ.inj hlength)
      rw [hnibble, htail]

theorem thresholdCode_f1 : thresholdCode .f1 = [0x76, 0x01, 0x64, 0xa0, 0x69] := by
  decide +kernel

theorem thresholdCode_f2 : thresholdCode .f2 = [0x76, 0x02, 0xc8, 0x00, 0x9f, 0x69] := by
  decide +kernel

/-- The role is determined by the byte code of its comparison, whatever follows. -/
theorem thresholdCode_append_inj {role role' : GateRole} {rest rest' : Bytes}
    (h : thresholdCode role ++ rest = thresholdCode role' ++ rest') :
    role = role' ∧ rest = rest' := by
  -- The second bytes are the lengths of the two thresholds, which differ.
  cases role <;> cases role'
  · exact ⟨rfl, List.append_cancel_left h⟩
  · simp [thresholdCode_f1, thresholdCode_f2] at h
  · simp [thresholdCode_f1, thresholdCode_f2] at h
  · exact ⟨rfl, List.append_cancel_left h⟩

theorem hashCode_append_inj {order order' : NibbleOrder} {rest rest' : Bytes}
    (h : hashCode order ++ rest = hashCode order' ++ rest') : order = order' ∧ rest = rest' := by
  have hlength : ∀ order : NibbleOrder, (hashCode order).length = 4 := by
    intro order
    cases order <;> decide +kernel
  obtain ⟨hcode, hrest⟩ := List.append_inj h (by rw [hlength, hlength])
  refine ⟨?_, hrest⟩
  cases order <;> cases order' <;> first | rfl | exact absurd hcode (by decide +kernel)

/-- A gate is determined by the byte code of its locking script. -/
theorem code_injective : Function.Injective code := by
  intro g g' h
  rw [code_eq, code_eq, signatureCode_eq, signatureCode_eq] at h
  -- The parts in front of the nibbles can be told apart one after the other.
  obtain ⟨hsignature, h⟩ := List.append_inj h (by simp [g.length_key, g'.length_key])
  have hkey : g.key = g'.key := by
    have hbytes := (List.cons.inj hsignature).2
    exact (List.append_inj hbytes (by rw [g.length_key, g'.length_key])).1
  obtain ⟨hrole, h⟩ := thresholdCode_append_inj h
  obtain ⟨horder, h⟩ := hashCode_append_inj (List.append_cancel_left h)
  -- The number of nibbles follows from the length of what is left, and then the nibbles do.
  have hcount : g.nibbles.length = g'.nibbles.length := by
    have hlength := congrArg List.length h
    simp only [List.length_append, length_matchCode g.lt_of_mem_fromTop,
      length_matchCode g'.lt_of_mem_fromTop, length_fromTop] at hlength
    rw [horder] at hlength
    exact eq_of_length_truncationCode g.length_nibbles_le g'.length_nibbles_le g'.order (by omega)
  rw [hcount, horder] at h
  have hmatch := List.append_cancel_right (List.append_cancel_left h)
  have htop := eq_of_matchCode_eq (horder ▸ g.lt_of_mem_fromTop) g'.lt_of_mem_fromTop hmatch
  have hnibbles : g.nibbles = g'.nibbles := fromTop_inj.mp htop
  cases g
  cases g'
  simp_all

end Gate

/-! ### What is hashed -/

namespace Sighash

/-- Byte code and value are determined by what is hashed for them. -/
theorem preimage_inj {code code' : Bytes} {value value' : Nat} (hvalue : value < 2 ^ 64)
    (hvalue' : value' < 2 ^ 64) :
    preimage code value = preimage code' value' ↔ code = code' ∧ value = value' := by
  constructor
  · intro h
    obtain ⟨hcode, hbytes⟩ := List.append_inj' h (by rw [Bytes.length_ofNat, Bytes.length_ofNat])
    have hnat := congrArg Bytes.toNat hbytes
    rw [Bytes.toNat_ofNat, Bytes.toNat_ofNat] at hnat
    exact ⟨hcode, by omega⟩
  · rintro ⟨rfl, rfl⟩
    rfl

/-- The message to sign is the hash of byte code and value. -/
theorem ofOutput_eq_ok_iff {code : Bytes} {value : Int} {digest : Digest} :
    ofOutput code value = .ok digest ↔
      (0 ≤ value ∧ value < 2 ^ 64) ∧ digest = Sha256.hash (preimage code value.toNat) := by
  constructor
  · intro h
    obtain ⟨_, hrange, h⟩ := bind_ok_iff.mp h
    have hrange := ensure_eq_ok_iff.mp hrange
    simp only [Bool.and_eq_true, decide_eq_true_eq] at hrange
    exact ⟨hrange, (Except.ok.inj h).symm⟩
  · rintro ⟨hrange, rfl⟩
    have hcheck : (0 ≤ value && decide (value < 2 ^ 64)) = true := by
      rwa [Bool.and_eq_true, decide_eq_true_eq, decide_eq_true_eq]
    rw [ofOutput, hcheck]
    rfl

end Sighash

/-! ### Scripts of calls -/

namespace LockingCall

/-- A call gives a script, whatever calls there were before. -/
def Gives (call : LockingCall) (script : Script) : Prop :=
  ∀ before, (call.answer .standard (.after .standard before)).1 = .ok script

/-- A call with the arguments of a gate gives a script with the byte code of the gate. -/
theorem exists_gives {call : LockingCall} {g : Gate} (h : call.args = .ok g.args) :
    ∃ script, call.Gives script ∧ script.code = g.code := by
  obtain ⟨script, hscript, hcode⟩ := g.exists_build_eq
  have hcontent : g.args.fragment.identity = .content := rfl
  refine ⟨script, fun before => ?_, hcode⟩
  rw [answer_of_args_eq_ok h]
  exact (LockingCache.sound_after .standard before).build_eq_ok hcontent hscript

/-- Calls for gates give scripts, which have the same byte code only if the gates are the same. -/
theorem exists_gives_inj {call call' : LockingCall} (g g' : Gate) (h : call.args = .ok g.args)
    (h' : call'.args = .ok g'.args) :
    ∃ script script', call.Gives script ∧ call'.Gives script' ∧
      (script.code = script'.code → g = g') := by
  obtain ⟨script, hgives, hcode⟩ := exists_gives h
  obtain ⟨script', hgives', hcode'⟩ := exists_gives h'
  refine ⟨script, script', hgives, hgives', fun heq => Gate.code_injective ?_⟩
  rw [← hcode, ← hcode', heq]

end LockingCall

/-- Different flow ids of a prefix width have different nibbles. -/
theorem Flow.ne_of_idNibbles {k flowId flowId' : Nat} (hflowId : flowId < 256 ^ k)
    (hflowId' : flowId' < 256 ^ k) (hne : flowId ≠ flowId') :
    (Bytes.ofNat k flowId).toNibbles ≠ (Bytes.ofNat k flowId').toNibbles := by
  intro h
  have hnat := congrArg Bytes.toNat (Bytes.toNibbles_injective h)
  rw [Bytes.toNat_ofNat, Bytes.toNat_ofNat, Nat.mod_eq_of_lt hflowId,
    Nat.mod_eq_of_lt hflowId'] at hnat
  exact hne hnat

/-- Different flow ids of a prefix width lead to different scripts. -/
theorem LockingCall.exists_gives_ne {b flowId flowId' : Nat} (hb : b ∈ [0, 8, 16, 24, 32])
    (hflowId : flowId < 2 ^ b) (hflowId' : flowId' < 2 ^ b) (hne : flowId ≠ flowId') :
    ∃ nibbles nibbles', Flow.idNibbles flowId b = .ok nibbles ∧
      Flow.idNibbles flowId' b = .ok nibbles' ∧
      ∀ (role : GateRole) (key : Bytes) (order : NibbleOrder) (call call' : LockingCall),
        key.length = Primitives.keyLength → call.args = .ok (.ofNibbles role key order nibbles) →
        call'.args = .ok (.ofNibbles role key order nibbles') →
        ∃ script script', call.Gives script ∧ call'.Gives script' ∧ script.code ≠ script'.code := by
  obtain ⟨k, hk, rfl⟩ := Flow.exists_eq_of_mem_widths hb
  have hpow : 2 ^ (8 * k) ≤ 2 ^ 32 := Nat.pow_le_pow_right (by decide) (by omega)
  refine ⟨_, _, Flow.idNibbles_eq hk (by omega), Flow.idNibbles_eq hk (by omega), ?_⟩
  intro role key order call call' hkey hcall hcall'
  -- Both scripts are those of gates, which differ in their nibbles.
  obtain ⟨script, script', hgives, hgives', hinj⟩ :=
    exists_gives_inj (.ofFlowId role hkey order hk flowId) (.ofFlowId role hkey order hk flowId')
      hcall hcall'
  rw [Nat.pow_mul 2 8 k] at hflowId hflowId'
  exact ⟨script, script', hgives, hgives', fun heq =>
    Flow.ne_of_idNibbles hflowId hflowId' hne (congrArg Gate.nibbles (hinj heq))⟩

/-! ### Messages of steps -/

namespace Presign

variable {p : Primitives} {g g' : Gate} {before before' : List LockingCall} {value value' : Int}
  {signers signers' : List Signer} {s s' : PresignedStep} {cache cache' : LockingCache}

/-- A step without signatures has the script of its gate, and its message is the hash for that and
its value. -/
theorem exists_eq_of_step
    (h : step .standard (.after .standard before) g.args (.ok value) = (.ok s, cache)) :
    s.code = g.code ∧ (0 ≤ value ∧ value < 2 ^ 64) ∧
      s.sighash = (Sha256.hash (Sighash.preimage g.code value.toNat)).bytes := by
  obtain ⟨script, hscript, hcode⟩ := g.exists_build_eq
  have hcontent : g.args.fragment.identity = .content := rfl
  -- Whatever was built before, a remembered script is the one that would be built.
  have hbuild := (LockingCache.sound_after .standard before).build_eq_ok hcontent hscript
  generalize hresult : (LockingCache.after .standard before).build .standard g.args = result
    at hbuild
  obtain ⟨outcome, cache'⟩ := result
  obtain rfl : outcome = .ok script := hbuild
  rw [step, hresult] at h
  have houtput : PresignedStep.ofOutput script.code value = .ok s := (Prod.mk.inj h).1
  obtain ⟨digest, hdigest, hstep⟩ := bind_ok_iff.mp houtput
  obtain rfl := Except.ok.inj hstep
  obtain ⟨hrange, rfl⟩ := Sighash.ofOutput_eq_ok_iff.mp hdigest
  rw [← hcode]
  exact ⟨rfl, hrange, rfl⟩

/-- So does a step that has been signed. -/
theorem exists_eq_of_signedStep
    (h : signedStep p .standard (.after .standard before) g.args (.ok value) signers =
      (.ok s, cache)) :
    s.code = g.code ∧ (0 ≤ value ∧ value < 2 ^ 64) ∧
      s.sighash = (Sha256.hash (Sighash.preimage g.code value.toNat)).bytes := by
  rw [signedStep] at h
  generalize hstep : step .standard (.after .standard before) g.args (.ok value) = result at h
  obtain ⟨_ | unsigned, cache'⟩ := result
  · cases h
  dsimp only at h
  generalize hsign : unsigned.signAll p signers = signed at h
  obtain ⟨_ | fault, signed⟩ := signed
  · obtain rfl : signed = s := Except.ok.inj (Prod.mk.inj h).1
    -- Signing has changed neither the script of the step nor its message.
    have hkeeps := PresignedStep.signAll_eq p unsigned signers
    rw [hsign] at hkeeps
    have hunsigned := exists_eq_of_step hstep
    rw [show signed = { unsigned with signatures := signed.signatures } from hkeeps]
    exact hunsigned
  · cases h

/-- Steps with the same message are for the same gate and value, or there is a collision. -/
theorem eq_or_collision
    (h : signedStep p .standard (.after .standard before) g.args (.ok value) signers =
      (.ok s, cache))
    (h' : signedStep p .standard (.after .standard before') g'.args (.ok value') signers' =
      (.ok s', cache'))
    (hsighash : s.sighash = s'.sighash) :
    (g = g' ∧ value = value') ∨
      (Sighash.preimage s.code value.toNat ≠ Sighash.preimage s'.code value'.toNat ∧
        Sha256.hash (Sighash.preimage s.code value.toNat) =
          Sha256.hash (Sighash.preimage s'.code value'.toNat)) := by
  obtain ⟨hcode, hrange, hmessage⟩ := exists_eq_of_signedStep h
  obtain ⟨hcode', hrange', hmessage'⟩ := exists_eq_of_signedStep h'
  rw [hcode, hcode']
  have hhash : Sha256.hash (Sighash.preimage g.code value.toNat) =
      Sha256.hash (Sighash.preimage g'.code value'.toNat) :=
    Digest.ext (hmessage.symm.trans (hsighash.trans hmessage'))
  -- The hashes agree, so the hashed bytes do or collide.
  by_cases hpreimage :
      Sighash.preimage g.code value.toNat = Sighash.preimage g'.code value'.toNat
  · obtain ⟨hgate, hvalue⟩ := (Sighash.preimage_inj (by omega) (by omega)).mp hpreimage
    exact .inl ⟨Gate.code_injective hgate, by omega⟩
  · exact .inr ⟨hpreimage, hhash⟩

end Presign

/-- No two gates share a script, and no two steps a message unless the hash function has a
collision. Calls for gates give scripts, and if these have the same byte code, then role, key,
nibbles and order are the same; for two flow ids of one prefix width they differ. The message for a
script and a value is the hash of a byte string that differs for others. Where steps for two gates
and values have the same message, these are the same, or the two byte strings are a collision. -/
theorem LockingCall.tells_apart :
    (∀ (g g' : Gate) (call call' : LockingCall), call.args = .ok g.args → call'.args = .ok g'.args →
      ∃ script script', call.Gives script ∧ call'.Gives script' ∧
        (script.code = script'.code →
          g.role = g'.role ∧ g.key = g'.key ∧ g.nibbles = g'.nibbles ∧ g.order = g'.order)) ∧
    (∀ b ∈ [0, 8, 16, 24, 32], ∀ flowId flowId' : Nat, flowId < 2 ^ b → flowId' < 2 ^ b →
      flowId ≠ flowId' → ∃ nibbles nibbles', Flow.idNibbles flowId (b : Nat) = .ok nibbles ∧
        Flow.idNibbles flowId' (b : Nat) = .ok nibbles' ∧
        ∀ (role : GateRole) (key : Bytes) (order : NibbleOrder) (call call' : LockingCall),
          key.length = Primitives.keyLength → call.args = .ok (.ofNibbles role key order nibbles) →
          call'.args = .ok (.ofNibbles role key order nibbles') →
          ∃ script script', call.Gives script ∧ call'.Gives script' ∧ script.code ≠ script'.code) ∧
    (∀ (code code' : Bytes) (value value' : Nat), value < 2 ^ 64 → value' < 2 ^ 64 →
      Sighash.ofOutput code value = .ok (Sha256.hash (Sighash.preimage code value)) ∧
        ((code, value) ≠ (code', value') →
          Sighash.preimage code value ≠ Sighash.preimage code' value')) ∧
    ∀ (p : Primitives) (g g' : Gate) (before before' : List LockingCall) (value value' : Int)
      (signers signers' : List Signer) (s s' : PresignedStep) (cache cache' : LockingCache),
      Presign.signedStep p .standard (.after .standard before) g.args (.ok value) signers =
        (.ok s, cache) →
      Presign.signedStep p .standard (.after .standard before') g'.args (.ok value') signers' =
        (.ok s', cache') →
      s.sighash = s'.sighash →
        (g.role = g'.role ∧ g.key = g'.key ∧ g.nibbles = g'.nibbles ∧ g.order = g'.order ∧
          value = value') ∨
        (Sighash.preimage s.code value.toNat ≠ Sighash.preimage s'.code value'.toNat ∧
          Sha256.hash (Sighash.preimage s.code value.toNat) =
            Sha256.hash (Sighash.preimage s'.code value'.toNat)) := by
  refine ⟨?_, fun b hb flowId flowId' => exists_gives_ne hb, ?_, ?_⟩
  · intro g g' call call' hcall hcall'
    obtain ⟨script, script', hgives, hgives', hinj⟩ := exists_gives_inj g g' hcall hcall'
    refine ⟨script, script', hgives, hgives', fun heq => ?_⟩
    obtain rfl := hinj heq
    exact ⟨rfl, rfl, rfl, rfl⟩
  · intro code code' value value' hvalue hvalue'
    refine ⟨Sighash.ofOutput_eq_ok_iff.mpr ⟨by omega, by simp⟩, fun hne heq => hne ?_⟩
    obtain ⟨rfl, rfl⟩ := (Sighash.preimage_inj hvalue hvalue').mp heq
    rfl
  · intro p g g' before before' value value' signers signers' s s' cache cache' hs hs' hsighash
    refine (Presign.eq_or_collision hs hs' hsighash).imp_left ?_
    -- Equal gates have equal parts.
    rintro ⟨rfl, rfl⟩
    exact ⟨rfl, rfl, rfl, rfl, rfl⟩

/-- Gates of the two roles with the same key and no nibbles have different scripts, and so have the
flow ids 3 and 5 of a prefix of one byte. Unsigned steps of the two gates have different messages,
or there is a collision. -/
theorem LockingCall.tells_apart_sample :
    let key := List.replicate Primitives.keyLength (0 : UInt8)
    (∃ script script', (LockingCall.ofFlow .f1 key []).Gives script ∧
      (LockingCall.ofFlow .f2 key []).Gives script' ∧ script.code ≠ script'.code) ∧
    (∃ nibbles nibbles', Flow.idNibbles 3 8 = .ok nibbles ∧ Flow.idNibbles 5 8 = .ok nibbles' ∧
      ∃ script script', (LockingCall.ofFlow .f1 key nibbles).Gives script ∧
        (LockingCall.ofFlow .f1 key nibbles').Gives script' ∧ script.code ≠ script'.code) ∧
    Sighash.preimage [] 1 ≠ Sighash.preimage [] 256 ∧
    ∃ s s' : PresignedStep, (∃ cache, Presign.signedStep .standard .standard (.after .standard [])
        ⟨.f1, .bytes key, [], .default⟩ (.ok 7) [] = (.ok s, cache)) ∧
      (∃ cache, Presign.signedStep .standard .standard (.after .standard [])
        ⟨.f2, .bytes key, [], .default⟩ (.ok 7) [] = (.ok s', cache)) ∧
      (s.sighash = s'.sighash → ∃ x y, x ≠ y ∧ Sha256.hash x = Sha256.hash y) := by
  intro key
  obtain ⟨hscripts, hflows, hmessages, hsteps⟩ := tells_apart
  have hkey : key.length = Primitives.keyLength := List.length_replicate
  have hnibbles : ∀ n ∈ ([] : List Nat), n < 16 := by simp
  let gate (role : GateRole) : Gate := ⟨role, key, [], .firstDeepest, hkey, by simp, hnibbles⟩
  have hroles : (gate .f1).role ≠ (gate .f2).role := show GateRole.f1 ≠ .f2 by decide
  refine ⟨?_, ?_, ?_, ?_⟩
  · obtain ⟨script, script', hgives, hgives', hsame⟩ :=
      hscripts (gate .f1) (gate .f2) (.ofFlow .f1 key []) (.ofFlow .f2 key []) rfl rfl
    exact ⟨script, script', hgives, hgives', fun heq => hroles (hsame heq).1⟩
  · obtain ⟨nibbles, nibbles', h, h', hcalls⟩ :=
      hflows 8 (by decide) 3 5 (by decide) (by decide) (by decide)
    exact ⟨nibbles, nibbles', h, h', hcalls .f1 key .firstDeepest _ _ hkey rfl rfl⟩
  · exact (hmessages [] [] 1 256 (by decide) (by decide)).2 (by decide)
  · have hvalue : (0 : Int) ≤ 7 ∧ (7 : Int) < 2 ^ 64 := by decide
    have hsigners : ∀ x ∈ ([] : List Signer), x.IsCorrect .standard := by simp
    have hstep := Presign.exists_signedStep_eq hkey (by simp) hnibbles hvalue.1 hvalue.2 hsigners []
    obtain ⟨s, hs, -⟩ := hstep .f1
    obtain ⟨s', hs', -⟩ := hstep .f2
    refine ⟨s, s', ⟨_, hs⟩, ⟨_, hs'⟩, fun hsighash => ?_⟩
    rcases hsteps .standard (gate .f1) (gate .f2) [] [] 7 7 [] [] s s' _ _ hs hs' hsighash with
      ⟨hrole, -⟩ | ⟨hne, hhash⟩
    · exact absurd hrole hroles
    · exact ⟨_, _, hne, hhash⟩

end FlowGate

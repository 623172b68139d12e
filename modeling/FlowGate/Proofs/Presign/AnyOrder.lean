import FlowGate.Checked.Presign
import FlowGate.Primitives
import FlowGate.Proofs.Gate.Spending
import FlowGate.Proofs.Presign.Signing
import Mathlib.Data.List.Induction

/-!
# Signatures in any order

A step is handed signatures by calls whose arguments may be of any kind. A call that fails leaves
the step as it was, and whether a call succeeds depends on its own arguments and on the message of
the step, not on the calls before it. So after any series of calls a step that began without
signatures stores the signature of the last successful call for each key, and nothing else. A
complete step stays complete, and for whom it is complete does not depend on the order of the calls.

## Main definitions

* `SignatureCall` — the arguments of a call that adds a signature
* `PresignedStep.receive`, `PresignedStep.receiveAll` — a step after a call, and after a series
* `PresignedStep.SucceedsAt` — the successful calls of a series
* `PresignedStep.HasCollected` — a step with the signatures that a series of calls has added

## Main results

* `PresignedStep.succeedsAt_iff` — success does not depend on the calls before
* `PresignedStep.signAll_eq_receiveAll` — signers who sign in turn are a series of calls
* `PresignedStep.receiveAll_in_any_order` — what a step stores after any series, and for whom it is
  complete
-/

namespace FlowGate

/-- The arguments of a call that adds a signature. They may be of any kind. -/
structure SignatureCall where
  key : Value
  signature : Value

/-- The call with which a signer adds a signature of a message. -/
def Signer.call (message : Bytes) (x : Signer) : SignatureCall :=
  ⟨.bytes x.key, .bytes (x.sign message)⟩

/-- A signature is added exactly if key and signature are byte strings and the signature verifies. -/
theorem Checked.addSignature_eq_ok_iff {p : Primitives} {s s' : PresignedStep}
    {key signature : Value} :
    Checked.addSignature p s key signature = .ok s' ↔
      ∃ k bs, key = .bytes k ∧ signature = .bytes bs ∧ p.verify k s.sighash bs = true ∧
        s.store k bs = s' := by
  constructor
  · intro h
    obtain ⟨k, hk, h⟩ := bind_ok_iff.mp h
    obtain ⟨bs, hbs, h⟩ := bind_ok_iff.mp h
    obtain ⟨hverify, hstore⟩ := ensure_bind_eq_ok_iff.mp h
    exact ⟨k, bs, Value.toBytes_eq_ok_iff.mp hk, Value.toBytes_eq_ok_iff.mp hbs, hverify,
      Except.ok.inj hstore⟩
  · rintro ⟨k, bs, rfl, rfl, hverify, rfl⟩
    exact ensure_bind_eq_ok_iff.mpr ⟨hverify, rfl⟩

namespace PresignedStep

variable {p : Primitives} {s s' : PresignedStep} {call : SignatureCall} {calls : List SignatureCall}
  {key signature : Bytes} {i : Nat}

/-! ### One call -/

/-- The step after a call, which is the step before it if the call fails. -/
def receive (p : Primitives) (s : PresignedStep) (call : SignatureCall) : PresignedStep :=
  match Checked.addSignature p s call.key call.signature with
  | .ok s' => s'
  | .error _ => s

theorem receive_of_eq_error {fault : Error}
    (h : Checked.addSignature p s call.key call.signature = .error fault) :
    s.receive p call = s := by
  rw [receive, h]

/-- A call stores a signature that verifies, or it changes nothing. -/
theorem receive_cases (p : Primitives) (s : PresignedStep) (call : SignatureCall) :
    (∃ key signature, call = ⟨.bytes key, .bytes signature⟩ ∧
        p.verify key s.sighash signature = true ∧ s.receive p call = s.store key signature) ∨
      (s.receive p call = s ∧ ∀ key signature, call = ⟨.bytes key, .bytes signature⟩ →
        p.verify key s.sighash signature ≠ true) := by
  cases h : Checked.addSignature p s call.key call.signature with
  | ok s' =>
    obtain ⟨key, signature, hkey, hsignature, hverify, rfl⟩ := Checked.addSignature_eq_ok_iff.mp h
    refine .inl ⟨key, signature, ?_, hverify, by rw [receive, h]⟩
    rw [← hkey, ← hsignature]
  | error fault =>
    refine .inr ⟨receive_of_eq_error h, ?_⟩
    rintro key signature rfl hverify
    rw [Checked.addSignature_eq_ok_iff.mpr ⟨key, signature, rfl, rfl, hverify, rfl⟩] at h
    cases h

theorem receive_of_verify (hverify : p.verify key s.sighash signature = true) :
    s.receive p ⟨.bytes key, .bytes signature⟩ = s.store key signature := by
  rw [receive, Checked.addSignature_eq_ok_iff.mpr ⟨key, signature, rfl, rfl, hverify, rfl⟩]

/-- A call that adds no signature for a key leaves the key with the signature that it has. -/
theorem signature?_receive_of_ne
    (h : ∀ signature, call = ⟨.bytes key, .bytes signature⟩ →
      p.verify key s.sighash signature ≠ true) :
    (s.receive p call).signature? key = s.signature? key := by
  obtain ⟨k, bs, rfl, hverify, hstore⟩ | ⟨hsame, -⟩ := receive_cases p s call
  · have hne : key ≠ k := by
      rintro rfl
      exact h bs rfl hverify
    rw [hstore, signature?_store_of_ne hne]
  · rw [hsame]

/-- A call changes nothing of a step but the signatures. -/
theorem receive_eq (p : Primitives) (s : PresignedStep) (call : SignatureCall) :
    s.receive p call = { s with signatures := (s.receive p call).signatures } := by
  obtain ⟨key, signature, -, -, h⟩ | ⟨h, -⟩ := receive_cases p s call
  · rw [h]
    rfl
  · rw [h]

/-! ### A series of calls -/

/-- The step after a series of calls. -/
def receiveAll (p : Primitives) (s : PresignedStep) (calls : List SignatureCall) : PresignedStep :=
  calls.foldl (receive p) s

theorem receiveAll_append (more : List SignatureCall) :
    s.receiveAll p (calls ++ more) = (s.receiveAll p calls).receiveAll p more :=
  List.foldl_append

theorem receiveAll_concat :
    s.receiveAll p (calls ++ [call]) = (s.receiveAll p calls).receive p call :=
  receiveAll_append [call]

theorem receiveAll_eq (p : Primitives) (s : PresignedStep) (calls : List SignatureCall) :
    s.receiveAll p calls = { s with signatures := (s.receiveAll p calls).signatures } := by
  induction calls using List.reverseRecOn with
  | nil => rfl
  | append_singleton calls call ih =>
    rw [receiveAll_concat, receive_eq, ih]

@[simp] theorem sighash_receiveAll : (s.receiveAll p calls).sighash = s.sighash := by
  rw [receiveAll_eq]

/-- The call at a position of a series is for a key and a signature, and it succeeds on the step as
the calls before have left it. -/
def SucceedsAt (p : Primitives) (s : PresignedStep) (calls : List SignatureCall) (i : Nat)
    (key signature : Bytes) : Prop :=
  calls[i]? = some ⟨.bytes key, .bytes signature⟩ ∧
    ∃ s', Checked.addSignature p (s.receiveAll p (calls.take i)) (.bytes key) (.bytes signature) =
      .ok s'

/-- Success depends on the call and the message only, not on the calls before. -/
theorem succeedsAt_iff :
    s.SucceedsAt p calls i key signature ↔
      calls[i]? = some ⟨.bytes key, .bytes signature⟩ ∧
        p.verify key s.sighash signature = true := by
  refine and_congr_right fun _ => ?_
  constructor
  · rintro ⟨s', h⟩
    obtain ⟨k, bs, hk, hbs, hverify, -⟩ := Checked.addSignature_eq_ok_iff.mp h
    rwa [← Value.bytes.inj hk, ← Value.bytes.inj hbs, sighash_receiveAll] at hverify
  · intro hverify
    have hbefore : p.verify key (s.receiveAll p (calls.take i)).sighash signature = true := by
      rwa [sighash_receiveAll]
    exact ⟨_, Checked.addSignature_eq_ok_iff.mpr ⟨key, signature, rfl, rfl, hbefore, rfl⟩⟩

theorem SucceedsAt.lt_length (h : s.SucceedsAt p calls i key signature) : i < calls.length :=
  (List.getElem?_eq_some_iff.mp h.1).1

/-- A call behind a series succeeds at the position behind it, or the series has its successes. -/
theorem succeedsAt_concat_iff :
    s.SucceedsAt p (calls ++ [call]) i key signature ↔
      s.SucceedsAt p calls i key signature ∨
        i = calls.length ∧ call = ⟨.bytes key, .bytes signature⟩ ∧
          p.verify key s.sighash signature = true := by
  rw [succeedsAt_iff, succeedsAt_iff]
  rcases Nat.lt_trichotomy i calls.length with hlt | rfl | hgt
  · rw [List.getElem?_append_left hlt]
    simp [Nat.ne_of_lt hlt]
  · simp
  · have hnone : (calls ++ [call])[i]? = none := by
      rw [List.getElem?_eq_none_iff, List.length_append, List.length_singleton]
      exact hgt
    simp [hnone, Nat.ne_of_gt hgt, List.getElem?_eq_none (Nat.le_of_lt hgt)]

/-! ### What a series of calls has collected -/

section Collecting

variable (hs : s.signatures = [])

include hs

/-- After any series of calls each key has one signature at most, and all signatures verify. -/
theorem signedBy_receiveAll (p : Primitives) (calls : List SignatureCall) :
    (s.receiveAll p calls).SignedBy p (s.receiveAll p calls).keys := by
  induction calls using List.reverseRecOn with
  | nil =>
    refine ⟨fun _ => Iff.rfl, ?_, fun entry hentry => ?_⟩
    · rw [receiveAll, List.foldl_nil, keys, hs]
      exact List.nodup_nil
    · rw [receiveAll, List.foldl_nil, hs] at hentry
      cases hentry
  | append_singleton calls call ih =>
    rw [receiveAll_concat]
    obtain ⟨key, signature, -, hverify, h⟩ | ⟨h, -⟩ := receive_cases p (s.receiveAll p calls) call
    · rw [h]
      have hstored := ih.store hverify
      exact ⟨fun _ => Iff.rfl, hstored.nodup, hstored.verifies⟩
    · rw [h]
      exact ih

/-- After a series of calls a key has the signature of its last successful call. -/
theorem signature?_receiveAll_iff :
    (s.receiveAll p calls).signature? key = some signature ↔
      ∃ i, s.SucceedsAt p calls i key signature ∧
        ∀ j other, i < j → ¬ s.SucceedsAt p calls j key other := by
  induction calls using List.reverseRecOn with
  | nil => simp [receiveAll, signature?, hs, succeedsAt_iff]
  | append_singleton calls call ih =>
    rw [receiveAll_concat]
    by_cases hlast : ∃ last, call = ⟨.bytes key, .bytes last⟩ ∧ p.verify key s.sighash last = true
    · -- The last call is the last success for the key, and it replaces the signature.
      obtain ⟨last, rfl, hverify⟩ := hlast
      rw [receive_of_verify (by rwa [sighash_receiveAll]), signature?_store_self, Option.some_inj]
      constructor
      · rintro rfl
        refine ⟨calls.length, succeedsAt_concat_iff.mpr (.inr ⟨rfl, rfl, hverify⟩), ?_⟩
        intro j other hj h
        have hlength := h.lt_length
        rw [List.length_append, List.length_singleton] at hlength
        omega
      · rintro ⟨i, hi, hlater⟩
        rcases succeedsAt_concat_iff.mp hi with hbefore | ⟨-, hcall, -⟩
        · exact absurd (succeedsAt_concat_iff.mpr (.inr ⟨rfl, rfl, hverify⟩))
            (hlater calls.length last hbefore.lt_length)
        · cases hcall
          rfl
    · -- Whatever the last call does, it does it for another key.
      have hsame : ∀ i other, s.SucceedsAt p (calls ++ [call]) i key other ↔
          s.SucceedsAt p calls i key other := fun i other =>
        succeedsAt_concat_iff.trans (or_iff_left fun h => hlast ⟨other, h.2⟩)
      rw [signature?_receive_of_ne (by simpa using hlast), ih]
      simp only [hsame]

/-- After a series of calls exactly the keys with a call whose signature verifies have signed. -/
theorem mem_keys_receiveAll_iff :
    key ∈ (s.receiveAll p calls).keys ↔
      ∃ signature, ⟨.bytes key, .bytes signature⟩ ∈ calls ∧
        p.verify key s.sighash signature = true := by
  induction calls using List.reverseRecOn with
  | nil => simp [receiveAll, keys, hs]
  | append_singleton calls call ih =>
    rw [receiveAll_concat]
    simp only [List.mem_append, List.mem_singleton, or_and_right, exists_or]
    obtain ⟨k, bs, rfl, hverify, h⟩ | ⟨h, hfails⟩ := receive_cases p (s.receiveAll p calls) call
    · -- The last call stores a signature for its own key.
      rw [h, ((signedBy_receiveAll hs p calls).store hverify).mem_keys_iff, List.mem_append, ih,
        List.mem_singleton]
      refine or_congr_right ⟨?_, ?_⟩
      · rintro rfl
        exact ⟨bs, rfl, by rwa [sighash_receiveAll] at hverify⟩
      · rintro ⟨signature, hcall, -⟩
        cases hcall
        rfl
    · -- It changes nothing, and so it did not verify.
      rw [h, ih, or_iff_left]
      rintro ⟨signature, rfl, hverify⟩
      exact hfails key signature rfl (by rwa [sighash_receiveAll])

/-- After a series of calls exactly the keys of successful calls have signed. -/
theorem mem_keys_receiveAll_iff_succeedsAt :
    key ∈ (s.receiveAll p calls).keys ↔ ∃ i signature, s.SucceedsAt p calls i key signature := by
  rw [mem_keys_receiveAll_iff hs, exists_comm]
  simp only [succeedsAt_iff, List.mem_iff_getElem?, exists_and_right]

/-- The same calls in another order leave a step complete for the same signers. -/
theorem isComplete_receiveAll_of_perm {others : List SignatureCall} (h : calls.Perm others)
    (signers : List Signer) :
    (s.receiveAll p others).isComplete p signers = (s.receiveAll p calls).isComplete p signers := by
  rw [Bool.eq_iff_iff, (signedBy_receiveAll hs p others).isComplete_iff,
    (signedBy_receiveAll hs p calls).isComplete_iff]
  simp only [mem_keys_receiveAll_iff hs, h.mem_iff]

/-- Further calls leave a complete step complete. -/
theorem isComplete_receiveAll_append {signers : List Signer} (more : List SignatureCall)
    (h : (s.receiveAll p calls).isComplete p signers = true) :
    (s.receiveAll p (calls ++ more)).isComplete p signers = true := by
  rw [(signedBy_receiveAll hs p _).isComplete_iff] at h ⊢
  intro x hx
  obtain ⟨signature, hcall, hverify⟩ := (mem_keys_receiveAll_iff hs).mp (h x hx)
  exact (mem_keys_receiveAll_iff hs).mpr ⟨signature, List.mem_append_left _ hcall, hverify⟩

end Collecting

/-! ### Signers who sign in turn -/

/-- If all signers have signed, then each of them has made a call that succeeded. -/
theorem signAll_eq_receiveAll {signers : List Signer} (h : (s.signAll p signers).1 = none) :
    (s.signAll p signers).2 = s.receiveAll p (signers.map (Signer.call s.sighash)) := by
  induction signers generalizing s with
  | nil => rfl
  | cons x signers ih =>
    have hverify := signAll_fst_eq_none_iff.mp h x List.mem_cons_self
    rw [signAll, addSignature_eq_ok hverify] at h ⊢
    rw [List.map_cons, receiveAll, List.foldl_cons, Signer.call, receive_of_verify hverify]
    exact ih h

/-! ### Any series of calls -/

/-- A step that began as `s` and has collected the signatures of a series of calls: each key of a
successful call has the signature of the last one, no other key has signed, every signature verifies,
and the rest of the step is as it was. -/
structure HasCollected (p : Primitives) (s : PresignedStep) (calls : List SignatureCall)
    (after : PresignedStep) : Prop where
  mem_keys_iff : ∀ key, key ∈ after.keys ↔ ∃ i signature, s.SucceedsAt p calls i key signature
  signature?_eq_some_iff : ∀ key signature, after.signature? key = some signature ↔
    ∃ i, s.SucceedsAt p calls i key signature ∧
      ∀ j other, i < j → ¬ s.SucceedsAt p calls j key other
  nodup_keys : after.keys.Nodup
  verifies : ∀ entry ∈ after.signatures, p.verify entry.1 s.sighash entry.2 = true
  eq_with_signatures : after = { s with signatures := after.signatures }

theorem hasCollected_receiveAll (hs : s.signatures = []) (calls : List SignatureCall) :
    s.HasCollected p calls (s.receiveAll p calls) where
  mem_keys_iff _ := mem_keys_receiveAll_iff_succeedsAt hs
  signature?_eq_some_iff _ _ := signature?_receiveAll_iff hs
  nodup_keys := (signedBy_receiveAll hs p calls).nodup
  verifies := by
    have hverifies := (signedBy_receiveAll hs p calls).verifies
    rwa [sighash_receiveAll] at hverifies
  eq_with_signatures := receiveAll_eq p s calls

/-- For a step that begins without signatures, whatever calls there are to add some: a call that fails
leaves the step as it is, and after the series the step has collected the signatures of the
successful calls. It is complete for signers exactly if the key of each has signed. It stays
complete under further calls, and it is complete for the same signers if the calls come in another
order, or if those who sign behind them do. -/
theorem receiveAll_in_any_order (p : Primitives) {s : PresignedStep} (hs : s.signatures = [])
    (calls : List SignatureCall) :
    (∀ i call fault, calls[i]? = some call →
      Checked.addSignature p (s.receiveAll p (calls.take i)) call.key call.signature =
        .error fault →
      s.receiveAll p (calls.take (i + 1)) = s.receiveAll p (calls.take i)) ∧
    s.HasCollected p calls (s.receiveAll p calls) ∧
    (∀ signers : List Signer, (s.receiveAll p calls).isComplete p signers = true ↔
      ∀ x ∈ signers, x.key ∈ (s.receiveAll p calls).keys) ∧
    (∀ more signers, (s.receiveAll p calls).isComplete p signers = true →
      (s.receiveAll p (calls ++ more)).isComplete p signers = true) ∧
    (∀ others, calls.Perm others → ∀ signers,
      (s.receiveAll p others).isComplete p signers =
        (s.receiveAll p calls).isComplete p signers) ∧
    ∀ signing signing', signing.Perm signing' →
      ((s.receiveAll p calls).signAll p signing).1 = none →
      ((s.receiveAll p calls).signAll p signing').1 = none ∧
        ∀ signers, ((s.receiveAll p calls).signAll p signing').2.isComplete p signers =
          ((s.receiveAll p calls).signAll p signing).2.isComplete p signers := by
  refine ⟨fun i call fault hcall hfault => ?_, hasCollected_receiveAll hs calls,
    fun signers => (signedBy_receiveAll hs p calls).isComplete_iff,
    fun more signers => isComplete_receiveAll_append hs more,
    fun others hperm => isComplete_receiveAll_of_perm hs hperm,
    fun signing signing' hperm hsigned => ?_⟩
  · rw [List.take_add_one, hcall, Option.toList_some, receiveAll_concat, receive_of_eq_error hfault]
  · have hsigned' : ((s.receiveAll p calls).signAll p signing').1 = none := by
      rw [signAll_fst_eq_none_iff] at hsigned ⊢
      exact fun x hx => hsigned x (hperm.mem_iff.mpr hx)
    refine ⟨hsigned', fun signers => ?_⟩
    -- Both orders are series of the same calls behind the calls before.
    rw [signAll_eq_receiveAll hsigned, signAll_eq_receiveAll hsigned', ← receiveAll_append,
      ← receiveAll_append]
    exact isComplete_receiveAll_of_perm hs ((hperm.map _).append_left calls) signers

/-- Of four calls, the first with a key of the wrong kind, the second with a signature that is too
short and the last without arguments, the third is stored. The step is complete for the owner of its
key, also after the calls in reverse order. -/
theorem receiveAll_in_any_order_sample :
    let s := unsigned [] 0 []
    let calls : List SignatureCall :=
      [⟨.int 5, .bytes Gate.sampleSignature⟩, ⟨.bytes Gate.sampleKey, .bytes []⟩,
        ⟨.bytes Gate.sampleKey, .bytes Gate.sampleSignature⟩, ⟨.none, .none⟩]
    let owner : Signer := ⟨Gate.sampleKey, fun _ => Gate.sampleSignature⟩
    (s.receiveAll .standard calls).signature? Gate.sampleKey = some Gate.sampleSignature ∧
      (s.receiveAll .standard calls).isComplete .standard [owner] = true ∧
      (s.receiveAll .standard calls.reverse).isComplete .standard [owner] = true := by
  intro s calls owner
  obtain ⟨-, hcollected, hcomplete, -, hperm, -⟩ :=
    receiveAll_in_any_order .standard (s := s) rfl calls
  have hverify := Gate.verifyValue_sampleSignature
  rw [Primitives.verifyValue] at hverify
  have hthird : s.SucceedsAt .standard calls 2 Gate.sampleKey Gate.sampleSignature :=
    succeedsAt_iff.mpr ⟨rfl, hverify⟩
  have hlast : ∀ j other, 2 < j → ¬ s.SucceedsAt .standard calls j Gate.sampleKey other := by
    intro j other hj h
    have hlength : j < 4 := h.lt_length
    obtain rfl : j = 3 := by omega
    cases h.1
  have howner : (s.receiveAll .standard calls).isComplete .standard [owner] = true := by
    rw [hcomplete, List.forall_mem_singleton, hcollected.mem_keys_iff]
    exact ⟨2, _, hthird⟩
  refine ⟨(hcollected.signature?_eq_some_iff _ _).mpr ⟨2, hthird, hlast⟩, howner, ?_⟩
  rw [hperm _ (List.reverse_perm calls).symm, howner]

end PresignedStep

end FlowGate

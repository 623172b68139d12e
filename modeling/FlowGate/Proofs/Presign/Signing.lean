import FlowGate.Machine.OpTable
import FlowGate.Presign.Step

/-!
# Collecting signatures

A step stores one signature for each key, and only signatures that verify. So if every signature
that signers make verifies, then the step stores signatures for exactly their keys once all of them
have signed, however often a key occurs among them. A step is complete for other signers exactly if
these keys contain theirs.

## Main definitions

* `Signer.IsCorrect` — signers whose signatures verify
* `PresignedStep.SignedBy` — a step with signatures that verify for exactly the given keys

## Main results

* `PresignedStep.SignedBy.store` — storing a signature that verifies adds its key
* `PresignedStep.signAll_fst_eq_none_iff` — when all signers have signed
* `PresignedStep.exists_signAll_eq` — all signers sign in turn
* `PresignedStep.SignedBy.isComplete_iff` — for whom a step is complete
-/

namespace FlowGate

/-- A signer whose signatures verify under the key of the signer, over every message. -/
def Signer.IsCorrect (p : Primitives) (s : Signer) : Prop :=
  ∀ message, p.verify s.key message (s.sign message) = true

namespace PresignedStep

variable {p : Primitives} {s : PresignedStep} {key signature : Bytes} {keys : List Bytes}

/-! ### One signature -/

theorem signatures_store :
    (s.store key signature).signatures = Assoc.set s.signatures key signature := rfl

theorem signature?_store_self : (s.store key signature).signature? key = some signature :=
  Assoc.lookup_set_self _ _ _

theorem signature?_store_of_ne {other : Bytes} (h : other ≠ key) :
    (s.store key signature).signature? other = s.signature? other :=
  Assoc.lookup_set_of_ne _ _ h

theorem addSignature_eq_ok (hverify : p.verify key s.sighash signature = true) :
    s.addSignature p key signature = .ok (s.store key signature) := by
  rw [addSignature, hverify]
  rfl

theorem addSignature_eq_error (hverify : p.verify key s.sighash signature ≠ true) :
    s.addSignature p key signature = .error (.invalid .badSignature) := by
  rw [addSignature, eq_false_of_ne_true hverify]
  rfl

/-- A step with one signature for each of the given keys and for no other key, all of which verify
over the message of the step. -/
structure SignedBy (p : Primitives) (s : PresignedStep) (keys : List Bytes) : Prop where
  mem_keys_iff : ∀ key, key ∈ s.keys ↔ key ∈ keys
  nodup : s.keys.Nodup
  verifies : ∀ entry ∈ s.signatures, p.verify entry.1 s.sighash entry.2 = true

theorem signedBy_unsigned (p : Primitives) (code : Bytes) (value : Int) (sighash : Bytes) :
    (unsigned code value sighash).SignedBy p [] where
  mem_keys_iff _ := Iff.rfl
  nodup := List.nodup_nil
  verifies _ h := absurd h List.not_mem_nil

/-- Storing a signature that verifies adds its key, or replaces the signature of the key. -/
theorem SignedBy.store (h : s.SignedBy p keys) (hverify : p.verify key s.sighash signature = true) :
    (s.store key signature).SignedBy p (keys ++ [key]) where
  mem_keys_iff other := by
    rw [List.mem_append, List.mem_singleton, ← h.mem_keys_iff, PresignedStep.keys,
      PresignedStep.keys, signatures_store, Assoc.set, Assoc.erase]
    simp only [List.map_cons, List.mem_cons, List.mem_map, List.mem_filter, bne_iff_ne]
    constructor
    · rintro (rfl | ⟨entry, ⟨hentry, -⟩, rfl⟩)
      · exact .inr rfl
      · exact .inl ⟨entry, hentry, rfl⟩
    · rintro (⟨entry, hentry, rfl⟩ | rfl)
      · -- The old signature for the key is taken away, but the key has the new one.
        by_cases hkey : entry.1 = key
        · exact .inl hkey
        · exact .inr ⟨entry, ⟨hentry, hkey⟩, rfl⟩
      · exact .inl rfl
  nodup := by
    rw [PresignedStep.keys, signatures_store, Assoc.set, Assoc.erase, List.map_cons,
      List.nodup_cons]
    refine ⟨?_, h.nodup.sublist (List.filter_sublist.map Prod.fst)⟩
    simp
  verifies entry hentry := by
    rcases List.mem_cons.mp hentry with rfl | hentry
    · exact hverify
    · exact h.verifies entry (List.mem_filter.mp hentry).1

/-! ### All signers -/

/-- Signing changes nothing of a step but the signatures. -/
theorem signAll_eq (p : Primitives) (s : PresignedStep) (signers : List Signer) :
    (s.signAll p signers).2 = { s with signatures := (s.signAll p signers).2.signatures } := by
  induction signers generalizing s with
  | nil => rfl
  | cons x signers ih =>
    rw [signAll]
    by_cases hverify : p.verify x.key s.sighash (x.sign s.sighash) = true
    · rw [addSignature_eq_ok hverify]
      exact ih (s.store x.key (x.sign s.sighash))
    · rw [addSignature_eq_error hverify]

/-- All signers have signed exactly if their signatures verify. -/
theorem signAll_fst_eq_none_iff {signers : List Signer} :
    (s.signAll p signers).1 = none ↔
      ∀ x ∈ signers, p.verify x.key s.sighash (x.sign s.sighash) = true := by
  induction signers generalizing s with
  | nil => simp [signAll]
  | cons x signers ih =>
    rw [signAll, List.forall_mem_cons]
    by_cases hverify : p.verify x.key s.sighash (x.sign s.sighash) = true
    · rw [addSignature_eq_ok hverify]
      exact ih.trans (and_iff_right hverify).symm
    · rw [addSignature_eq_error hverify]
      simp [hverify]

/-- Signers whose signatures verify all sign: nothing of the step changes but the signatures, to
which those of the signers are added. -/
theorem exists_signAll_eq {signers : List Signer} (hcorrect : ∀ x ∈ signers, x.IsCorrect p)
    (h : s.SignedBy p keys) :
    ∃ signatures, s.signAll p signers = (none, { s with signatures }) ∧
      ({ s with signatures } : PresignedStep).SignedBy p (keys ++ signers.map Signer.key) := by
  -- The induction is on the signers that are still to sign.
  induction signers generalizing s keys with
  | nil =>
    rw [List.map_nil, List.append_nil]
    exact ⟨s.signatures, rfl, h⟩
  | cons x signers ih =>
    rw [List.forall_mem_cons] at hcorrect
    have hverify := hcorrect.1 s.sighash
    obtain ⟨signatures, hrest, hsigned⟩ := ih hcorrect.2 (h.store hverify)
    refine ⟨signatures, ?_, ?_⟩
    · rw [signAll, addSignature_eq_ok hverify]
      exact hrest
    · rw [List.append_assoc, List.singleton_append] at hsigned
      rw [List.map_cons]
      exact hsigned

/-! ### Completeness -/

theorem SignedBy.isSome_signature?_iff (h : s.SignedBy p keys) :
    (s.signature? key).isSome = true ↔ key ∈ keys := by
  rw [← h.mem_keys_iff, signature?, List.lookup_isSome_iff, PresignedStep.keys, List.mem_map]
  constructor
  · rintro ⟨entry, hentry, hkey⟩
    exact ⟨entry, hentry, (eq_of_beq hkey).symm⟩
  · rintro ⟨entry, hentry, rfl⟩
    exact ⟨entry, hentry, beq_self_eq_true _⟩

/-- A step is complete for signers whose keys have signed, and for no others. -/
theorem SignedBy.isComplete_iff (h : s.SignedBy p keys) {signers : List Signer} :
    s.isComplete p signers = true ↔ ∀ x ∈ signers, x.key ∈ keys := by
  rw [isComplete, List.all_eq_true]
  refine forall₂_congr fun x _ => ?_
  rw [← h.isSome_signature?_iff]
  cases hfound : s.signature? x.key with
  | none => simp
  | some signature =>
    simpa using h.verifies (x.key, signature) (Assoc.mem_of_lookup_eq_some hfound)

end PresignedStep

end FlowGate

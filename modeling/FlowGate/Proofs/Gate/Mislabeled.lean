import FlowGate.Proofs.Gate.FlowSelection

/-!
# Fragments that emit another order than they declare

A locking script keeps and compares nibbles in the order that its fragment declares. If the fragment
emits the other order, the script finds the digest the other way round: it does on every stack what
the script of a truthful fragment does for a hash whose digests are mirrored. So it compares its
nibbles with the end of the digest, from the last nibble backwards.

## Main definitions

* `Digest.mirror` — a digest with its nibbles in reverse
* `Primitives.mirrored` — the same primitives, with mirrored digests

## Main results

* `Gate.passEmitting_eq_ok_iff` — a script with the wrong order passes what one with the right order
  passes for mirrored digests
* `Gate.spends_codeEmitting_iff` — the same for witnesses that push items
* `Gate.exists_build_mislabeled_spends_iff` — when the witness of an input and a nonce spends
-/

namespace FlowGate

open Exec

/-! ### Mirrored digests -/

namespace Bytes

/-- A byte with its two nibbles swapped. -/
def swapNibbles (b : UInt8) : UInt8 := .ofNat (b.toNat % 16 * 16 + b.toNat / 16)

theorem toNat_swapNibbles (b : UInt8) :
    (swapNibbles b).toNat = b.toNat % 16 * 16 + b.toNat / 16 := by
  have hlt := b.toNat_lt
  rw [swapNibbles, UInt8.toNat_ofNat', Nat.mod_eq_of_lt (by omega)]

/-- Bytes in reverse, each with its nibbles swapped. -/
def mirror (bs : Bytes) : Bytes := (bs.map swapNibbles).reverse

theorem toNibbles_mirror (bs : Bytes) : (mirror bs).toNibbles = bs.toNibbles.reverse := by
  induction bs with
  | nil => rfl
  | cons b bs ih =>
    have hhigh : (swapNibbles b).toNat / 16 = b.toNat % 16 := by
      have hlt := b.toNat_lt
      rw [toNat_swapNibbles]
      omega
    have hlow : (swapNibbles b).toNat % 16 = b.toNat / 16 := by
      have hlt := b.toNat_lt
      rw [toNat_swapNibbles]
      omega
    have hmirror : mirror (b :: bs) = mirror bs ++ [swapNibbles b] := List.reverse_cons
    rw [hmirror, toNibbles_append, ih]
    simp [hhigh, hlow]

end Bytes

/-- The digest with its nibbles in reverse. -/
def Digest.mirror (digest : Digest) : Digest where
  bytes := digest.bytes.mirror
  length_bytes := by rw [Bytes.mirror, List.length_reverse, List.length_map, digest.length_bytes]

/-- The primitives with mirrored digests. -/
def Primitives.mirrored (p : Primitives) : Primitives where
  hash message := (p.hash message).mirror
  verify := p.verify

theorem Primitives.toNibbles_hash_mirrored (p : Primitives) (message : Bytes) :
    (p.mirrored.hash message).bytes.toNibbles = (p.hash message).bytes.toNibbles.reverse :=
  Bytes.toNibbles_mirror _

namespace Gate

variable {g : Gate} {p : Primitives} {m m' : Machine} {sighash : Value} {order emitted : NibbleOrder}

/-! ### Running with the wrong order -/

/-- There are two orders, and one is the reverse of the other. -/
theorem fromTop_of_ne (h : emitted ≠ order) (nibbles : List Nat) :
    fromTop emitted nibbles = fromTop order nibbles.reverse := by
  cases emitted <;> cases order <;> first | exact absurd rfl h | simp [fromTop, NibbleOrder.arrange]

/-- Hashing in the other order is hashing with mirrored digests. -/
theorem hashLimbs_eq_ok_iff_mirrored (h : emitted ≠ order) (hframe : m.frame = .ofSighash sighash) :
    hashLimbs emitted p m = .ok () m' ↔ hashLimbs order p.mirrored m = .ok () m' := by
  rw [hashLimbs_eq_ok_iff hframe, hashLimbs_eq_ok_iff hframe]
  simp only [fromTop_of_ne h, p.toNibbles_hash_mirrored]

/-- A locking script with the other order passes what one with the right order passes for mirrored
digests. -/
theorem passEmitting_eq_ok_iff (h : emitted ≠ g.order) (hframe : m.frame = .ofSighash sighash) :
    g.passEmitting emitted 64 p m = .ok () m' ↔ g.pass p.mirrored m = .ok () m' := by
  -- No part but the hash depends on the digests.
  refine bind_eq_ok_congr fun _ m₁ hcheck => bind_eq_ok_congr fun _ m₂ hcompare =>
    bind_eq_ok_congr fun _ m₃ hdrop => ?_
  obtain ⟨signature, items₁, -, -, -, rfl⟩ :=
    (checkSignature_eq_ok_iff g.length_key hframe).mp hcheck
  obtain ⟨number, items₂, n, -, -, -, -, rfl⟩ :=
    (compareThreshold_eq_ok_iff (by exact Machine.maxItems_of_frame hframe)
      (by exact Machine.maxItemSize_of_frame hframe)).mp hcompare
  obtain ⟨dropped, items₃, -, rfl⟩ := Operation.act_drop_eq_ok_iff.mp hdrop
  rw [bind_eq_ok_iff, bind_eq_ok_iff]
  refine exists_congr fun _ => exists_congr fun n => and_congr ?_ Iff.rfl
  exact hashLimbs_eq_ok_iff_mirrored h (by exact hframe)

/-- A witness that pushes items spends from a locking script with the other order if it spends, for
mirrored digests, from one with the right order. -/
theorem spends_codeEmitting_iff {witness : Bytes} {items : List Bytes} (h : emitted ≠ g.order)
    (hdoes : ∀ p, Machine.Does p .standard witness (forM items push)) :
    spends p .standard (g.codeEmitting emitted 64) witness sighash = true ↔
      spends p.mirrored .standard g.code witness sighash = true := by
  obtain ⟨instructions, hcut⟩ := (hdoes p).exists_cut
  rw [spends, spends, authorizes_append_iff OpTable.aligned_standard hcut,
    authorizes_append_iff OpTable.aligned_standard hcut]
  simp only [(hdoes p).interpret_eq, (hdoes p.mirrored).interpret_eq,
    (g.does_codeEmitting emitted 64 p).interpret_eq, (g.does_code p.mirrored).interpret_eq]
  -- Pushing leaves the sighash where it is, so the script can be told by its mirror image.
  refine exists_congr fun m => and_congr_right fun hpush => ?_
  have hframe : m.frame = .ofSighash sighash := by
    rw [← (hdoes p).interpret_eq] at hpush
    exact Machine.frame_of_interpret_eq_ok hpush
  simp only [passEmitting_eq_ok_iff h hframe]

/-! ### Inputs and nonces -/

/-- Nibbles start the reverse of a whole digest if they are its nibbles from the last one on. -/
theorem take_reverse_eq_iff {nibbles expected : List Nat} (hlength : nibbles.length = 64)
    (hcount : expected.length ≤ 64) :
    nibbles.reverse.take expected.length = expected ↔
      ∀ i < expected.length, expected[i]? = nibbles[63 - i]? := by
  -- Read from its end, a digest has its last nibble first.
  have hreverse : ∀ i < expected.length, (nibbles.reverse.take expected.length)[i]? =
      nibbles[63 - i]? := by
    intro i hi
    rw [List.getElem?_take_of_lt hi, List.getElem?_reverse (by omega), hlength]
  constructor
  · intro h i hi
    rw [← hreverse i hi, h]
  · intro h
    have htake : (nibbles.reverse.take expected.length).length = expected.length := by
      rw [List.length_take, List.length_reverse]
      omega
    apply List.ext_getElem? fun i => ?_
    by_cases hi : i < expected.length
    · rw [hreverse i hi, h i hi]
    · rw [List.getElem?_eq_none (by omega), List.getElem?_eq_none (by omega)]

/-- For a fragment that declares the order of a gate and the whole width, and emits the other order,
the locking script is built. The witness of an input and a nonce spends from it if the signature is
valid, the role accepts the input, and the nibbles of the gate are those of the digest from the last
one backwards. So if the nibbles of the gate start the digest, they have to be its end, reversed. -/
theorem exists_build_mislabeled_spends_iff (p : Primitives) (g : Gate) (sighash : Value)
    (fragment : Fragment) (horder : fragment.order = g.order)
    (hemitted : fragment.emitted ≠ fragment.order) (hwidth : fragment.digestNibbles = 64)
    {input nonce : Nat} {signature : Bytes} (hinput : input < 2 ^ 32) (hnonce : nonce < 2 ^ 64)
    (hsignature : signature.length ≤ 520) :
    ∃ locking w nibbles, (g.argsOf fragment).build .standard = .ok locking ∧
      Gate.witness .standard input nonce signature Fragment.limbLength = .ok w ∧
      (p.hash (Flow.message input nonce)).bytes.toNibbles = nibbles ∧
      (spends p .standard locking.code w.code sighash = true ↔
        p.verifyValue g.key sighash signature = true ∧ g.role.accepts input = true ∧
          ∀ i < g.nibbles.length, g.nibbles[i]? = nibbles[63 - i]?) ∧
      (g.nibbles = nibbles.take g.nibbles.length →
        (spends p .standard locking.code w.code sighash = true ↔
          p.verifyValue g.key sighash signature = true ∧ g.role.accepts input = true ∧
            nibbles.take g.nibbles.length =
              (nibbles.drop (64 - g.nibbles.length)).reverse)) := by
  obtain ⟨locking, hbuild, hcode⟩ :=
    g.exists_build_argsOf_eq horder (show fragment.digestNibbles = ((64 : Nat) : Int) from hwidth)
      g.length_nibbles_le
  obtain ⟨w, hw, hdoes⟩ :=
    exists_witness_eq hinput hnonce (Nat.le_trans hsignature (by decide : 520 ≤ Push.maxLength))
  have hlength : (p.hash (Flow.message input nonce)).bytes.toNibbles.length = 64 := by
    rw [Bytes.length_toNibbles, Digest.length_bytes]
  -- For mirrored digests this is a witness in front of a script with the right order.
  have hspends : spends p .standard locking.code w.code sighash = true ↔
      p.verifyValue g.key sighash signature = true ∧ g.role.accepts input = true ∧
        (p.hash (Flow.message input nonce)).bytes.toNibbles.reverse.take g.nibbles.length =
          g.nibbles := by
    rw [hcode, spends_codeEmitting_iff (horder ▸ hemitted) hdoes, spends_iff_of_does (hdoes _),
      and_iff_right (Offer.length_le_of_mem_ofFlow hinput nonce hsignature), admits_ofFlow_iff,
      p.toNibbles_hash_mirrored]
    rfl
  refine ⟨locking, w, _, hbuild, hw, rfl, ?_, fun hprefix => ?_⟩
  · rw [hspends, take_reverse_eq_iff hlength g.length_nibbles_le]
  · rw [hspends, ← hprefix, List.take_reverse, hlength, eq_comm (a := g.nibbles)]

/-- With the order mislabeled, the two nibbles that start the digest do not let the input 123
through, while the two that end it do, in reverse. -/
theorem exists_build_mislabeled_spends_iff_sample :
    ∃ start ending w,
      ((samplePair .firstDeepest 11 11).argsOf
        ⟨.none, .firstDeepest, .firstOnTop, 64⟩).build .standard = .ok start ∧
      ((samplePair .firstDeepest 4 3).argsOf
        ⟨.none, .firstDeepest, .firstOnTop, 64⟩).build .standard = .ok ending ∧
      Gate.witness .standard (123 : Nat) (0 : Nat) sampleSignature Fragment.limbLength = .ok w ∧
      spends .standard .standard start.code w.code (.bytes []) = false ∧
      spends .standard .standard ending.code w.code (.bytes []) = true := by
  have hsignature : sampleSignature.length ≤ 520 := by
    rw [length_sampleSignature]
    decide
  have hinput : 123 < 2 ^ 32 := by decide
  have hnonce : 0 < 2 ^ 64 := by decide
  obtain ⟨hfirst, hlast⟩ := toNibbles_hash_sample
  obtain ⟨start, w, nibbles, hstart, hw, hnibbles, -, hiffStart⟩ :=
    exists_build_mislabeled_spends_iff .standard (samplePair .firstDeepest 11 11) (.bytes [])
      ⟨.none, .firstDeepest, .firstOnTop, 64⟩ rfl (by decide) rfl hinput hnonce hsignature
  obtain ⟨ending, w', nibbles', hending, hw', hnibbles', hiffEnding, -⟩ :=
    exists_build_mislabeled_spends_iff .standard (samplePair .firstDeepest 4 3) (.bytes [])
      ⟨.none, .firstDeepest, .firstOnTop, 64⟩ rfl (by decide) rfl hinput hnonce hsignature
  -- The witness and its digest are the same for both gates.
  obtain rfl := Except.ok.inj (hw.symm.trans hw')
  obtain rfl : nibbles = nibbles' := hnibbles.symm.trans hnibbles'
  have hstarts : nibbles.take 2 = [11, 11] := by rw [← hnibbles]; exact hfirst
  have hends : nibbles.drop 62 = [3, 4] := by rw [← hnibbles]; exact hlast
  have hverify : Primitives.standard.verifyValue sampleKey (.bytes []) sampleSignature = true :=
    verifyValue_sampleSignature
  refine ⟨start, ending, w, hstart, hending, hw, Bool.eq_false_iff.mpr fun hspends => ?_,
    hiffEnding.mpr ⟨hverify, by decide, fun i hi => ?_⟩⟩
  · -- A gate for the first nibbles would compare the last ones.
    have hsame := ((hiffStart hstarts.symm).mp hspends).2.2
    change nibbles.take 2 = (nibbles.drop 62).reverse at hsame
    rw [hstarts, hends] at hsame
    exact absurd hsame (by decide)
  · -- The last nibbles are read off the end of the digest.
    have hread : ∀ i, nibbles[62 + i]? = [3, 4][i]? := fun i => by
      rw [← hends, List.getElem?_drop]
    match i, hi with
    | 0, _ => exact (hread 1).symm
    | 1, _ => exact (hread 0).symm

end Gate

end FlowGate

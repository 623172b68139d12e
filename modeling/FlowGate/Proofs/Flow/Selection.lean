import FlowGate.Flow.Puzzle
import FlowGate.Proofs.Bytes.Basic

/-!
# Flow ids as leading bytes

For a prefix of whole bytes, the flow id that a digest selects is the number of its leading bytes,
and the digest starts with the nibbles of a flow id if it selects that flow.

## Main results

* `Flow.idNibbles_eq` — the nibbles of a flow id are those of its leading bytes
* `Puzzle.labelOf_eq` — the label of a digest is the number of its leading bytes
* `Puzzle.take_toNibbles_eq_iff` — which digests start with the nibbles of a flow id
* `Flow.select_eq`, `Flow.exists_select_eq_ok_iff` — what is selected, and when it is a given flow
-/

namespace FlowGate

namespace Flow

/-- The widths of prefixes are those of up to four whole bytes. -/
theorem exists_eq_of_mem_widths {b : Nat} (hb : b ∈ [0, 8, 16, 24, 32]) :
    ∃ k, k ≤ 4 ∧ b = 8 * k := by
  simp only [List.mem_cons, List.not_mem_nil, or_false] at hb
  exact ⟨b / 8, by omega, by omega⟩

/-- The number of bytes of a prefix of whole bytes. -/
theorem wholeBytes_eq {k : Nat} (hk : k ≤ 4) : wholeBytes ((8 * k : Nat) : Int) = .ok k := by
  have hrange : (0 ≤ ((8 * k : Nat) : Int) && decide (((8 * k : Nat) : Int) ≤ 32)) = true := by
    rw [Bool.and_eq_true, decide_eq_true_eq, decide_eq_true_eq]
    omega
  have hmultiple : (((8 * k : Nat) : Int) % 8 == 0) = true := by
    rw [beq_iff_eq]
    omega
  have hdiv : (((8 * k : Nat) : Int) / 8).toNat = k := by omega
  rw [wholeBytes, hrange, hmultiple, hdiv]
  rfl

/-- The leading bytes of a flow id are its form of their width. -/
theorem idBytes_eq {k flowId : Nat} (hk : k ≤ 4) (hflowId : flowId < 2 ^ 32) :
    idBytes k flowId = .ok (Bytes.ofNat k flowId) := by
  have hrange : (0 ≤ (flowId : Int) && decide ((flowId : Int) < 2 ^ 32)) = true := by
    rw [Bool.and_eq_true, decide_eq_true_eq, decide_eq_true_eq]
    omega
  rw [idBytes, hrange, ensure_true, ← Bytes.take_ofNat hk, Int.toNat_natCast]
  rfl

/-- A flow id has nibbles if its width and its bytes are accepted. -/
theorem idNibbles_eq_ok {b flowId : Int} {k : Nat} {bytes : Bytes} (hk : wholeBytes b = .ok k)
    (hbytes : idBytes k flowId = .ok bytes) : idNibbles flowId b = .ok bytes.toNibbles := by
  simp only [idNibbles, hk, hbytes, bind, Except.bind, pure, Except.pure]

/-- The nibbles of a flow id are those of its leading bytes. -/
theorem idNibbles_eq {k flowId : Nat} (hk : k ≤ 4) (hflowId : flowId < 2 ^ 32) :
    idNibbles flowId ((8 * k : Nat) : Int) = .ok (Bytes.ofNat k flowId).toNibbles :=
  idNibbles_eq_ok (wholeBytes_eq hk) (idBytes_eq hk hflowId)

/-- Flow ids of 32 bits have nibbles for every prefix of whole bytes within their width. -/
theorem exists_idNibbles_eq {b flowId : Nat} (hb : b ≤ 32) (hmultiple : b % 8 = 0)
    (hflowId : flowId < 2 ^ 32) :
    ∃ nibbles, idNibbles flowId b = .ok nibbles ∧ nibbles.length ≤ 64 ∧
      ∀ n ∈ nibbles, n < 16 := by
  obtain ⟨k, rfl⟩ : ∃ k, b = 8 * k := ⟨b / 8, by omega⟩
  refine ⟨_, idNibbles_eq (by omega) hflowId, ?_, fun n hn => Bytes.lt_of_mem_toNibbles hn⟩
  rw [Bytes.length_toNibbles, Bytes.length_ofNat]
  omega

/-- An input of 32 bits and a nonce of 64 bits have a message. -/
theorem message?_eq {input nonce : Nat} (hinput : input < 2 ^ 32) (hnonce : nonce < 2 ^ 64) :
    message? input nonce = .ok (message input nonce) := by
  have hinput' : (0 ≤ (input : Int) && decide ((input : Int) < 2 ^ 32)) = true := by
    rw [Bool.and_eq_true, decide_eq_true_eq, decide_eq_true_eq]
    omega
  have hnonce' : (0 ≤ (nonce : Int) && decide ((nonce : Int) ≤ maxNonce)) = true := by
    rw [Bool.and_eq_true, decide_eq_true_eq, decide_eq_true_eq]
    simp only [maxNonce]
    omega
  rw [message?, hinput', hnonce']
  rfl

end Flow

namespace Puzzle

/-- The label of a digest is the number of its leading bytes. -/
theorem labelOf_eq {p : Puzzle} {k : Nat} (hk : k ≤ 4) (hb : p.b = 8 * k) (digest : Digest) :
    p.labelOf digest = Bytes.toNat (digest.bytes.take k) := by
  have hmask : Flow.mask p.b = 2 ^ (8 * k) - 1 := by
    rw [Flow.mask, hb]
    split
    · obtain rfl : k = 4 := by omega
      rfl
    · rfl
  -- Masking cuts off all digits to the base 256 but the lowest.
  have hpow : 2 ^ (8 * k) = 256 ^ k := Nat.pow_mul 2 8 k
  have htake : (digest.bytes.take 4).take k = digest.bytes.take k := by
    rw [List.take_take, Nat.min_eq_left hk]
  rw [labelOf, hmask, Nat.and_two_pow_sub_one_eq_mod, hpow, ← Bytes.toNat_take, htake]

/-- A digest starts with the nibbles of a flow id if it selects that flow. -/
theorem take_toNibbles_eq_iff {p : Puzzle} {k flowId : Nat} (hk : k ≤ 4) (hb : p.b = 8 * k)
    (hflowId : flowId < 256 ^ k) (digest : Digest) :
    digest.bytes.toNibbles.take (Bytes.ofNat k flowId).toNibbles.length =
      (Bytes.ofNat k flowId).toNibbles ↔ p.labelOf digest = flowId := by
  have hlength : (digest.bytes.take k).length = k := by
    rw [List.length_take, Digest.length_bytes]
    omega
  rw [labelOf_eq hk hb, Bytes.length_toNibbles, Bytes.length_ofNat, Bytes.take_toNibbles]
  constructor
  · intro hnibbles
    have hbytes := Bytes.toNibbles_injective hnibbles
    rw [hbytes, Bytes.toNat_ofNat, Nat.mod_eq_of_lt hflowId]
  · intro hlabel
    have hbytes := Bytes.ofNat_toNat (digest.bytes.take k)
    rw [hlength, hlabel] at hbytes
    rw [hbytes]

end Puzzle

namespace Flow

variable {hash : Bytes → Digest} {input nonce : Nat}

/-- The checks pass for an input of 32 bits and a nonce of 64 bits. -/
theorem checkPuzzle_eq (hinput : input < 2 ^ 32) (hnonce : nonce < 2 ^ 64) (b l : Nat) :
    checkPuzzle input nonce b l = .ok ⟨input, b, l⟩ := by
  have hnatural : ∀ n : Nat, decide (0 ≤ (n : Int)) = true := fun n =>
    decide_eq_true (Int.natCast_nonneg n)
  rw [checkPuzzle, hnatural, message?_eq hinput hnonce, mask?, hnatural]
  rfl

/-- What is selected is what the nonce gives. -/
theorem select_eq (hinput : input < 2 ^ 32) (hnonce : nonce < 2 ^ 64) (b l : Nat) :
    select hash input nonce b l =
      match (Puzzle.mk input b l).attempt hash nonce with
      | .hit found => .ok found
      | .miss label digest => .error (.outOfRange label digest (2 ^ l)) := by
  rw [select, checkPuzzle_eq hinput hnonce]
  rfl

/-- A flow is selected if it is the label of the digest and within the id space. -/
theorem exists_select_eq_ok_iff {flowId : Nat} (hinput : input < 2 ^ 32) (hnonce : nonce < 2 ^ 64)
    (b l : Nat) :
    (∃ s, select hash input nonce b l = .ok s ∧ s.flowId = flowId) ↔
      flowId < 2 ^ l ∧ (Puzzle.mk input b l).labelOf (hash (message input nonce)) = flowId := by
  rw [select_eq hinput hnonce]
  -- A hit is the label itself; a miss is outside the id space, where the flow id is not.
  cases hattempt : (Puzzle.mk input b l).attempt hash nonce with
  | hit found =>
    obtain ⟨hvalid, rfl⟩ := Puzzle.attempt_eq_hit_iff.mp hattempt
    constructor
    · rintro ⟨s, hs, hflowId⟩
      obtain rfl := Except.ok.inj hs
      exact ⟨hflowId ▸ hvalid, hflowId⟩
    · rintro ⟨-, hlabel⟩
      exact ⟨_, rfl, hlabel⟩
  | miss label digest =>
    constructor
    · rintro ⟨s, hs, -⟩
      cases hs
    · rintro ⟨hlt, hlabel⟩
      have hvalid : (Puzzle.mk input b l).IsValid hash nonce := by
        rw [Puzzle.IsValid, hlabel]
        exact hlt
      have hhit := Puzzle.attempt_eq_hit_iff.mpr ⟨hvalid, rfl⟩
      rw [hattempt] at hhit
      cases hhit

end Flow

end FlowGate

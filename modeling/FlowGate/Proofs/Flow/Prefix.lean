import FlowGate.Checked.Flow
import FlowGate.Hash.Blake3
import FlowGate.Proofs.Bytes.Nibbles
import FlowGate.Proofs.Flow.Selection

/-!
# Prefixes of flow ids and of digests

A flow is selected by the low bits of a little-endian word of the digest, and a script compares the
leading nibbles of the digest with those of the flow id. Both cut the same prefix: a digest selects
the number of its leading bytes, and the nibbles of this flow id are those of the bytes.

## Main results

* `Checked.idNibbles_eq`, `Checked.digestNibbles_eq` — the nibbles of flow ids and of digests
* `Checked.select_int` — selecting flows for values that are integers
* `Flow.select_eq_ite` — a digest selects the number of its leading bytes, or nothing
* `Flow.select_cuts_prefix` — the flow that is selected has the nibbles that the digest starts with
* `Checked.nibbles_roundTrip` — nibbles and byte strings, and the nibbles of flow ids
-/

namespace FlowGate

namespace Checked

/-! ### Nibbles -/

theorem idNibbles_int (flowId b : Int) :
    idNibbles (.int flowId) (.int b) = Flow.idNibbles flowId b := by
  have hwidth : wholeBytes (.int b) = Flow.wholeBytes b := rfl
  rw [idNibbles, idBytes, hwidth, Flow.idNibbles]
  cases Flow.wholeBytes b <;> rfl

/-- The nibbles of a flow id are those of its leading bytes. -/
theorem idNibbles_eq {k flowId : Nat} (hk : k ≤ 4) (hflowId : flowId < 2 ^ 32) :
    idNibbles (.int flowId) (.int (8 * k : Nat)) = .ok (Bytes.ofNat k flowId).toNibbles := by
  rw [idNibbles_int, Flow.idNibbles_eq hk hflowId]

/-- The nibbles that a digest starts with are those of its leading bytes. -/
theorem digestNibbles_eq {k : Nat} (hk : k ≤ 4) (digest : Digest) :
    digestNibbles (.bytes digest.bytes) (.int (8 * k : Nat)) =
      .ok (Bytes.toNibbles (digest.bytes.take k)) := by
  have hlength : decide (k ≤ digest.bytes.length) = true := by
    rw [Digest.length_bytes, decide_eq_true_eq]
    omega
  have hwidth : wholeBytes (.int (8 * k : Nat)) = .ok k := Flow.wholeBytes_eq hk
  rw [digestNibbles, bind_of_eq_ok hwidth]
  change Flow.digestNibbles k digest.bytes = _
  rw [Flow.digestNibbles, hlength]
  rfl

/-! ### Integers as values -/

theorem toInt_int (what : String) (n : Int) : (Value.int n).toInt what = .ok n := rfl

/-- Integers pass a comparison that holds. -/
theorem demand_int {c : Comparison} {m n : Int} {error : Error}
    (h : (Number.whole m).stands c (.whole n) = true) :
    Value.demand c (.int m) (.int n) error = .ok () := by
  rw [Value.demand, bind_of_eq_ok (Value.compare_int c m n), h, ensure_true]

/-- Integers are exponents as long as they are within the limit. -/
theorem exponent_int {n : Int} (h : n < exponentLimit) : exponent (.int n) = .ok n := by
  simp only [exponent, Value.number?, if_pos h]

/-- A prefix keeps its width within a word, and has the width of a word beyond it. -/
theorem maskWidth_int (b : Nat) : maskWidth (.int b) = .ok (min b 32 : Nat) := by
  have hpos : (Number.whole b).stands .atLeast (.whole 0) = true := by
    rw [Number.stands_whole_atLeast, decide_eq_true_eq]
    exact Int.natCast_nonneg b
  rw [maskWidth, bind_of_eq_ok (demand_int hpos),
    bind_of_eq_ok (Value.compare_int .atLeast b 32), Number.stands_whole_atLeast]
  by_cases hwhole : 32 ≤ b
  · rw [decide_eq_true (by omega), if_pos rfl, Nat.min_eq_right hwhole]
    rfl
  · have hlt : (b : Int) < exponentLimit := by
      rw [exponentLimit]
      omega
    rw [decide_eq_false (by omega), if_neg Bool.false_ne_true, exponent_int hlt,
      Nat.min_eq_left (by omega)]

/-- Integers of which a power of two can be formed make a puzzle. -/
theorem puzzle_int {input nonce l : Nat} (hinput : input < 2 ^ 32) (hnonce : nonce < 2 ^ 64)
    (b : Nat) (hl : (l : Int) < exponentLimit) :
    puzzle (.int input) (.int nonce) (.int b) (.int l) =
      .ok ((input : Int), (nonce : Int), ((min b 32 : Nat) : Int), (l : Int)) := by
  have hpos : (Number.whole l).stands .atLeast (.whole 0) = true := by
    rw [Number.stands_whole_atLeast, decide_eq_true_eq]
    exact Int.natCast_nonneg l
  rw [puzzle, bind_of_eq_ok (demand_int hpos), bind_of_eq_ok (toInt_int "input" input),
    bind_of_eq_ok (toInt_int "nonce" nonce), bind_of_eq_ok (Flow.message?_eq hinput hnonce),
    bind_of_eq_ok (maskWidth_int b), bind_of_eq_ok (exponent_int hl)]
  rfl

/-- For integers of which a power of two can be formed, flows are selected as they are without
looking at kinds. -/
theorem select_int (hash : Bytes → Digest) {input nonce b l : Nat} (hinput : input < 2 ^ 32)
    (hnonce : nonce < 2 ^ 64) (hb : b ≤ 32) (hl : (l : Int) < exponentLimit) :
    select hash (.int input) (.int nonce) (.int b) (.int l) = Flow.select hash input nonce b l := by
  rw [select, bind_of_eq_ok (puzzle_int hinput hnonce b hl), Nat.min_eq_left hb]

end Checked

namespace Flow

variable (hash : Bytes → Digest) {input nonce b : Nat}

/-- A digest selects the number of its leading bytes, if this is within the id space. -/
theorem select_eq_ite {k : Nat} (hk : k ≤ 4) (hinput : input < 2 ^ 32) (hnonce : nonce < 2 ^ 64)
    (l : Nat) {digest : Digest} (hdigest : hash (message input nonce) = digest) :
    select hash input nonce (8 * k : Nat) l =
      if Bytes.toNat (digest.bytes.take k) < 2 ^ l then
        .ok ⟨nonce, digest, Bytes.toNat (digest.bytes.take k)⟩
      else .error (.outOfRange (Bytes.toNat (digest.bytes.take k)) digest (2 ^ l)) := by
  have hlabel := Puzzle.labelOf_eq (p := ⟨input, 8 * k, l⟩) hk rfl digest
  rw [select_eq hinput hnonce, Puzzle.attempt, hdigest, hlabel, Puzzle.idSpace]
  by_cases hinside : Bytes.toNat (digest.bytes.take k) < 2 ^ l
  · rw [if_pos hinside, if_pos hinside]
  · rw [if_neg hinside, if_neg hinside]

/-- For a prefix of whole bytes nothing is selected exactly if the number of the leading bytes of the
digest is outside the id space. Otherwise this number is selected. It is within the id space and
within the width of the prefix, and its nibbles are those that the digest starts with. -/
theorem select_cuts_prefix (hinput : input < 2 ^ 32) (hnonce : nonce < 2 ^ 64)
    (hb : b ∈ [0, 8, 16, 24, 32]) (l : Nat) {digest : Digest}
    (hdigest : hash (message input nonce) = digest) :
    ((∃ label shown bound, select hash input nonce b l = .error (.outOfRange label shown bound)) ↔
      2 ^ l ≤ Bytes.toNat (digest.bytes.take (b / 8))) ∧
    (Bytes.toNat (digest.bytes.take (b / 8)) < 2 ^ l →
      ∃ s nibbles, select hash input nonce b l = .ok s ∧
        s.nonce = nonce ∧ s.digest = digest ∧
        s.flowId = Bytes.toNat (digest.bytes.take (b / 8)) ∧ s.flowId < 2 ^ l ∧ s.flowId < 2 ^ b ∧
        Checked.idNibbles (.int s.flowId) (.int b) = .ok nibbles ∧
        Checked.digestNibbles (.bytes s.digest.bytes) (.int b) = .ok nibbles) ∧
    ((l : Int) < Checked.exponentLimit →
      Checked.select hash (.int input) (.int nonce) (.int b) (.int l) =
        select hash input nonce b l) := by
  obtain ⟨k, hk, rfl⟩ := exists_eq_of_mem_widths hb
  rw [Nat.mul_div_cancel_left k (by decide)]
  have hselect := select_eq_ite hash hk hinput hnonce l hdigest
  have hlength : (digest.bytes.take k).length = k := by
    rw [List.length_take, Digest.length_bytes]
    omega
  have hlt : Bytes.toNat (digest.bytes.take k) < 2 ^ (8 * k) := by
    have hbytes := Bytes.toNat_lt (digest.bytes.take k)
    rwa [hlength, ← show 2 ^ (8 * k) = 256 ^ k from Nat.pow_mul 2 8 k] at hbytes
  have hword : 2 ^ (8 * k) ≤ 2 ^ 32 := Nat.pow_le_pow_right (by decide) (by omega)
  refine ⟨?_, fun hinside => ?_, Checked.select_int hash hinput hnonce (by omega)⟩
  · by_cases hinside : Bytes.toNat (digest.bytes.take k) < 2 ^ l
    · rw [hselect, if_pos hinside]
      simp [hinside]
    · rw [hselect, if_neg hinside]
      exact ⟨fun _ => Nat.le_of_not_lt hinside, fun _ => ⟨_, _, _, rfl⟩⟩
  · rw [hselect, if_pos hinside]
    refine ⟨_, _, rfl, rfl, rfl, rfl, hinside, hlt, ?_, Checked.digestNibbles_eq hk digest⟩
    -- The leading bytes are the little-endian form of their number.
    have hform := Bytes.ofNat_toNat (digest.bytes.take k)
    rw [hlength] at hform
    rw [Checked.idNibbles_eq hk (Nat.lt_of_lt_of_le hlt hword), hform]

/-- With the input 123 the nonce 3545 selects the flow 13 of 16, whose nibbles the digest starts
with, and no flow of 8. -/
theorem select_cuts_prefix_sample :
    (∃ s, select Blake3.hash (123 : Nat) (3545 : Nat) (16 : Nat) (4 : Nat) = .ok s ∧
      s.flowId = 13 ∧ Checked.digestNibbles (.bytes s.digest.bytes) (.int (16 : Nat)) =
        .ok [0, 13, 0, 0]) ∧
    ∃ label shown bound, select Blake3.hash (123 : Nat) (3545 : Nat) (16 : Nat) (3 : Nat) =
      .error (.outOfRange label shown bound) := by
  have hnumber : Bytes.toNat ((Blake3.hash (message 123 3545)).bytes.take (16 / 8)) = 13 := by
    have hlength : (message 123 3545).length ≤ 64 := by decide
    rw [Blake3.hash_of_length_le hlength]
    decide +kernel
  have hcuts := fun l => select_cuts_prefix Blake3.hash (show 123 < 2 ^ 32 by decide)
    (show 3545 < 2 ^ 64 by decide) (show 16 ∈ [0, 8, 16, 24, 32] by decide) l rfl
  simp only [hnumber] at hcuts
  obtain ⟨-, hhit, -⟩ := hcuts 4
  obtain ⟨s, nibbles, hs, -, -, hflowId, -, -, hid, hdigest⟩ := hhit (by decide)
  refine ⟨⟨s, hs, hflowId, ?_⟩, (hcuts 3).1.mpr (by decide)⟩
  have hnibbles : Checked.idNibbles (.int (13 : Nat)) (.int (16 : Nat)) = .ok [0, 13, 0, 0] := rfl
  rw [hflowId, hnibbles] at hid
  rw [hdigest, ← hid]

end Flow

/-! ### Round trips -/

namespace Checked

/-- The nibbles of a flow id, paired, spell its low bits. -/
theorem exists_idNibbles_eq {k flowId : Nat} (hk : k ≤ 4) (hflowId : flowId < 2 ^ 32) :
    ∃ nibbles data, idNibbles (.int flowId) (.int (8 * k : Nat)) = .ok nibbles ∧
      nibbles.length = 2 * k ∧ ofNibbles (.list (nibbles.map fun n : Nat => .int n)) = .ok data ∧
      Bytes.toNat data = flowId % 2 ^ (8 * k) := by
  refine ⟨_, Bytes.ofNat k flowId, idNibbles_eq hk hflowId, ?_, ofNibbles_list_eq_ok_iff.mpr rfl, ?_⟩
  · rw [Bytes.length_toNibbles, Bytes.length_ofNat]
  · rw [Bytes.toNat_ofNat, Nat.pow_mul]

/-- Splitting a byte string gives twice as many nibbles, which are paired to it again. Values can be
paired exactly if their number is even and all are integers between 0 and 15, and splitting what
they are paired to gives them back. And a flow id has a nibble for every four bits of the prefix:
paired they spell its low bits, so flow ids within the width of the prefix have nibbles of their
own. -/
theorem nibbles_roundTrip :
    (∀ data : Bytes, ∃ nibbles, toNibbles (.bytes data) = .ok nibbles ∧
      nibbles.length = 2 * data.length ∧ (∀ n ∈ nibbles, n ≤ 15) ∧
      ofNibbles (.list (nibbles.map fun n : Nat => .int n)) = .ok data) ∧
    (∀ values : List Value,
      ((∃ data, ofNibbles (.list values) = .ok data) ↔
        values.length % 2 = 0 ∧ ∀ v ∈ values, ∃ n : Int, v = .int n ∧ 0 ≤ n ∧ n ≤ 15) ∧
      ∀ data, ofNibbles (.list values) = .ok data →
        ∃ nibbles, toNibbles (.bytes data) = .ok nibbles ∧
          nibbles.map (fun n : Nat => Value.int n) = values) ∧
    ∀ b : Nat, b ∈ [0, 8, 16, 24, 32] →
      (∀ flowId : Nat, flowId < 2 ^ 32 →
        ∃ nibbles data, idNibbles (.int flowId) (.int b) = .ok nibbles ∧
          nibbles.length = b / 4 ∧
          ofNibbles (.list (nibbles.map fun n : Nat => .int n)) = .ok data ∧
          Bytes.toNat data = flowId % 2 ^ b) ∧
      ∀ flowId flowId' : Nat, flowId < 2 ^ b → flowId' < 2 ^ b →
        idNibbles (.int flowId) (.int b) = idNibbles (.int flowId') (.int b) →
          flowId = flowId' := by
  refine ⟨fun data => ?_, fun values => ⟨exists_ofNibbles_list_iff, fun data hdata => ?_⟩,
    fun b hb => ?_⟩
  · refine ⟨_, toNibbles_bytes data, Bytes.length_toNibbles data, fun n hn => ?_,
      ofNibbles_list_eq_ok_iff.mpr rfl⟩
    exact Nat.le_of_lt_succ (Bytes.lt_of_mem_toNibbles hn)
  · exact ⟨_, toNibbles_bytes data, (ofNibbles_list_eq_ok_iff.mp hdata).symm⟩
  · obtain ⟨k, hk, rfl⟩ := Flow.exists_eq_of_mem_widths hb
    rw [show 8 * k / 4 = 2 * k by omega]
    refine ⟨fun flowId hflowId => exists_idNibbles_eq hk hflowId,
      fun flowId flowId' hflowId hflowId' hsame => ?_⟩
    -- The same nibbles are paired to the same bytes, which spell both flow ids.
    have hword : 2 ^ (8 * k) ≤ 2 ^ 32 := Nat.pow_le_pow_right (by decide) (by omega)
    obtain ⟨nibbles, data, hnibbles, -, hdata, hnat⟩ :=
      exists_idNibbles_eq hk (Nat.lt_of_lt_of_le hflowId hword)
    obtain ⟨nibbles', data', hnibbles', -, hdata', hnat'⟩ :=
      exists_idNibbles_eq hk (Nat.lt_of_lt_of_le hflowId' hword)
    rw [hnibbles, hnibbles'] at hsame
    rw [Except.ok.inj hsame, hdata'] at hdata
    rw [Except.ok.inj hdata, hnat, Nat.mod_eq_of_lt hflowId, Nat.mod_eq_of_lt hflowId'] at hnat'
    exact hnat'

/-- The flow id 0x0d00 has the nibbles 0, 0, 0 and 13 for a prefix of two bytes. Paired they spell it
again, and the flow id above it has other nibbles. -/
theorem nibbles_roundTrip_sample :
    (∃ data, idNibbles (.int (0x0d00 : Nat)) (.int (16 : Nat)) = .ok [0, 0, 0, 13] ∧
      ofNibbles (.list [.int 0, .int 0, .int 0, .int 13]) = .ok data ∧
      toNibbles (.bytes data) = .ok [0, 0, 0, 13] ∧ Bytes.toNat data = 0x0d00) ∧
    idNibbles (.int (0x0d00 : Nat)) (.int (16 : Nat)) ≠
      idNibbles (.int (0x0d01 : Nat)) (.int (16 : Nat)) := by
  obtain ⟨-, hpairs, hflows⟩ := nibbles_roundTrip
  obtain ⟨hround, hinjective⟩ := hflows 16 (by decide)
  obtain ⟨nibbles, data, hnibbles, -, hdata, hnat⟩ := hround 0x0d00 (by decide)
  have hread : idNibbles (.int (0x0d00 : Nat)) (.int (16 : Nat)) = .ok [0, 0, 0, 13] := rfl
  obtain rfl : nibbles = [0, 0, 0, 13] := Except.ok.inj (hnibbles.symm.trans hread)
  refine ⟨⟨data, hread, hdata, ?_, hnat⟩, fun hsame => ?_⟩
  · obtain ⟨back, hback, hvalues⟩ := (hpairs _).2 data hdata
    have hint : ∀ m n : Nat, Value.int m = .int n → m = n :=
      fun _ _ h => Int.ofNat.inj (Value.int.inj h)
    rw [hback, (List.map_inj_right hint).mp hvalues]
  · exact absurd (hinjective 0x0d00 0x0d01 (by decide) (by decide) hsame) (by decide)

end Checked

end FlowGate

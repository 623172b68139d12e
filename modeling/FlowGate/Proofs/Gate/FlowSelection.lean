import FlowGate.Proofs.Gate.Witness

/-!
# Opening the flow that is selected

The gate of a flow lets the witness of an input and a nonce pass if the signature is valid, the role
accepts the input, and the flow is the one that input and nonce select.

## Main definitions

* `Primitives.ofScheme` — the primitives of a hash function and a signature scheme
* `Opening` — an attempt to open the gates of flows
* `Opening.opens` — builds the script of a flow and the witness, and runs them

## Main results

* `Gate.admits_ofFlow_iff` — when a gate admits the offer of an input and a nonce
* `Opening.exists_opens_eq` — both are built, and the witness spends if its offer is admitted
* `Opening.opens_iff_selects` — an opening opens exactly the flow that it selects
-/

namespace FlowGate

namespace Primitives

/-- The primitives of a hash function and a signature scheme. The scheme is asked only about keys
and signatures of the right length. -/
def ofScheme (hash : Bytes → Digest) (check : (key message signature : Bytes) → Bool) :
    Primitives where
  hash := hash
  verify key message signature :=
    key.length == keyLength && signature.length == signatureLength && check key message signature

/-- The standard primitives check the lengths themselves. -/
theorem ofScheme_standard : ofScheme Blake3.hash Ed25519.verify = standard := by
  have hverify : (ofScheme Blake3.hash Ed25519.verify).verify = standard.verify := by
    funext key message signature
    simp only [ofScheme, standard, Ed25519.verify, keyLength, signatureLength]
    split <;> simp_all
  exact congrArg (Primitives.mk Blake3.hash) hverify

/-- A valid signature has the length of a signature. -/
theorem length_of_verifyValue_ofScheme {hash : Bytes → Digest}
    {check : (key message signature : Bytes) → Bool} {key signature : Bytes} {sighash : Value}
    (h : (ofScheme hash check).verifyValue key sighash signature = true) :
    signature.length = signatureLength := by
  cases sighash with
  | bytes message =>
    simp only [verifyValue, ofScheme, Bool.and_eq_true, beq_iff_eq] at h
    exact h.1.2
  | _ => cases h

end Primitives

/-- A number that is pushed is admitted if the role accepts it. -/
theorem GateRole.exists_decode_encode_iff {role : GateRole} {n : Int} :
    (∃ k, ScriptNumber.decode ScriptNumber.operandSize (ScriptNumber.encode n) = .ok k ∧
      role.accepts k = true) ↔ role.accepts n = true := by
  by_cases hlength : (ScriptNumber.encode n).length ≤ 4
  · rw [ScriptNumber.decode_operand_of_length_le hlength]
    constructor
    · rintro ⟨k, hk, haccepts⟩
      rwa [Except.ok.inj hk]
    · intro haccepts
      exact ⟨n, rfl, haccepts⟩
  · -- The role never accepts what is no number of four bytes.
    have hlong := Nat.lt_of_not_le hlength
    rw [ScriptNumber.decode_operand_of_lt_length hlong,
      role.accepts_eq_false_of_length hlong]
    simp

/-! ### Offers of inputs and nonces -/

/-- The items of the offer of an input and a nonce are of allowed size if the signature is. -/
theorem Offer.length_le_of_mem_ofFlow {input : Nat} (hinput : input < 2 ^ 32) (nonce : Nat)
    {signature : Bytes} (h : signature.length ≤ 520) :
    ∀ item ∈ (ofFlow input nonce signature).toList, item.length ≤ 520 := by
  have hnumber : (ScriptNumber.encode input).length ≤ 4 + 1 := by
    rw [ScriptNumber.length_encode_le_iff]
    omega
  simp only [ofFlow, toList, List.forall_mem_cons, List.length_take, List.length_drop,
    Bytes.length_ofNat]
  exact ⟨by decide, by decide, by decide, by omega, h, List.forall_mem_nil _⟩

/-- A gate admits the offer of an input and a nonce if the signature is valid, the role accepts the
input, and the digest of their message starts with the nibbles of the gate. -/
theorem Gate.admits_ofFlow_iff {g : Gate} {p : Primitives} {sighash : Value} {input nonce : Nat}
    {signature : Bytes} :
    g.Admits p sighash (.ofFlow input nonce signature) ↔
      p.verifyValue g.key sighash signature = true ∧ g.role.accepts input = true ∧
        (p.hash (Flow.message input nonce)).bytes.toNibbles.take g.nibbles.length = g.nibbles := by
  constructor
  · rintro ⟨hverify, hdecode, -, hnibbles⟩
    rw [Offer.message_ofFlow] at hnibbles
    exact ⟨hverify, GateRole.exists_decode_encode_iff.mp hdecode, hnibbles⟩
  · rintro ⟨hverify, haccepts, hnibbles⟩
    refine ⟨hverify, GateRole.exists_decode_encode_iff.mpr haccepts, ?_, ?_⟩
    · rw [Offer.message_ofFlow, Flow.length_message]
    · rwa [Offer.message_ofFlow]

/-! ### Openings -/

/-- An attempt to open the gates of flows: what their scripts have in common, and what the witness
is made for. -/
structure Opening where
  role : GateRole
  key : Bytes
  order : NibbleOrder
  input : Nat
  nonce : Nat
  signature : Bytes
  length_key : key.length = Primitives.keyLength
  input_lt : input < 2 ^ 32
  nonce_lt : nonce < 2 ^ 64
  length_signature_lt : signature.length < 2 ^ 32

namespace Opening

/-- Builds the locking script of a flow and the witness, and tells whether the witness spends. -/
def opens (o : Opening) (p : Primitives) (sighash : Value) (b flowId : Int) :
    Except Error Bool := do
  let nibbles ← Flow.idNibbles flowId b
  let locking ← LockingArgs.build .standard (.ofNibbles o.role o.key o.order nibbles)
  let witness ← Gate.witness .standard o.input o.nonce o.signature Fragment.limbLength
  return Gate.spends p .standard locking.code witness.code sighash

/-- The gate that an opening has for a flow with a prefix of up to four bytes. -/
def gate (o : Opening) {k : Nat} (hk : k ≤ 4) (flowId : Nat) : Gate :=
  .ofFlowId o.role o.length_key o.order hk flowId

/-- The offer that the witness pushes. -/
def offer (o : Opening) : Offer := .ofFlow o.input o.nonce o.signature

variable {o : Opening} {p : Primitives} {sighash : Value}

/-- What the steps of an opening give. -/
theorem opens_eq_ok {b flowId : Int} {nibbles : List Nat} {locking witness : Script}
    (hnibbles : Flow.idNibbles flowId b = .ok nibbles)
    (hlocking : LockingArgs.build .standard (.ofNibbles o.role o.key o.order nibbles) = .ok locking)
    (hwitness : Gate.witness .standard o.input o.nonce o.signature Fragment.limbLength =
      .ok witness) :
    o.opens p sighash b flowId =
      .ok (Gate.spends p .standard locking.code witness.code sighash) := by
  rw [opens, bind_of_eq_ok hnibbles, bind_of_eq_ok hlocking, bind_of_eq_ok hwitness]
  rfl

/-- Script and witness are built, and the witness spends if the gate admits its offer. -/
theorem exists_opens_eq {k flowId : Nat} (hk : k ≤ 4) (hflowId : flowId < 2 ^ 32) :
    ∃ opened, o.opens p sighash ((8 * k : Nat) : Int) flowId = .ok opened ∧
      (opened = true ↔ (∀ item ∈ o.offer.toList, item.length ≤ 520) ∧
        (o.gate hk flowId).Admits p sighash o.offer) := by
  have hlength : o.signature.length ≤ Push.maxLength := by
    have hlt := o.length_signature_lt
    simp only [Push.maxLength]
    omega
  obtain ⟨locking, hbuild, hcode⟩ := (o.gate hk flowId).exists_build_eq
  obtain ⟨w, hwitness, hdoes⟩ := Gate.exists_witness_eq o.input_lt o.nonce_lt hlength
  have hargs : (o.gate hk flowId).args =
      .ofNibbles o.role o.key o.order (Bytes.ofNat k flowId).toNibbles := rfl
  rw [hargs] at hbuild
  refine ⟨_, opens_eq_ok (Flow.idNibbles_eq hk hflowId) hbuild hwitness, ?_⟩
  rw [hcode]
  exact Gate.spends_iff_of_does (hdoes p)

variable {hash : Bytes → Digest} {check : (key message signature : Bytes) → Bool}

/-- A gate of a flow admits the offer of an input and a nonce if the signature is valid, the role
accepts the input, and the digest of their message has the flow id for its label. -/
theorem admits_iff {k flowId : Nat} (hk : k ≤ 4) (hflowId : flowId < 256 ^ k) (l : Nat) :
    (o.gate hk flowId).Admits (.ofScheme hash check) sighash o.offer ↔
      (Primitives.ofScheme hash check).verifyValue o.key sighash o.signature = true ∧
        o.role.accepts o.input = true ∧
        (Puzzle.mk o.input (8 * k) l).labelOf (hash (Flow.message o.input o.nonce)) = flowId := by
  have hlabel := Puzzle.take_toNibbles_eq_iff (p := ⟨o.input, 8 * k, l⟩) hk rfl hflowId
    (hash (Flow.message o.input o.nonce))
  rw [offer, Gate.admits_ofFlow_iff, ← hlabel]
  rfl

/-- An opening opens a flow if the signature is valid, the role accepts the input, and input and
nonce select the flow. -/
theorem exists_opens_iff {b l flowId : Nat} (hb : b ∈ [0, 8, 16, 24, 32]) (hl : l ≤ b)
    (hflowId : flowId < 2 ^ l) :
    ∃ opened, o.opens (.ofScheme hash check) sighash b flowId = .ok opened ∧
      (opened = true ↔
        (Primitives.ofScheme hash check).verifyValue o.key sighash o.signature = true ∧
          o.role.accepts o.input = true ∧
          ∃ s, Flow.select hash o.input o.nonce b l = .ok s ∧ s.flowId = flowId) := by
  obtain ⟨k, hk, rfl⟩ := Flow.exists_eq_of_mem_widths hb
  -- A flow id of the id space is one of the values of the prefix.
  have hpow : 2 ^ (8 * k) = 256 ^ k := Nat.pow_mul 2 8 k
  have hlt : flowId < 2 ^ (8 * k) :=
    Nat.lt_of_lt_of_le hflowId (Nat.pow_le_pow_right (by decide) hl)
  have hlt32 : flowId < 2 ^ 32 :=
    Nat.lt_of_lt_of_le hlt (Nat.pow_le_pow_right (by decide) (by omega))
  obtain ⟨opened, hopens, hopened⟩ := exists_opens_eq hk hlt32
  refine ⟨opened, hopens, ?_⟩
  rw [hopened, admits_iff hk (hpow ▸ hlt) l, Flow.exists_select_eq_ok_iff o.input_lt o.nonce_lt]
  constructor
  · rintro ⟨-, hverify, haccepts, hlabel⟩
    exact ⟨hverify, haccepts, hflowId, hlabel⟩
  · rintro ⟨hverify, haccepts, -, hlabel⟩
    -- Only a signature that is too large could keep the witness from running.
    have hlength : o.signature.length ≤ 520 := by
      rw [Primitives.length_of_verifyValue_ofScheme hverify]
      decide
    exact ⟨Offer.length_le_of_mem_ofFlow o.input_lt o.nonce hlength, hverify, haccepts, hlabel⟩

/-- If an opening opens a flow, its input and nonce select it. -/
theorem selects_of_opens {b l flowId : Nat} (hb : b ∈ [0, 8, 16, 24, 32]) (hl : l ≤ b)
    (hflowId : flowId < 2 ^ l)
    (hopens : o.opens (.ofScheme hash check) sighash b flowId = .ok true) :
    ∃ s, Flow.select hash o.input o.nonce b l = .ok s ∧ s.flowId = flowId := by
  obtain ⟨opened, hok, hopened⟩ := exists_opens_iff hb hl hflowId
  rw [hopens] at hok
  exact (hopened.mp (Except.ok.inj hok).symm).2.2

/-- Which flows an opening opens for a prefix of whole bytes: script and witness are always built,
and the witness spends if the signature is valid, the role accepts the input, and the flow is the
one that input and nonce select. So no flow is opened if none is selected, and an input and a nonce
open at most one flow, whatever else an opening has. -/
theorem opens_iff_selects (hash : Bytes → Digest)
    (check : (key message signature : Bytes) → Bool) (o : Opening) (sighash : Value) {b l : Nat}
    (hb : b ∈ [0, 8, 16, 24, 32]) (hl : l ≤ b) :
    (∀ flowId : Nat, flowId < 2 ^ l →
      ∃ opened, o.opens (.ofScheme hash check) sighash b flowId = .ok opened ∧
        (opened = true ↔
          (Primitives.ofScheme hash check).verifyValue o.key sighash o.signature = true ∧
            o.role.accepts o.input = true ∧
            ∃ s, Flow.select hash o.input o.nonce b l = .ok s ∧ s.flowId = flowId)) ∧
      (∀ label digest bound,
        Flow.select hash o.input o.nonce b l = .error (.outOfRange label digest bound) →
          ∀ flowId : Nat, flowId < 2 ^ l →
            o.opens (.ofScheme hash check) sighash b flowId = .ok false) ∧
      ∀ (o' : Opening) (sighash' : Value), o'.input = o.input → o'.nonce = o.nonce →
        ∀ flowId flowId' : Nat, flowId < 2 ^ l → flowId' < 2 ^ l →
          o.opens (.ofScheme hash check) sighash b flowId = .ok true →
          o'.opens (.ofScheme hash check) sighash' b flowId' = .ok true → flowId = flowId' := by
  refine ⟨fun flowId hflowId => exists_opens_iff hb hl hflowId, ?_, ?_⟩
  · intro label digest bound herror flowId hflowId
    obtain ⟨opened, hopens, hopened⟩ := exists_opens_iff (o := o) hb hl hflowId
    cases opened with
    | false => exact hopens
    | true =>
      -- A flow that is opened would have been selected.
      obtain ⟨-, -, s, hs, -⟩ := hopened.mp rfl
      rw [herror] at hs
      cases hs
  · intro o' sighash' hinput hnonce flowId flowId' hflowId hflowId' hopens hopens'
    -- Both flows are the one that is selected, which depends on input and nonce alone.
    obtain ⟨s, hs, rfl⟩ := selects_of_opens hb hl hflowId hopens
    obtain ⟨s', hs', rfl⟩ := selects_of_opens hb hl hflowId' hopens'
    rw [hinput, hnonce, hs] at hs'
    rw [Except.ok.inj hs']

/-- An opening with the input 123, the nonce zero, and a signature over the empty message. -/
def sample : Opening where
  role := .f1
  key := Gate.sampleKey
  order := .firstOnTop
  input := 123
  nonce := 0
  signature := Gate.sampleSignature
  length_key := Gate.length_sampleKey
  input_lt := by decide
  nonce_lt := by decide
  length_signature_lt := by
    rw [Gate.length_sampleSignature]
    decide

/-- The sample opening selects the flow 187 of 256. -/
theorem select_sample : ∃ s,
    Flow.select Blake3.hash sample.input sample.nonce (8 : Nat) (8 : Nat) = .ok s ∧
      s.flowId = 187 := by
  rw [Flow.exists_select_eq_ok_iff sample.input_lt sample.nonce_lt]
  have hlength : (Flow.message sample.input sample.nonce).length ≤ 64 := by decide
  refine ⟨by omega, ?_⟩
  rw [Puzzle.labelOf, Blake3.hash_of_length_le hlength]
  decide +kernel

/-- The sample opening opens the flow 187 of 256. -/
theorem opens_sample : sample.opens .standard (.bytes []) (8 : Nat) (187 : Nat) = .ok true := by
  obtain ⟨hopens, -⟩ := opens_iff_selects Blake3.hash Ed25519.verify sample (.bytes [])
    (show 8 ∈ [0, 8, 16, 24, 32] by decide) (Nat.le_refl 8)
  obtain ⟨opened, hok, hopened⟩ := hopens 187 (by omega)
  rw [Primitives.ofScheme_standard] at hok hopened
  have haccepts : sample.role.accepts sample.input = true := by decide
  have hverify :
      Primitives.standard.verifyValue sample.key (.bytes []) sample.signature = true := by
    simp only [sample, Gate.verifyValue_sampleSignature]
  rw [hok, hopened.mpr ⟨hverify, haccepts, select_sample⟩]

end Opening

end FlowGate

import FlowGate.Gate.Spend
import FlowGate.Proofs.Gate.Execution

/-!
# Which witnesses spend

A witness of whole instructions spends from a gate if, run by itself, it leaves an admitted offer
and nothing else. In particular a witness that only pushes the items of an offer spends if the gate
admits the offer.

## Main definitions

* `Gate.witnessRun` — the run of a witness by itself
* `Offer.pushes` — the witness that pushes an offer
* `Gate.samplePair`, `Gate.sampleOffer` — gates for two nibbles, and an offer that one of them admits

## Main results

* `Gate.exists_build_spends_iff` — which witnesses of whole instructions spend
* `Gate.spends_iff_of_does` — when a witness that pushes an offer spends
-/

namespace FlowGate

open Exec

namespace Offer

theorem toList_injective {o o' : Offer} (h : o.toList = o'.toList) : o = o' := by
  cases o
  cases o'
  simp only [toList, List.cons.injEq, and_true] at h
  obtain ⟨rfl, rfl, rfl, rfl, rfl⟩ := h
  rfl

/-- The witness that pushes an offer. -/
def pushes (o : Offer) : Bytes := o.toList.flatMap Push.data

theorem does_pushes {o : Offer} (h : ∀ item ∈ o.toList, item.length ≤ 520) (p : Primitives) :
    Machine.Does p .standard o.pushes (forM o.toList push) := by
  apply Machine.does_flatMap OpTable.aligned_standard
  intro item hitem
  exact Push.does_data (Nat.le_trans (h item hitem) (by decide))

/-- The witness that pushes an offer can be disassembled. -/
theorem exists_disassemble_eq {o : Offer} (h : ∀ item ∈ o.toList, item.length ≤ 520) :
    ∃ lines, disassemble .standard o.pushes = .ok lines := by
  obtain ⟨instructions, hcut⟩ := (does_pushes h .standard).exists_cut
  exact ⟨_, disassemble_eq_ok_iff.mpr ⟨instructions, hcut, rfl⟩⟩

end Offer

namespace Gate

variable {g : Gate} {p : Primitives} {sighash : Value} {witness : Bytes}

/-! ### Witnesses by themselves -/

/-- The run of a witness by itself. -/
def witnessRun (p : Primitives) (sighash : Value) (witness : Bytes) : ScriptRun :=
  runScript p .standard witness (.ofSighash sighash) .empty

/-- Items are put onto the empty stack if none is too large and there are not too many. -/
theorem forM_push_start_eq_ok_iff {items : List Bytes} {code : Bytes} {cache : Cache} {m : Machine} :
    (forM items push) (.start code .empty cache) = .ok () m ↔
      (∀ item ∈ items, item.length ≤ 520) ∧ items.length ≤ 1000 ∧
        m = (Machine.start code .empty cache).withItems items.reverse := by
  -- The run starts on an empty stack, so the items themselves have to keep both limits.
  have hroom : Stack.empty.HasRoom items.length ↔ items.length ≤ 1000 := by
    simp only [Stack.HasRoom, Stack.empty, Stack.defaultMaxItems, List.length_nil]
    omega
  have hsizes : (∀ item ∈ items, (item.length : Int) ≤ Stack.empty.maxItemSize) ↔
      ∀ item ∈ items, item.length ≤ 520 := by
    constructor
    · intro hsize item hitem
      exact Int.ofNat_le.mp (hsize item hitem)
    · intro hsize item hitem
      exact Int.ofNat_le.mpr (hsize item hitem)
  rw [forM_push_items_eq_ok_iff]
  change (∀ item ∈ items, (item.length : Int) ≤ Stack.empty.maxItemSize) ∧
    Stack.empty.HasRoom items.length ∧
      m = (Machine.start code .empty cache).withItems (items.reverse ++ []) ↔ _
  rw [List.append_nil, hsizes, hroom]

/-- Byte code that only pushes items succeeds if no item is too large and there are not too many. -/
theorem interpret_pushes_eq_ok_iff {items : List Bytes} {m : Machine}
    (h : Machine.Does p .standard witness (forM items push)) :
    Machine.interpret p .standard witness (.start witness .empty (.ofSighash sighash)) =
        .ok () m ↔ (∀ item ∈ items, item.length ≤ 520) ∧ items.length ≤ 1000 ∧
      m = (Machine.start witness .empty (.ofSighash sighash)).withItems items.reverse := by
  rw [h.interpret_eq, forM_push_start_eq_ok_iff]

/-- A witness that only pushes items of allowed size, and not too many, leaves them. -/
theorem witnessRun_of_does {items : List Bytes}
    (h : Machine.Does p .standard witness (forM items push))
    (hsizes : ∀ item ∈ items, item.length ≤ 520) (hcount : items.length ≤ 1000) :
    (witnessRun p sighash witness).isOk = true ∧
      (witnessRun p sighash witness).final.stack.toList = items ∧
      (witnessRun p sighash witness).final.cache = .ofSighash sighash := by
  have hrun : Machine.interpret p .standard witness
      (.start witness .empty (.ofSighash sighash)) = .ok () _ :=
    (interpret_pushes_eq_ok_iff h).mpr ⟨hsizes, hcount, rfl⟩
  obtain ⟨hok, hstack, hcache⟩ := runScript_of_interpret_eq_ok hrun
  refine ⟨hok, ?_, hcache⟩
  rw [witnessRun, hstack, Stack.toList, Machine.stack_items_withItems, List.reverse_reverse]

/-! ### Witnesses in front of a locking script -/

/-- The alternate stack of a fresh cache has room for the nibbles that a gate compares. -/
theorem hasRoom_ofSighash (g : Gate) (sighash : Value) :
    (Cache.ofSighash sighash).altStack.HasRoom g.nibbles.length := by
  have hroom : (0 : Nat) + g.nibbles.length ≤ 1000 := by
    have hle := g.length_nibbles_le
    omega
  exact .inr hroom

/-- A witness of whole instructions spends if it leaves an admitted offer and nothing else. -/
theorem spends_code_iff {instructions : List Instruction}
    (hcut : Instruction.cut .standard witness = .ok instructions) :
    spends p .standard g.code witness sighash = true ↔
      ∃ o : Offer, (witnessRun p sighash witness).isOk = true ∧
        (witnessRun p sighash witness).final.stack.toList = o.toList ∧ g.Admits p sighash o ∧
        (g.order = .firstOnTop →
          (witnessRun p sighash witness).final.cache.altStack.HasRoom g.nibbles.length) := by
  -- The witness runs to its own end, and the locking script starts on what it has left.
  rw [spends, authorizes_append_iff OpTable.aligned_standard hcut]
  simp only [(g.does_code p).interpret_eq, witnessRun]
  constructor
  · rintro ⟨m, hrun, hpass⟩
    obtain ⟨o, hlist, hadmits, haltRoom⟩ :=
      (exists_pass_iff (Machine.frame_of_interpret_eq_ok hrun)).mp hpass
    obtain ⟨hok, hstack, hcache⟩ := runScript_of_interpret_eq_ok hrun
    exact ⟨o, hok, by rw [hstack, hlist], hadmits, by rwa [hcache]⟩
  · rintro ⟨o, hok, hlist, hadmits, haltRoom⟩
    obtain ⟨m, hrun⟩ := runScript_isOk_iff.mp hok
    obtain ⟨-, hstack, hcache⟩ := runScript_of_interpret_eq_ok hrun
    rw [hstack] at hlist
    rw [hcache] at haltRoom
    have hframe := Machine.frame_of_interpret_eq_ok hrun
    exact ⟨m, hrun, (exists_pass_iff hframe).mpr ⟨o, hlist, hadmits, haltRoom⟩⟩

/-- A witness that can be disassembled spends from a gate if and only if, run by itself, it succeeds
and leaves an offer that the gate admits and nothing else; where the nibbles have to wait on the
alternate stack, the witness has to leave room for them there. -/
theorem exists_build_spends_iff (p : Primitives) (g : Gate) (sighash : Value) {witness : Bytes}
    {lines : List String} (h : disassemble .standard witness = .ok lines) :
    ∃ locking, g.args.build .standard = .ok locking ∧
      (spends p .standard locking.code witness sighash = true ↔
        ∃ o : Offer, (witnessRun p sighash witness).isOk = true ∧
          (witnessRun p sighash witness).final.stack.toList = o.toList ∧ g.Admits p sighash o ∧
          (g.order = .firstOnTop →
            (witnessRun p sighash witness).final.cache.altStack.HasRoom g.nibbles.length)) := by
  obtain ⟨locking, hbuild, hcode⟩ := g.exists_build_eq
  obtain ⟨instructions, hcut, -⟩ := disassemble_eq_ok_iff.mp h
  refine ⟨locking, hbuild, ?_⟩
  rw [hcode]
  exact spends_code_iff hcut

/-- A key for which a signature over the empty message is known. -/
def sampleKey : Bytes :=
  (Hex.decode? "43a5539454aa9e682f25e3a73acf5e4ee3573358cdec22912d6695f5cdd62558".toList).getD []

theorem length_sampleKey : sampleKey.length = Primitives.keyLength := by decide +kernel

/-- A signature over the empty message under this key. -/
def sampleSignature : Bytes :=
  (Hex.decode? ("2553585682a3a31a57715d17c606d0c17c2b265e810e9021372d5185ea6a7605" ++
    "d598e4cea7a83910c44919f600a181b568beb49e8f18031f90fd28c74f2d0604").toList).getD []

theorem length_sampleSignature : sampleSignature.length = Primitives.signatureLength := by
  decide +kernel

theorem verifyValue_sampleSignature :
    Primitives.standard.verifyValue sampleKey (.bytes []) sampleSignature = true := by
  decide +kernel

/-- A gate that compares two nibbles. -/
def samplePair (order : NibbleOrder) (first second : Fin 16) : Gate where
  role := .f1
  key := sampleKey
  nibbles := [first, second]
  order := order
  length_key := length_sampleKey
  length_nibbles_le := by simp
  lt_of_mem_nibbles := by simp

/-- An offer whose number is 123, while its message is all zeros. -/
def sampleOffer : Offer where
  first := [0, 0, 0, 0]
  second := [0, 0, 0, 0]
  third := [0, 0, 0, 0]
  number := [123]
  signature := sampleSignature

theorem length_le_of_mem_sampleOffer : ∀ item ∈ sampleOffer.toList, item.length ≤ 520 := by
  decide +kernel

/-- The digest of twelve zeros starts with the nibbles 7 and 14. -/
theorem take_toNibbles_hash_sampleOffer :
    (Blake3.hash sampleOffer.message).bytes.toNibbles.take 2 = [7, 14] := by
  have hlength : sampleOffer.message.length ≤ 64 := by decide
  rw [Blake3.hash_of_length_le hlength]
  decide +kernel

/-- A gate for these nibbles admits the offer, in whichever order it lays them. -/
theorem admits_sampleOffer (order : NibbleOrder) :
    (samplePair order 7 14).Admits .standard (.bytes []) sampleOffer where
  verifyValue_eq := by simp only [samplePair, sampleOffer, verifyValue_sampleSignature]
  exists_decode_eq :=
    ⟨123, ScriptNumber.decode_eq_ok_iff.mpr ⟨by decide, by decide, by decide⟩,
      show GateRole.f1.accepts 123 = true by decide⟩
  length_message := rfl
  take_nibbles_eq := take_toNibbles_hash_sampleOffer

/-- The witness that pushes the sample offer spends from a gate that admits it, though its nibbles
have to wait on the alternate stack. -/
theorem exists_build_spends_sample :
    ∃ lines locking, disassemble .standard sampleOffer.pushes = .ok lines ∧
      (samplePair .firstOnTop 7 14).args.build .standard = .ok locking ∧
      spends .standard .standard locking.code sampleOffer.pushes (.bytes []) = true := by
  obtain ⟨lines, hlines⟩ := Offer.exists_disassemble_eq length_le_of_mem_sampleOffer
  obtain ⟨locking, hbuild, hiff⟩ :=
    exists_build_spends_iff .standard (samplePair .firstOnTop 7 14) (.bytes []) hlines
  have hdoes := Offer.does_pushes length_le_of_mem_sampleOffer .standard
  obtain ⟨hok, hlist, hcache⟩ := witnessRun_of_does hdoes length_le_of_mem_sampleOffer (by decide)
  refine ⟨lines, locking, hlines, hbuild,
    hiff.mpr ⟨sampleOffer, hok, hlist, admits_sampleOffer .firstOnTop, fun _ => ?_⟩⟩
  -- Pushing leaves the alternate stack empty.
  rw [hcache]
  exact hasRoom_ofSighash _ (.bytes [])

/-- A witness that only pushes an offer spends if no item is too large and the gate admits the
offer. -/
theorem spends_iff_of_does {o : Offer}
    (h : Machine.Does p .standard witness (forM o.toList push)) :
    spends p .standard g.code witness sighash = true ↔
      (∀ item ∈ o.toList, item.length ≤ 520) ∧ g.Admits p sighash o := by
  obtain ⟨instructions, hcut⟩ := h.exists_cut
  rw [spends_code_iff hcut]
  constructor
  · rintro ⟨o', hok, hlist, hadmits, -⟩
    -- What the run leaves are the items that were pushed, so the two offers are the same.
    obtain ⟨m, hrun⟩ := runScript_isOk_iff.mp hok
    rw [witnessRun, (runScript_of_interpret_eq_ok hrun).2.1] at hlist
    obtain ⟨hsizes, -, rfl⟩ := (interpret_pushes_eq_ok_iff h).mp hrun
    rw [Stack.toList, Machine.stack_items_withItems, List.reverse_reverse] at hlist
    obtain rfl := Offer.toList_injective hlist
    exact ⟨hsizes, hadmits⟩
  · rintro ⟨hsizes, hadmits⟩
    have hcount : o.toList.length ≤ 1000 := by simp [Offer.toList]
    obtain ⟨hok, hlist, hcache⟩ := witnessRun_of_does h hsizes hcount
    refine ⟨o, hok, hlist, hadmits, fun _ => ?_⟩
    -- The witness has left the alternate stack alone.
    rw [hcache]
    exact g.hasRoom_ofSighash sighash

/-- An admitted offer spends by being pushed. -/
theorem Admits.spends_pushes {o : Offer} (h : g.Admits p sighash o)
    (hsizes : ∀ item ∈ o.toList, item.length ≤ 520) :
    spends p .standard g.code o.pushes sighash = true :=
  (spends_iff_of_does (Offer.does_pushes hsizes p)).mpr ⟨hsizes, h⟩

end Gate

end FlowGate

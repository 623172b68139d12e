import FlowGate.Proofs.Gate.Truncation

/-!
# What a locking script asks for

Each part of a locking script is run on an arbitrary stack, and it is determined when it succeeds
and what it leaves. Together this tells on which stacks the whole script succeeds.

## Main definitions

* `Offer` — the five items that a locking script takes: three limbs, a number and a signature
* `Gate.Admits` — what a gate asks of an offer

## Main results

* `Gate.checkSignature_eq_ok_iff`, `Gate.compareThreshold_eq_ok_iff`, `Gate.hashLimbs_eq_ok_iff`,
  `Gate.matchNibbles_eq_ok_iff` — when a part succeeds
* `Gate.hashMessage_eq_digest`, `Gate.offersLimbs_of_items_eq` — the numbers that hashing starts with
* `Gate.leaves_truncate_nibbles_iff` — when the leading nibbles are kept
* `Gate.exists_offer_of_passEmitting_eq_ok` — what a locking script takes if it succeeds, for any
  order that the hash emits and any width that it declares
* `Gate.Admits.exists_pass_eq_ok` — on an admitted offer the script of a gate leaves its mark
* `Gate.exists_pass_iff` — the script of a gate leaves a single true item on the stacks that consist
  of an admitted offer
-/

namespace FlowGate

open Exec Operation

/-! ### Nibbles on the stack -/

/-- The shortest form of a number of 31 bits can be put onto a stack. -/
theorem length_encode_le {n : Int} (h : n.natAbs < 2 ^ 31) :
    ((ScriptNumber.encode n).length : Int) ≤ 520 := by
  have hlength := (ScriptNumber.length_encode_le_iff n 4).mpr (by omega)
  omega

/-- A number of 31 bits is read back from the stack. -/
theorem decode_encode_of_lt {n : Int} (h : n.natAbs < 2 ^ 31) :
    ScriptNumber.decode ScriptNumber.operandSize (ScriptNumber.encode n) = .ok n := by
  rw [ScriptNumber.decode_operand_encode, if_pos (by omega)]

/-- Nibbles as items of a stack. -/
def nibbleItems (nibbles : List Nat) : List Bytes :=
  nibbles.map fun n : Nat => ScriptNumber.encode n

@[simp] theorem length_nibbleItems (nibbles : List Nat) :
    (nibbleItems nibbles).length = nibbles.length :=
  List.length_map _

theorem nibbleItems_inj {xs ys : List Nat} : nibbleItems xs = nibbleItems ys ↔ xs = ys :=
  List.map_inj_right fun _ _ h => Int.ofNat_inj.mp (ScriptNumber.encode_injective h)

theorem length_le_of_mem_nibbleItems {nibbles : List Nat} (h : ∀ n ∈ nibbles, n < 16) :
    ∀ item ∈ nibbleItems nibbles, (item.length : Int) ≤ 520 := by
  intro item hitem
  obtain ⟨n, hn, rfl⟩ := List.mem_map.mp hitem
  have hlt := h n hn
  exact length_encode_le (by omega)

theorem Truth.length_encode_le (b : Bool) : ((Truth.encode b).length : Int) ≤ 1 := by
  cases b <;> decide

namespace GateRole

variable {x : Int} (role : GateRole)

/-- A number of more than four bytes is accepted by no role. -/
theorem accepts_eq_false_of_length (h : 4 < (ScriptNumber.encode x).length) :
    role.accepts x = false := by
  have hlarge : ¬ x.natAbs < 128 * 256 ^ 3 := by
    rw [← ScriptNumber.length_encode_le_iff]
    omega
  exact if_pos (by simp only [maxNumber]; omega)

theorem length_le_of_accepts (h : role.accepts x = true) : (ScriptNumber.encode x).length ≤ 4 := by
  by_contra hlong
  rw [role.accepts_eq_false_of_length (Nat.lt_of_not_le hlong)] at h
  cases h

end GateRole

namespace Gate

variable {p : Primitives} {m m' : Machine} {message : Value}

/-! ### The parts in order -/

theorem checkSignature_eq_ok_iff {key : Bytes} (hkey : key.length = Primitives.keyLength)
    (hframe : m.frame = .ofSighash message) :
    checkSignature key p m = .ok () m' ↔ ∃ signature rest, m.stack.items = signature :: rest ∧
      m.stack.items.length < 1000 ∧ p.verifyValue key message signature = true ∧
      m' = m.withItems rest := by
  simp only [checkSignature, bind_eq_ok_iff, push_eq_ok_iff, act_checkSigVerify_eq_ok_iff,
    Machine.maxItems_of_frame hframe, Machine.maxItemSize_of_frame hframe]
  have hsighash := Machine.sighash?_of_frame hframe
  constructor
  · rintro ⟨-, n, ⟨-, hroom, rfl⟩, key', signature, rest, message', hitems, -, hmessage, hverify, -,
      -, rfl⟩
    -- The key on top is the one that was pushed.
    obtain ⟨rfl, hrest⟩ := List.cons.inj hitems
    obtain rfl : message = message' := Option.some.inj (hsighash.symm.trans hmessage)
    exact ⟨signature, rest, hrest, hroom, hverify, rfl⟩
  · rintro ⟨signature, rest, hitems, hroom, hverify, rfl⟩
    have hsize : (key.length : Int) ≤ 520 := by
      rw [hkey]
      decide
    have hrest : rest.length < 1000 := by
      rw [hitems, List.length_cons] at hroom
      exact Nat.lt_of_succ_lt hroom
    refine ⟨(), _, ⟨hsize, hroom, rfl⟩, key, signature, rest, message, ?_, hkey, hsighash, hverify,
      ?_, ?_, rfl⟩
    · rw [Machine.stack_items_withItems, hitems]
    · rw [Machine.stack_maxItemSize_withItems, Machine.maxItemSize_of_frame hframe]
      decide
    · rw [Machine.stack_maxItems_withItems, Machine.maxItems_of_frame hframe]
      exact hrest

/-- A role admits a number of four bytes if it compares well with its threshold. -/
theorem accepts_eq_relation {bytes : Bytes} {n : Int} (role : GateRole)
    (h : ScriptNumber.decode ScriptNumber.operandSize bytes = .ok n) :
    role.accepts n = role.relation n role.threshold := by
  have hsize := ScriptNumber.natAbs_le_of_decode_eq_ok h
  have hin : ¬ (n < -GateRole.maxNumber ∨ GateRole.maxNumber < n) := by
    simp only [GateRole.maxNumber]
    omega
  cases role <;> simp only [GateRole.accepts, GateRole.relation, if_neg hin]

theorem natAbs_threshold_lt (role : GateRole) : (role.threshold : Int).natAbs < 2 ^ 31 := by
  cases role <;> decide

/-- The comparison with a threshold starts by putting the threshold on a copy of the number. -/
theorem compareThreshold_eq_of_items {role : GateRole} {number : Bytes} {rest : List Bytes}
    (hmaxItems : m.stack.maxItems = 1000) (hmaxItemSize : m.stack.maxItemSize = 520)
    (hitems : m.stack.items = number :: rest) (hsize : number.length ≤ 520)
    (hroom : m.stack.items.length + 1 < 1000) :
    compareThreshold role p m = (Exec.compare role.relation >>= fun _ => verify.act p [])
      (m.withItems (ScriptNumber.encode role.threshold :: number :: number :: rest)) := by
  rw [hitems, List.length_cons] at hroom
  have hdup : dup.act p [] m = .ok () (m.withItems (number :: number :: rest)) :=
    act_dup_eq_ok_iff.mpr ⟨number, rest, hitems, by omega, by omega, rfl⟩
  have hpush : push (ScriptNumber.encode role.threshold)
      (m.withItems (number :: number :: rest)) =
      .ok () (m.withItems (ScriptNumber.encode role.threshold :: number :: number :: rest)) :=
    push_eq_ok_iff.mpr ⟨hmaxItemSize ▸ length_encode_le (natAbs_threshold_lt role),
      by rwa [Machine.stack_maxItems_withItems, hmaxItems], rfl⟩
  rw [compareThreshold, Exec.bind_of_eq_ok hdup, Exec.bind_of_eq_ok hpush]

/-- The comparison with a threshold ends by checking whether the role admits the number. -/
theorem compareThreshold_eq_of_decode {role : GateRole} {number : Bytes} {rest : List Bytes} {n : Int}
    (hmaxItems : m.stack.maxItems = 1000) (hmaxItemSize : m.stack.maxItemSize = 520)
    (hitems : m.stack.items = number :: rest) (hroom : m.stack.items.length + 1 < 1000)
    (hdecode : ScriptNumber.decode ScriptNumber.operandSize number = .ok n) :
    compareThreshold role p m =
      verify.act p [] (m.withItems (Truth.encode (role.accepts n) :: number :: rest)) := by
  have hsize : (number.length : Int) ≤ 4 := (ScriptNumber.decode_eq_ok_iff.mp hdecode).1
  rw [compareThreshold_eq_of_items hmaxItems hmaxItemSize hitems (by omega) hroom]
  rw [hitems, List.length_cons] at hroom
  have hcompare : Exec.compare role.relation
      (m.withItems (ScriptNumber.encode role.threshold :: number :: number :: rest)) =
      .ok () (m.withItems (Truth.encode (role.accepts n) :: number :: rest)) := by
    rw [accepts_eq_relation role hdecode]
    refine compare_eq_ok_iff.mpr ⟨_, number, number :: rest, n, role.threshold, rfl,
      decode_encode_of_lt (natAbs_threshold_lt role), hdecode, ?_, ?_, rfl⟩
    · rw [Machine.stack_maxItemSize_withItems, hmaxItemSize]
      exact Int.le_trans (Truth.length_encode_le _) (by decide)
    · rw [Machine.stack_maxItems_withItems, hmaxItems, List.length_cons]
      omega
  rw [Exec.bind_of_eq_ok hcompare]

theorem compareThreshold_eq_ok_iff {role : GateRole} (hmaxItems : m.stack.maxItems = 1000)
    (hmaxItemSize : m.stack.maxItemSize = 520) :
    compareThreshold role p m = .ok () m' ↔ ∃ number rest n, m.stack.items = number :: rest ∧
      m.stack.items.length + 1 < 1000 ∧
      ScriptNumber.decode ScriptNumber.operandSize number = .ok n ∧ role.accepts n = true ∧
      m' = m := by
  constructor
  · -- The copy of the number and the threshold above it are compared.
    intro h
    simp only [compareThreshold, bind_eq_ok_iff, push_eq_ok_iff, act_dup_eq_ok_iff,
      compare_eq_ok_iff, act_verify_eq_ok_iff] at h
    obtain ⟨-, n₁, ⟨number, rest, hitems, -, -, rfl⟩, -, n₂, ⟨-, hroom, rfl⟩, -, n₃,
      ⟨second, first, others, a, b, hpair, hb, ha, -, -, rfl⟩, item, last, hlast, hholds, rfl⟩ := h
    simp only [Machine.stack_items_withItems, List.cons.injEq] at hpair hlast
    obtain ⟨rfl, rfl, rfl⟩ := hpair
    obtain ⟨rfl, rfl⟩ := hlast
    -- The number below the threshold is the copy, and the original is left.
    obtain rfl : (role.threshold : Int) = b :=
      Except.ok.inj ((decode_encode_of_lt (natAbs_threshold_lt role)).symm.trans hb)
    rw [Truth.holds_encode, ← accepts_eq_relation role ha] at hholds
    refine ⟨number, rest, a, hitems, ?_, ha, hholds, ?_⟩
    · simpa only [Machine.stack_items_withItems, Machine.stack_maxItems_withItems, hmaxItems,
        hitems, List.length_cons] using hroom
    · simp only [Machine.withItems_withItems, ← hitems, Machine.withItems_self]
  · rintro ⟨number, rest, n, hitems, hroom, hdecode, haccepts, rfl⟩
    rw [compareThreshold_eq_of_decode hmaxItems hmaxItemSize hitems hroom hdecode,
      act_verify_eq_ok_iff]
    refine ⟨_, number :: rest, rfl, by rw [Truth.holds_encode, haccepts], ?_⟩
    rw [Machine.withItems_withItems, ← hitems, Machine.withItems_self]

theorem flag_injective {a b : NibbleOrder} (h : a.flag = b.flag) : a = b := by
  have hsome := congrArg NibbleOrder.ofFlag? h
  rw [NibbleOrder.ofFlag?_flag, NibbleOrder.ofFlag?_flag] at hsome
  exact Option.some.inj hsome

theorem mem_arrange_iff {order : NibbleOrder} {nibbles : List Nat} {n : Nat} :
    n ∈ order.arrange nibbles ↔ n ∈ nibbles := by
  cases order <;> simp [NibbleOrder.arrange]

theorem length_arrange (order : NibbleOrder) (nibbles : List Nat) :
    (order.arrange nibbles).length = nibbles.length := by
  cases order <;> simp [NibbleOrder.arrange]

theorem length_fromTop (order : NibbleOrder) (nibbles : List Nat) :
    (fromTop order nibbles).length = nibbles.length := by
  rw [fromTop, List.length_reverse, length_arrange]

theorem fromTop_inj {order : NibbleOrder} {xs ys : List Nat} :
    fromTop order xs = fromTop order ys ↔ xs = ys := by
  cases order <;> simp [fromTop, NibbleOrder.arrange]

/-- The nibbles of a digest are put onto a stack that has room for them. -/
theorem forM_push_nibbles_eq_ok_iff {order : NibbleOrder} (digest : Digest)
    (hmaxItems : m.stack.maxItems = 1000) (hmaxItemSize : m.stack.maxItemSize = 520) :
    (forM (order.arrange digest.bytes.toNibbles) fun n : Nat => push (ScriptNumber.encode n)) m =
        .ok () m' ↔ m.stack.items.length + 64 ≤ 1000 ∧
      m' = m.withItems (nibbleItems (fromTop order digest.bytes.toNibbles) ++ m.stack.items) := by
  have hlength : (order.arrange digest.bytes.toNibbles).length = 64 := by
    rw [length_arrange, Bytes.length_toNibbles, digest.length_bytes]
  have hsizes : ∀ n ∈ order.arrange digest.bytes.toNibbles,
      ((ScriptNumber.encode n).length : Int) ≤ m.stack.maxItemSize := by
    intro n hn
    rw [hmaxItemSize]
    have hlt := Bytes.lt_of_mem_toNibbles (mem_arrange_iff.mp hn)
    exact length_encode_le (by omega)
  have hroom : m.stack.HasRoom 64 ↔ m.stack.items.length + 64 ≤ 1000 := by
    rw [Stack.HasRoom, hmaxItems]
    omega
  rw [forM_push_eq_ok_iff, hlength, hroom, fromTop, nibbleItems, List.map_reverse]
  exact and_iff_right hsizes

theorem natAbs_flag_lt (order : NibbleOrder) : (order.flag : Int).natAbs < 2 ^ 31 := by
  cases order <;> decide

/-- On a stack with room for three numbers, hashing a message puts its two lengths and the flag, and
then takes the digest. -/
theorem hashMessage_eq_digest (order : NibbleOrder) {messageLength limbLength : Nat}
    (hmessage : messageLength < 2 ^ 31) (hlimb : limbLength < 2 ^ 31)
    (hmaxItemSize : m.stack.maxItemSize = 520)
    (hroom : m.stack.items.length + 2 < m.stack.maxItems) :
    hashMessage order messageLength limbLength p m =
      digest p (m.withItems (ScriptNumber.encode order.flag :: ScriptNumber.encode limbLength ::
        ScriptNumber.encode messageLength :: m.stack.items)) := by
  -- The two lengths and the order are pushed in turn.
  have hpushMessage : push (ScriptNumber.encode messageLength) m =
      .ok () (m.withItems (ScriptNumber.encode messageLength :: m.stack.items)) :=
    push_eq_ok_iff.mpr ⟨hmaxItemSize ▸ length_encode_le hmessage, by omega, rfl⟩
  have hpushLimb : push (ScriptNumber.encode limbLength)
      (m.withItems (ScriptNumber.encode messageLength :: m.stack.items)) =
      .ok () (m.withItems (ScriptNumber.encode limbLength ::
        ScriptNumber.encode messageLength :: m.stack.items)) :=
    push_eq_ok_iff.mpr ⟨hmaxItemSize ▸ length_encode_le hlimb, Nat.lt_of_succ_lt hroom, rfl⟩
  have hpushFlag : push (ScriptNumber.encode order.flag)
      (m.withItems (ScriptNumber.encode limbLength ::
        ScriptNumber.encode messageLength :: m.stack.items)) =
      .ok () (m.withItems (ScriptNumber.encode order.flag :: ScriptNumber.encode limbLength ::
        ScriptNumber.encode messageLength :: m.stack.items)) :=
    push_eq_ok_iff.mpr ⟨hmaxItemSize ▸ length_encode_le (natAbs_flag_lt order), hroom, rfl⟩
  rw [hashMessage, Exec.bind_of_eq_ok hpushMessage, Exec.bind_of_eq_ok hpushLimb,
    Exec.bind_of_eq_ok hpushFlag]

/-- Behind the two lengths of a message and the flag, a stack offers the limbs below them. -/
theorem offersLimbs_of_items_eq {s : Stack} (order : NibbleOrder) {messageLength limbLength : Nat}
    {limbs rest : List Bytes} (hmessage : messageLength < 2 ^ 31) (hmessagePos : 0 < messageLength)
    (hlimb : limbLength < 2 ^ 31) (hlimbPos : 0 < limbLength)
    (hitems : s.items = ScriptNumber.encode order.flag :: ScriptNumber.encode limbLength ::
      ScriptNumber.encode messageLength :: (limbs ++ rest))
    (hcount : limbs.length = (messageLength + limbLength - 1) / limbLength) :
    s.OffersLimbs order limbLength messageLength limbs rest where
  exists_items_eq := ⟨_, _, _, hitems, decode_encode_of_lt (natAbs_flag_lt order),
    decode_encode_of_lt hlimb, decode_encode_of_lt hmessage⟩
  limbLength_pos := Int.natCast_pos.mpr hlimbPos
  messageLength_pos := Int.natCast_pos.mpr hmessagePos
  length_limbs := by
    have hsum : (messageLength : Int) + limbLength - 1 =
        ((messageLength + limbLength - 1 : Nat) : Int) := by omega
    rw [hcount, hsum, ← Int.natCast_ediv, Int.toNat_natCast]

/-- Hashing with the lengths of a gate on top takes three limbs of twelve bytes together, and leaves
the nibbles of the digest. -/
theorem digest_eq_ok_iff_of_items (order : NibbleOrder) {items : List Bytes}
    (hframe : m.frame = .ofSighash message)
    (hitems : m.stack.items = ScriptNumber.encode order.flag ::
      ScriptNumber.encode Fragment.limbLength :: ScriptNumber.encode Fragment.messageLength ::
        items) :
    digest p m = .ok () m' ↔ ∃ a b c rest, items = c :: b :: a :: rest ∧
      (a ++ b ++ c).length = 12 ∧ rest.length + 64 ≤ 1000 ∧
      m' = m.withItems
        (nibbleItems (fromTop order (p.hash (a ++ b ++ c)).bytes.toNibbles) ++ rest) := by
  have hflag : ScriptNumber.decode ScriptNumber.operandSize (ScriptNumber.encode order.flag) =
      .ok order.flag := decode_encode_of_lt (natAbs_flag_lt order)
  have hlimb : ScriptNumber.decode ScriptNumber.operandSize
      (ScriptNumber.encode Fragment.limbLength) = .ok Fragment.limbLength :=
    decode_encode_of_lt (by decide)
  have hmessage : ScriptNumber.decode ScriptNumber.operandSize
      (ScriptNumber.encode Fragment.messageLength) = .ok Fragment.messageLength :=
    decode_encode_of_lt (by decide)
  have hmaxItems : ∀ items, (m.withItems items).stack.maxItems = 1000 := fun _ =>
    Machine.maxItems_of_frame hframe
  have hmaxItemSize : ∀ items, (m.withItems items).stack.maxItemSize = 520 := fun _ =>
    Machine.maxItemSize_of_frame hframe
  rw [Exec.digest_eq_ok_iff]
  constructor
  · rintro ⟨flag, size, length, limbs, rest, order', limbLength, messageLength, hall, hflag',
      hlimb', hmessage', -, -, hcount, hwhole, hpush⟩
    rw [hitems] at hall
    simp only [List.cons.injEq] at hall
    obtain ⟨rfl, rfl, rfl, rfl⟩ := hall
    obtain rfl := flag_injective (Except.ok.inj (hflag.symm.trans hflag'))
    obtain rfl := Except.ok.inj (hlimb.symm.trans hlimb')
    obtain rfl := Except.ok.inj (hmessage.symm.trans hmessage')
    -- Twelve bytes in limbs of four are three limbs.
    have hthree : limbs.length = 3 := hcount
    obtain ⟨c, b, a, rfl⟩ : ∃ c b a, limbs = [c, b, a] := by
      match limbs, hthree with
      | [c, b, a], _ => exact ⟨c, b, a, rfl⟩
    have hflatten : [c, b, a].reverse.flatten = a ++ b ++ c := by simp
    rw [hflatten] at hwhole hpush
    rw [forM_push_nibbles_eq_ok_iff _ (hmaxItems _) (hmaxItemSize _)] at hpush
    exact ⟨a, b, c, rest, rfl, Int.ofNat_inj.mp hwhole, hpush⟩
  · rintro ⟨a, b, c, rest, rfl, hwhole, hpush⟩
    have hflatten : [c, b, a].reverse.flatten = a ++ b ++ c := by simp
    refine ⟨_, _, _, [c, b, a], rest, order, Fragment.limbLength, Fragment.messageLength, hitems,
      hflag, hlimb, hmessage, by decide, by decide, rfl, ?_, ?_⟩
    · rw [hflatten, hwhole]
      rfl
    · rw [hflatten, forM_push_nibbles_eq_ok_iff _ (hmaxItems _) (hmaxItemSize _)]
      exact hpush

/-- Hashing takes three limbs of twelve bytes together, and leaves the nibbles of the digest. -/
theorem hashLimbs_eq_ok_iff {order : NibbleOrder} (hframe : m.frame = .ofSighash message) :
    hashLimbs order p m = .ok () m' ↔ ∃ a b c rest, m.stack.items = c :: b :: a :: rest ∧
      m.stack.items.length + 2 < 1000 ∧ (a ++ b ++ c).length = 12 ∧ rest.length + 64 ≤ 1000 ∧
      m' = m.withItems
        (nibbleItems (fromTop order (p.hash (a ++ b ++ c)).bytes.toNibbles) ++ rest) := by
  have hmaxItems := Machine.maxItems_of_frame hframe
  have hmaxItemSize := Machine.maxItemSize_of_frame hframe
  constructor
  · intro h
    simp only [hashLimbs, hashMessage, bind_eq_ok_iff, push_eq_ok_iff] at h
    obtain ⟨-, n₁, ⟨-, -, rfl⟩, -, n₂, ⟨-, -, rfl⟩, -, n₃, ⟨-, hroom, rfl⟩, hdigest⟩ := h
    rw [digest_eq_ok_iff_of_items order (by exact hframe) rfl] at hdigest
    obtain ⟨a, b, c, rest, hitems, hwhole, hnibbles, rfl⟩ := hdigest
    refine ⟨a, b, c, rest, hitems, ?_, hwhole, hnibbles, rfl⟩
    simpa only [Machine.stack_items_withItems, Machine.stack_maxItems_withItems, hmaxItems,
      List.length_cons] using hroom
  · rintro ⟨a, b, c, rest, hitems, hroom, hwhole, hnibbles, rfl⟩
    rw [hashLimbs, hashMessage_eq_digest order (by decide) (by decide) hmaxItemSize
      (by rwa [hmaxItems]), digest_eq_ok_iff_of_items order (by exact hframe) rfl]
    exact ⟨a, b, c, rest, hitems, hwhole, hnibbles, rfl⟩

/-- The leading ones of nibbles on a stack are the nibbles that lead. -/
theorem leading_nibbleItems {order : NibbleOrder} {needed : Nat} {nibbles : List Nat}
    (h : needed ≤ nibbles.length) :
    order.leading needed (nibbleItems (fromTop order nibbles)) =
      nibbleItems (fromTop order (nibbles.take needed)) := by
  cases order with
  | firstDeepest =>
    rw [NibbleOrder.leading, length_nibbleItems, length_fromTop]
    simp only [nibbleItems, fromTop, NibbleOrder.arrange, ← List.map_drop, List.drop_reverse]
    rw [Nat.sub_sub_self h]
  | firstOnTop =>
    simp only [NibbleOrder.leading, nibbleItems, fromTop, NibbleOrder.arrange, List.reverse_reverse,
      List.map_take]

/-- Of the nibbles on top of a stack the leading ones are kept. Where they have to wait on the
alternate stack, it needs room for them. -/
theorem leaves_truncate_nibbles_iff {order : NibbleOrder} {needed rest : Nat} {nibbles : List Nat}
    {others : List Bytes} {stack alt : Stack} (hframe : m.frame = .ofSighash message)
    (hlength : nibbles.length = needed + rest) (hnibbles : ∀ n ∈ nibbles, n < 16)
    (hitems : m.stack.items = nibbleItems (fromTop order nibbles) ++ others)
    (hroom : others.length + needed ≤ 1000) :
    Leaves (truncate needed rest order p) m stack alt ↔
      (order = .firstOnTop → m.cache.altStack.HasRoom needed) ∧
      stack = { m.stack with
        items := nibbleItems (fromTop order (nibbles.take needed)) ++ others } ∧
      alt = m.cache.altStack := by
  have hsizes : ∀ item ∈ nibbleItems (fromTop order nibbles), (item.length : Int) ≤ 520 :=
    length_le_of_mem_nibbleItems fun n hn => hnibbles n (mem_fromTop_iff.mp hn)
  have hleading : order.leading needed (nibbleItems (fromTop order nibbles)) =
      nibbleItems (fromTop order (nibbles.take needed)) := leading_nibbleItems (by omega)
  have hcount : (nibbleItems (fromTop order (nibbles.take needed))).length = needed := by
    rw [length_nibbleItems, length_fromTop, List.length_take_of_le (by omega)]
  -- Nibbles are never too large, so the alternate stack only has to have room.
  have haltSizes : ∀ item ∈ nibbleItems (fromTop order (nibbles.take needed)),
      (item.length : Int) ≤ m.cache.altStack.maxItemSize := by
    rw [← hleading, Machine.altMaxItemSize_of_frame hframe]
    exact fun item hitem => hsizes item (NibbleOrder.mem_of_mem_leading hitem)
  rw [leaves_truncate_iff hitems (by rw [length_nibbleItems, length_fromTop, hlength])
    (by rwa [Machine.maxItemSize_of_frame hframe]) (by rwa [Machine.maxItems_of_frame hframe]),
    hleading, Stack.HasRoomFor, hcount]
  simp only [and_iff_right haltSizes]

/-- Nibbles are compared one by one with the items from the top. Each of them is put onto the stack
first. -/
theorem matchNibbles_eq_ok_iff {nibbles : List Nat} :
    matchNibbles nibbles p m = .ok () m' ↔
      (∀ item ∈ nibbleItems nibbles, (item.length : Int) ≤ m.stack.maxItemSize) ∧ ∃ rest,
        m.stack.items = nibbleItems nibbles ++ rest ∧
        (nibbles ≠ [] → m.stack.items.length < m.stack.maxItems) ∧ m' = m.withItems rest := by
  rw [matchNibbles]
  induction nibbles generalizing m with
  | nil =>
    simp only [List.forM_nil, pure_eq_ok_iff]
    constructor
    · rintro ⟨-, rfl⟩
      exact ⟨by simp [nibbleItems], m.stack.items, rfl, by simp, rfl⟩
    · rintro ⟨-, rest, hitems, -, rfl⟩
      rw [nibbleItems, List.map_nil, List.nil_append] at hitems
      exact ⟨trivial, by rw [← hitems, Machine.withItems_self]⟩
  | cons n nibbles ih =>
    have hcons : nibbleItems (n :: nibbles) = ScriptNumber.encode n :: nibbleItems nibbles := rfl
    simp only [List.forM_cons, bind_eq_ok_iff, push_eq_ok_iff, act_equalVerify_eq_ok_iff, hcons,
      List.forall_mem_cons, List.cons_append]
    constructor
    · rintro ⟨-, k, ⟨-, l, ⟨hsize, hroom, rfl⟩, item, others, hpair, rfl⟩, hmatch⟩
      -- The item below the nibble that was put is the one that is compared with it.
      obtain ⟨rfl, hothers⟩ := List.cons.inj hpair
      obtain ⟨hsizes, rest, hitems, -, rfl⟩ := ih.mp hmatch
      rw [Machine.stack_items_withItems] at hitems
      exact ⟨⟨hsize, hsizes⟩, rest, by rw [hothers, hitems], fun _ => hroom, rfl⟩
    · rintro ⟨⟨hsize, hsizes⟩, rest, hitems, hroom, rfl⟩
      have hlength := hroom (List.cons_ne_nil n nibbles)
      refine ⟨(), _, ⟨(), _, ⟨hsize, hlength, rfl⟩, ScriptNumber.encode n, nibbleItems nibbles ++ rest,
        ?_, rfl⟩, ih.mpr ⟨hsizes, rest, rfl, fun _ => ?_, rfl⟩⟩
      · rw [Machine.stack_items_withItems, hitems]
      · rw [hitems] at hlength
        exact Nat.lt_of_succ_lt hlength

end Gate

/-! ### The whole script -/

/-- The items that a locking script takes from the stack, the deepest one first. -/
structure Offer where
  first : Bytes
  second : Bytes
  third : Bytes
  number : Bytes
  signature : Bytes

namespace Offer

/-- The items of an offer, the deepest one first. -/
def toList (o : Offer) : List Bytes := [o.first, o.second, o.third, o.number, o.signature]

/-- The message that the limbs of an offer make. -/
def message (o : Offer) : Bytes := o.first ++ o.second ++ o.third

/-- On a stack that consists of an offer the signature is on top. -/
theorem items_eq {o : Offer} {s : Stack} (h : s.toList = o.toList) :
    s.items = [o.signature, o.number, o.third, o.second, o.first] := by
  rw [← List.reverse_reverse s.items, ← Stack.toList, h]
  rfl

end Offer

/-- What a gate asks of an offer: a signature under its key, a number that its role admits, and a
message of twelve bytes whose digest starts with its nibbles. -/
structure Gate.Admits (g : Gate) (p : Primitives) (sighash : Value) (o : Offer) : Prop where
  verifyValue_eq : p.verifyValue g.key sighash o.signature = true
  exists_decode_eq : ∃ n, ScriptNumber.decode ScriptNumber.operandSize o.number = .ok n ∧
    g.role.accepts n = true
  length_message : o.message.length = 12
  take_nibbles_eq : (p.hash o.message).bytes.toNibbles.take g.nibbles.length = g.nibbles

namespace Gate

variable {g : Gate} {p : Primitives} {m : Machine} {sighash : Value}

theorem length_nibbles_add (g : Gate) (digest : Digest) :
    digest.bytes.toNibbles.length = g.nibbles.length + (64 - g.nibbles.length) := by
  have hle := g.length_nibbles_le
  rw [Bytes.length_toNibbles, Digest.length_bytes]
  omega

/-- A locking script that succeeds finds an offer on top of the stack, whose signature is valid,
whose number the role admits, and whose message has twelve bytes. What is left to it are the nibbles
of the digest: it keeps the leading ones, compares them, and leaves its mark. -/
theorem exists_offer_of_passEmitting_eq_ok (hframe : m.frame = .ofSighash sighash)
    {emitted : NibbleOrder} {width : Nat} {m' : Machine}
    (hpass : g.passEmitting emitted width p m = .ok () m') :
    ∃ (o : Offer) (rest : List Bytes) (n : Int) (kept matched : Machine),
      m.stack.items = [o.signature, o.number, o.third, o.second, o.first] ++ rest ∧
      p.verifyValue g.key sighash o.signature = true ∧
      ScriptNumber.decode ScriptNumber.operandSize o.number = .ok n ∧ g.role.accepts n = true ∧
      o.message.length = 12 ∧ rest.length + 64 ≤ 1000 ∧
      truncate g.nibbles.length (width - g.nibbles.length) g.order p
          (m.withItems (nibbleItems (fromTop emitted (p.hash o.message).bytes.toNibbles) ++ rest)) =
        .ok () kept ∧
      matchNibbles (fromTop g.order g.nibbles) p kept = .ok () matched ∧
      push (ScriptNumber.encode (1 : Nat)) matched = .ok () m' := by
  -- The run goes through one machine after the other, and each part tells what it took.
  simp only [passEmitting, bind_eq_ok_iff] at hpass
  obtain ⟨⟨⟩, m₁, hcheck, ⟨⟩, m₂, hcompare, ⟨⟩, m₃, hdrop, ⟨⟩, m₄, hhash, ⟨⟩, kept, htruncate, ⟨⟩,
    matched, hmatch, hpush⟩ := hpass
  obtain ⟨signature, r₁, hsignature, -, hverify, rfl⟩ :=
    (checkSignature_eq_ok_iff g.length_key hframe).mp hcheck
  obtain ⟨number, r₂, n, hnumber, -, hdecode, haccepts, rfl⟩ :=
    (compareThreshold_eq_ok_iff (by exact Machine.maxItems_of_frame hframe)
      (by exact Machine.maxItemSize_of_frame hframe)).mp hcompare
  obtain ⟨dropped, r₃, hdropped, rfl⟩ := act_drop_eq_ok_iff.mp hdrop
  rw [hnumber] at hdropped
  obtain ⟨rfl, rfl⟩ := List.cons.inj hdropped
  obtain ⟨first, second, third, rest, hlimbs, -, hlength, hroom, rfl⟩ :=
    (hashLimbs_eq_ok_iff (by exact hframe)).mp hhash
  refine ⟨⟨first, second, third, number, signature⟩, rest, n, kept, matched, ?_, hverify, hdecode,
    haccepts, hlength, hroom, htruncate, hmatch, hpush⟩
  rw [Machine.stack_items_withItems] at hnumber hlimbs
  rw [hsignature, hnumber, hlimbs]
  rfl

/-- If the script of a gate succeeds and leaves a single item, the stack was an admitted offer. -/
theorem exists_offer_of_pass_eq_ok (hframe : m.frame = .ofSighash sighash) {m' : Machine}
    {item : Bytes} (hpass : g.pass p m = .ok () m') (hitem : m'.stack.items = [item]) :
    ∃ o : Offer, m.stack.toList = o.toList ∧ g.Admits p sighash o ∧
      (g.order = .firstOnTop → m.cache.altStack.HasRoom g.nibbles.length) := by
  have hcount := g.length_nibbles_le
  obtain ⟨o, rest, n, kept, matched, hitems, hverify, hdecode, haccepts, hlength, hroom, htruncate,
    hmatch, hpush⟩ := exists_offer_of_passEmitting_eq_ok hframe hpass
  obtain ⟨haltRoom, hstack, -⟩ :=
    (leaves_truncate_nibbles_iff (by exact hframe) (g.length_nibbles_add _)
      (fun _ => Bytes.lt_of_mem_toNibbles) rfl (by omega)).mp ⟨kept, htruncate, rfl, rfl⟩
  obtain ⟨-, left, hmatched, -, rfl⟩ := matchNibbles_eq_ok_iff.mp hmatch
  -- The nibbles that were kept are as many as the expected ones, so nothing is left below them.
  rw [hstack] at hmatched
  have hlengths : (nibbleItems (fromTop g.order
        ((p.hash o.message).bytes.toNibbles.take g.nibbles.length))).length =
      (nibbleItems (fromTop g.order g.nibbles)).length := by
    simp only [length_nibbleItems, length_fromTop, List.length_take, Bytes.length_toNibbles,
      Digest.length_bytes]
    omega
  obtain ⟨hsame, rfl⟩ := List.append_inj hmatched hlengths
  rw [nibbleItems_inj, fromTop_inj] at hsame
  -- The mark of success is the single item, so nothing lay below the limbs.
  obtain ⟨-, -, rfl⟩ := push_eq_ok_iff.mp hpush
  obtain ⟨-, rfl⟩ := List.cons.inj hitem
  refine ⟨o, ?_, ⟨hverify, ⟨n, hdecode, haccepts⟩, hlength, hsame⟩, haltRoom⟩
  rw [Stack.toList, hitems]
  rfl

/-! ### The parts on an offer -/

/-- The number is dropped. -/
theorem drop_offer_eq_ok (p : Primitives) (m : Machine) (o : Offer) :
    drop.act p [] (m.withItems [o.number, o.third, o.second, o.first]) =
      .ok () (m.withItems [o.third, o.second, o.first]) :=
  act_drop_eq_ok_iff.mpr ⟨_, _, rfl, rfl⟩

section
variable {o : Offer} (hframe : m.frame = .ofSighash sighash)
include hframe

/-- A valid signature is taken off. -/
theorem checkSignature_offer_eq_ok (hlist : m.stack.toList = o.toList)
    (hverify : p.verifyValue g.key sighash o.signature = true) :
    checkSignature g.key p m = .ok () (m.withItems [o.number, o.third, o.second, o.first]) := by
  have hitems := Offer.items_eq hlist
  exact (checkSignature_eq_ok_iff g.length_key hframe).mpr
    ⟨_, _, hitems, by simp [hitems], hverify, rfl⟩

/-- A number that the role admits is left where it is. -/
theorem compareThreshold_offer_eq_ok {n : Int}
    (hdecode : ScriptNumber.decode ScriptNumber.operandSize o.number = .ok n)
    (haccepts : g.role.accepts n = true) :
    compareThreshold g.role p (m.withItems [o.number, o.third, o.second, o.first]) =
      .ok () (m.withItems [o.number, o.third, o.second, o.first]) :=
  (compareThreshold_eq_ok_iff (by exact Machine.maxItems_of_frame hframe)
    (by exact Machine.maxItemSize_of_frame hframe)).mpr
      ⟨_, _, n, rfl, by simp, hdecode, haccepts, rfl⟩

/-- Limbs of twelve bytes together are replaced by the nibbles of their digest. -/
theorem hashLimbs_offer_eq_ok (hlength : o.message.length = 12) :
    hashLimbs g.order p (m.withItems [o.third, o.second, o.first]) =
      .ok () (m.withItems (nibbleItems (fromTop g.order (p.hash o.message).bytes.toNibbles))) := by
  refine (hashLimbs_eq_ok_iff (by exact hframe)).mpr ⟨_, _, _, [], rfl, by simp, hlength, by simp, ?_⟩
  rw [List.append_nil]
  rfl

/-- Of the nibbles of a digest as many are kept as the gate compares. -/
theorem exists_truncate_digest_eq_ok (digest : Digest)
    (haltRoom : g.order = .firstOnTop → m.cache.altStack.HasRoom g.nibbles.length) :
    ∃ m', truncate g.nibbles.length (64 - g.nibbles.length) g.order p
          (m.withItems (nibbleItems (fromTop g.order digest.bytes.toNibbles))) = .ok () m' ∧
      m'.stack = { m.stack with
        items := nibbleItems (fromTop g.order (digest.bytes.toNibbles.take g.nibbles.length)) } ∧
      m'.cache.altStack = m.cache.altStack := by
  have hcount := g.length_nibbles_le
  obtain ⟨m', htruncate, hstack, halt⟩ := (leaves_truncate_nibbles_iff (p := p)
    (m := m.withItems (nibbleItems (fromTop g.order digest.bytes.toNibbles)))
    (by exact hframe) (g.length_nibbles_add _) (fun _ => Bytes.lt_of_mem_toNibbles)
    (List.append_nil _).symm (by rw [List.length_nil]; omega)).mpr ⟨haltRoom, rfl, rfl⟩
  rw [List.append_nil] at hstack
  exact ⟨m', htruncate, hstack, halt⟩

end

/-- The comparison of a gate uses up its nibbles. -/
theorem matchNibbles_eq_ok_of_items_eq (hmaxItems : m.stack.maxItems = 1000)
    (hmaxItemSize : m.stack.maxItemSize = 520)
    (hitems : m.stack.items = nibbleItems (fromTop g.order g.nibbles)) :
    matchNibbles (fromTop g.order g.nibbles) p m = .ok () (m.withItems []) := by
  have hcount := g.length_nibbles_le
  refine matchNibbles_eq_ok_iff.mpr
    ⟨hmaxItemSize ▸ length_le_of_mem_nibbleItems g.lt_of_mem_fromTop, [],
      by rw [hitems, List.append_nil], fun _ => ?_, rfl⟩
  rw [hitems, length_nibbleItems, length_fromTop]
  omega

/-- On an admitted offer the script of a gate succeeds and leaves its mark, and the alternate stack
as it was. -/
theorem Admits.exists_pass_eq_ok {o : Offer} (hadmits : g.Admits p sighash o)
    (hframe : m.frame = .ofSighash sighash) (hlist : m.stack.toList = o.toList)
    (haltRoom : g.order = .firstOnTop → m.cache.altStack.HasRoom g.nibbles.length) :
    ∃ m', g.pass p m = .ok () m' ∧ m'.stack.items = [ScriptNumber.encode (1 : Nat)] ∧
      m'.cache.altStack = m.cache.altStack := by
  obtain ⟨n, hdecode, haccepts⟩ := hadmits.exists_decode_eq
  -- Part by part, the stack is taken off from its top.
  have hcheck := checkSignature_offer_eq_ok hframe hlist hadmits.verifyValue_eq
  have hcompare := compareThreshold_offer_eq_ok (p := p) hframe hdecode haccepts
  have hdrop := drop_offer_eq_ok p m o
  have hhash := hashLimbs_offer_eq_ok (g := g) (p := p) hframe hadmits.length_message
  obtain ⟨m₅, htruncate, hstack, halt⟩ :=
    exists_truncate_digest_eq_ok (p := p) hframe (p.hash o.message) haltRoom
  rw [hadmits.take_nibbles_eq] at hstack
  have hmaxItems₅ : m₅.stack.maxItems = 1000 := by
    rw [hstack]
    exact Machine.maxItems_of_frame hframe
  have hmaxItemSize₅ : m₅.stack.maxItemSize = 520 := by
    rw [hstack]
    exact Machine.maxItemSize_of_frame hframe
  have hmatch := matchNibbles_eq_ok_of_items_eq (g := g) (p := p) (m := m₅) hmaxItems₅
    hmaxItemSize₅ (by rw [hstack])
  have hpush : push (ScriptNumber.encode (1 : Nat)) (m₅.withItems []) =
      .ok () (m₅.withItems [ScriptNumber.encode (1 : Nat)]) := by
    refine push_eq_ok_iff.mpr ⟨?_, ?_, rfl⟩
    · rw [Machine.stack_maxItemSize_withItems, hmaxItemSize₅]
      exact length_encode_le (by decide)
    · rw [Machine.stack_maxItems_withItems, hmaxItems₅]
      exact Nat.succ_pos 999
  simp only [pass, passOfWidth, passEmitting, bind_eq_ok_iff]
  exact ⟨_, ⟨(), _, hcheck, (), _, hcompare, (), _, hdrop, (), _, hhash, (), _, htruncate, (), _,
    hmatch, hpush⟩, rfl, halt⟩

/-- The script of a gate leaves a single true item on the stacks that consist of an admitted
offer. -/
theorem exists_pass_iff (hframe : m.frame = .ofSighash sighash) :
    (∃ m', g.pass p m = .ok () m' ∧ ∃ item, m'.stack.items = [item] ∧ Truth.holds item = true) ↔
      ∃ o : Offer, m.stack.toList = o.toList ∧ g.Admits p sighash o ∧
        (g.order = .firstOnTop → m.cache.altStack.HasRoom g.nibbles.length) := by
  constructor
  · rintro ⟨m', hpass, item, hitem, -⟩
    exact exists_offer_of_pass_eq_ok hframe hpass hitem
  · rintro ⟨o, hlist, hadmits, haltRoom⟩
    obtain ⟨m', hpass, hitems, -⟩ := hadmits.exists_pass_eq_ok hframe hlist haltRoom
    exact ⟨m', hpass, _, hitems, by decide +kernel⟩

end Gate

end FlowGate

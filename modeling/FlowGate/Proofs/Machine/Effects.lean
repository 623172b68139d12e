import FlowGate.Machine.Run

/-!
# What an operation needs and leaves

An action of the machine either fails or leaves a machine behind. This file says for every
operation what the stacks have to hold and how much room they need for it to succeed, and what they
hold afterwards.

## Main definitions

* `Machine.withItems`, `Machine.withAlt` — a machine with other items on one of its stacks
* `Stack.HasRoom` — whether a number of further items can be put onto a stack
* `Stack.OffersLimbs` — a stack that limbs are taken from to be hashed

## Main results

* `Exec.bind_eq_ok_iff` — a sequence of two actions succeeds if both do
* `Operation.act_dup_eq_ok_iff`, `Operation.act_toAlt_eq_ok_iff`, … — when an operation succeeds
* `Exec.digest_eq_ok_iff` — when limbs are hashed, and what is left of them
* `Exec.digest_eq_of_offersLimbs` — what hashing does once the limbs are there
-/

namespace FlowGate

namespace Machine

/-- The machine with other items on its stack. -/
def withItems (m : Machine) (items : List Bytes) : Machine :=
  { m with stack := { m.stack with items } }

/-- The machine with other items on its alternate stack, which is made if there is none. -/
def withAlt (m : Machine) (items : List Bytes) : Machine :=
  { m with cache := { m.cache with alt := some { m.cache.altStack with items } } }

variable (m : Machine) (items others : List Bytes)

@[simp] theorem withItems_self : m.withItems m.stack.items = m := rfl

@[simp] theorem stack_items_withItems : (m.withItems items).stack.items = items := rfl

@[simp] theorem stack_maxItems_withItems :
    (m.withItems items).stack.maxItems = m.stack.maxItems := rfl

@[simp] theorem stack_maxItemSize_withItems :
    (m.withItems items).stack.maxItemSize = m.stack.maxItemSize := rfl

@[simp] theorem cache_withItems : (m.withItems items).cache = m.cache := rfl

@[simp] theorem withItems_withItems : (m.withItems items).withItems others = m.withItems others :=
  rfl

@[simp] theorem stack_withAlt : (m.withAlt items).stack = m.stack := rfl

end Machine

/-- Whether a number of further items can be put onto a stack. -/
def Stack.HasRoom (s : Stack) (count : Nat) : Prop :=
  count = 0 ∨ s.items.length + count ≤ s.maxItems

theorem Stack.hasRoom_succ_iff {s : Stack} {count : Nat} (item : Bytes) :
    s.HasRoom (count + 1) ↔ s.items.length < s.maxItems ∧
      ({ s with items := item :: s.items } : Stack).HasRoom count := by
  simp only [HasRoom, List.length_cons]
  omega

/-- A stack either takes an item, or the item exceeds one of the limits of the stack. -/
theorem Stack.push_cases (s : Stack) (item : Bytes) :
    ((item.length : Int) ≤ s.maxItemSize ∧ s.items.length < s.maxItems ∧
        s.push item = .ok { s with items := item :: s.items }) ∨
      ∃ fault, s.push item = .error fault ∧
        ¬ ((item.length : Int) ≤ s.maxItemSize ∧ s.items.length < s.maxItems) := by
  cases h : s.push item with
  | ok stack =>
    obtain ⟨hsize, hroom, rfl⟩ := Stack.push_eq_ok_iff.mp h
    exact .inl ⟨hsize, hroom, rfl⟩
  | error fault =>
    refine .inr ⟨fault, rfl, ?_⟩
    intro hlimits
    rw [Stack.push_eq_ok_iff.mpr ⟨hlimits.1, hlimits.2, rfl⟩] at h
    cases h

/-- A stack that limbs are taken from to be hashed: the flag of an order, the length of a limb and
that of the message lie on top, both lengths positive, and below them as many limbs as the lengths
ask for. -/
structure Stack.OffersLimbs (s : Stack) (order : NibbleOrder) (limbLength messageLength : Int)
    (limbs rest : List Bytes) : Prop where
  exists_items_eq : ∃ flag size length, s.items = flag :: size :: length :: (limbs ++ rest) ∧
    ScriptNumber.decode ScriptNumber.operandSize flag = .ok order.flag ∧
    ScriptNumber.decode ScriptNumber.operandSize size = .ok limbLength ∧
    ScriptNumber.decode ScriptNumber.operandSize length = .ok messageLength
  limbLength_pos : 0 < limbLength
  messageLength_pos : 0 < messageLength
  length_limbs : limbs.length = ((messageLength + limbLength - 1) / limbLength).toNat

theorem NibbleOrder.eq_flag_of_ofFlag? {n : Int} {order : NibbleOrder}
    (h : ofFlag? n = some order) : n = order.flag := by
  unfold ofFlag? at h
  split at h
  · obtain rfl := Option.some.inj h
    assumption
  · split at h
    · obtain rfl := Option.some.inj h
      assumption
    · cases h

namespace Exec

variable {α β : Type} {m m' : Machine} {item : Bytes} {u : Unit}

/-! ### Elementary actions -/

/-- A sequence of two actions succeeds if the first does, and the second in what the first left. -/
theorem bind_eq_ok_iff {x : Exec α} {f : α → Exec β} {b : β} :
    (x >>= f) m = .ok b m' ↔ ∃ a n, x m = .ok a n ∧ f a n = .ok b m' := by
  change EStateM.bind x f m = _ ↔ _
  unfold EStateM.bind
  cases x m <;> simp [and_assoc]

/-- Behind an action that succeeds a sequence goes on with what the action left. -/
theorem bind_of_eq_ok {x : Exec α} {f : α → Exec β} {a : α} (h : x m = .ok a m') :
    (x >>= f) m = f a m' := by
  change EStateM.bind x f m = _
  rw [EStateM.bind, h]

/-- Two sequences with the same first action succeed alike if their second actions do so on what the
first one leaves. -/
theorem bind_eq_ok_congr {x : Exec α} {f g : α → Exec β} {b : β}
    (h : ∀ a n, x m = .ok a n → (f a n = .ok b m' ↔ g a n = .ok b m')) :
    (x >>= f) m = .ok b m' ↔ (x >>= g) m = .ok b m' := by
  rw [bind_eq_ok_iff, bind_eq_ok_iff]
  exact exists_congr fun a => exists_congr fun n => and_congr_right (h a n)

theorem pure_eq_ok_iff {a b : α} : (pure a : Exec α) m = .ok b m' ↔ a = b ∧ m = m' := by
  change EStateM.Result.ok a m = _ ↔ _
  simp

@[simp] theorem fail_ne_ok {fault : ExecFault} {a : α} : fail fault m ≠ .ok a m' := by
  simp [fail]

theorem require_eq_ok_iff {condition : Bool} {fault : ExecFault} :
    require condition fault m = .ok u m' ↔ condition = true ∧ m = m' := by
  cases condition <;> simp [require, pure_eq_ok_iff]

theorem ofExcept_eq_ok_iff {result : Except ExecFault α} {a : α} :
    ofExcept result m = .ok a m' ↔ result = .ok a ∧ m = m' := by
  cases result <;> simp [ofExcept]

theorem push_eq_ok_iff :
    push item m = .ok u m' ↔ (item.length : Int) ≤ m.stack.maxItemSize ∧
      m.stack.items.length < m.stack.maxItems ∧ m' = m.withItems (item :: m.stack.items) := by
  unfold push
  rcases m.stack.push_cases item with ⟨hsize, hroom, hpush⟩ | ⟨fault, hpush, hlimits⟩
  · simp [hpush, hsize, hroom, Machine.withItems, eq_comm]
  · simp only [hpush, reduceCtorEq, false_iff]
    intro h
    exact hlimits ⟨h.1, h.2.1⟩

theorem pop_eq_ok_iff :
    pop m = .ok item m' ↔ ∃ rest, m.stack.items = item :: rest ∧ m' = m.withItems rest := by
  unfold pop Stack.pop
  cases h : m.stack.items <;> simp [Machine.withItems, and_assoc, eq_comm]

theorem popNumber_eq_ok_iff {n : Int} :
    popNumber m = .ok n m' ↔ ∃ bytes rest, m.stack.items = bytes :: rest ∧
      ScriptNumber.decode ScriptNumber.operandSize bytes = .ok n ∧ m' = m.withItems rest := by
  simp only [popNumber, bind_eq_ok_iff, pop_eq_ok_iff, ofExcept_eq_ok_iff]
  constructor
  · rintro ⟨bytes, n, ⟨rest, hitems, rfl⟩, hdecode, rfl⟩
    exact ⟨bytes, rest, hitems, hdecode, rfl⟩
  · rintro ⟨bytes, rest, hitems, hdecode, rfl⟩
    exact ⟨bytes, _, ⟨rest, hitems, rfl⟩, hdecode, rfl⟩

theorem openAlt_eq_ok_iff :
    openAlt m = .ok u m' ↔ m' = m.withAlt m.cache.altStack.items := by
  simp [openAlt, Cache.openAlt, Machine.withAlt, eq_comm]

theorem pushAlt_eq_ok_iff :
    pushAlt item m = .ok u m' ↔ (item.length : Int) ≤ m.cache.altStack.maxItemSize ∧
      m.cache.altStack.items.length < m.cache.altStack.maxItems ∧
      m' = m.withAlt (item :: m.cache.altStack.items) := by
  unfold pushAlt
  rcases m.cache.altStack.push_cases item with ⟨hsize, hroom, hpush⟩ | ⟨fault, hpush, hlimits⟩
  · simp [hpush, hsize, hroom, Machine.withAlt, eq_comm]
  · simp only [hpush, reduceCtorEq, false_iff]
    intro h
    exact hlimits ⟨h.1, h.2.1⟩

theorem popAlt_eq_ok_iff :
    popAlt m = .ok item m' ↔
      ∃ rest, m.cache.altStack.items = item :: rest ∧ m' = m.withAlt rest := by
  unfold popAlt Stack.pop
  cases h : m.cache.altStack.items <;> simp [Machine.withAlt, and_assoc, eq_comm]

theorem sighash_eq_ok_iff {message : Value} :
    sighash m = .ok message m' ↔ m.cache.sighash? = some message ∧ m = m' := by
  unfold sighash
  cases m.cache.sighash? <;> simp

/-- Limbs are taken from the top, and their bytes put together again in the order in which they
were pushed. -/
theorem popLimbs_eq_ok_iff {count : Nat} {message whole : Bytes} :
    popLimbs count message m = .ok whole m' ↔ ∃ limbs rest, m.stack.items = limbs ++ rest ∧
      limbs.length = count ∧ whole = limbs.reverse.flatten ++ message ∧ m' = m.withItems rest := by
  -- Each limb comes in front of what was taken before it.
  induction count generalizing m message with
  | zero =>
    simp only [popLimbs, pure_eq_ok_iff, List.length_eq_zero_iff]
    constructor
    · rintro ⟨rfl, rfl⟩
      exact ⟨[], m.stack.items, by simp⟩
    · rintro ⟨limbs, rest, hitems, rfl, rfl, rfl⟩
      simp only [List.nil_append] at hitems
      simp [← hitems]
  | succ count ih =>
    simp only [popLimbs, bind_eq_ok_iff, pop_eq_ok_iff, ih]
    constructor
    · rintro ⟨limb, n, ⟨others, hitems, rfl⟩, limbs, rest, hothers, hcount, rfl, rfl⟩
      refine ⟨limb :: limbs, rest, ?_, by simp [hcount], by simp, rfl⟩
      rw [hitems, List.cons_append, ← hothers]
      rfl
    · rintro ⟨limbs, rest, hitems, hcount, rfl, rfl⟩
      obtain ⟨limb, limbs, rfl⟩ := List.exists_cons_of_length_eq_add_one hcount
      refine ⟨limb, _, ⟨limbs ++ rest, hitems, rfl⟩, limbs, rest, rfl, ?_, by simp, rfl⟩
      simpa using hcount

/-- Items put one after the other lie in reverse order, the last one on top. -/
theorem forM_push_eq_ok_iff {form : α → Bytes} {xs : List α} :
    (forM xs fun x => push (form x)) m = .ok u m' ↔
      (∀ x ∈ xs, ((form x).length : Int) ≤ m.stack.maxItemSize) ∧ m.stack.HasRoom xs.length ∧
        m' = m.withItems ((xs.map form).reverse ++ m.stack.items) := by
  induction xs generalizing m with
  | nil => simp [pure_eq_ok_iff, Stack.HasRoom, eq_comm]
  | cons x xs ih =>
    simp only [List.forM_cons, bind_eq_ok_iff, push_eq_ok_iff, ih, List.forall_mem_cons,
      List.length_cons, Stack.hasRoom_succ_iff (form x)]
    constructor
    · rintro ⟨-, n, ⟨hsize, hroom, rfl⟩, hsizes, hrooms, rfl⟩
      exact ⟨⟨hsize, hsizes⟩, ⟨hroom, hrooms⟩, by simp⟩
    · rintro ⟨⟨hsize, hsizes⟩, ⟨hroom, hrooms⟩, rfl⟩
      exact ⟨(), _, ⟨hsize, hroom, rfl⟩, hsizes, hrooms, by simp⟩

/-- Items go onto a stack that takes them all, the last one on top. -/
theorem forM_push_items_eq_ok_iff {items : List Bytes} :
    (forM items push) m = .ok u m' ↔
      (∀ item ∈ items, (item.length : Int) ≤ m.stack.maxItemSize) ∧ m.stack.HasRoom items.length ∧
        m' = m.withItems (items.reverse ++ m.stack.items) := by
  have hforM : (forM items push) m = .ok u m' ↔
      (∀ item ∈ items, (item.length : Int) ≤ m.stack.maxItemSize) ∧ m.stack.HasRoom items.length ∧
        m' = m.withItems ((items.map fun item => item).reverse ++ m.stack.items) :=
    forM_push_eq_ok_iff
  rw [hforM, List.map_id']

/-! ### Composite actions -/

theorem checkSig_eq_ok_iff {p : Primitives} :
    checkSig p m = .ok u m' ↔ ∃ key signature rest message,
      m.stack.items = key :: signature :: rest ∧ key.length = Primitives.keyLength ∧
        m.cache.sighash? = some message ∧
        ((Truth.encode (p.verifyValue key message signature)).length : Int) ≤
          m.stack.maxItemSize ∧ rest.length < m.stack.maxItems ∧
        m' = m.withItems (Truth.encode (p.verifyValue key message signature) :: rest) := by
  simp only [checkSig, bind_eq_ok_iff, pop_eq_ok_iff, require_eq_ok_iff, sighash_eq_ok_iff,
    push_eq_ok_iff, beq_iff_eq]
  constructor
  · rintro ⟨key, n, ⟨others, hkey, rfl⟩, signature, n, ⟨rest, hsignature, rfl⟩, -, n,
      ⟨hlength, rfl⟩, message, n, ⟨hmessage, rfl⟩, hsize, hroom, rfl⟩
    simp only [Machine.stack_items_withItems] at hsignature
    exact ⟨key, signature, rest, message, by rw [hkey, hsignature], hlength, hmessage, hsize,
      hroom, rfl⟩
  · rintro ⟨key, signature, rest, message, hitems, hlength, hmessage, hsize, hroom, rfl⟩
    exact ⟨key, _, ⟨_, hitems, rfl⟩, signature, _, ⟨rest, rfl, rfl⟩, (), _, ⟨hlength, rfl⟩,
      message, _, ⟨hmessage, rfl⟩, hsize, hroom, rfl⟩

theorem compare_eq_ok_iff {relation : Int → Int → Bool} :
    compare relation m = .ok u m' ↔ ∃ second first rest a b,
      m.stack.items = second :: first :: rest ∧
        ScriptNumber.decode ScriptNumber.operandSize second = .ok b ∧
        ScriptNumber.decode ScriptNumber.operandSize first = .ok a ∧
        ((Truth.encode (relation a b)).length : Int) ≤ m.stack.maxItemSize ∧
        rest.length < m.stack.maxItems ∧
        m' = m.withItems (Truth.encode (relation a b) :: rest) := by
  simp only [compare, bind_eq_ok_iff, popNumber_eq_ok_iff, push_eq_ok_iff]
  constructor
  · rintro ⟨b, n, ⟨second, others, hsecond, hb, rfl⟩, a, n, ⟨first, rest, hfirst, ha, rfl⟩, hsize,
      hroom, rfl⟩
    simp only [Machine.stack_items_withItems] at hfirst
    exact ⟨second, first, rest, a, b, by rw [hsecond, hfirst], hb, ha, hsize, hroom, rfl⟩
  · rintro ⟨second, first, rest, a, b, hitems, hb, ha, hsize, hroom, rfl⟩
    exact ⟨b, _, ⟨second, _, hitems, hb, rfl⟩, a, _, ⟨first, rest, rfl, ha, rfl⟩, hsize, hroom,
      rfl⟩

/-- Hashing takes three numbers and as many limbs as the lengths ask for. It succeeds if the limbs
make a message of the given length, and leaves the nibbles of its digest. -/
theorem digest_eq_ok_iff {p : Primitives} :
    digest p m = .ok u m' ↔ ∃ flag size length limbs rest,
      ∃ (order : NibbleOrder) (limbLength messageLength : Int),
      m.stack.items = flag :: size :: length :: (limbs ++ rest) ∧
        ScriptNumber.decode ScriptNumber.operandSize flag = .ok order.flag ∧
        ScriptNumber.decode ScriptNumber.operandSize size = .ok limbLength ∧
        ScriptNumber.decode ScriptNumber.operandSize length = .ok messageLength ∧
        0 < limbLength ∧ 0 < messageLength ∧
        limbs.length = ((messageLength + limbLength - 1) / limbLength).toNat ∧
        (limbs.reverse.flatten.length : Int) = messageLength ∧
        (forM (order.arrange (p.hash limbs.reverse.flatten).bytes.toNibbles) fun n : Nat =>
          push (ScriptNumber.encode n)) (m.withItems rest) = .ok u m' := by
  simp only [digest, bind_eq_ok_iff, popNumber_eq_ok_iff, List.forM_eq_forM]
  constructor
  · rintro ⟨flagValue, n, ⟨flag, items₁, hflag, hflagValue, rfl⟩, limbLength, n,
      ⟨size, items₂, hsize, hlimbLength, rfl⟩, messageLength, n,
      ⟨length, items₃, hlength, hmessageLength, rfl⟩, h⟩
    simp only [Machine.stack_items_withItems] at hsize hlength
    -- The flag selects an order, or nothing is hashed.
    cases horder : NibbleOrder.ofFlag? flagValue with
    | none => simp [horder] at h
    | some order =>
      -- Behind the three numbers come the limbs, as many as the lengths ask for.
      simp only [horder, bind_eq_ok_iff, require_eq_ok_iff, popLimbs_eq_ok_iff, beq_iff_eq,
        decide_eq_true_eq] at h
      obtain ⟨-, n, ⟨hlimb, rfl⟩, -, n, ⟨hmessage, rfl⟩, message, n,
        ⟨limbs, rest, hlimbs, hcount, rfl, rfl⟩, -, n, ⟨hwhole, rfl⟩, hpush⟩ := h
      simp only [Machine.stack_items_withItems, List.append_nil] at hlimbs hwhole hpush
      refine ⟨flag, size, length, limbs, rest, order, limbLength, messageLength, ?_, ?_,
        hlimbLength, hmessageLength, hlimb, hmessage, hcount, hwhole, hpush⟩
      · rw [hflag, hsize, hlength, hlimbs]
      · rw [hflagValue, NibbleOrder.eq_flag_of_ofFlag? horder]
  · rintro ⟨flag, size, length, limbs, rest, order, limbLength, messageLength, hitems, hflag,
      hlimbLength, hmessageLength, hlimb, hmessage, hcount, hwhole, hpush⟩
    refine ⟨order.flag, _, ⟨flag, _, hitems, hflag, rfl⟩, limbLength, _,
      ⟨size, _, rfl, hlimbLength, rfl⟩, messageLength, _, ⟨length, _, rfl, hmessageLength, rfl⟩, ?_⟩
    simp only [NibbleOrder.ofFlag?_flag, bind_eq_ok_iff, require_eq_ok_iff, popLimbs_eq_ok_iff,
      beq_iff_eq, decide_eq_true_eq]
    exact ⟨(), _, ⟨hlimb, rfl⟩, (), _, ⟨hmessage, rfl⟩, _, _,
      ⟨limbs, rest, rfl, hcount, rfl, rfl⟩, (), _, ⟨by simpa using hwhole, rfl⟩,
      by simpa using hpush⟩

/-- Hashing takes the three numbers and the limbs. Then it fails if the limbs do not make a message
of the given length, else it puts the nibbles of the digest. -/
theorem digest_eq_of_offersLimbs {p : Primitives} {order : NibbleOrder}
    {limbLength messageLength : Int} {limbs rest : List Bytes}
    (h : m.stack.OffersLimbs order limbLength messageLength limbs rest) :
    digest p m =
      if (limbs.reverse.flatten.length : Int) = messageLength then
        (forM (order.arrange (p.hash limbs.reverse.flatten).bytes.toNibbles) fun n : Nat =>
          push (ScriptNumber.encode n)) (m.withItems rest)
      else .error .lengthMismatch (m.withItems rest) := by
  obtain ⟨flag, size, length, hitems, hflag, hsize, hlength⟩ := h.exists_items_eq
  have hpopFlag : popNumber m = .ok order.flag (m.withItems (size :: length :: (limbs ++ rest))) :=
    popNumber_eq_ok_iff.mpr ⟨flag, _, hitems, hflag, rfl⟩
  have hpopSize : popNumber (m.withItems (size :: length :: (limbs ++ rest))) =
      .ok limbLength (m.withItems (length :: (limbs ++ rest))) :=
    popNumber_eq_ok_iff.mpr ⟨size, _, rfl, hsize, rfl⟩
  have hpopLength : popNumber (m.withItems (length :: (limbs ++ rest))) =
      .ok messageLength (m.withItems (limbs ++ rest)) :=
    popNumber_eq_ok_iff.mpr ⟨length, _, rfl, hlength, rfl⟩
  have hpopLimbs : popLimbs ((messageLength + limbLength - 1) / limbLength).toNat []
      (m.withItems (limbs ++ rest)) = .ok limbs.reverse.flatten (m.withItems rest) :=
    popLimbs_eq_ok_iff.mpr ⟨limbs, rest, rfl, h.length_limbs, (List.append_nil _).symm, rfl⟩
  have hlimbPos : require (limbLength > 0) .limbLength (m.withItems (limbs ++ rest)) =
      .ok () (m.withItems (limbs ++ rest)) :=
    require_eq_ok_iff.mpr ⟨decide_eq_true h.limbLength_pos, rfl⟩
  have hmessagePos : require (messageLength > 0) .messageLength (m.withItems (limbs ++ rest)) =
      .ok () (m.withItems (limbs ++ rest)) :=
    require_eq_ok_iff.mpr ⟨decide_eq_true h.messageLength_pos, rfl⟩
  rw [digest, bind_of_eq_ok hpopFlag, bind_of_eq_ok hpopSize, bind_of_eq_ok hpopLength]
  simp only [NibbleOrder.ofFlag?_flag]
  rw [bind_of_eq_ok hlimbPos, bind_of_eq_ok hmessagePos, bind_of_eq_ok hpopLimbs]
  -- What is left to check is the length of the message.
  by_cases hwhole : (limbs.reverse.flatten.length : Int) = messageLength
  · rw [if_pos hwhole]
    have hrequire : require ((limbs.reverse.flatten.length : Int) == messageLength) .lengthMismatch
        (m.withItems rest) = .ok () (m.withItems rest) :=
      require_eq_ok_iff.mpr ⟨beq_iff_eq.mpr hwhole, rfl⟩
    exact bind_of_eq_ok hrequire
  · rw [if_neg hwhole, beq_eq_false_iff_ne.mpr hwhole]
    rfl

end Exec

/-! ### Operations -/

namespace Operation

variable {p : Primitives} {data : Bytes} {m m' : Machine} {u : Unit}

open Exec

theorem act_drop_eq_ok_iff :
    drop.act p data m = .ok u m' ↔
      ∃ item rest, m.stack.items = item :: rest ∧ m' = m.withItems rest := by
  simp only [act, bind_eq_ok_iff, pop_eq_ok_iff, pure_eq_ok_iff]
  constructor
  · rintro ⟨item, n, ⟨rest, hitems, rfl⟩, -, rfl⟩
    exact ⟨item, rest, hitems, rfl⟩
  · rintro ⟨item, rest, hitems, rfl⟩
    exact ⟨item, _, ⟨rest, hitems, rfl⟩, trivial, rfl⟩

theorem act_dup_eq_ok_iff :
    dup.act p data m = .ok u m' ↔ ∃ item rest, m.stack.items = item :: rest ∧
      (item.length : Int) ≤ m.stack.maxItemSize ∧ rest.length + 1 < m.stack.maxItems ∧
      m' = m.withItems (item :: item :: rest) := by
  simp only [act, bind_eq_ok_iff, pop_eq_ok_iff, push_eq_ok_iff]
  constructor
  · rintro ⟨item, n, ⟨rest, hitems, rfl⟩, -, n, ⟨hsize, -, rfl⟩, -, hroom, rfl⟩
    exact ⟨item, rest, hitems, hsize, hroom, rfl⟩
  · rintro ⟨item, rest, hitems, hsize, hroom, rfl⟩
    exact ⟨item, _, ⟨rest, hitems, rfl⟩, (), _, ⟨hsize, Nat.lt_of_succ_lt hroom, rfl⟩, hsize,
      hroom, rfl⟩

theorem act_verify_eq_ok_iff :
    verify.act p data m = .ok u m' ↔ ∃ item rest, m.stack.items = item :: rest ∧
      Truth.holds item = true ∧ m' = m.withItems rest := by
  simp only [act, bind_eq_ok_iff, pop_eq_ok_iff, require_eq_ok_iff]
  constructor
  · rintro ⟨item, n, ⟨rest, hitems, rfl⟩, hholds, rfl⟩
    exact ⟨item, rest, hitems, hholds, rfl⟩
  · rintro ⟨item, rest, hitems, hholds, rfl⟩
    exact ⟨item, _, ⟨rest, hitems, rfl⟩, hholds, rfl⟩

theorem act_equalVerify_eq_ok_iff :
    equalVerify.act p data m = .ok u m' ↔
      ∃ item rest, m.stack.items = item :: item :: rest ∧ m' = m.withItems rest := by
  simp only [act, bind_eq_ok_iff, pop_eq_ok_iff, require_eq_ok_iff, beq_iff_eq]
  constructor
  · rintro ⟨first, n, ⟨others, hfirst, rfl⟩, second, n, ⟨rest, hsecond, rfl⟩, rfl, rfl⟩
    simp only [Machine.stack_items_withItems] at hsecond
    exact ⟨first, rest, by rw [hfirst, hsecond], rfl⟩
  · rintro ⟨item, rest, hitems, rfl⟩
    exact ⟨item, _, ⟨_, hitems, rfl⟩, item, _, ⟨rest, rfl, rfl⟩, rfl, rfl⟩

theorem act_checkSigVerify_eq_ok_iff :
    checkSigVerify.act p data m = .ok u m' ↔ ∃ key signature rest message,
      m.stack.items = key :: signature :: rest ∧ key.length = Primitives.keyLength ∧
        m.cache.sighash? = some message ∧ p.verifyValue key message signature = true ∧
        1 ≤ m.stack.maxItemSize ∧ rest.length < m.stack.maxItems ∧ m' = m.withItems rest := by
  simp only [act, bind_eq_ok_iff, checkSig_eq_ok_iff, pop_eq_ok_iff, require_eq_ok_iff]
  constructor
  · rintro ⟨-, n, ⟨key, signature, rest, message, hitems, hlength, hmessage, hsize, hroom, rfl⟩,
      item, n, ⟨others, hitem, rfl⟩, hholds, rfl⟩
    -- What is taken off again is the outcome of the check.
    obtain ⟨rfl, rfl⟩ := List.cons.inj hitem
    rw [Truth.holds_encode] at hholds
    rw [hholds] at hsize
    exact ⟨key, signature, rest, message, hitems, hlength, hmessage, hholds, hsize, hroom, rfl⟩
  · rintro ⟨key, signature, rest, message, hitems, hlength, hmessage, hverify, hsize, hroom, rfl⟩
    refine ⟨(), _, ⟨key, signature, rest, message, hitems, hlength, hmessage, ?_, hroom, rfl⟩,
      _, _, ⟨rest, rfl, rfl⟩, ?_, rfl⟩
    · rw [hverify]
      exact hsize
    · rw [Truth.holds_encode, hverify]

theorem act_toAlt_eq_ok_iff :
    toAlt.act p data m = .ok u m' ↔ ∃ item rest, m.stack.items = item :: rest ∧
      (item.length : Int) ≤ m.cache.altStack.maxItemSize ∧
      m.cache.altStack.items.length < m.cache.altStack.maxItems ∧
      m' = (m.withItems rest).withAlt (item :: m.cache.altStack.items) := by
  simp only [act, bind_eq_ok_iff, openAlt_eq_ok_iff, pop_eq_ok_iff, pushAlt_eq_ok_iff]
  constructor
  · rintro ⟨-, n, rfl, item, n, ⟨rest, hitems, rfl⟩, hsize, hroom, rfl⟩
    exact ⟨item, rest, hitems, hsize, hroom, rfl⟩
  · rintro ⟨item, rest, hitems, hsize, hroom, rfl⟩
    exact ⟨(), _, rfl, item, _, ⟨rest, hitems, rfl⟩, hsize, hroom, rfl⟩

theorem act_fromAlt_eq_ok_iff :
    fromAlt.act p data m = .ok u m' ↔ ∃ item rest, m.cache.altStack.items = item :: rest ∧
      (item.length : Int) ≤ m.stack.maxItemSize ∧
      m.stack.items.length < m.stack.maxItems ∧
      m' = (m.withItems (item :: m.stack.items)).withAlt rest := by
  simp only [act, bind_eq_ok_iff, openAlt_eq_ok_iff, popAlt_eq_ok_iff, push_eq_ok_iff]
  constructor
  · rintro ⟨-, n, rfl, item, n, ⟨rest, hitems, rfl⟩, hsize, hroom, rfl⟩
    exact ⟨item, rest, hitems, hsize, hroom, rfl⟩
  · rintro ⟨item, rest, hitems, hsize, hroom, rfl⟩
    exact ⟨(), _, rfl, item, _, ⟨rest, hitems, rfl⟩, hsize, hroom, rfl⟩

end Operation

end FlowGate

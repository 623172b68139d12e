import FlowGate.Checked.Gate
import FlowGate.Proofs.Gate.FirstFault

/-!
# The comparison of nibbles on any stack

The part of a locking script that compares nibbles takes them from the top of the stack, one after
the other. This file says on which stacks it succeeds, whatever they hold and whatever their limits
are: on those that show the nibbles in the order that was declared, byte for byte.

## Main definitions

* `NibbleOrder.read` — items from the top of a stack, read in an order
* `Stack.Shows` — a stack that shows nibbles in an order
* `Gate.IsMatchFault` — the faults of the comparison

## Main results

* `Stack.shows_iff` — which items such a stack has on top
* `Gate.matchNibbles_ok_or_fails` — the comparison succeeds, or fails with one of three faults
* `Gate.exists_nibbleMatch_isOk_iff` — the comparison succeeds on the stacks that show the nibbles,
  and takes just these
-/

namespace FlowGate

open Exec Operation

/-! ### Nibbles shown by a stack -/

/-- Items given from the top of a stack, read from the deepest one or from the topmost. -/
def NibbleOrder.read : NibbleOrder → List Bytes → List Bytes
  | firstDeepest, items => items.reverse
  | firstOnTop, items => items

/-- A stack whose top items, as many as there are nibbles, are the nibbles when read in an order. -/
def Stack.Shows (s : Stack) (order : NibbleOrder) (nibbles : List Nat) : Prop :=
  order.read (s.items.take nibbles.length) = nibbleItems nibbles

theorem NibbleOrder.read_eq_nibbleItems_iff {order : NibbleOrder} {items : List Bytes}
    {nibbles : List Nat} :
    order.read items = nibbleItems nibbles ↔ items = nibbleItems (Gate.fromTop order nibbles) := by
  cases order with
  | firstDeepest =>
    simp only [read, nibbleItems, Gate.fromTop, arrange, List.map_reverse]
    exact List.reverse_eq_iff
  | firstOnTop => simp only [read, nibbleItems, Gate.fromTop, arrange, List.reverse_reverse]

theorem mem_nibbleItems_fromTop_iff {order : NibbleOrder} {nibbles : List Nat} {item : Bytes} :
    item ∈ nibbleItems (Gate.fromTop order nibbles) ↔ item ∈ nibbleItems nibbles := by
  simp only [nibbleItems, List.mem_map, Gate.mem_fromTop_iff]

/-- A stack shows nibbles if it has them on top in the order in which they come off it. -/
theorem Stack.shows_iff {s : Stack} {order : NibbleOrder} {nibbles : List Nat} :
    s.Shows order nibbles ↔
      ∃ rest, s.items = nibbleItems (Gate.fromTop order nibbles) ++ rest := by
  have hlength : (nibbleItems (Gate.fromTop order nibbles)).length = nibbles.length := by
    rw [length_nibbleItems, Gate.length_fromTop]
  rw [Shows, NibbleOrder.read_eq_nibbleItems_iff]
  constructor
  · intro htake
    exact ⟨s.items.drop nibbles.length, by rw [← htake, List.take_append_drop]⟩
  · rintro ⟨rest, hitems⟩
    rw [hitems, List.take_left' hlength]

namespace Gate

variable {p : Primitives} {m : Machine}

/-! ### The comparison -/

/-- The faults of a comparison of nibbles: there are too few items, an item is not the nibble, or the
nibble is too large to be put beside it. -/
def IsMatchFault (fault : ExecFault) : Prop :=
  fault = .emptyStack ∨ fault = .equalVerifyFailed ∨ fault = .itemTooLarge

/-- On a stack that is not full a nibble is compared with the item on top, which it takes off, or
this fails. -/
theorem matchNibble_ok_or_fails (n : Nat) (hroom : m.stack.items.length < m.stack.maxItems) :
    (∃ rest, m.stack.items = ScriptNumber.encode n :: rest ∧
      (do push (ScriptNumber.encode n); equalVerify.act p []) m = .ok () (m.withItems rest)) ∨
    ∃ fault, IsMatchFault fault ∧
      Fails (do push (ScriptNumber.encode n); equalVerify.act p []) m fault := by
  by_cases hsize : ((ScriptNumber.encode n).length : Int) ≤ m.stack.maxItemSize
  swap
  · -- The nibble is too large to be pushed.
    exact .inr ⟨.itemTooLarge, .inr (.inr rfl),
      fails_bind_iff.mpr (.inl ⟨m, push_eq_error_of_lt (Int.lt_of_not_ge hsize)⟩)⟩
  have hpush : push (ScriptNumber.encode n) m =
      .ok () (m.withItems (ScriptNumber.encode n :: m.stack.items)) :=
    push_eq_ok_iff.mpr ⟨hsize, hroom, rfl⟩
  cases hitems : m.stack.items with
  | nil =>
    rw [hitems] at hpush
    refine .inr ⟨.emptyStack, .inl rfl, ?_⟩
    rw [fails_bind_of_eq_ok hpush]
    exact fails_equalVerify_of_singleton rfl
  | cons item rest =>
    rw [hitems] at hpush
    by_cases hitem : item = ScriptNumber.encode n
    · subst hitem
      refine .inl ⟨rest, rfl, ?_⟩
      rw [Exec.bind_of_eq_ok hpush]
      exact act_equalVerify_eq_ok_iff.mpr ⟨_, rest, rfl, rfl⟩
    · refine .inr ⟨.equalVerifyFailed, .inr (.inl rfl), ?_⟩
      rw [fails_bind_of_eq_ok hpush]
      exact fails_equalVerify rfl (Ne.symm hitem)

/-- On a stack that is not full the comparison of nibbles succeeds or fails with one of these
faults. -/
theorem matchNibbles_ok_or_fails (nibbles : List Nat)
    (hroom : m.stack.items.length < m.stack.maxItems) :
    (∃ m', matchNibbles nibbles p m = .ok () m') ∨
      ∃ fault, IsMatchFault fault ∧ Fails (matchNibbles nibbles p) m fault := by
  rw [matchNibbles]
  induction nibbles generalizing m with
  | nil => exact .inl ⟨m, rfl⟩
  | cons n nibbles ih =>
    rw [List.forM_cons]
    rcases matchNibble_ok_or_fails (p := p) n hroom with
      ⟨rest, hitems, hfirst⟩ | ⟨fault, hfault, hfails⟩
    · -- The stack is shorter now, so it is still not full.
      rw [hitems] at hroom
      have hothers := ih (m := m.withItems rest) (Nat.lt_of_succ_lt hroom)
      rw [Exec.bind_of_eq_ok hfirst]
      simp only [fails_bind_of_eq_ok hfirst]
      exact hothers
    · exact .inr ⟨fault, hfault, fails_bind_iff.mpr (.inl hfails)⟩

/-! ### The script -/

theorem does_nibbleMatch {nibbles : List Nat} (h : ∀ n ∈ nibbles, n < 16) (order : NibbleOrder)
    (p : Primitives) :
    Machine.Does p .standard (matchCode (fromTop order nibbles))
      (matchNibbles (fromTop order nibbles) p) :=
  (writes_match fun n hn => h n (mem_fromTop_iff.mp hn)).does p

section Run

variable {nibbles : List Nat} (hnibbles : ∀ n ∈ nibbles, n < 16) {order : NibbleOrder}
  (cache : Cache) {stack : Stack} (hroom : stack.items.length < stack.maxItems)
include hnibbles hroom

/-- The nibbles come off the stack if they are the items on top and fit the stack. -/
theorem sameOutcome_nibbleMatch (p : Primitives) (hshows : stack.Shows order nibbles)
    (hsizes : ∀ item ∈ nibbleItems nibbles, (item.length : Int) ≤ stack.maxItemSize) :
    (runScript p .standard (matchCode (fromTop order nibbles)) cache stack).SameOutcome
      ⟨none, .start (matchCode (fromTop order nibbles))
        { stack with items := stack.items.drop nibbles.length } cache, cache⟩ := by
  obtain ⟨rest, hitems⟩ := Stack.shows_iff.mp hshows
  have hrest : stack.items.drop nibbles.length = rest := by
    rw [hitems, List.drop_left' (by rw [length_nibbleItems, length_fromTop])]
  rw [hrest]
  refine (does_nibbleMatch hnibbles order p).sameOutcome_of_eq_ok
    (matchNibbles_eq_ok_iff.mpr ⟨?_, rest, hitems, fun _ => hroom, rfl⟩) rfl
  exact fun item hitem => hsizes item (mem_nibbleItems_fromTop_iff.mp hitem)

theorem isOk_nibbleMatch_iff (p : Primitives) :
    (runScript p .standard (matchCode (fromTop order nibbles)) cache stack).isOk = true ↔
      stack.Shows order nibbles ∧
        ∀ item ∈ nibbleItems nibbles, (item.length : Int) ≤ stack.maxItemSize := by
  constructor
  · intro hok
    obtain ⟨m', hm'⟩ := runScript_isOk_iff.mp hok
    rw [(does_nibbleMatch hnibbles order p).interpret_eq] at hm'
    obtain ⟨hsizes, rest, hitems, -, -⟩ := matchNibbles_eq_ok_iff.mp hm'
    exact ⟨Stack.shows_iff.mpr ⟨rest, hitems⟩,
      fun item hitem => hsizes item (mem_nibbleItems_fromTop_iff.mpr hitem)⟩
  · rintro ⟨hshows, hsizes⟩
    rw [ScriptRun.isOk,
      (sameOutcome_nibbleMatch hnibbles cache hroom p hshows hsizes).fault_eq]
    rfl

theorem exists_fault_nibbleMatch (p : Primitives)
    (h : (runScript p .standard (matchCode (fromTop order nibbles)) cache stack).isOk = false) :
    ∃ fault, IsMatchFault fault ∧
      (runScript p .standard (matchCode (fromTop order nibbles)) cache stack).fault =
        some fault := by
  have hdoes := does_nibbleMatch hnibbles order p
  rcases matchNibbles_ok_or_fails (p := p) (fromTop order nibbles)
    (show (Machine.start (matchCode (fromTop order nibbles)) stack cache).stack.items.length <
      stack.maxItems from hroom) with ⟨m', hm'⟩ | ⟨fault, hfault, hfails⟩
  · rw [runScript_isOk_iff.mpr ⟨m', hdoes.interpret_eq ▸ hm'⟩] at h
    cases h
  · exact ⟨fault, hfault, hdoes.fault_eq_some hfails⟩

end Run

/-- Nibbles fit a stack whose items may have a byte, and those that a stack within its limits shows
fit it anyway. -/
theorem length_le_of_shows {nibbles : List Nat} (hnibbles : ∀ n ∈ nibbles, n < 16)
    {order : NibbleOrder} {stack : Stack} (hlimits : 1 ≤ stack.maxItemSize ∨ stack.WithinLimits)
    (h : stack.Shows order nibbles) :
    ∀ item ∈ nibbleItems nibbles, (item.length : Int) ≤ stack.maxItemSize := by
  intro item hitem
  rcases hlimits with hsize | hlimits
  · obtain ⟨n, hn, rfl⟩ := List.mem_map.mp hitem
    have hlt := hnibbles n hn
    have hlength := (ScriptNumber.length_encode_le_iff n 0).mpr (by omega)
    omega
  · obtain ⟨rest, hitems⟩ := Stack.shows_iff.mp h
    refine hlimits.2 item ?_
    rw [hitems]
    exact List.mem_append_left _ (mem_nibbleItems_fromTop_iff.mpr hitem)

/-- Nibbles given as integers and an order make the comparison that they describe. -/
theorem nibbleMatch_int {nibbles : List Nat} (h : ∀ n ∈ nibbles, n < 16) (t : OpTable)
    (order : NibbleOrder) :
    Checked.nibbleMatch t (.list (nibbles.map fun n : Nat => .int n)) (.order order) =
      nibbleMatch t nibbles order := by
  have horder : (Value.order order).toOrder = order := by cases order <;> rfl
  have hitems : (Value.list (nibbles.map fun n : Nat => .int n)).items? =
      .ok (nibbles.map fun n : Nat => .int n) := rfl
  have hread : (nibbles.map fun n : Nat => Value.int n).mapM Checked.nibble = .ok nibbles :=
    mapM_toNibble h
  rw [Checked.nibbleMatch, FlowGate.bind_of_eq_ok hitems, FlowGate.bind_of_eq_ok hread, horder]

/-- On a stack that is not full the comparison of nibbles succeeds if the top items, as many as there
are nibbles and read in the order that was declared, are the nibbles byte for byte. Only where items
may not even have one byte, and a stack holds larger ones nevertheless, the nibbles have to fit the
stack besides. The comparison takes these items and changes nothing else. Otherwise it fails: there
are too few items, or one is not the nibble, or a nibble does not fit. -/
theorem exists_nibbleMatch_isOk_iff (p : Primitives) {nibbles : List Nat}
    (hnibbles : ∀ n ∈ nibbles, n < 16) (order : NibbleOrder) :
    ∃ script, Checked.nibbleMatch .standard (.list (nibbles.map fun n : Nat => .int n))
        (.order order) = .ok script ∧
      ∀ (cache : Cache) (stack : Stack), stack.items.length < stack.maxItems →
        (1 ≤ stack.maxItemSize ∨ stack.WithinLimits →
          ((runScript p .standard script.code cache stack).isOk = true ↔
            stack.Shows order nibbles)) ∧
        ((runScript p .standard script.code cache stack).isOk = true ↔
          stack.Shows order nibbles ∧
            ∀ item ∈ nibbleItems nibbles, (item.length : Int) ≤ stack.maxItemSize) ∧
        ((runScript p .standard script.code cache stack).isOk = true →
          (runScript p .standard script.code cache stack).SameOutcome
            ⟨none, .start script.code { stack with items := stack.items.drop nibbles.length } cache,
              cache⟩) ∧
        ((runScript p .standard script.code cache stack).isOk = false →
          ∃ fault, IsMatchFault fault ∧
            (runScript p .standard script.code cache stack).fault = some fault) := by
  obtain ⟨source, hsource⟩ := exists_nibbleMatch_eq hnibbles order
  refine ⟨_, (nibbleMatch_int hnibbles .standard order).trans hsource, ?_⟩
  intro cache stack hroom
  have hiff : (runScript p .standard (matchCode (fromTop order nibbles)) cache stack).isOk = true ↔
      stack.Shows order nibbles ∧
        ∀ item ∈ nibbleItems nibbles, (item.length : Int) ≤ stack.maxItemSize :=
    isOk_nibbleMatch_iff hnibbles cache hroom p
  refine ⟨fun hlimits => ?_, hiff, fun hok => ?_, exists_fault_nibbleMatch hnibbles cache hroom p⟩
  · -- Within these limits a nibble that is shown has a size that is allowed.
    rw [hiff]
    exact and_iff_left_of_imp (length_le_of_shows hnibbles hlimits)
  · obtain ⟨hshows, hsizes⟩ := hiff.mp hok
    exact sameOutcome_nibbleMatch hnibbles cache hroom p hshows hsizes

/-- The nibbles 0 and 13, the first one deepest, come off the stack from above another item. A zero
that is written out as a byte is not the nibble. -/
theorem exists_nibbleMatch_isOk_iff_sample :
    ∃ script, Checked.nibbleMatch .standard (.list [.int 0, .int 13]) (.order .firstDeepest) =
        .ok script ∧
      (runScript .standard .standard script.code .empty
        { Stack.empty with items := [[0x0d], [], [0x07]] }).final.stack.items = [[0x07]] ∧
      (runScript .standard .standard script.code .empty
        { Stack.empty with items := [[0x0d], [0x00], [0x07]] }).isOk = false := by
  obtain ⟨script, hscript, hruns⟩ := exists_nibbleMatch_isOk_iff .standard
    (show ∀ n ∈ [0, 13], n < 16 by decide) .firstDeepest
  refine ⟨script, hscript, ?_, ?_⟩
  · obtain ⟨hiff, -, hleaves, -⟩ := hruns .empty
      { Stack.empty with items := [[0x0d], [], [0x07]] } (by decide)
    have hshows : Stack.Shows { Stack.empty with items := [[0x0d], [], [0x07]] } .firstDeepest
        [0, 13] := by
      rw [Stack.Shows]
      decide +kernel
    rw [(hleaves ((hiff (.inl (by decide))).mpr hshows)).stack_eq]
    rfl
  · obtain ⟨hiff, -⟩ := hruns .empty
      { Stack.empty with items := [[0x0d], [0x00], [0x07]] } (by decide)
    rw [Bool.eq_false_iff, ne_eq, hiff (.inl (by decide)), Stack.Shows]
    decide +kernel

end Gate

end FlowGate

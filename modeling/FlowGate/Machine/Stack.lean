import FlowGate.Error

/-!
# Stacks

A stack of byte strings that holds a limited number of items of limited size.

## Main definitions

* `Stack` — items and limits
* `Stack.append` — putting an item even where that costs the deepest one
* `Stack.push`, `Stack.pop`, `Stack.peek` — putting, taking and looking at items
* `Stack.create` — an empty stack with given limits

## Main results

* `Stack.push_eq_ok_iff`, `Stack.pop_eq_ok_iff` — when an item can be put or taken
-/

namespace FlowGate

/-- A stack of byte strings, the top one first, with its limits. -/
structure Stack where
  items : List Bytes
  maxItems : Nat
  maxItemSize : Int
  deriving DecidableEq, Repr

namespace Stack

/-- The number of items that a stack holds at most unless told otherwise. -/
def defaultMaxItems : Nat := 1000

/-- The size of an item at most unless told otherwise. -/
def defaultMaxItemSize : Int := 520

/-- An empty stack with the usual limits. -/
def empty : Stack := ⟨[], defaultMaxItems, defaultMaxItemSize⟩

/-- An empty stack with given limits; the number of items cannot be negative. -/
def create (maxItems maxItemSize : Int) : Except Error Stack := do
  ensure (0 ≤ maxItems) (.invalid .negativeLimit)
  return ⟨[], maxItems.toNat, maxItemSize⟩

/-- Puts an item on top. A stack that is full already loses its deepest item. -/
def append (s : Stack) (item : Bytes) : Stack :=
  { s with items := (item :: s.items).take s.maxItems }

/-- Puts an item on top if it is not too large and there is room for it. -/
def push (s : Stack) (item : Bytes) : Except ExecFault Stack :=
  if (item.length : Int) > s.maxItemSize then .error .itemTooLarge
  else if s.items.length < s.maxItems then .ok (s.append item)
  else .error .fullStack

/-- Takes the item on top. -/
def pop (s : Stack) : Except ExecFault (Bytes × Stack) :=
  match s.items with
  | [] => .error .emptyStack
  | item :: items => .ok (item, { s with items })

/-- The item at a distance from the top. -/
def peek (s : Stack) (index : Int) : Except Error Bytes :=
  if index < s.items.length then
    -- A negative index is no position, and its failure is none of the script.
    match s.items[index.toNat]?, decide (0 ≤ index) with
    | some item, true => .ok item
    | _, _ => .error (.badIndex .outsideStack)
  else .error (.execution .peekPastBottom)

/-- The number of bytes of all items. -/
def size (s : Stack) : Nat := s.items.flatten.length

/-- The items, the deepest one first. -/
def toList (s : Stack) : List Bytes := s.items.reverse

/-- Whether the stack keeps its own limits. -/
def WithinLimits (s : Stack) : Prop :=
  s.items.length ≤ s.maxItems ∧ ∀ item ∈ s.items, (item.length : Int) ≤ s.maxItemSize

theorem withinLimits_empty : empty.WithinLimits := by
  simp [WithinLimits, empty]

/-- Where there is room, no item gets lost. -/
theorem append_of_lt {s : Stack} (h : s.items.length < s.maxItems) (item : Bytes) :
    s.append item = { s with items := item :: s.items } := by
  rw [append, List.take_of_length_le (by rw [List.length_cons]; omega)]

/-- An item can be put if it is not too large and there is room, and then it lies on top. -/
theorem push_eq_ok_iff {s t : Stack} {item : Bytes} :
    s.push item = .ok t ↔ (item.length : Int) ≤ s.maxItemSize ∧ s.items.length < s.maxItems ∧
      t = { s with items := item :: s.items } := by
  unfold push
  split
  · simp only [reduceCtorEq, false_iff]
    omega
  · split
    · next hroom =>
      simp only [append_of_lt hroom, Except.ok.injEq]
      constructor
      · rintro rfl
        exact ⟨by omega, hroom, rfl⟩
      · rintro ⟨-, -, rfl⟩
        rfl
    · simp only [reduceCtorEq, false_iff]
      omega

/-- An item can be taken if there is one, and it is the one on top. -/
theorem pop_eq_ok_iff {s t : Stack} {item : Bytes} :
    s.pop = .ok (item, t) ↔ s.items = item :: t.items ∧ t = { s with items := t.items } := by
  obtain ⟨items, maxItems, maxItemSize⟩ := s
  obtain ⟨rest, n, k⟩ := t
  cases items with
  | nil => simp [pop]
  | cons top items =>
    simp only [pop, Except.ok.injEq, Prod.mk.injEq, mk.injEq, List.cons.injEq, true_and]
    constructor
    · rintro ⟨rfl, rfl, rfl, rfl⟩
      simp
    · rintro ⟨⟨rfl, rfl⟩, rfl, rfl⟩
      simp

/-- Putting an item keeps the limits. -/
theorem WithinLimits.push {s t : Stack} {item : Bytes} (h : s.WithinLimits)
    (hpush : s.push item = .ok t) : t.WithinLimits := by
  obtain ⟨hsize, hroom, rfl⟩ := push_eq_ok_iff.mp hpush
  refine ⟨by simp only [List.length_cons]; omega, fun x hx => ?_⟩
  rcases List.mem_cons.mp hx with rfl | hx
  · exact hsize
  · exact h.2 x hx

/-- Taking an item keeps the limits. -/
theorem WithinLimits.pop {s t : Stack} {item : Bytes} (h : s.WithinLimits)
    (hpop : s.pop = .ok (item, t)) : t.WithinLimits := by
  obtain ⟨hitems, ht⟩ := pop_eq_ok_iff.mp hpop
  have hn : t.maxItems = s.maxItems := by rw [ht]
  have hk : t.maxItemSize = s.maxItemSize := by rw [ht]
  obtain ⟨hlen, hsize⟩ := h
  rw [hitems] at hlen hsize
  refine ⟨?_, fun x hx => ?_⟩
  · rw [hn]
    simp only [List.length_cons] at hlen
    omega
  · rw [hk]
    exact hsize x (List.mem_cons_of_mem _ hx)

end Stack

end FlowGate

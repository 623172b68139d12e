import FlowGate.Machine.Stack
import FlowGate.Value.Arithmetic

/-!
# Stacks with limits of any kind

A stack whose limits are kept as they were given. Without a limit on their number no items can be
put, since a number cannot be compared with nothing; the same holds for a limit on their size that
is no number. Then the comparison fails, and not the stack.

## Main definitions

* `LimitedStack` — a stack with the limits that were asked for
* `LimitedStack.create` — an empty stack with given limits
* `LimitedStack.put`, `LimitedStack.peek` — putting and looking at items
* `LimitedStack.failure` — what a fault of the stack stands for

## Main results

* `LimitedStack.put_int` — with whole limits an item is put as on a plain stack
-/

namespace FlowGate

/-- A stack with its limits as they were given. -/
structure LimitedStack where
  stack : Stack
  maxItems : Value
  maxItemSize : Value

namespace LimitedStack

/-- The number of items that a limit admits. Only a whole number of limited size is one; nothing
instead of a limit admits no items. -/
def room : Value → Except Error Int
  | .none => .ok 0
  | v =>
    match v.number? with
    | some (.whole n) => do
      ensure (-Value.countLimit ≤ n && n < Value.countLimit) (.overflow .sizeTooLarge)
      return n
    | _ => .error (.wrongType .notSize)

/-- The size of items that a limit admits. A limit that is no number admits nothing. -/
def itemBound (v : Value) : Int := (v.number?.map Number.bound).getD (-1)

/-- An empty stack with given limits. -/
def create (maxItems maxItemSize : Value) : Except Error LimitedStack := do
  let stack ← Stack.create (← room maxItems) (itemBound maxItemSize)
  return ⟨stack, maxItems, maxItemSize⟩

/-- The failure of a comparison of a number with a limit that is none, the given one otherwise. -/
def againstLimit (c : Comparison) (limit : Value) (error : Error) : Error :=
  match limit.number? with
  | some _ => error
  | none => .wrongType (.unordered c.symbol (Value.int 0).kindName limit.kindName)

/-- What a fault stands for. Nothing is too large for a limit that is no number, nor is there too
much of it, but no comparison with the limit succeeds. -/
def failure (s : LimitedStack) (fault : ExecFault) : Error :=
  match fault with
  | .itemTooLarge => againstLimit .atMost s.maxItemSize (.execution fault)
  | .fullStack => againstLimit .less s.maxItems (.execution fault)
  | fault => .execution fault

/-- Puts a value on top of the stack. -/
def put (s : LimitedStack) (item : Value) : Except Error LimitedStack := do
  match s.stack.push (← item.toBytes "Stack item") with
  | .ok stack => return { s with stack }
  | .error fault => throw (s.failure fault)

/-- The item at a distance from the top. -/
def peek (s : LimitedStack) (index : Value) : Except Error Bytes := do
  let count : Int := s.stack.items.length
  Value.demand .less index (.int count) (.execution .peekPastBottom)
  match index.number? with
  | some (.whole n) =>
    -- The position is taken from the bottom, where a number may be too large.
    ensure (count - n - 1 < Value.countLimit) (.badIndex .tooLarge)
    s.stack.peek n
  | _ => throw (.wrongType (.notPosition index.kindName))

/-- With whole limits every fault is one of the stack itself. -/
theorem failure_int (s : Stack) (m n : Int) (fault : ExecFault) :
    failure ⟨s, .int m, .int n⟩ fault = .execution fault := by
  cases fault <;> rfl

/-- With whole limits an item is put as on a plain stack. -/
theorem put_int (s : Stack) (m n : Int) (item : Bytes) :
    put ⟨s, .int m, .int n⟩ (.bytes item) =
      (ofExec (s.push item)).map (⟨·, .int m, .int n⟩) := by
  simp only [put, Value.toBytes, bind, Except.bind, failure_int]
  cases s.push item <;> rfl

end LimitedStack

end FlowGate

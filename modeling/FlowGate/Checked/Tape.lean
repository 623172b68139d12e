import FlowGate.Machine.Operation
import FlowGate.Value.Arithmetic

/-!
# Tapes of values of any kind

A tape over a sequence of any kind, whose position is a value that counts as a number. Positions are
added up and compared as numbers, and have to be whole where the data is cut.

## Main definitions

* `ValueTape` — a sequence and a position
* `ValueTape.look`, `ValueTape.move` — reading at the position, and moving it
* `ValueTape.isDone`, `ValueTape.remaining` — whether the end is reached, and how far it is
* `ValueTape.take`, `ValueTape.takeNumber`, `ValueTape.takeOperand` — steps that move the position
* `TapeRequest`, `ValueTape.serve` — what a tape can be asked, and what it does

## Main results

* `ValueTape.move_ofTape`, `ValueTape.look_ofTape` — byte code with a whole position is read and
  moved as a tape is
* `ValueTape.serve_read_true` — a read that moves the position takes what it reads
-/

namespace FlowGate

/-- A sequence with a position. -/
structure ValueTape where
  data : Value
  pointer : Value

/-- What a tape can be asked: to read, with its position moved behind what is read or left where it
is, to move, or to start again. -/
inductive TapeRequest (ι : Type)
  | read (size : ι) (moves : Bool)
  | move (n : ι)
  | rewind
  deriving Repr

/-- The same request with its argument in another form. -/
def TapeRequest.map {ι κ : Type} (f : ι → κ) : TapeRequest ι → TapeRequest κ
  | read size moves => read (f size) moves
  | move n => move (f n)
  | rewind => rewind

namespace ValueTape

/-- The part of a sequence between two positions. -/
def cut (v start stop : Value) : Except Error Value :=
  match start.number?, stop.number? with
  | some (.whole i), some (.whole j) =>
    match v with
    | .list items => .ok (.list (slice items i j))
    | .text s => .ok (.text (String.ofList (slice s.toList i j)))
    | .bytes bs => .ok (.bytes (slice bs i j))
    | v => .error (.wrongType (.notSubscriptable v.kindName))
  | _, _ => .error (.wrongType .notBound)

/-- The position behind the next entries, which may not be past the end. -/
def advance (t : ValueTape) (n : Value) (fault : ExecFault) : Except Error Value := do
  let stop ← t.pointer.plus n
  Value.demand .atMost stop (.int (← t.data.length)) (.execution fault)
  return stop

/-- Moves the position. -/
def move (t : ValueTape) (n : Value) : Except Error ValueTape := do
  return { t with pointer := ← t.advance n .movePastEnd }

/-- The next `size` entries, with the position left where it is. -/
def look (t : ValueTape) (size : Value) : Except Error Value := do
  cut t.data t.pointer (← t.advance size .readPastEnd)

/-- The tape at its start again. -/
def rewind (t : ValueTape) : ValueTape := { t with pointer := .int 0 }

/-- Whether the position is at the end. -/
def isDone (t : ValueTape) : Except Error Bool := do
  t.pointer.compare .atLeast (.int (← t.data.length))

/-- The distance of the position from the end. -/
def remaining (t : ValueTape) : Except Error Value := do
  return Value.ofNumber (← (Value.int (← t.data.length)).minus t.pointer)

/-! ### Steps -/

/-- A step on a tape. If it fails, the tape is left where it stood. -/
abbrev Step := EStateM Error ValueTape

/-- Takes the next `size` entries. -/
def take (size : Value) : Step Value := fun t =>
  -- Both are asked of the tape as it stands, so a failure leaves it there.
  match t.look size, t.move size with
  | .ok entries, .ok t => .ok entries t
  | .error fault, _ | _, .error fault => .error fault t

/-- The number that the next `size` entries spell. -/
def takeNumber (size : Nat) : Step Nat := fun t =>
  match take (.int size) t with
  | .error fault t => .error fault t
  | .ok entries t =>
    match entries.spelled with
    | .ok bytes => .ok (Bytes.toNat bytes) t
    | .error fault => .error fault t

/-- Takes an operand. -/
def takeOperand : Operand → Step Value
  | .none => pure (.bytes [])
  | .fixed size => take (.int size)
  | .counted width => do take (.int (← takeNumber width))

/-- The next `size` entries, with the position left where it is. -/
def lookAhead (size : Value) : Step Value := fun t =>
  match t.look size with
  | .ok entries => .ok entries t
  | .error fault => .error fault t

/-- Moves the position, and gives the new one. -/
def moveBy (n : Value) : Step Value := fun t =>
  match t.move n with
  | .ok t => .ok t.pointer t
  | .error fault => .error fault t

/-- Does what the tape is asked. -/
def serve : TapeRequest Value → Step Value
  | .read size moves => do
    let entries ← lookAhead size
    if moves then
      let _ ← moveBy size
    return entries
  | .move n => moveBy n
  | .rewind => fun t => .ok .none t.rewind

/-- A read that moves the position takes what it reads. -/
theorem serve_read_true (size : Value) : serve (.read size true) = take size := by
  funext t
  change EStateM.bind (lookAhead size) (fun entries =>
    EStateM.bind (moveBy size) fun _ => EStateM.pure entries) t = _
  cases hlook : t.look size with
  | error fault => simp [EStateM.bind, lookAhead, take, hlook]
  | ok entries =>
    cases hmove : t.move size <;>
      simp [EStateM.bind, EStateM.pure, lookAhead, moveBy, take, hlook, hmove]

/-! ### Byte code with a whole position -/

/-- A tape as a tape of values. -/
def ofTape (t : Tape) : ValueTape := ⟨.bytes t.data.toList, .int t.pointer⟩

theorem advance_ofTape (t : Tape) (n : Int) (fault : ExecFault) :
    (ofTape t).advance (.int n) fault =
      if t.pointer + n ≤ t.data.size then .ok (.int (t.pointer + n))
      else .error (.execution fault) := by
  simp only [advance, ofTape, Value.plus, Value.combine, Value.number?, Number.add, Number.combine,
    Value.ofNumber, Value.length, Value.demand, Value.compare_int, Number.stands_whole_atMost,
    Array.length_toList, bind, Except.bind, pure, Except.pure]
  by_cases h : t.pointer + n ≤ t.data.size <;> simp [h, ensure]

/-- A tape moves as a tape of values does. -/
theorem move_ofTape (t : Tape) (n : Int) :
    (ofTape t).move (.int n) = (ofExec (t.move n)).map ofTape := by
  simp only [move, advance_ofTape, Tape.move]
  by_cases h : t.pointer + n ≤ t.data.size <;>
    simp [h, ofExec, ofTape, bind, Except.bind, pure, Except.pure, Except.map]

/-- A tape is read as a tape of values is. -/
theorem look_ofTape (t : Tape) (size : Int) :
    (ofTape t).look (.int size) = (ofExec (t.look size)).map .bytes := by
  simp only [look, advance_ofTape, Tape.look]
  by_cases h : t.pointer + size ≤ t.data.size <;>
    simp [h, ofExec, ofTape, cut, Tape.part_eq_slice, Value.number?, bind, Except.bind, Except.map]

end ValueTape

end FlowGate

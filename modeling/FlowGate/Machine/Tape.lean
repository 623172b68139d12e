import FlowGate.Error

/-!
# Tapes

A tape is byte code with a position. Reading and moving never take the position past the end; it
may stand before the start, from where positions count backwards from the end of the data. The data
is an array, so that a read costs no more than what it gives.

## Main definitions

* `slice` — the part of a list between two positions
* `Tape` — data and a position
* `Tape.read`, `Tape.move` — reading at the position, and moving it
* `Tape.isDone`, `Tape.remaining` — whether the end is reached, and how far it is

## Main results

* `Tape.part_eq_slice` — the part between two positions is that of the list of the data
* `Tape.read_eq_ok_iff` — when a read succeeds, and what it gives
-/

namespace FlowGate

/-- Where a position lies among `length` entries: a negative one counts from the end. -/
def place (length : Nat) (i : Int) : Nat := (if i < 0 then i + length else i).toNat

/-- The part of a list between two positions. A negative position counts from the end, and
positions outside the list stand for its ends. -/
def slice {α : Type} (xs : List α) (start stop : Int) : List α :=
  (xs.drop (place xs.length start)).take (place xs.length stop - place xs.length start)

/-- Byte code with a position. -/
structure Tape where
  data : Array UInt8
  pointer : Int
  deriving DecidableEq, Repr

namespace Tape

/-- A tape at its start. -/
def ofBytes (data : Bytes) : Tape := ⟨data.toArray, 0⟩

/-- The bytes between two positions. -/
def part (t : Tape) (start stop : Int) : Bytes :=
  (t.data.extract (place t.data.size start) (place t.data.size stop)).toList

/-- The part of the data is that of the list of its bytes. -/
theorem part_eq_slice (t : Tape) (start stop : Int) :
    t.part start stop = slice t.data.toList start stop := by
  simp [part, slice, List.extract_eq_take_drop]

/-- Moves the position, at most to the end. -/
def move (t : Tape) (n : Int) : Except ExecFault Tape :=
  if t.pointer + n ≤ t.data.size then .ok { t with pointer := t.pointer + n }
  else .error .movePastEnd

/-- The next `size` bytes, with the position left where it is. -/
def look (t : Tape) (size : Int) : Except ExecFault Bytes :=
  if t.pointer + size ≤ t.data.size then .ok (t.part t.pointer (t.pointer + size))
  else .error .readPastEnd

/-- The next `size` bytes, and the tape behind them. -/
def read (t : Tape) (size : Int) : Except ExecFault (Bytes × Tape) := do
  let bytes ← t.look size
  return (bytes, ← t.move size)

/-- The tape at its start again. -/
def rewind (t : Tape) : Tape := { t with pointer := 0 }

/-- Whether the position is at the end. -/
def isDone (t : Tape) : Bool := t.pointer ≥ t.data.size

/-- The distance of the position from the end. -/
def remaining (t : Tape) : Int := t.data.size - t.pointer

/-- A read succeeds unless it would pass the end; it gives the bytes and moves behind them. -/
theorem read_eq_ok_iff {t u : Tape} {size : Int} {bytes : Bytes} :
    t.read size = .ok (bytes, u) ↔ t.pointer + size ≤ t.data.size ∧
      bytes = slice t.data.toList t.pointer (t.pointer + size) ∧
      u = { t with pointer := t.pointer + size } := by
  by_cases h : t.pointer + size ≤ t.data.size
  · simp [read, look, move, h, part_eq_slice, Except.bind, bind, pure, Except.pure, eq_comm]
  · simp [read, look, h, Except.bind, bind]

end Tape

end FlowGate

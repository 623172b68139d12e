import FlowGate.Flow.Prefix
import FlowGate.Gate.Parts
import FlowGate.Value.Arithmetic

/-!
# Encodings of values of any kind

The prefix encoding, script numbers, truth values and pushes for arguments whose kind is checked
when they are used. Kinds and ranges are checked in a fixed order, and the first fault decides.

## Main definitions

* `Checked.wholeBytes`, `Checked.idBytes`, `Checked.idNibbles`, `Checked.digestNibbles` — prefixes
* `Checked.toNibbles`, `Checked.ofNibbles` — nibbles
* `Checked.encodeNumber`, `Checked.decodeNumber`, `Checked.holds`, `Checked.encodeTruth` — numbers
  and truth values
* `Checked.pushData`, `Checked.pushNumber` — pushes
-/

namespace FlowGate.Checked

/-- The number of bytes of a prefix width. -/
def wholeBytes (b : Value) : Except Error Nat := do
  Flow.wholeBytes (← b.toInt "b_bits")

/-- The leading bytes of a flow id; the width is checked first. -/
def idBytes (flowId b : Value) : Except Error Bytes := do
  let bytes ← wholeBytes b
  Flow.idBytes bytes (← flowId.toInt "flow_id")

/-- The leading nibbles of a flow id. -/
def idNibbles (flowId b : Value) : Except Error (List Nat) := do
  return (← idBytes flowId b).toNibbles

/-- The leading nibbles of a digest; the width is checked first. -/
def digestNibbles (digest b : Value) : Except Error (List Nat) := do
  let bytes ← wholeBytes b
  Flow.digestNibbles bytes (← digest.toBytes "digest")

/-- The nibbles of a byte string. -/
def toNibbles (data : Value) : Except Error (List Nat) := do
  return (← data.toBytes "data").toNibbles

/-- A value as a nibble. -/
def nibble (v : Value) : Except Error Nat := do
  Gate.nibble (← v.toInt "each nibble")

/-- The byte string of a sequence of nibbles; their number is checked first. -/
def ofNibbles (nibbles : Value) : Except Error Bytes := do
  let count ← nibbles.length
  ensure (count % 2 == 0) (.invalid .oddNibbleCount)
  let items ← nibbles.items?
  match Bytes.ofNibbles? (← items.mapM nibble) with
  | some bytes => return bytes
  | none => throw (.invalid .oddNibbleCount)

/-- The shortest form of a number. -/
def encodeNumber (number : Value) : Except Error Bytes := do
  return ScriptNumber.encode (← number.toInt "number")

/-- The number of a shortest form of limited size. -/
def decodeNumber (number maxSize : Value) : Except Error Int := do
  let bytes ← number.toBytes "number"
  Value.demand .atMost (.int bytes.length) maxSize (.execution .numberTooLong)
  ofExec (ScriptNumber.decode bytes.length bytes)

/-- Whether the entries of a sequence are a truth value that holds: one of them is not zero, and it
is not a lone sign in the last place. -/
def holdsEntries : List Value → Bool
  | [] => false
  | v :: vs =>
    if Value.sameKey v (.int 0) then holdsEntries vs
    else !(vs.isEmpty && Value.sameKey v (.int 0x80))

/-- The truth value of a byte string, or of another sequence by its entries. -/
def holds : Value → Except Error Bool
  | .bytes bs => .ok (Truth.holds bs)
  | v => do return holdsEntries (← v.items?)

/-- Whether a value is neither zero nor empty nor absent. -/
def isTrue : Value → Bool
  | .none => false
  | .bool b => b
  | .int n => n != 0
  | .float pattern => !Binary64.isZero pattern
  | .text s => !s.isEmpty
  | .bytes bs => !bs.isEmpty
  | .list items => !items.isEmpty
  | _ => true

/-- The byte string of the truth value that a value counts as. -/
def encodeTruth (v : Value) : Bytes := Truth.encode (isTrue v)

/-- The shortest push of a byte string. -/
def pushData (data : Value) : Except Error Bytes := do
  Push.data? (← data.toBytes "data")

/-- The shortest push of a number. -/
def pushNumber (number : Value) : Except Error Bytes := do
  Push.number? (← number.toInt "number")

end FlowGate.Checked

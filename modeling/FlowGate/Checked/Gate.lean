import FlowGate.Checked.Codec
import FlowGate.Gate.LockingCache
import FlowGate.Gate.Sighash
import FlowGate.Gate.Spend

/-!
# Gates for values of any kind

Roles, parts of locking scripts, witnesses and messages to sign for arguments whose kind is checked
when they are used.

## Main definitions

* `Checked.role` — the role that a value is or names
* `Checked.signatureCheck`, `Checked.truncation`, `Checked.nibbleMatch`, … — parts of a locking script
* `Checked.lockingScript` — a locking script, remembered or built
* `Checked.witness`, `Checked.spends` — spending
-/

namespace FlowGate.Checked

/-- The role that a value is, or that it names in any case. -/
def role : Value → Except Error GateRole
  | .role r => .ok r
  | .text s =>
    let name := String.ofList (Text.upper s.toList)
    match GateRole.ofName? name with
    | some r => .ok r
    | none => .error (.invalid (.unknownRole name))
  | _ => .error (.wrongType (.notRole "role"))

/-- Whether the role admits an input. -/
def accepts (r : GateRole) (input : Value) : Except Error Bool := do
  -- An input that cannot be compared fails at the first of the bounds.
  if !(← (Value.int (-GateRole.maxNumber)).compare .atMost input) then return false
  if !(← input.compare .atMost (.int GateRole.maxNumber)) then return false
  match r with
  | .f1 => input.compare .more (.int r.threshold)
  | .f2 => input.compare .less (.int r.threshold)

/-- The check of a signature under a key. -/
def signatureCheck (t : OpTable) (key : Value) : Except Error Script := do
  Gate.signatureCheck t (← key.toBytes "pubkey")

/-- The comparison of a role. -/
def thresholdCheck (t : OpTable) (v : Value) : Except Error Script := do
  Gate.thresholdCheck t (← role v)

/-- The byte code that hashes a message; the kinds of both lengths are checked first. -/
def computeScript (f : Fragment) (messageLength length : Value) : Except Error Bytes := do
  let messageLength ← messageLength.toInt "message_len"
  let length ← length.toInt "limb_len"
  f.computeScript messageLength length

/-- The length of limbs, which is compared before it is used as a length. -/
def limbLength (v : Value) : Except Error Int := do
  Value.demand .more v (.int 0) (.invalid (.notPositive "limb_len"))
  v.toIndex

/-- The byte code that pushes a message in limbs. -/
def pushMessage (message length : Value) : Except Error Bytes := do
  let message ← message.toBytes "message"
  Fragment.pushMessage message (← limbLength length)

/-- The digest of a message. -/
def digest (p : Primitives) : Value → Except Error Digest
  | .bytes message => .ok (p.hash message)
  | v => .error (.wrongType (.notBuffer v.kindName))

/-- The part of a locking script that hashes the message. -/
def hashing (t : OpTable) (fragment messageLength length : Value) : Except Error Script := do
  let fragment ← fragment.toFragment "hash_fragment"
  Script.ofCode t (← computeScript fragment messageLength length)

/-- The part that keeps the leading nibbles. The range is checked before the numbers have to be
counts. -/
def truncation (t : OpTable) (needed order width : Value) : Except Error Script := do
  Value.demand .atMost (.int 0) needed (.invalid .neededRange)
  Value.demand .atMost needed width (.invalid .neededRange)
  match needed.number?, ← width.minus needed with
  | some (.whole n), .whole rest =>
    -- No more symbols can be repeated than a count can say.
    let parked := if order.toOrder = .firstOnTop then n else 0
    let _ ← Value.toCount (max parked rest)
    Gate.truncation t n order.toOrder (n + rest)
  -- In floating point the range holds, but symbols cannot be repeated.
  | _, _ => throw (.wrongType (.notCount (Value.float 0).kindName))

/-- The part that compares the nibbles. -/
def nibbleMatch (t : OpTable) (nibbles order : Value) : Except Error Script := do
  Gate.nibbleMatch t (← (← nibbles.items?).mapM nibble) order.toOrder

/-- The fragment that a value is, the default one if there is no value. Its kind is not checked, so
a value that is no fragment fails by the part that it is asked for. -/
def fragmentOrDefault (part : String) : Value → Except Error Fragment
  | .none => .ok .default
  | .fragment f => .ok f
  | v => .error (.lacks v.kindName part)

/-- The arguments of a locking script: the role is checked first, then the sequence of nibbles is
read, and the fragment is asked for its order last. -/
def lockingArgs (roleValue key nibbles fragment : Value) : Except Error LockingArgs := do
  let r ← role roleValue
  let nibbles ← nibbles.items?
  return ⟨r, key, nibbles, ← fragmentOrDefault "nibble_order" fragment⟩

/-- The locking script of a gate, remembered or built. -/
def lockingScript (t : OpTable) (cache : LockingCache) (role key nibbles fragment : Value) :
    Except Error Script × LockingCache :=
  match lockingArgs role key nibbles fragment with
  | .ok args => cache.build t args
  | .error fault => (.error fault, cache)

/-- The witness of an input, a nonce and a signature, whose kind is checked first. -/
def witness (t : OpTable) (input nonce signature fragment length : Value) :
    Except Error Script := do
  let signature ← signature.toBytes "signature"
  -- The fragment is asked for its pushes before the message is made.
  let _ ← fragmentOrDefault "push_message_script" fragment
  let input ← input.toInt "input"
  let nonce ← nonce.toInt "nonce"
  let _ ← Flow.message? input nonce
  Gate.witness t input nonce signature (← limbLength length)

/-- The message to sign for a locking script and a value. -/
def outputSighash (locking value : Value) : Except Error Digest := do
  let code ← locking.toCode (.notCode "locking_script")
  Sighash.ofOutput code (← value.toInt "value")

/-- The message to sign made from arbitrary bytes. -/
def seedSighash (seed : Value) : Except Error Digest := do
  return Sighash.ofSeed (← seed.toBytes "seed_bytes")

/-- Whether a witness spends a locking script. -/
def spends (p : Primitives) (t : OpTable) (locking witness sighash : Value) :
    Except Error Bool := do
  let witness ← witness.asBytes
  let locking ← locking.asBytes
  return Gate.spends p t locking witness sighash

end FlowGate.Checked

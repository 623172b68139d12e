import FlowGate.Assembly.Disassemble
import FlowGate.Gate.Role

/-!
# Parts of a locking script

A locking script checks a signature, compares the input with the threshold of its role, hashes the
message and compares the leading nibbles of the digest with those that it expects.

## Main definitions

* `Gate.signatureCheck`, `Gate.thresholdCheck`, `Gate.dropInput`, `Gate.hashing`, `Gate.truncation`,
  `Gate.nibbleMatch`, `Gate.success` — the parts in order
* `Gate.lockingScript` — the whole script
-/

namespace FlowGate.Gate

/-- The script of symbols written one after the other. -/
def ofSymbols (t : OpTable) (symbols : List String) : Except Error Script :=
  Script.ofSource t (" ".intercalate symbols)

/-- Takes the signature on top of the stack and fails unless it verifies under a key. -/
def signatureCheck (t : OpTable) (key : Bytes) : Except Error Script := do
  ensure (key.length == Primitives.keyLength)
    (.invalid (.wrongLength "pubkey" Primitives.keyLength))
  ofSymbols t ["x" ++ Hex.encode key, "OP_CHECKSIGVERIFY"]

/-- Fails unless the number on top of the stack passes the comparison of a role; keeps it. -/
def thresholdCheck (t : OpTable) (role : GateRole) : Except Error Script :=
  ofSymbols t ["OP_DUP", toString role.threshold, role.comparison, "OP_VERIFY"]

/-- Drops the input number, which leaves the limbs of the message. -/
def dropInput (t : OpTable) : Except Error Script :=
  ofSymbols t ["OP_DROP"]

/-- Replaces the limbs of a message by the nibbles of its digest. -/
def hashing (t : OpTable) (fragment : Fragment) (messageLength limbLength : Int) :
    Except Error Script := do
  Script.ofCode t (← fragment.computeScript messageLength limbLength)

/-- The symbols that keep the `needed` leading ones of `needed + rest` nibbles. With the first
nibble deepest the others are on top and are dropped; with the first nibble on top the leading ones
wait on the alternate stack meanwhile. -/
def truncationSymbols (needed rest : Nat) : NibbleOrder → List String
  | .firstDeepest => List.replicate rest "OP_DROP"
  | .firstOnTop => List.replicate needed "OP_TOALTSTACK" ++ List.replicate rest "OP_DROP" ++
      List.replicate needed "OP_FROMALTSTACK"

/-- Keeps the leading nibbles of a digest of the given width. -/
def truncation (t : OpTable) (needed : Int) (order : NibbleOrder) (width : Int) :
    Except Error Script := do
  ensure (0 ≤ needed && needed ≤ width) (.invalid .neededRange)
  ofSymbols t (truncationSymbols needed.toNat (width - needed).toNat order)

/-- A number as a nibble. -/
def nibble (n : Int) : Except Error Nat := do
  ensure (0 ≤ n && n ≤ 15) (.invalid .nibbleRange)
  return n.toNat

/-- Nibbles in the order in which they come off the stack, the topmost first. -/
def fromTop (order : NibbleOrder) (nibbles : List Nat) : List Nat :=
  (order.arrange nibbles).reverse

/-- Takes one nibble after the other from the stack and fails at the first that is not the
expected one. -/
def nibbleMatch (t : OpTable) (nibbles : List Nat) (order : NibbleOrder) : Except Error Script :=
  ofSymbols t ((fromTop order nibbles).flatMap fun n => [toString n, "OP_EQUALVERIFY"])

/-- Puts the mark of success. -/
def success (t : OpTable) : Except Error Script :=
  ofSymbols t ["OP_TRUE"]

/-- The locking script of a gate. The key and the expected nibbles are given as the outcomes of
reading them: one that failed is a failure of the part that needs it, and the first part that fails
decides. The order and the width are those that the fragment declares. -/
def lockingScript (t : OpTable) (role : GateRole) (key : Except Error Bytes) (count : Nat)
    (nibbles : Except Error (List Nat)) (fragment : Fragment) : Except Error Script := do
  let signed ← signatureCheck t (← key)
  let compared ← thresholdCheck t role
  let dropped ← dropInput t
  let hashed ← hashing t fragment Fragment.messageLength Fragment.limbLength
  -- The nibbles are counted here, and read only for the comparison.
  let truncated ← truncation t count fragment.order fragment.digestNibbles
  let matched ← nibbleMatch t (← nibbles) fragment.order
  let succeeded ← success t
  return Script.concat [signed, compared, dropped, hashed, truncated, matched, succeeded]

end FlowGate.Gate

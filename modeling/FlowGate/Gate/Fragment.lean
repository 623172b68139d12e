import FlowGate.Script.Push

/-!
# Digest fragments

A digest fragment writes the part of a locking script that hashes a message. The message lies on
the stack in limbs, the first one deepest; the fragment leaves the nibbles of the digest, either
with the first nibble deepest or with the first one on top.

## Main definitions

* `NibbleOrder` — the two orders, and the flag that selects each
* `Fragment` — a fragment: the order and width it declares, and the order it really emits
* `Fragment.computeScript` — the byte code that hashes the message
* `Fragment.pushMessage` — the byte code that pushes a message in limbs
-/

namespace FlowGate

/-- Which end of the digest lies deepest on the stack. -/
inductive NibbleOrder
  | firstDeepest
  | firstOnTop
  deriving DecidableEq, Repr

namespace NibbleOrder

/-- The number that selects an order in a script. -/
def flag : NibbleOrder → Int
  | firstDeepest => 0
  | firstOnTop => 1

/-- The order that a number selects. -/
def ofFlag? (n : Int) : Option NibbleOrder :=
  if n = 0 then some firstDeepest else if n = 1 then some firstOnTop else none

@[simp] theorem ofFlag?_flag (order : NibbleOrder) : ofFlag? order.flag = some order := by
  cases order <;> rfl

/-- Nibbles in the order in which they go onto the stack, the deepest first. -/
def arrange {α : Type} : NibbleOrder → List α → List α
  | firstDeepest, nibbles => nibbles
  | firstOnTop, nibbles => nibbles.reverse

end NibbleOrder

/-- What makes two fragments the same: their content, an identity of their own, or nothing, in
which case no result may be kept for them. -/
inductive Fragment.Identity
  | content
  | handle (id : Nat)
  | none
  deriving DecidableEq, Repr

/-- A digest fragment. -/
structure Fragment where
  identity : Fragment.Identity
  order : NibbleOrder
  emitted : NibbleOrder
  digestNibbles : Int
  deriving DecidableEq, Repr

namespace Fragment

/-- The width of a whole digest in nibbles. -/
def fullWidth : Int := 64

/-- The fragment that emits the order it declares. -/
def limbwise (order : NibbleOrder) (digestNibbles : Int) : Fragment :=
  ⟨.content, order, order, digestNibbles⟩

/-- The fragment used when none is given: the whole digest, first nibble deepest. -/
def default : Fragment := limbwise .firstDeepest fullWidth

/-- The opcode of the operation that hashes limbs. -/
def digestOpcode : UInt8 := 0xbb

/-- The length of the message that a gate hashes. -/
def messageLength : Int := 12

/-- The length of the limbs that the message is pushed in. -/
def limbLength : Int := 4

/-- The byte code that hashes a message of the given length, pushed in limbs of the given length:
the two lengths, the order flag, and the hashing operation. -/
def computeScript (fragment : Fragment) (messageLength limbLength : Int) : Except Error Bytes := do
  ensure (messageLength > 0) (.invalid (.notPositive "message_len"))
  ensure (limbLength > 0) (.invalid (.notPositive "limb_len"))
  -- The order that is emitted goes into the code, not the one that is declared.
  return (← Push.number? messageLength) ++ (← Push.number? limbLength) ++
    Push.number fragment.emitted.flag ++ [digestOpcode]

/-- A byte string cut into parts of `size + 1` bytes, the last one possibly shorter. -/
def limbs (size : Nat) (message : Bytes) : List Bytes :=
  match message with
  | [] => []
  | b :: bs => (b :: bs.take size) :: limbs size (bs.drop size)
termination_by message.length
decreasing_by
  simp only [List.length_drop, List.length_cons]
  omega

/-- The byte code that pushes a message in limbs, the first one deepest. -/
def pushMessage (message : Bytes) (limbLength : Int) : Except Error Bytes := do
  ensure (limbLength > 0) (.invalid (.notPositive "limb_len"))
  return (← (limbs (limbLength.toNat - 1) message).mapM Push.data?).flatten

end Fragment

end FlowGate

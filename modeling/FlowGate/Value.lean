import FlowGate.Decimal.Number
import FlowGate.Gate.Fragment
import FlowGate.Gate.Role
import FlowGate.Script.Basic

/-!
# Values of any kind

Arguments and cached data whose kind is only known when they are used. Truth values are not
integers here, and text is not a byte string; a reader of a value fails for every other kind.

## Main definitions

* `Value` — a value with its kind
* `Value.int`, `Value.text`, `Value.bytes`, … — the kinds, with a reader for each that is used
* `Value.number?` — the number that a value counts as
* `Value.items?`, `Value.length` — the entries of a value that can be gone through, and their number
* `Value.sameKey` — equality of values as keys, under which numbers are compared across kinds
-/

namespace FlowGate

/-- A value with its kind. Floating-point numbers are given by their bit patterns. -/
inductive Value
  | none
  | bool (b : Bool)
  | int (n : Int)
  | float (pattern : UInt64)
  | text (s : String)
  | bytes (bs : Bytes)
  | list (items : List Value)
  | script (s : Script)
  | order (o : NibbleOrder)
  | role (r : GateRole)
  | config (n m l b k : Value)
  | fragment (f : Fragment)
  deriving Repr

namespace Value

/-! ### Readers -/

/-- The integer that a value is. -/
def toInt (what : String) : Value → Except Error Int
  | int n => .ok n
  | _ => .error (.wrongType (.notInt what))

/-- The text that a value is. -/
def toText (what : String) : Value → Except Error String
  | text s => .ok s
  | _ => .error (.wrongType (.notText what))

/-- The byte string that a value is. -/
def toBytes (what : String) : Value → Except Error Bytes
  | bytes bs => .ok bs
  | _ => .error (.wrongType (.notBytes what))

theorem toBytes_eq_ok_iff {what : String} {v : Value} {bs : Bytes} :
    v.toBytes what = .ok bs ↔ v = bytes bs := by
  cases v <;> simp [toBytes]

/-- The byte code of a value that is a byte string or a script. -/
def toCode (fault : TypeFault) : Value → Except Error Bytes
  | bytes bs => .ok bs
  | script s => .ok s.code
  | _ => .error (.wrongType fault)

/-- The script that a value is. -/
def toScript : Value → Except Error Script
  | script s => .ok s
  | _ => .error (.wrongType .notScript)

/-- The digest fragment that a value is. -/
def toFragment (what : String) : Value → Except Error Fragment
  | fragment f => .ok f
  | _ => .error (.wrongType (.notFragment what))

/-- Any value but the first order counts as the order with the first nibble on top. -/
def toOrder : Value → NibbleOrder
  | order .firstDeepest => .firstDeepest
  | _ => .firstOnTop

/-- The name of the kind of a value. Fragments are named by what makes them the same. -/
def kind : Value → String
  | none => "NoneType"
  | bool _ => "bool"
  | int _ => "int"
  | float _ => "float"
  | text _ => "str"
  | bytes _ => "bytes"
  | list _ => "list"
  | script _ => "Script"
  | order _ => "NibbleOrder"
  | role _ => "GateRole"
  | config .. => "ColliderVmConfig"
  | fragment f =>
    match f.identity with
    | .content => "Blake3LimbFragment"
    | .handle _ => "CustomFragment"
    | .none => "UnhashableFragment"

/-- The name of the kind of a value, in quotes. -/
def kindName (v : Value) : String := s!"'{v.kind}'"

/-- The number that a value counts as. A truth value counts as zero or one. -/
def number? : Value → Option Number
  | int n => some (.whole n)
  | bool b => some (.whole (if b then 1 else 0))
  | float pattern => some (.float pattern)
  | _ => Option.none

/-- The text of a number or a truth value. -/
def shown : Value → String
  | bool b => if b then "True" else "False"
  | v => ((number? v).map Number.text).getD ""

/-- The number of entries of a list, characters of a text, or bytes of a byte string. -/
def length : Value → Except Error Nat
  | list items => .ok items.length
  | text s => .ok s.length
  | bytes bs => .ok bs.length
  | v => .error (.wrongType (.notSized v.kindName))

/-- The entries of a list, the characters of a text, or the bytes of a byte string. -/
def items? : Value → Except Error (List Value)
  | list items => .ok items
  | text s => .ok (s.toList.map fun c => text (String.ofList [c]))
  | bytes bs => .ok (bs.map fun b => int b.toNat)
  | v => .error (.wrongType (.notSequence v.kindName))

/-! ### Keys -/

/-- The integer that a value is as a key. A floating-point number with a fraction, or none, is
compared by its pattern only. -/
def keyNumber? : Value → Option Int
  | int n => some n
  | bool b => some (if b then 1 else 0)
  | float pattern => Binary64.toInt? pattern
  | _ => Option.none

/-- Whether two values that are not lists are the same key. Truth values and whole floating-point
numbers are the integers they count as, and not-a-number is no key of any other value. -/
def sameKey : Value → Value → Bool
  | config n m l b k, config n' m' l' b' k' =>
    sameKey n n' && sameKey m m' && sameKey l l' && sameKey b b' && sameKey k k'
  | v, w =>
    match keyNumber? v, keyNumber? w with
    | some m, some n => m == n
    -- A key that is a number is no key of another kind.
    | some _, Option.none => false
    | Option.none, some _ => false
    | Option.none, Option.none =>
      match v, w with
      | none, none => true
      | float p, float q => p == q && !Binary64.isNaN p
      | text s, text t => s == t
      | bytes s, bytes t => s == t
      | script s, script t => s == t
      | order o, order p => o == p
      | role r, role q => r == q
      | fragment f, fragment g => f == g
      | _, _ => false

/-- Whether a value can be a key at all: a list cannot, nor can what contains one. -/
def isKey : Value → Bool
  | list _ => false
  | config n m l b k => isKey n && isKey m && isKey l && isKey b && isKey k
  | _ => true

/-- Whether two sequences of values are the same key, entry by entry. -/
def sameKeys : List Value → List Value → Bool
  | [], [] => true
  | v :: vs, w :: ws => sameKey v w && sameKeys vs ws
  | _, _ => false

end Value

end FlowGate

import FlowGate.Assembly.Symbol
import FlowGate.Machine.OpTable
import FlowGate.Script.Basic

/-!
# Assembly

Source text becomes byte code item by item. An item is an explicit push with its hexadecimal
argument, or a single symbol: a name or an alias of an opcode, a decimal number, or a hexadecimal
literal behind an `x`. They are tried in this order.

## Main definitions

* `Item` — what an item of source text stands for
* `Item.code` — its byte code
* `assemble`, `compile` — the byte code of symbols and of a text
* `Script.ofSource` — the script of a text
-/

namespace FlowGate

/-- What an item of source text stands for. -/
inductive Item
  /-- An opcode alone. -/
  | opcode (code : Nat)
  /-- A push that keeps the opcode, and the width of the length, that the text asks for. -/
  | push (lead : Bytes) (data : Bytes)
  /-- A number. -/
  | number (n : Int)
  /-- A byte string. -/
  | literal (data : Bytes)
  deriving DecidableEq, Repr

namespace Item

/-- The byte code of an item. -/
def code : Item → Bytes
  | opcode n => [UInt8.ofNat n]
  | push lead data => lead ++ data
  | number n => Push.number n
  | literal data => Push.data data

/-- The width of the length of a push that names it. -/
def lengthWidth? (name : String) : Option Nat :=
  if name = "OP_PUSHDATA1" then some 1
  else if name = "OP_PUSHDATA2" then some 2
  else if name = "OP_PUSHDATA4" then some 4
  else none

/-- The stem of the names of the pushes whose opcode is the length. -/
def directStem : String := "OP_PUSHBYTES_"

/-- Whether a name asks for a hexadecimal argument. -/
def takesArgument (name : String) : Bool :=
  (lengthWidth? name).isSome || directStem.toList.isPrefixOf name.toList

/-- The data of an argument, which may stand behind an `x`. -/
def argument? (argument : String) : Option Bytes :=
  Hex.decode? ((Source.afterX? argument).getD argument.toList)

/-- An explicit push with its argument. The encoding that the name asks for is kept even where a
shorter one exists. -/
def ofPush (t : OpTable) (name argument : String) : Except Error Item :=
  match argument? argument with
  | none => .error (.assembly (.argumentNotHex name))
  | some data =>
    match lengthWidth? name with
    | some width =>
      if data.length < 256 ^ width then
        .ok (.push (Push.countedLead width :: Bytes.ofNat width data.length) data)
      else .error (.assembly (.argumentTooLong name))
    | none =>
      -- The opcode of a direct push is the number of bytes behind it.
      let length := (t.codeOf? name).getD 0
      if data.length = length then .ok (.push [UInt8.ofNat length] data)
      else .error (.assembly (.argumentLength name length))

/-- A symbol that is no name: a number, or a literal behind an `x`. -/
def ofLiteral (symbol : String) : Except Error Item :=
  if Source.isDecimal symbol then do return .number (← Source.readDecimal symbol)
  else
    match (Source.afterX? symbol).bind Hex.decode? with
    | some data => do
      ensure (data.length ≤ Push.maxLength) (.invalid .dataTooLong)
      return .literal data
    | none => .error (.assembly (.unrecognized symbol))

/-- The items of a sequence of symbols. -/
def ofSymbols (t : OpTable) : List String → Except Error (List Item)
  | [] => .ok []
  | symbol :: rest =>
    match t.resolve? symbol with
    | some name =>
      if takesArgument name then
        match rest with
        | [] => .error (.assembly (.argumentMissing name))
        -- The argument is not looked up, even if it is spelled like a name.
        | argument :: rest => do
          let item ← ofPush t name argument
          return item :: (← ofSymbols t rest)
      else do
        return .opcode ((t.codeOf? name).getD 0) :: (← ofSymbols t rest)
    | none => do
      let item ← ofLiteral symbol
      return item :: (← ofSymbols t rest)

end Item

/-- The byte code of a sequence of symbols. -/
def assemble (t : OpTable) (symbols : List String) : Except Error Bytes := do
  return (← Item.ofSymbols t symbols).flatMap Item.code

/-- The byte code of a source text. -/
def compile (t : OpTable) (source : String) : Except Error Bytes := do
  assemble t (← Source.symbols source)

/-- The script of a source text. -/
def Script.ofSource (t : OpTable) (source : String) : Except Error Script := do
  return ⟨source, ← compile t source⟩

end FlowGate

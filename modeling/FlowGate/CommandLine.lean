import FlowGate.Checked.Gate
import FlowGate.Decimal.Reading
import FlowGate.Flow.Calibration
import FlowGate.Flow.Search
import FlowGate.Presign.Signer

/-!
# The command line

The methods of the program, as functions from its arguments to what it prints and how it ends.

## Main definitions

* `CommandLine.Outcome` — how the program ends
* `CommandLine.run` — the outcome for a list of arguments, the program's name first

A run gets 32 bytes of chance, for the methods that make a key of their own. The measurement of the
hash rate over a positive time needs a clock and is left to the caller.
-/

namespace FlowGate.CommandLine

/-- How the program ends: with an exit code, with a failure that it does not handle, or with a
measurement over a time that is given by its bit pattern. The text is what was printed. -/
inductive Outcome
  | exit (code : Nat) (printed : String)
  | failed (error : Error) (printed : String)
  | measure (seconds : UInt64)

/-- What a method does after it was started: it prints lines and ends well, it ends with a message
for the user, it fails, or it measures. -/
inductive Stop
  | usage (message : String)
  | failure (error : Error)
  | measure (seconds : UInt64)

/-- The lines that a method prints, unless it stops. -/
abbrev Method := Except Stop (List String)

/-- The text of the help. -/
def help (program : String) : List String :=
  [s!"Usage: {program} [method] [options]",
   "\tcalibrate [seconds] -- measure the local BLAKE3 hash rate",
   "\tfind b l input -- find the first nonce giving a valid flow id",
   "\tlock f1|f2 b l input [seed_hex] -- find a nonce and print the locking script for the gate role",
   "\tdecompile hex -- decompile hex byte code and print it",
   "\tdemo -- run the F1 gate end to end for input 123, b=16, l=4",
   "\thelp -- print this message"]

/-- Lines as printed text. -/
def print (lines : List String) : String :=
  String.join (lines.map (· ++ "\n"))

/-- Stops with a message for the user unless the condition holds. -/
def demand (condition : Bool) (message : String) : Except Stop Unit :=
  if condition then .ok () else .error (.usage message)

/-- A failure stops a method. -/
def attempt {α : Type} : Except Error α → Except Stop α
  | .ok a => .ok a
  | .error error => .error (.failure error)

/-! ### Arguments -/

/-- An integer in decimal digits of any script. Digit characters that are not decimal do not make a
number; the limit on the length counts the digits before the first of them, and comes first. -/
def readInteger (argument : String) : Except Error Int := do
  let leading := argument.toList.takeWhile fun c => (Text.decimalValue? c).isSome
  ensure (leading.length ≤ maxLiteralDigits) (.invalid (.literalTooLong leading.length))
  match argument.toList.mapM Text.decimalValue? with
  | none => throw (.invalid (.badInteger argument))
  | some digits => return Text.ofDecimal digits

/-- Whether an argument consists of digit characters. -/
def isDigits (argument : String) : Bool :=
  !argument.isEmpty && argument.toList.all Text.isDigit

/-- The three integers at the start of the arguments. -/
def readThree : List String → Except Stop (Int × Int × Int)
  | b :: l :: input :: _ => do
    -- All three are looked at before the first of them is read.
    demand (isDigits b && isDigits l && isDigits input) "Parameters must be integers."
    let b ← attempt (readInteger b)
    let l ← attempt (readInteger l)
    return (b, l, ← attempt (readInteger input))
  | _ => .error (.usage "Must supply 3 integer parameters.")

/-- The bytes of a hexadecimal argument. -/
def readHex? (argument : String) : Option Bytes := Hex.decode? argument.toList

/-! ### Methods -/

variable (p : Primitives) (t : OpTable)

/-- The first nonce for an input; a search that gives up says so to the user. -/
def findNonce (input b l : Int) : Except Stop Selection := do
  demand (b ≤ 32 && b % 8 == 0) "b must be a multiple of 8 <= 32."
  demand (l ≤ b) "l must be <= b."
  match Flow.findNonce p.hash input b l 0 Flow.defaultFactor with
  | .ok found => return found
  -- Nothing but a search that gives up is the user's concern here.
  | .error (.exhausted fault) => .error (.usage fault.message)
  | .error error => .error (.failure error)

/-- Finds the first nonce. -/
def find (arguments : List String) : Method := do
  let (b, l, input) ← readThree arguments
  let found ← findNonce p input b l
  return [s!"nonce: {found.nonce}", s!"flow_id: {found.flowId}",
    s!"hash: {Hex.encode found.digest.bytes}"]

/-- The seed at the start of the arguments, or chance if there is none. -/
def readSeed (chance : Bytes) : List String → Except Stop Bytes
  | [] => .ok chance
  | argument :: _ =>
    match readHex? argument with
    | some seed => do
      demand (seed.length == Signer.seedLength) "seed_hex must be 32 bytes of hexadecimal."
      return seed
    | none => .error (.usage "seed_hex must be 32 bytes of hexadecimal.")

/-- The locking script of a role for a key and a flow. -/
def lockingScript (role : GateRole) (key : Bytes) (nibbles : List Nat) : Except Error Script :=
  LockingArgs.build t ⟨role, .bytes key, nibbles.map fun (n : Nat) => .int n, .default⟩

/-- Finds a nonce and prints the locking script of the flow. -/
def lock (chance : Bytes) : List String → Method
  | [] => .error (.usage "Must supply gate role f1 or f2.")
  | name :: arguments =>
    match GateRole.ofName? (String.ofList (Text.upper name.toList)) with
    | none => .error (.usage "Must supply gate role f1 or f2.")
    | some role => do
      let (b, l, input) ← readThree arguments
      let signer ← attempt (Signer.ofSeed (← readSeed chance (arguments.drop 3)))
      let found ← findNonce p input b l
      let nibbles ← attempt (Flow.idNibbles found.flowId b)
      let script ← attempt (lockingScript t role signer.key nibbles)
      return [s!"pubkey: {Hex.encode signer.key}", s!"nonce: {found.nonce}",
        Hex.encode script.code]

/-- Prints the lines of byte code. -/
def decompile : List String → Method
  | [] => .error (.usage "Missing hex parameter.")
  | argument :: _ =>
    match readHex? argument with
    | none => .error (.usage "Missing hex parameter.")
    | some code => do
      return ["\n".intercalate (← attempt (ofExec (disassemble t code)))]

/-- Measures the hash rate. Nothing is hashed in no time. -/
def calibrate (arguments : List String) : Method := do
  let seconds ← match arguments with
    | [] => pure (0x4014000000000000 : UInt64)
    | argument :: _ =>
      match Decimal.read? argument.toList with
      | some pattern => pure pattern
      | none => .error (.failure (.invalid (.badNumber argument)))
  if Binary64.isPositive seconds then .error (.measure seconds)
  else if Binary64.isZero seconds then return [Calibration.rateLine 0]
  else .error (.failure (.invalid (.negative "duration_secs")))

/-- Texts in brackets with commas between them. -/
def bracketed (texts : List String) : String :=
  "[" ++ ", ".intercalate texts ++ "]"

/-- Runs the first gate from end to end, with a key of chance. -/
def demo (chance : Bytes) : Method := do
  let (b, l, input) := ((16, 4, 123) : Int × Int × Int)
  let signer ← attempt (Signer.ofSeed chance)
  let found ← findNonce p input b l
  let nibbles ← attempt (Flow.idNibbles found.flowId b)
  let locking ← attempt (lockingScript t .f1 signer.key nibbles)
  let sighash := (Sighash.ofSeed (nibbles.map UInt8.ofNat)).bytes
  let witness ← attempt
    (Gate.witness t input found.nonce (signer.sign sighash) Fragment.limbLength)
  -- The run shows the final stack; whether it spends is asked separately.
  let run := runScript p t (witness.code ++ locking.code) (.ofSighash (.bytes sighash)) .empty
  match run.fault with
  | some fault => .error (.failure (.execution fault))
  | none =>
    let spends := Gate.spends p t locking.code witness.code (.bytes sighash)
    return [s!"flow_id: {found.flowId}",
      s!"flow_id prefix nibbles: {bracketed (nibbles.map toString)}",
      s!"nonce: {found.nonce}",
      s!"hash: {Hex.encode found.digest.bytes}",
      s!"locking script: {locking.code.length} bytes",
      "final stack: " ++
        bracketed (run.final.stack.toList.map fun item => Text.quoted (Hex.encode item)),
      "F1 => success=" ++ if spends then "True" else "False"]

/-- The method that the arguments name. -/
def method (program : String) (chance : Bytes) : List String → Method
  | [] => .ok (help program)
  | name :: arguments =>
    if ["help", "--help", "?", "-?", "-h"].contains name then .ok (help program)
    else if name = "calibrate" then calibrate arguments
    else if name = "find" then find p arguments
    else if name = "lock" then lock p t chance arguments
    else if name = "decompile" then decompile t arguments
    else if name = "demo" then demo p t chance
    else .error (.usage s!"Unknown method: {name}")

/-- The outcome for a list of arguments, the program's name first. -/
def run (chance : Bytes) (arguments : List String) : Outcome :=
  let program := arguments.headD ""
  match method p t program chance (arguments.drop 1) with
  | .ok lines => .exit 0 (print lines)
  | .error (.usage message) => .exit 1 (print (message :: help program))
  | .error (.failure error) => .failed error ""
  | .error (.measure seconds) => .measure seconds

end FlowGate.CommandLine

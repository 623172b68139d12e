import FlowGate.Assembly.Disassemble
import FlowGate.Hash.Sha256
import FlowGate.Machine.Run
import FlowGate.Value.Arithmetic

/-!
# Scripts from values of any kind

Assembling, disassembling, combining and running scripts for arguments whose kind is checked when
they are used.

## Main definitions

* `Checked.isHex`, `Checked.isDecimal` — literals
* `Checked.symbols`, `Checked.compile`, `Checked.disassemble` — text and byte code
* `Checked.scriptOfSource`, `Checked.scriptOfCode`, `Checked.concatScripts`, `Checked.written` —
  scripts
* `Checked.code`, `Checked.authorizes`, `Checked.verifySignature` — what runs take
* `Checked.register` — new opcodes
-/

namespace FlowGate.Checked

/-- The source text that a value is. -/
def source : Value → Except Error String
  | .text s => .ok s
  | _ => .error (.invalid .sourceNotText)

/-- The symbols of a source text. -/
def symbols (v : Value) : Except Error (List String) := do
  Source.symbols (← source v)

/-- What is wrong with a value that is matched as a text and is none. -/
def notText : Value → Error
  | .bytes _ => .wrongType .bytesNotText
  | v => .wrongType (.notMatchable v.kindName)

/-- Whether a text is a hexadecimal literal. A sequence of odd length never is. -/
def isHex : Value → Except Error Bool
  | .text s => .ok (Source.isHex s)
  | v => do if (← v.length) % 2 == 1 then return false else throw (notText v)

/-- Whether a text is a decimal literal. -/
def isDecimal : Value → Except Error Bool
  | .text s => .ok (Source.isDecimal s)
  | v => .error (notText v)

/-- What is wrong with a value that stands for the argument of a push and is no text. -/
def badArgument (name : String) (v : Value) : Error :=
  match v with
  | .bytes _ | .list _ =>
    match isHex v with
    | .ok _ => .assembly (.argumentNotHex name)
    | .error fault => fault
  | v => .wrongType (.notSubscriptable v.kindName)

/-- The text that a value is. -/
def text? : Value → Option String
  | .text s => some s
  | _ => none

/-- The byte code of a sequence of symbols. The first one that is no text fails where it would be
read, after what stands before it. -/
def assembleSymbols (t : OpTable) (v : Value) : Except Error Bytes := do
  let _ ← v.length
  let items ← v.items?
  -- What stands before the first entry that is no text is assembled as it would be.
  let texts := (items.takeWhile fun item => (text? item).isSome).filterMap text?
  match items[texts.length]?, assemble t texts with
  | none, result => result
  -- That entry stands where an argument is expected.
  | some item, .error (.assembly (.argumentMissing name)) => throw (badArgument name item)
  | some item, .ok _ => throw (notText item)
  | some _, .error fault => throw fault

/-- The byte code of a source text. -/
def compile (t : OpTable) (v : Value) : Except Error Bytes := do
  FlowGate.compile t (← source v)

@[simp] theorem compile_text (t : OpTable) (text : String) :
    compile t (.text text) = FlowGate.compile t text := rfl

/-- The byte code that a value is, where no script will do. -/
def plainCode : Value → Except Error Bytes
  | .bytes bs => .ok bs
  | _ => .error (.invalid .codeNotBytes)

/-- The lines of byte code. -/
def disassemble (t : OpTable) (v : Value) : Except Error (List String) := do
  ofExec (FlowGate.disassemble t (← plainCode v))

/-- The script of a source text. -/
def scriptOfSource (t : OpTable) (v : Value) : Except Error Script := do
  Script.ofSource t (← source v)

/-- The script of byte code. -/
def scriptOfCode (t : OpTable) (v : Value) : Except Error Script := do
  Script.ofCode t (← plainCode v)

/-- The text and the byte code of a script, or what stands for them in a value of another kind. -/
def written : Value → Except Error Script
  | .script s => .ok s
  | v => do return ⟨v.shown, ← v.asBytes⟩

/-- All scripts of a list in order. -/
def concatScripts (v : Value) : Except Error Script := do
  return Script.concat (← (← v.items?).mapM Value.toScript)

/-- Whether two values are scripts with the same text and byte code. -/
def sameScript : Value → Value → Bool
  | .script s, .script t => s == t
  | _, _ => false

/-- The digest that commits to the byte code of a script. -/
def commitment (v : Value) : Except Error Digest := do
  return Sha256.hash (← v.toScript).code

/-- The byte code to run. -/
def code (v : Value) : Except Error Bytes :=
  v.toCode (.notRunnable "script")

/-- Whether a value is a script or byte code that leaves a single true item; anything else is
not. -/
def authorizes (p : Primitives) (t : OpTable) (v : Value) (cache : Cache) : Bool :=
  match code v with
  | .ok code => FlowGate.authorizes p t code cache
  | .error _ => false

/-- Whether a signature verifies; only byte strings can. The lengths of key and signature are looked
at first. -/
def verifySignature (p : Primitives) (key message signature : Value) : Except Error Bool := do
  if (← key.length) ≠ Primitives.keyLength then return false
  if (← signature.length) ≠ Primitives.signatureLength then return false
  match key, signature with
  | .bytes key, .bytes signature => return p.verifyValue key message signature
  | _, _ => return false

/-- Registers an operation under an opcode and a name. What is no operation is given as `none`. An
opcode has to be short enough to be written. -/
def register (t : OpTable) (code name : Value) (op : Option Operation) : Except Error OpTable := do
  let code ← code.toInt "code"
  let name ← name.toText "name"
  match op with
  | none => throw (.wrongType (.notCallable "function"))
  | some op =>
    ensure (code.natAbs < 10 ^ maxLiteralDigits) (.invalid .numberTooLong)
    t.register code name op

end FlowGate.Checked

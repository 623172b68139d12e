import FlowGate.Hash.Digest
import FlowGate.Text.Quoted

/-!
# Causes of failure

Every failure has a cause, and every cause has one wording. Causes are grouped by what is at fault:
the kind of a value, a part that a value lacks, its range, a precondition of the prefix encoding,
the run of a script, the text of a script, the nonce search, a result that is too large, or a
position.

## Main definitions

* `TypeFault`, `ValueFault`, `EncodingFault`, `ExecFault`, `AssemblyFault`, `SearchFault`,
  `ArithmeticFault`, `IndexFault` — the groups
* `Error` — any failure
* `Error.message` — its wording
-/

namespace FlowGate

/-- A value of the wrong kind was given, for the named argument or to an operation that its kind does
not have. Kinds are given by their names. -/
inductive TypeFault
  | notInt (what : String)
  | notText (what : String)
  | notBytes (what : String)
  | notNumber (what : String)
  | notRole (what : String)
  | notCallable (what : String)
  | notStep (what : String)
  | notRunnable (what : String)
  | notCode (what : String)
  | notFragment (what : String)
  | notScript
  | notSize
  | notSequence (kind : String)
  | notSized (kind : String)
  | notKey (kind : String)
  | notIndex (kind : String)
  | notPosition (kind : String)
  | notBound
  | notCount (kind : String)
  | notSubscriptable (kind : String)
  | notConvertible (kind : String)
  | notMatchable (kind : String)
  | bytesNotText
  | noEncoding
  | notBuffer (kind : String)
  | notAppendable (left right : String)
  | notJoinable (kind : String)
  | textNotBytes
  | unordered (symbol left right : String)
  | unsupported (symbol left right : String)
  deriving DecidableEq, Repr

/-- A value of the right kind lies outside its range. -/
inductive ValueFault
  | sourceNotText
  | codeNotBytes
  | oddNibbleCount
  | nibbleRange
  | digestTooShort
  | dataTooLong
  | literalTooLong (digits : Nat)
  | numberTooLong
  | negativeCount
  | byteRange
  | codeTaken (code : Nat) (name : String)
  | codeRange
  | nameStem
  | negativeLimit
  | negative (what : String)
  | notPositive (what : String)
  | tooWide (what : String) (bits : Nat)
  | wrongLength (what : String) (bytes : Nat)
  | neededRange
  | unknownRole (name : String)
  | idSpaceTooLarge
  | flowIdRange
  | noSigners
  | badSignature
  | badInteger (text : String)
  | badNumber (text : String)
  deriving DecidableEq, Repr

/-- A prefix width or a flow id that the prefix encoding does not cover. -/
inductive EncodingFault
  | widthRange
  | widthMultiple
  | flowIdRange
  | configWidthRange
  | configWidthMultiple
  deriving DecidableEq, Repr

/-- The run of a script failed. -/
inductive ExecFault
  | readPastEnd
  | movePastEnd
  | emptyStack
  | itemTooLarge
  | fullStack
  | peekPastBottom
  | numberTooLong
  | numberNotMinimal
  | verifyFailed
  | returned
  | emptyAltStack
  | equalVerifyFailed
  | keyLength
  | noSighash
  | checkSigVerifyFailed
  | unassigned (code : Nat)
  | orderFlag
  | limbLength
  | messageLength
  | lengthMismatch
  deriving DecidableEq, Repr

/-- The text of a script cannot be assembled. -/
inductive AssemblyFault
  | unterminatedComment
  | argumentMissing (name : String)
  | argumentNotHex (name : String)
  | argumentTooLong (name : String)
  | argumentLength (name : String) (bytes : Nat)
  | unrecognized (symbol : String)
  deriving DecidableEq, Repr

/-- The nonce search gave up. -/
inductive SearchFault
  | nonceOverflow
  | budgetSpent (factor : String)
  deriving DecidableEq, Repr

/-- A result is too large: for a floating-point number, for a count, or to be formed at all. -/
inductive ArithmeticFault
  | integerTooLarge
  | quotientTooLarge
  | countTooLarge
  | sizeTooLarge
  | powerTooLarge
  deriving DecidableEq, Repr

/-- A position lies outside a stack or a list, or cannot be a position. -/
inductive IndexFault
  | outsideStack
  | outsideList
  | tooLarge
  deriving DecidableEq, Repr

/-- Any failure. A value whose kind is not checked fails when it is asked for a part that it
lacks. -/
inductive Error
  | wrongType (fault : TypeFault)
  | lacks (kind part : String)
  | invalid (fault : ValueFault)
  | encoding (fault : EncodingFault)
  | execution (fault : ExecFault)
  | assembly (fault : AssemblyFault)
  | outOfRange (label : Nat) (digest : Digest) (bound : Nat)
  | exhausted (fault : SearchFault)
  | timedOut (limit : String)
  | badIndex (fault : IndexFault)
  | overflow (fault : ArithmeticFault)
  deriving DecidableEq

/-- The wording of a wrong kind of value. -/
def TypeFault.message : TypeFault → String
  | notInt what => s!"{what} must be int"
  | notText what => s!"{what} must be str"
  | notBytes what => s!"{what} must be bytes"
  | notNumber what => s!"{what} must be int or float"
  | notRole what => s!"{what} must be GateRole or str"
  | notCallable what => s!"{what} must be callable"
  | notStep what => s!"{what} must be PresignedStep"
  | notRunnable what => s!"{what} must be bytes or ScriptProtocol implementation"
  | notCode what => s!"{what} must be bytes or ScriptProtocol"
  | notFragment what => s!"{what} must implement CanComputeDigestFragment"
  | notScript => "cannot add Script to non-Script"
  | notSize => "an integer is required"
  | notSequence kind => s!"{kind} object is not iterable"
  | notSized kind => s!"object of type {kind} has no len()"
  | notKey kind => s!"unhashable type: {kind}"
  | notIndex kind => s!"{kind} object cannot be interpreted as an integer"
  | notPosition kind => s!"sequence index must be integer, not {kind}"
  | notBound => "slice indices must be integers or None or have an __index__ method"
  | notCount kind => s!"can't multiply sequence by non-int of type {kind}"
  | notSubscriptable kind => s!"{kind} object is not subscriptable"
  | notConvertible kind => s!"cannot convert {kind} object to bytes"
  | notMatchable kind => s!"expected string or bytes-like object, got {kind}"
  | bytesNotText => "cannot use a string pattern on a bytes-like object"
  | noEncoding => "string argument without an encoding"
  | notBuffer kind => s!"a bytes-like object is required, not {kind}"
  | notAppendable left right => s!"can only concatenate {left} (not \"{right}\") to {left}"
  | notJoinable kind => s!"can't concat {kind} to bytes"
  | textNotBytes =>
    "initializer for ctype 'unsigned char *' must be a bytes or list or tuple, not str"
  | unordered symbol left right =>
    s!"'{symbol}' not supported between instances of {left} and {right}"
  | unsupported symbol left right =>
    s!"unsupported operand type(s) for {symbol}: {left} and {right}"

/-- The longest decimal text, in digits, that is read as an integer. -/
def maxLiteralDigits : Nat := 4300

/-- The wording of a value out of range. -/
def ValueFault.message : ValueFault → String
  | sourceNotText => "script must be str"
  | codeNotBytes => "input script must be bytes"
  | oddNibbleCount => "nibbles must have even length"
  | nibbleRange => "each nibble must be in [0, 15]"
  | digestTooShort => "digest too short"
  | dataTooLong => "data too large to push"
  | literalTooLong digits =>
    s!"Exceeds the limit ({maxLiteralDigits} digits) for integer string conversion: " ++
      s!"value has {digits} digits; use sys.set_int_max_str_digits() to increase the limit"
  | numberTooLong =>
    s!"Exceeds the limit ({maxLiteralDigits} digits) for integer string conversion; " ++
      "use sys.set_int_max_str_digits() to increase the limit"
  | negativeCount => "negative count"
  | byteRange => "bytes must be in range(0, 256)"
  | codeTaken code name => s!"{code} already assigned to {name}"
  | codeRange => "code must be <256"
  | nameStem => "name must start with OP_"
  | negativeLimit => "maxlen must be non-negative"
  | negative what => s!"{what} must not be negative"
  | notPositive what => s!"{what} must be positive"
  | tooWide what bits => s!"{what} must fit in {bits} bits"
  | wrongLength what bytes => s!"{what} must be {bytes} bytes"
  | neededRange => "needed must be within the digest"
  | unknownRole name => s!"{Text.quoted name} is not a valid GateRole"
  | idSpaceTooLarge => "l must be <= b"
  | flowIdRange => "flow_id must be < 2^l"
  | noSigners => "signers must not be empty"
  | badSignature => "invalid signature for step"
  | badInteger text =>
    s!"invalid literal for int() with base 10: {String.ofList ((Text.quoted text).toList.take 200)}"
  | badNumber text => s!"could not convert string to float: {Text.quoted text}"

/-- The wording of a violated precondition of the prefix encoding. -/
def EncodingFault.message : EncodingFault → String
  | widthRange => "b_bits must be between 0 and 32"
  | widthMultiple => "b_bits must be multiple of 8"
  | flowIdRange => "flow_id must fit in 32 bits"
  | configWidthRange => "b must be <= 32"
  | configWidthMultiple => "b must be a multiple of 8"

/-- The wording of a failed run. -/
def ExecFault.message : ExecFault → String
  | readPastEnd => "cannot read that many bytes"
  | movePastEnd => "cannot move pointer that far"
  | emptyStack => "cannot get from empty Stack"
  | itemTooLarge => "Stack item size too large"
  | fullStack => "cannot put onto full Stack"
  | peekPastBottom => "cannot peek past the bottom of the Stack"
  | numberTooLong => "script number overflow"
  | numberNotMinimal => "non-minimally encoded script number"
  | verifyFailed => "OP_VERIFY check failed"
  | returned => "OP_RETURN called"
  | emptyAltStack => "OP_FROMALTSTACK alt stack is empty"
  | equalVerifyFailed => "OP_EQUALVERIFY check failed"
  | keyLength => "OP_CHECKSIG invalid pubkey encountered"
  | noSighash => "OP_CHECKSIG no sighash in cache"
  | checkSigVerifyFailed => "OP_CHECKSIGVERIFY check failed"
  | unassigned code => s!"unassigned opcode {code}"
  | orderFlag => "OP_BLAKE3 invalid order flag"
  | limbLength => "OP_BLAKE3 limb length must be positive"
  | messageLength => "OP_BLAKE3 message length must be positive"
  | lengthMismatch => "OP_BLAKE3 message length mismatch"

/-- The wording of a text that cannot be assembled. -/
def AssemblyFault.message : AssemblyFault → String
  | unterminatedComment => "unterminated comment"
  | argumentMissing name => s!"{name} requires a hex argument"
  | argumentNotHex name => s!"{name} argument must be hexadecimal"
  | argumentTooLong name => s!"{name} data too large"
  | argumentLength name bytes => s!"{name} requires exactly {bytes} bytes"
  | unrecognized symbol => s!"unrecognized symbol: {symbol}"

/-- The wording of a search that gave up. -/
def SearchFault.message : SearchFault → String
  | nonceOverflow => "nonce overflow"
  | budgetSpent factor => s!"could not find valid flow_id within {factor}x expected attempts"

/-- The wording of a result that is too large. -/
def ArithmeticFault.message : ArithmeticFault → String
  | integerTooLarge => "int too large to convert to float"
  | quotientTooLarge => "integer division result too large for a float"
  | countTooLarge => "cannot fit 'int' into an index-sized integer"
  | sizeTooLarge => "Python int too large to convert to C ssize_t"
  | powerTooLarge => "too many digits in integer"

/-- The wording of a bad position. -/
def IndexFault.message : IndexFault → String
  | outsideStack => "deque index out of range"
  | outsideList => "list index out of range"
  | tooLarge => "cannot fit 'int' into an index-sized integer"

/-- The wording of a failure. -/
def Error.message : Error → String
  | wrongType fault => fault.message
  | lacks kind part => s!"{kind} object has no attribute '{part}'"
  | invalid fault => fault.message
  | encoding fault => fault.message
  | execution fault => fault.message
  | assembly fault => fault.message
  | outOfRange label digest bound =>
    s!"hash prefix {label} (from H={Hex.encode digest.bytes}) >= {bound} (out of range)"
  | exhausted fault => fault.message
  | timedOut limit => s!"nonce search timed out after {limit}s"
  | badIndex fault => fault.message
  | overflow fault => fault.message

/-- A failed run as a failure. -/
def ofExec {α : Type} : Except ExecFault α → Except Error α
  | .ok a => .ok a
  | .error fault => .error (.execution fault)

/-- Passes if the condition holds and fails with the given cause otherwise. -/
def ensure (condition : Bool) (error : Error) : Except Error Unit :=
  if condition then .ok () else .error error

@[simp] theorem ensure_true (error : Error) : ensure true error = .ok () := rfl

@[simp] theorem ensure_false (error : Error) : ensure false error = .error error := rfl

/-- A condition holds if and only if its check passes. -/
theorem ensure_eq_ok_iff {condition : Bool} {error : Error} :
    ensure condition error = .ok () ↔ condition = true := by
  cases condition <;> simp

/-- What follows on a computation that succeeds. -/
theorem bind_of_eq_ok {ε α β : Type} {x : Except ε α} {a : α} (h : x = .ok a)
    (f : α → Except ε β) : (x >>= f) = f a := by
  rw [h]
  rfl

/-- Of two computations in order both succeed. -/
theorem bind_ok_iff {ε α β : Type} {x : Except ε α} {f : α → Except ε β} {b : β} :
    (x >>= f) = .ok b ↔ ∃ a, x = .ok a ∧ f a = .ok b := by
  cases x with
  | error fault => simp [bind, Except.bind]
  | ok a => simp [bind, Except.bind]

/-- What stands behind a check succeeds if the condition holds and it does so itself. -/
theorem ensure_bind_eq_ok_iff {α : Type} {condition : Bool} {error : Error} {x : Except Error α}
    {a : α} : (ensure condition error >>= fun _ => x) = .ok a ↔ condition = true ∧ x = .ok a := by
  cases condition <;> simp [bind, Except.bind]

/-- Of two computations in order the first fails, or the second behind it. -/
theorem bind_eq_error_iff {ε α β : Type} {x : Except ε α} {f : α → Except ε β} {fault : ε} :
    (x >>= f) = .error fault ↔ x = .error fault ∨ ∃ a, x = .ok a ∧ f a = .error fault := by
  cases x with
  | error other => simp [bind, Except.bind]
  | ok a => simp [bind, Except.bind]

/-- A computation that succeeds on every entry of a list succeeds on the list. -/
theorem mapM_eq_ok {ε α β : Type} {f : α → Except ε β} {g : α → β} {xs : List α}
    (h : ∀ x ∈ xs, f x = .ok (g x)) : xs.mapM f = .ok (xs.map g) := by
  induction xs with
  | nil => rfl
  | cons x xs ih =>
    have hrest := ih fun y hy => h y (List.mem_cons_of_mem x hy)
    rw [List.mapM_cons, bind_of_eq_ok (h x List.mem_cons_self), bind_of_eq_ok hrest]
    rfl

/-- A computation that succeeds on a list gives one result for each entry. -/
theorem length_of_mapM_eq_ok {ε α β : Type} {f : α → Except ε β} {xs : List α} {ys : List β}
    (h : xs.mapM f = .ok ys) : ys.length = xs.length := by
  induction xs generalizing ys with
  | nil =>
    obtain rfl : [] = ys := Except.ok.inj h
    rfl
  | cons x xs ih =>
    rw [List.mapM_cons] at h
    obtain ⟨y, -, h⟩ := bind_ok_iff.mp h
    obtain ⟨others, hothers, h⟩ := bind_ok_iff.mp h
    obtain rfl : y :: others = ys := Except.ok.inj h
    rw [List.length_cons, List.length_cons, ih hothers]

/-- A computation fails on a list as it fails on the first entry on which it does not succeed. -/
theorem mapM_eq_error_iff {ε α β : Type} {f : α → Except ε β} {xs : List α} {fault : ε} :
    xs.mapM f = .error fault ↔ ∃ before x after, xs = before ++ x :: after ∧
      (∀ y ∈ before, ∃ b, f y = .ok b) ∧ f x = .error fault := by
  induction xs with
  | nil => simp [pure, Except.pure]
  | cons x xs ih =>
    -- Either the first one fails, or it does not and the others do.
    rw [List.mapM_cons, bind_eq_error_iff]
    constructor
    · rintro (hx | ⟨b, hb, hrest⟩)
      · exact ⟨[], x, xs, rfl, by simp, hx⟩
      · have hxs : xs.mapM f = .error fault := by
          rcases bind_eq_error_iff.mp hrest with hxs | ⟨others, -, hpure⟩
          · exact hxs
          · cases hpure
        obtain ⟨before, y, after, rfl, hbefore, hy⟩ := ih.mp hxs
        exact ⟨x :: before, y, after, rfl, List.forall_mem_cons.mpr ⟨⟨b, hb⟩, hbefore⟩, hy⟩
    · rintro ⟨before, y, after, hsplit, hbefore, hy⟩
      cases before with
      | nil =>
        obtain ⟨rfl, rfl⟩ := List.cons.inj hsplit
        exact .inl hy
      | cons first before =>
        obtain ⟨rfl, rfl⟩ := List.cons.inj hsplit
        obtain ⟨⟨b, hb⟩, hbefore⟩ := List.forall_mem_cons.mp hbefore
        have hxs := ih.mpr ⟨before, y, after, rfl, hbefore, hy⟩
        exact .inr ⟨b, hb, bind_eq_error_iff.mpr (.inl hxs)⟩

end FlowGate

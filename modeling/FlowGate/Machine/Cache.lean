import FlowGate.Machine.Stack
import FlowGate.Value

/-!
# Caches

A cache holds the data that a script finds besides its stack: named values, and the alternate stack
once an operation has used it.

## Main definitions

* `Cache` — named values and the alternate stack
* `Cache.openAlt` — the alternate stack, made if there is none
* `Cache.afterCall` — what a caller finds in its cache after it has lent it to a run

A run works on a copy of its caller's cache, but an alternate stack that is already there is shared
with the copy. So the caller sees what the run did to that stack, and does not see one that the run
made itself.
-/

namespace FlowGate

/-- Named values, and the alternate stack if one was made. -/
structure Cache where
  values : List (String × Value)
  alt : Option Stack
  deriving Repr

namespace Cache

/-- The cache that holds nothing. -/
def empty : Cache := ⟨[], none⟩

/-- The cache that holds only the message that signatures are checked against. -/
def ofSighash (message : Value) : Cache := ⟨[("sighash", message)], none⟩

/-- The message that signatures are checked against. -/
def sighash? (c : Cache) : Option Value := c.values.lookup "sighash"

/-- The alternate stack, an empty one if there is none yet. -/
def altStack (c : Cache) : Stack := c.alt.getD .empty

/-- Makes an alternate stack if there is none. -/
def openAlt (c : Cache) : Cache := { c with alt := some c.altStack }

/-- What is in the caller's cache after a run that ended with the cache `final`. -/
def afterCall (caller final : Cache) : Cache :=
  match caller.alt with
  | none => caller
  -- The copy holds the same stack, so what was done to it is done.
  | some _ => { caller with alt := final.alt }

@[simp] theorem sighash?_ofSighash (message : Value) :
    (ofSighash message).sighash? = some message := by
  simp [ofSighash, sighash?]

/-- A caller that lends no alternate stack finds its cache as it was. -/
theorem afterCall_of_alt_eq_none {caller : Cache} (h : caller.alt = none) (final : Cache) :
    caller.afterCall final = caller := by
  simp [afterCall, h]

end Cache

end FlowGate

import FlowGate.Gate.Parts
import FlowGate.Value

/-!
# Remembered locking scripts

Building a locking script is remembered for the arguments it was built with. The 256 arguments used
last are kept; failures are not remembered, nor anything for a fragment without identity.

## Main definitions

* `LockingArgs` — the arguments of a locking script
* `LockingArgs.build` — the script that the arguments describe
* `LockingCache` — arguments with their scripts, the last used first
* `LockingCache.build` — the script of the arguments, remembered or built
-/

namespace FlowGate

/-- The arguments of a locking script. Key and nibbles may be values of any kind. -/
structure LockingArgs where
  role : GateRole
  key : Value
  nibbles : List Value
  fragment : Fragment
  deriving Repr

namespace LockingArgs

/-- A value as an expected nibble. -/
def toNibble (v : Value) : Except Error Nat := do
  Gate.nibble (← v.toInt "each nibble")

/-- The locking script that the arguments describe. -/
def build (t : OpTable) (args : LockingArgs) : Except Error Script :=
  Gate.lockingScript t args.role (args.key.toBytes "pubkey") args.nibbles.length
    (args.nibbles.mapM toNibble) args.fragment

/-- What a fragment is compared by. The order that it really emits counts only where the fragment is
its content. -/
def sameFragment (f g : Fragment) : Bool :=
  f.identity == g.identity && f.order == g.order && f.digestNibbles == g.digestNibbles &&
    (f.identity != .content || f.emitted == g.emitted)

/-- Whether two sets of arguments count as the same. -/
def same (a b : LockingArgs) : Bool :=
  a.role == b.role && Value.sameKey a.key b.key && Value.sameKeys a.nibbles b.nibbles &&
    sameFragment a.fragment b.fragment

/-- Whether arguments can be remembered at all: none of them may be a list. -/
def areKeys (args : LockingArgs) : Bool :=
  args.key.isKey && args.nibbles.all Value.isKey

end LockingArgs

/-- Arguments with the scripts built for them, the last used first. -/
structure LockingCache where
  entries : List (LockingArgs × Script)

namespace LockingCache

/-- The number of scripts that are remembered. -/
def capacity : Nat := 256

/-- Nothing remembered. -/
def empty : LockingCache := ⟨[]⟩

/-- The script remembered for the arguments. -/
def find? (c : LockingCache) (args : LockingArgs) : Option (LockingArgs × Script) :=
  c.entries.find? fun entry => entry.1.same args

/-- Puts an entry in front, in place of an entry for the same arguments, and forgets what exceeds
the capacity. -/
def use (c : LockingCache) (entry : LockingArgs × Script) : LockingCache :=
  ⟨(entry :: c.entries.filter fun other => !other.1.same entry.1).take capacity⟩

/-- The script of the arguments, remembered or built, and the cache afterwards. -/
def build (t : OpTable) (c : LockingCache) (args : LockingArgs) :
    Except Error Script × LockingCache :=
  -- Without identity there is nothing to find the script by.
  if args.fragment.identity = .none then (args.build t, c)
  else if args.areKeys then
    match c.find? args with
    | some entry => (.ok entry.2, c.use entry)
    | none =>
      match args.build t with
      | .ok script => (.ok script, c.use (args, script))
      -- A failure is no script, so it is found out again each time.
      | .error fault => (.error fault, c)
  else (.error (.wrongType (.notKey "'list'")), c)

end LockingCache

end FlowGate

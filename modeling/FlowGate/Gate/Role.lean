import FlowGate.Power

/-!
# Gate roles

A gate admits inputs by comparing them with a threshold: one role asks for more than 100, the other
for less than 200.

## Main definitions

* `GateRole` — the two roles
* `GateRole.threshold`, `GateRole.comparison` — what the script of a role compares with, and how
* `GateRole.accepts` — the inputs that a role admits
-/

namespace FlowGate

/-- The two roles of a gate. -/
inductive GateRole
  | f1
  | f2
  deriving DecidableEq, Repr

namespace GateRole

/-- The name of a role. -/
def name : GateRole → String
  | f1 => "F1"
  | f2 => "F2"

/-- The role of a name. -/
def ofName? (name : String) : Option GateRole :=
  if name = "F1" then some f1 else if name = "F2" then some f2 else none

/-- The number that inputs are compared with. -/
def threshold : GateRole → Nat
  | f1 => 100
  | f2 => 200

/-- The operation that compares an input with the threshold. -/
def comparison : GateRole → String
  | f1 => "OP_GREATERTHAN"
  | f2 => "OP_LESSTHAN"

/-- The largest magnitude of a number of four bytes. -/
def maxNumber : Int := 2 ^ 31 - 1

/-- The inputs that a role admits. An input that is no number of four bytes is never admitted,
since the script cannot compare it. -/
def accepts (role : GateRole) (input : Int) : Bool :=
  if input < -maxNumber ∨ maxNumber < input then false
  else
    match role with
    | f1 => input > role.threshold
    | f2 => input < role.threshold

@[simp] theorem ofName?_name (role : GateRole) : ofName? role.name = some role := by
  cases role <;> rfl

end GateRole

end FlowGate

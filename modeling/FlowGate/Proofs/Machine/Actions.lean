import FlowGate.Machine.Run

/-!
# Properties of all actions

Every operation is put together from a few elementary actions. So a property that those have, and
that a sequence inherits from its parts, is a property of every operation.

## Main definitions

* `Operation.UsesAlt` — the operations that reach the alternate stack
* `Exec.ClosedOnTop` — properties of the elementary actions on top of the stack that sequences
  inherit
* `Exec.ClosedOnStack` — such properties that counting the items of the stack has as well
* `Exec.ClosedOnAlt` — properties of the elementary actions on the alternate stack
* `Exec.Closed` — properties of all elementary actions that sequences inherit

## Main results

* `Exec.ClosedOnTop.act`, `Exec.ClosedOnTop.act_of_usesAlt`, `Exec.ClosedOnStack.act`,
  `Exec.Closed.act` — which operations have such a property
-/

namespace FlowGate

/-- Whether an operation puts onto the alternate stack or takes from it. -/
def Operation.UsesAlt (op : Operation) : Prop := op = .toAlt ∨ op = .fromAlt

namespace Exec

/-- A property that the elementary actions have that only look at the top of the stack, and that a
sequence inherits from its parts. -/
structure ClosedOnTop (P : ∀ {α : Type}, Exec α → Prop) : Prop where
  pure : ∀ {α : Type} (a : α), P (Pure.pure a : Exec α)
  bind : ∀ {α β : Type} {x : Exec α} {f : α → Exec β}, P x → (∀ a, P (f a)) → P (x >>= f)
  fail : ∀ {α : Type} (fault : ExecFault), P (fail fault : Exec α)
  push : ∀ item, P (push item)
  pop : P pop
  sighash : P sighash

/-- A property that the elementary actions have that leave the alternate stack alone, and that a
sequence inherits from its parts. -/
structure ClosedOnStack (P : ∀ {α : Type}, Exec α → Prop) : Prop extends ClosedOnTop @P where
  depth : P depth

/-- A property that the elementary actions on the alternate stack have. -/
structure ClosedOnAlt (P : ∀ {α : Type}, Exec α → Prop) : Prop where
  openAlt : P openAlt
  pushAlt : ∀ item, P (pushAlt item)
  popAlt : P popAlt

/-- A property that the elementary actions have and that a sequence inherits from its parts. -/
structure Closed (P : ∀ {α : Type}, Exec α → Prop) : Prop extends ClosedOnStack @P, ClosedOnAlt @P

section Act

variable {P : ∀ {α : Type}, Exec α → Prop}

namespace ClosedOnTop

variable {α : Type} (h : ClosedOnTop @P)
include h

theorem require (condition : Bool) (fault : ExecFault) : P (require condition fault) := by
  cases condition
  · exact h.fail fault
  · exact h.pure ()

theorem ofExcept (result : Except ExecFault α) : P (ofExcept result) := by
  cases result with
  | ok a => exact h.pure a
  | error fault => exact h.fail fault

theorem popNumber : P popNumber :=
  h.bind h.pop fun _ => h.ofExcept _

theorem popLimbs (count : Nat) (message : Bytes) : P (popLimbs count message) := by
  induction count generalizing message with
  | zero => exact h.pure message
  | succ count ih => exact h.bind h.pop fun _ => ih _

theorem forM {xs : List α} {f : α → Exec Unit} (hf : ∀ x, P (f x)) : P (forM xs f) := by
  induction xs with
  | nil => exact h.pure ()
  | cons x xs ih => exact h.bind (hf x) fun _ => ih

theorem checkSig (p : Primitives) : P (checkSig p) :=
  h.bind h.pop fun _ => h.bind h.pop fun _ => h.bind (h.require _ _) fun _ =>
    h.bind h.sighash fun _ => h.push _

theorem compare (relation : Int → Int → Bool) : P (compare relation) :=
  h.bind h.popNumber fun _ => h.bind h.popNumber fun _ => h.push _

theorem digest (p : Primitives) : P (digest p) := by
  refine h.bind h.popNumber fun flag => h.bind h.popNumber fun size =>
    h.bind h.popNumber fun length => ?_
  cases NibbleOrder.ofFlag? flag with
  | none => exact h.fail _
  | some order =>
    exact h.bind (h.require _ _) fun _ => h.bind (h.require _ _) fun _ =>
      h.bind (h.popLimbs _ _) fun _ => h.bind (h.require _ _) fun _ =>
        h.forM fun _ => h.push _

/-- Every operation that neither reaches the alternate stack nor counts items has a property of the
elementary actions on top of the stack. -/
theorem act (p : Primitives) (data : Bytes) {op : Operation} (hop : ¬ op.UsesAlt)
    (hdepth : op ≠ .depth) : P (op.act p data) := by
  cases op with
  | push item => exact h.push item
  | pushOperand operand => exact h.push data
  | nop => exact h.pure ()
  | verify => exact h.bind h.pop fun _ => h.require _ _
  | «return» => exact h.fail _
  | toAlt => exact (hop (.inl rfl)).elim
  | fromAlt => exact (hop (.inr rfl)).elim
  | depth => exact (hdepth rfl).elim
  | drop => exact h.bind h.pop fun _ => h.pure ()
  | dup => exact h.bind h.pop fun _ => h.bind (h.push _) fun _ => h.push _
  | swap =>
    exact h.bind h.pop fun _ => h.bind h.pop fun _ => h.bind (h.push _) fun _ => h.push _
  | equal => exact h.bind h.pop fun _ => h.bind h.pop fun _ => h.push _
  | equalVerify => exact h.bind h.pop fun _ => h.bind h.pop fun _ => h.require _ _
  | lessThan => exact h.compare _
  | greaterThan => exact h.compare _
  | checkSig => exact h.checkSig p
  | checkSigVerify =>
    exact h.bind (h.checkSig p) fun _ => h.bind h.pop fun _ => h.require _ _
  | digest => exact h.digest p
  | unassigned code => exact h.fail _

/-- The operations that reach the alternate stack have a property that the elementary actions on it
have too. -/
theorem act_of_usesAlt (halt : ClosedOnAlt @P) (p : Primitives) (data : Bytes) {op : Operation}
    (hop : op.UsesAlt) : P (op.act p data) := by
  rcases hop with rfl | rfl
  · exact h.bind halt.openAlt fun _ => h.bind h.pop fun _ => halt.pushAlt _
  · exact h.bind halt.openAlt fun _ => h.bind halt.popAlt fun _ => h.push _

end ClosedOnTop

/-- Every operation that does not reach the alternate stack has a property of the elementary actions
that leave it alone. -/
theorem ClosedOnStack.act (h : ClosedOnStack @P) (p : Primitives) (data : Bytes) {op : Operation}
    (hop : ¬ op.UsesAlt) : P (op.act p data) := by
  by_cases hdepth : op = .depth
  · subst hdepth
    exact h.bind h.depth fun _ => h.push _
  · exact h.toClosedOnTop.act p data hop hdepth

/-- Every operation has a property of the elementary actions that sequences inherit. -/
theorem Closed.act (h : Closed @P) (p : Primitives) (data : Bytes) (op : Operation) :
    P (op.act p data) := by
  by_cases hop : op.UsesAlt
  · exact h.act_of_usesAlt h.toClosedOnAlt p data hop
  · exact h.toClosedOnStack.act p data hop

end Act

end Exec

end FlowGate

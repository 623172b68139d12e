import FlowGate.Proofs.Machine.Effects
import FlowGate.Proofs.Machine.Interpret

/-!
# What no run changes

Operations change the items of the stacks and move the tape on, and nothing else: the limits of the
stacks and the named values of the cache are after a run what they were before. And a stack that
keeps its limits keeps them through every run. All this holds of a run that fails as well, of the
machine that it leaves where it fails.

## Main definitions

* `Machine.frame` — the limits of both stacks and the named values
* `Machine.LeadsTo` — what holds between a machine and one that a run reaches from it
* `Exec.Leads` — actions that lead on, whether they succeed or fail
* `Exec.Keeps` — actions that keep the frame
* `Exec.StaysWithin` — actions that keep the stack within its limits

## Main results

* `Exec.closed_leads` — the elementary actions lead on, and so do sequences of them
* `Machine.leads_interpret` — so does every run
* `Machine.keeps_interpret` — every run keeps the frame
* `Machine.staysWithin_interpret` — every run keeps the stack within its limits
-/

namespace FlowGate

/-- The limits of the two stacks and the named values. -/
structure Frame where
  maxItems : Nat
  maxItemSize : Int
  altMaxItems : Nat
  altMaxItemSize : Int
  values : List (String × Value)

/-- The frame of a run that checks signatures over a message, on stacks with the usual limits. -/
def Frame.ofSighash (message : Value) : Frame :=
  ⟨Stack.defaultMaxItems, Stack.defaultMaxItemSize, Stack.defaultMaxItems,
    Stack.defaultMaxItemSize, [("sighash", message)]⟩

namespace Machine

/-- What operations leave as it is. -/
def frame (m : Machine) : Frame :=
  ⟨m.stack.maxItems, m.stack.maxItemSize, m.cache.altStack.maxItems, m.cache.altStack.maxItemSize,
    m.cache.values⟩

variable (m : Machine) (items : List Bytes)

@[simp] theorem frame_withItems : (m.withItems items).frame = m.frame := rfl

@[simp] theorem frame_withAlt : (m.withAlt items).frame = m.frame := rfl

theorem frame_start (code : Bytes) (message : Value) :
    (start code .empty (.ofSighash message)).frame = .ofSighash message := rfl

section OfFrame

variable {m : Machine} {message : Value} (h : m.frame = .ofSighash message)
include h

theorem maxItems_of_frame : m.stack.maxItems = 1000 := congrArg Frame.maxItems h

theorem maxItemSize_of_frame : m.stack.maxItemSize = 520 := congrArg Frame.maxItemSize h

theorem altMaxItemSize_of_frame : m.cache.altStack.maxItemSize = 520 :=
  congrArg Frame.altMaxItemSize h

theorem sighash?_of_frame : m.cache.sighash? = some message := by
  have hvalues : m.cache.values = [("sighash", message)] := congrArg Frame.values h
  rw [Cache.sighash?, hvalues]
  rfl

end OfFrame

/-- What holds between a machine and one that a run reaches from it: the tape has moved on, though
not past its end, stacks that kept their limits still keep them, which are the same limits, and an
alternate stack that was there is still there. -/
structure LeadsTo (m n : Machine) : Prop where
  data_eq : n.tape.data = m.tape.data
  pointer_le : m.tape.pointer ≤ n.tape.pointer
  pointer_le_size : m.tape.pointer ≤ m.tape.data.size → n.tape.pointer ≤ n.tape.data.size
  frame_eq : n.frame = m.frame
  stack : m.stack.WithinLimits → n.stack.WithinLimits
  alt : m.cache.altStack.WithinLimits → n.cache.altStack.WithinLimits
  isSome_alt : m.cache.alt.isSome → n.cache.alt.isSome

theorem LeadsTo.refl (m : Machine) : m.LeadsTo m := ⟨rfl, Int.le_refl _, id, rfl, id, id, id⟩

theorem LeadsTo.trans {m n k : Machine} (h : m.LeadsTo n) (h' : n.LeadsTo k) : m.LeadsTo k where
  data_eq := h'.data_eq.trans h.data_eq
  pointer_le := Int.le_trans h.pointer_le h'.pointer_le
  pointer_le_size := fun hm => h'.pointer_le_size (h.pointer_le_size hm)
  frame_eq := h'.frame_eq.trans h.frame_eq
  stack := fun hm => h'.stack (h.stack hm)
  alt := fun hm => h'.alt (h.alt hm)
  isSome_alt := fun hm => h'.isSome_alt (h.isSome_alt hm)

end Machine

namespace Exec

variable {α β : Type}

/-- The machine that an action leaves, whether it succeeds or fails. -/
def reached : EStateM.Result ExecFault Machine α → Machine
  | .ok _ m => m
  | .error _ m => m

/-- An action that leads on, whether it succeeds or fails. -/
def Leads (x : Exec α) : Prop := ∀ m : Machine, m.LeadsTo (reached (x m))

theorem Leads.bind {x : Exec α} {f : α → Exec β} (hx : x.Leads) (hf : ∀ a, (f a).Leads) :
    (x >>= f).Leads := by
  intro m
  have hfirst := hx m
  change m.LeadsTo (reached (EStateM.bind x f m))
  unfold EStateM.bind
  cases hxm : x m with
  | ok a n =>
    rw [hxm] at hfirst
    exact hfirst.trans (hf a n)
  | error fault n =>
    rw [hxm] at hfirst
    exact hfirst

/-- The elementary actions change items only, and put none that exceeds the limits. -/
theorem closed_leads : Closed @Leads where
  pure _ := Machine.LeadsTo.refl
  bind := Leads.bind
  fail _ := Machine.LeadsTo.refl
  push item := by
    intro m
    unfold push
    cases hpush : m.stack.push item with
    | ok stack =>
      have hwithin := fun hm : m.stack.WithinLimits => hm.push hpush
      obtain ⟨-, -, rfl⟩ := Stack.push_eq_ok_iff.mp hpush
      exact ⟨rfl, Int.le_refl _, id, rfl, hwithin, id, id⟩
    | error fault => exact .refl m
  pop := by
    intro m
    unfold pop
    cases hpop : m.stack.pop with
    | ok taken =>
      have hwithin := fun hm : m.stack.WithinLimits => hm.pop hpop
      obtain ⟨-, hrest⟩ := Stack.pop_eq_ok_iff.mp hpop
      refine ⟨rfl, Int.le_refl _, id, ?_, hwithin, id, id⟩
      simp only [reached, Machine.frame]
      rw [hrest]
    | error fault => exact .refl m
  openAlt := fun m => ⟨rfl, Int.le_refl _, id, rfl, id, id, fun _ => rfl⟩
  pushAlt item := by
    intro m
    unfold pushAlt
    cases hpush : m.cache.altStack.push item with
    | ok alt =>
      have hwithin := fun hm : m.cache.altStack.WithinLimits => hm.push hpush
      obtain ⟨-, -, rfl⟩ := Stack.push_eq_ok_iff.mp hpush
      exact ⟨rfl, Int.le_refl _, id, rfl, id, hwithin, fun _ => rfl⟩
    | error fault => exact .refl m
  popAlt := by
    intro m
    unfold popAlt
    cases hpop : m.cache.altStack.pop with
    | ok taken =>
      have hwithin := fun hm : m.cache.altStack.WithinLimits => hm.pop hpop
      obtain ⟨-, hrest⟩ := Stack.pop_eq_ok_iff.mp hpop
      refine ⟨rfl, Int.le_refl _, id, ?_, id, hwithin, fun _ => rfl⟩
      simp only [reached, Machine.frame, Cache.altStack, Option.getD_some]
      rw [hrest]
      rfl
    | error fault => exact .refl m
  depth := Machine.LeadsTo.refl
  sighash := by
    intro m
    unfold sighash
    cases m.cache.sighash? <;> exact .refl m

/-- An action that keeps the frame if it succeeds. -/
def Keeps (x : Exec α) : Prop :=
  ∀ (m : Machine) (a : α) (m' : Machine), x m = .ok a m' → m'.frame = m.frame

/-- An action that keeps the stack within its limits if it succeeds. -/
def StaysWithin (x : Exec α) : Prop :=
  ∀ (m : Machine) (a : α) (m' : Machine), x m = .ok a m' → m.stack.WithinLimits →
    m'.stack.WithinLimits

theorem Leads.leadsTo_of_eq_ok {x : Exec α} (hx : x.Leads) {m m' : Machine} {a : α}
    (h : x m = .ok a m') : m.LeadsTo m' := by
  have hreached := hx m
  rwa [h] at hreached

end Exec

/-- Every run leads on, also to where it fails. -/
theorem Machine.leads_interpret (p : Primitives) (t : OpTable) (code : Bytes) :
    (interpret p t code).Leads :=
  interpret_of_closed Exec.closed_leads p t code

/-- Every run keeps the frame. -/
theorem Machine.keeps_interpret (p : Primitives) (t : OpTable) (code : Bytes) :
    (interpret p t code).Keeps :=
  fun _ _ _ h => ((leads_interpret p t code).leadsTo_of_eq_ok h).frame_eq

/-- So the frame that a run starts with is there at its end. -/
theorem Machine.frame_of_interpret_eq_ok {p : Primitives} {t : OpTable} {code : Bytes}
    {message : Value} {m : Machine}
    (h : interpret p t code (start code .empty (.ofSighash message)) = .ok () m) :
    m.frame = .ofSighash message := by
  rw [keeps_interpret p t code _ () m h, frame_start]

/-- Every run keeps the stack within its limits. -/
theorem Machine.staysWithin_interpret (p : Primitives) (t : OpTable) (code : Bytes) :
    (interpret p t code).StaysWithin :=
  fun _ _ _ h => ((leads_interpret p t code).leadsTo_of_eq_ok h).stack

end FlowGate

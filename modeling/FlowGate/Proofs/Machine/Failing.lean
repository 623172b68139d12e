import FlowGate.Proofs.Machine.InTurn

/-!
# How actions fail

An action that fails has a fault, and the first action of a sequence that fails decides which. This
file says for the operations of a locking script on which stacks they fail, and with which fault.

## Main definitions

* `Exec.Fails` — an action fails with a fault

## Main results

* `Exec.fails_bind_iff` — a sequence fails if its first action does, or its second on what the first
  left
* `Exec.fails_digest` — hashing limbs fails if they do not make the message
* `Operation.fails_verify`, `Operation.fails_equalVerify`, `Operation.fails_checkSigVerify` — the
  checks
* `Machine.Does.sameOutcome_of_eq_ok`, `Machine.Does.sameOutcome_of_eq_error` — a script ends as the
  action of its byte code does
* `Machine.Does.runScript_of_eq_error` — a script fails as the action of its byte code does
-/

namespace FlowGate

namespace Exec

variable {α β : Type} {m : Machine} {fault : ExecFault}

/-- An action fails with a fault, whatever it leaves. -/
def Fails (x : Exec α) (m : Machine) (fault : ExecFault) : Prop := ∃ m', x m = .error fault m'

/-- A sequence of two actions fails if the first does, or the second in what the first left. -/
theorem fails_bind_iff {x : Exec α} {f : α → Exec β} :
    Fails (x >>= f) m fault ↔ Fails x m fault ∨ ∃ a n, x m = .ok a n ∧ Fails (f a) n fault := by
  change (∃ m', EStateM.bind x f m = _) ↔ _
  unfold Fails EStateM.bind
  cases x m <;> simp

/-- Behind an action that succeeds a sequence fails as the second action does. -/
theorem fails_bind_of_eq_ok {x : Exec α} {f : α → Exec β} {a : α} {n : Machine} (h : x m = .ok a n) :
    Fails (x >>= f) m fault ↔ Fails (f a) n fault := by
  rw [Fails, bind_of_eq_ok h, Fails]

theorem fails_require_iff {condition : Bool} {other : ExecFault} :
    Fails (require condition other) m fault ↔ condition = false ∧ other = fault := by
  cases condition <;> simp [Fails, require, fail, pure, EStateM.pure]

theorem fails_ofExcept_iff {result : Except ExecFault α} :
    Fails (ofExcept result) m fault ↔ result = .error fault := by
  cases result <;> simp [Fails, ofExcept]

/-- Putting an item fails if it is too large, and leaves everything as it is. -/
theorem push_eq_error_of_lt {item : Bytes} (h : m.stack.maxItemSize < item.length) :
    push item m = .error .itemTooLarge m := by
  have hstack : m.stack.push item = .error .itemTooLarge := if_pos h
  rw [push, hstack]

theorem fails_pop (hitems : m.stack.items = []) : Fails pop m .emptyStack := by
  have hpop : m.stack.pop = .error .emptyStack := by rw [Stack.pop, hitems]
  exact ⟨m, by rw [pop, hpop]⟩

/-- Taking a number fails on an item that cannot be read as one. -/
theorem fails_popNumber {bytes : Bytes} {rest : List Bytes} (hitems : m.stack.items = bytes :: rest)
    (h : ScriptNumber.decode ScriptNumber.operandSize bytes = .error fault) :
    Fails popNumber m fault := by
  rw [popNumber, fails_bind_iff]
  exact .inr ⟨bytes, _, pop_eq_ok_iff.mpr ⟨rest, hitems, rfl⟩, fails_ofExcept_iff.mpr h⟩

/-- A comparison fails if the first operand, which lies below the second one, cannot be read. -/
theorem fails_compare {relation : Int → Int → Bool} {second first : Bytes} {rest : List Bytes}
    {b : Int} (hitems : m.stack.items = second :: first :: rest)
    (hb : ScriptNumber.decode ScriptNumber.operandSize second = .ok b)
    (ha : ScriptNumber.decode ScriptNumber.operandSize first = .error fault) :
    Fails (compare relation) m fault := by
  rw [compare, fails_bind_iff]
  refine .inr ⟨b, _, popNumber_eq_ok_iff.mpr ⟨second, _, hitems, hb, rfl⟩, ?_⟩
  rw [fails_bind_iff]
  exact .inl (fails_popNumber rfl ha)

/-- Hashing fails if the limbs do not make a message of the given length. -/
theorem fails_digest {p : Primitives} {order : NibbleOrder} {limbLength messageLength : Int}
    {limbs rest : List Bytes}
    (h : m.stack.OffersLimbs order limbLength messageLength limbs rest)
    (hwhole : (limbs.reverse.flatten.length : Int) ≠ messageLength) :
    Fails (digest p) m .lengthMismatch :=
  ⟨_, by rw [digest_eq_of_offersLimbs h, if_neg hwhole]⟩

end Exec

namespace Operation

open Exec

variable {p : Primitives} {data : Bytes} {m : Machine} {rest : List Bytes}

theorem fails_verify {item : Bytes} (hitems : m.stack.items = item :: rest)
    (h : Truth.holds item = false) : Fails (verify.act p data) m .verifyFailed := by
  simp only [act, fails_bind_iff]
  exact .inr ⟨item, _, pop_eq_ok_iff.mpr ⟨rest, hitems, rfl⟩, fails_require_iff.mpr ⟨h, rfl⟩⟩

/-- Comparing two items fails if there is only one. -/
theorem fails_equalVerify_of_singleton {item : Bytes} (hitems : m.stack.items = [item]) :
    Fails (equalVerify.act p data) m .emptyStack := by
  simp only [act, fails_bind_iff]
  exact .inr ⟨item, _, pop_eq_ok_iff.mpr ⟨[], hitems, rfl⟩, .inl (fails_pop rfl)⟩

theorem fails_equalVerify {first second : Bytes} (hitems : m.stack.items = first :: second :: rest)
    (h : first ≠ second) : Fails (equalVerify.act p data) m .equalVerifyFailed := by
  simp only [act, fails_bind_iff]
  refine .inr ⟨first, _, pop_eq_ok_iff.mpr ⟨_, hitems, rfl⟩, .inr ⟨second, _,
    pop_eq_ok_iff.mpr ⟨rest, rfl, rfl⟩, fails_require_iff.mpr ⟨?_, rfl⟩⟩⟩
  exact beq_eq_false_iff_ne.mpr h

theorem fails_checkSigVerify {key signature : Bytes} {message : Value}
    (hitems : m.stack.items = key :: signature :: rest) (hkey : key.length = Primitives.keyLength)
    (hmessage : m.cache.sighash? = some message) (hsize : 0 ≤ m.stack.maxItemSize)
    (hroom : rest.length < m.stack.maxItems)
    (h : p.verifyValue key message signature = false) :
    Fails (checkSigVerify.act p data) m .checkSigVerifyFailed := by
  -- The check itself succeeds, and puts an item that is not true.
  have hcheck : Exec.checkSig p m = .ok () (m.withItems (Truth.encode false :: rest)) :=
    checkSig_eq_ok_iff.mpr ⟨key, signature, rest, message, hitems, hkey, hmessage, by rwa [h], hroom,
      by rw [h]⟩
  simp only [act, fails_bind_iff]
  exact .inr ⟨(), _, hcheck, .inr ⟨_, _, pop_eq_ok_iff.mpr ⟨rest, rfl, rfl⟩,
    fails_require_iff.mpr ⟨rfl, rfl⟩⟩⟩

end Operation

namespace Machine.Does

variable {p : Primitives} {t : OpTable} {code : Bytes} {x : Exec Unit} {cache : Cache}
  {stack : Stack} {fault : ExecFault}

/-- A script ends as the action of its byte code does. -/
theorem sameOutcome (h : Machine.Does p t code x) (cache : Cache) (stack : Stack) :
    (runScript p t code cache stack).SameOutcome
      (.ofOutcome cache (x (.start code stack cache))) := by
  rw [← h.interpret_eq]
  exact sameOutcome_interpret p t code cache stack (.ofBytes code)

/-- A script whose action succeeds and leaves the cache as it is leaves the caller's cache as well. -/
theorem sameOutcome_of_eq_ok (h : Machine.Does p t code x) {m : Machine}
    (hx : x (.start code stack cache) = .ok () m) (hcache : m.cache = cache) :
    (runScript p t code cache stack).SameOutcome ⟨none, m, cache⟩ := by
  have hsame := h.sameOutcome cache stack
  rw [hx] at hsame
  refine hsame.trans ⟨rfl, rfl, rfl, ?_⟩
  exact (congrArg cache.afterCall hcache).trans cache.afterCall_self

/-- A script whose action fails and leaves the cache as it is leaves the caller's cache as well. -/
theorem sameOutcome_of_eq_error (h : Machine.Does p t code x) {m : Machine}
    (hx : x (.start code stack cache) = .error fault m) (hcache : m.cache = cache) :
    (runScript p t code cache stack).SameOutcome ⟨some fault, m, cache⟩ := by
  have hsame := h.sameOutcome cache stack
  rw [hx] at hsame
  refine hsame.trans ⟨rfl, rfl, rfl, ?_⟩
  exact (congrArg cache.afterCall hcache).trans cache.afterCall_self

/-- A script fails as the action of its byte code does, and leaves the stack that the action
leaves. -/
theorem runScript_of_eq_error (h : Machine.Does p t code x) {m : Machine}
    (hx : x (.start code stack cache) = .error fault m) :
    (runScript p t code cache stack).fault = some fault ∧
      (runScript p t code cache stack).final.stack = m.stack := by
  have hsame := h.sameOutcome cache stack
  rw [hx] at hsame
  exact ⟨hsame.fault_eq, hsame.stack_eq⟩

theorem fault_eq_some (h : Machine.Does p t code x)
    (hfails : Exec.Fails x (.start code stack cache) fault) :
    (runScript p t code cache stack).fault = some fault := by
  obtain ⟨m, hx⟩ := hfails
  exact (h.runScript_of_eq_error hx).1

end Machine.Does

end FlowGate

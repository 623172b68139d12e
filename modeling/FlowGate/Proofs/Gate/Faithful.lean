import FlowGate.Proofs.Assembly.Joining
import FlowGate.Proofs.Gate.Remembering

/-!
# The texts of scripts

Scripts are made from text or from byte code, as parts of locking scripts or whole ones, as
witnesses, and by putting other scripts together. In whichever way a script was made, its text
assembles to its byte code.

## Main definitions

* `Script.Made` — all ways of making a script
* `Script.Faithful` — outcomes that are a script whose text assembles to its byte code, or a fault

## Main results

* `Gate.faithful_lockingScript`, `Gate.faithful_witness` — locking scripts and witnesses
* `LockingCall.faithful_answer` — locking scripts that may have been remembered
* `Script.Made.isFaithful` — all scripts
* `Script.made_compile` — this with the standard table, and what it rests on
-/

namespace FlowGate

variable {t : OpTable}

/-! ### Making a script -/

/-- The outcome of making a script: a fault, or a script whose text assembles to its byte code. -/
def Script.Faithful (t : OpTable) (outcome : Except Error Script) : Prop :=
  ∀ s, outcome = .ok s → s.IsFaithful t

namespace Script

theorem faithful_error (fault : Error) : Faithful t (.error fault) := fun _ h => nomatch h

theorem faithful_bind {α : Type} {x : Except Error α} {f : α → Except Error Script}
    (h : ∀ a, Faithful t (f a)) : Faithful t (x >>= f) := by
  intro s hs
  obtain ⟨a, -, ha⟩ := bind_ok_iff.mp hs
  exact h a s ha

theorem faithful_ofSource (source : String) : Faithful t (ofSource t source) :=
  fun _ => isFaithful_of_ofSource

theorem faithful_ofCode (ht : ∀ lead, t.ReadsBack lead) (code : Bytes) :
    Faithful t (ofCode t code) :=
  fun _ => isFaithful_of_ofCode ht

end Script

open Script

namespace Gate

theorem faithful_signatureCheck (key : Bytes) : Faithful t (signatureCheck t key) :=
  faithful_bind fun _ => faithful_ofSource _

theorem faithful_truncation (needed : Int) (order : NibbleOrder) (width : Int) :
    Faithful t (truncation t needed order width) :=
  faithful_bind fun _ => faithful_ofSource _

section ReadsBack

variable (ht : ∀ lead, t.ReadsBack lead)
include ht

theorem faithful_hashing (fragment : Fragment) (messageLength limbLength : Int) :
    Faithful t (hashing t fragment messageLength limbLength) :=
  faithful_bind fun _ => faithful_ofCode ht _

/-- A locking script is put together from its parts. -/
theorem faithful_lockingScript (role : GateRole) (key : Except Error Bytes) (count : Nat)
    (nibbles : Except Error (List Nat)) (fragment : Fragment) :
    Faithful t (lockingScript t role key count nibbles fragment) := by
  intro s hs
  obtain ⟨k, ns, signed, compared, dropped, hashed, truncated, matched, succeeded, -, -, hsigned,
    hcompared, hdropped, hhashed, htruncated, hmatched, hsucceeded, rfl⟩ :=
    lockingScript_eq_ok_iff.mp hs
  refine isFaithful_concat fun part hpart => ?_
  simp only [List.mem_cons, List.not_mem_nil, or_false] at hpart
  rcases hpart with rfl | rfl | rfl | rfl | rfl | rfl | rfl
  · exact faithful_signatureCheck _ _ hsigned
  · exact faithful_ofSource _ _ hcompared
  · exact faithful_ofSource _ _ hdropped
  · exact faithful_hashing ht _ _ _ _ hhashed
  · exact faithful_truncation _ _ _ _ htruncated
  · exact faithful_ofSource _ _ hmatched
  · exact faithful_ofSource _ _ hsucceeded

/-- A witness has its limbs disassembled, and its number and its signature as text. -/
theorem faithful_witness (input nonce : Int) (signature : Bytes) (limbLength : Int) :
    Faithful t (witness t input nonce signature limbLength) := by
  refine faithful_bind fun message => faithful_bind fun code => ?_
  intro s hs
  obtain ⟨limbs, hlimbs, hs⟩ := bind_ok_iff.mp hs
  obtain ⟨rest, hrest, hs⟩ := bind_ok_iff.mp hs
  obtain rfl := Except.ok.inj hs
  exact (isFaithful_of_ofCode ht hlimbs).append (isFaithful_of_ofSource hrest)

end ReadsBack

end Gate

/-- Only scripts that were built are remembered. -/
theorem LockingCall.faithful_answer (ht : ∀ lead, t.ReadsBack lead) (calls : List LockingCall)
    (call : LockingCall) : Faithful t (call.answer t (.after t calls)).1 := by
  cases hargs : call.args with
  | error fault =>
    rw [answer_of_args_eq_error hargs]
    exact faithful_error fault
  | ok args =>
    have hbuild : ∀ args : LockingArgs, Faithful t (args.build t) := fun args =>
      Gate.faithful_lockingScript ht _ _ _ _ _
    have hsound := LockingCache.sound_after t calls
    rw [answer_of_args_eq_ok hargs]
    generalize LockingCache.after t calls = cache at hsound
    have hlookup := cache.lookup_build t args
    generalize cache.build t args = result at hlookup
    -- Remembered scripts are those that were built for their arguments.
    cases hlookup with
    | untracked => exact hbuild args
    | refused => exact faithful_error _
    | @remembered entry _ hentry =>
      intro s hs
      obtain rfl := Except.ok.inj hs
      exact hbuild entry.1 entry.2 (hsound entry hentry).1
    | built hscript => exact hscript ▸ hbuild args
    | failed => exact faithful_error _

/-! ### All scripts -/

/-- All ways of making a script: from text or byte code, by putting scripts together, as a part of a
locking script, as a whole one with whatever is remembered from calls before, and as a witness. -/
inductive Script.Made (t : OpTable) : Script → Prop
  | ofSource {source : Value} {s : Script} (h : Checked.scriptOfSource t source = .ok s) : Made t s
  | ofCode {code : Value} {s : Script} (h : Checked.scriptOfCode t code = .ok s) : Made t s
  | append {a b : Script} (ha : Made t a) (hb : Made t b) : Made t (a ++ b)
  | concat {scripts : List Script} (h : ∀ s ∈ scripts, Made t s) : Made t (Script.concat scripts)
  | signatureCheck {key : Value} {s : Script} (h : Checked.signatureCheck t key = .ok s) : Made t s
  | thresholdCheck {role : Value} {s : Script} (h : Checked.thresholdCheck t role = .ok s) :
      Made t s
  | dropInput {s : Script} (h : Gate.dropInput t = .ok s) : Made t s
  | hashing {fragment messageLength limbLength : Value} {s : Script}
      (h : Checked.hashing t fragment messageLength limbLength = .ok s) : Made t s
  | truncation {needed order width : Value} {s : Script}
      (h : Checked.truncation t needed order width = .ok s) : Made t s
  | nibbleMatch {nibbles order : Value} {s : Script}
      (h : Checked.nibbleMatch t nibbles order = .ok s) : Made t s
  | success {s : Script} (h : Gate.success t = .ok s) : Made t s
  | lockingScript {calls : List LockingCall} {call : LockingCall} {s : Script}
      (h : (call.answer t (.after t calls)).1 = .ok s) : Made t s
  | witness {input nonce signature fragment limbLength : Value} {s : Script}
      (h : Checked.witness t input nonce signature fragment limbLength = .ok s) : Made t s

namespace Checked

theorem faithful_truncation (needed order width : Value) :
    Faithful t (Checked.truncation t needed order width) := by
  refine faithful_bind fun _ => faithful_bind fun _ => faithful_bind fun rest => ?_
  split
  · exact faithful_bind fun _ => Gate.faithful_truncation _ _ _
  · exact faithful_error _

end Checked

/-- Where names are read back, the text of every script assembles to its byte code. -/
theorem Script.Made.isFaithful (ht : ∀ lead, t.ReadsBack lead) {s : Script} (h : s.Made t) :
    s.IsFaithful t := by
  -- The induction is on the way in which the script was made.
  induction h with
  | ofSource h => exact faithful_bind (fun source => faithful_ofSource source) _ h
  | ofCode h => exact faithful_bind (fun code => faithful_ofCode ht code) _ h
  | append _ _ iha ihb => exact iha.append ihb
  | concat _ ih => exact isFaithful_concat ih
  | signatureCheck h => exact faithful_bind (fun key => Gate.faithful_signatureCheck key) _ h
  | thresholdCheck h => exact faithful_bind (fun _ => faithful_ofSource _) _ h
  | dropInput h => exact isFaithful_of_ofSource h
  | hashing h =>
    exact faithful_bind (fun _ => faithful_bind fun code => faithful_ofCode ht code) _ h
  | truncation h => exact Checked.faithful_truncation _ _ _ _ h
  | nibbleMatch h => exact faithful_bind (fun _ => faithful_bind fun _ => faithful_ofSource _) _ h
  | success h => exact isFaithful_of_ofSource h
  | lockingScript h => exact LockingCall.faithful_answer ht _ _ _ h
  | witness h =>
    refine faithful_bind (fun _ => faithful_bind fun _ => faithful_bind fun _ =>
      faithful_bind fun _ => faithful_bind fun _ => faithful_bind fun _ => ?_) _ h
    exact Gate.faithful_witness ht _ _ _ _

/-- With the standard table the text of every script assembles to its byte code, in whichever way
the script was made. Putting scripts together is associative, for the text and the byte code, and
puts the byte codes together. Source texts with a line break between them assemble to their byte
codes put together. -/
theorem Script.made_compile :
    (∀ s, Made .standard s → compile .standard s.source = .ok s.code) ∧
    (∀ a b c : Script, a ++ b ++ c = a ++ (b ++ c)) ∧
    (∀ scripts : List Script, (concat scripts).code = (scripts.map code).flatten) ∧
    ∀ (a b : String) (x y : Bytes), compile .standard a = .ok x → compile .standard b = .ok y →
      compile .standard (a ++ "\n" ++ b) = .ok (x ++ y) := by
  refine ⟨?_, ?_, ?_, ?_⟩
  · exact fun s hs => hs.isFaithful OpTable.readsBack_standard
  · exact append_assoc
  · intro scripts
    rw [code_concat, List.flatMap_def]
  · exact fun a b x y ha hb => compile_append Source.isGap_newline ha hb

/-- A text with a comment, one of nothing but a comment, a disassembled push, and a part of a locking
script, put together. -/
theorem Script.made_compile_sample :
    compile .standard "5 # five #\nOP_PUSHBYTES_1 aa\nOP_TRUE" = .ok [0x55, 0x01, 0xaa, 0x51] := by
  have hfive : compile .standard "5 # five #" = .ok [0x55] := by
    have hsymbols : Source.symbols "5 # five #" = .ok [toString 5] := by decide +kernel
    have hspells := (writes_toString (show 5 < 2 ^ 32 by decide)).spells
    rw [compile, bind_of_eq_ok hsymbols, hspells.assemble_eq]
    decide +kernel
  have hcommented : Made .standard ⟨"5 # five #", [0x55]⟩ := by
    have hsource : Checked.scriptOfSource .standard (.text "5 # five #") =
        .ok ⟨"5 # five #", [0x55]⟩ := by
      have htext : Checked.source (.text "5 # five #") = .ok "5 # five #" := rfl
      rw [Checked.scriptOfSource, bind_of_eq_ok htext, ofSource, bind_of_eq_ok hfive]
      rfl
    exact .ofSource hsource
  have hnothing : Made .standard ⟨"# nothing #", []⟩ :=
    .ofSource (show Checked.scriptOfSource .standard (.text "# nothing #") = _ by decide +kernel)
  have hpush : Made .standard ⟨"OP_PUSHBYTES_1 aa", [0x01, 0xaa]⟩ :=
    .ofCode (show Checked.scriptOfCode .standard (.bytes [0x01, 0xaa]) = _ by decide +kernel)
  have hsuccess : Made .standard ⟨"OP_TRUE", [0x51]⟩ := .success spells_true.ofSymbols_eq
  have hwhole : Script.concat [⟨"5 # five #", [0x55]⟩, ⟨"# nothing #", []⟩,
        ⟨"OP_PUSHBYTES_1 aa", [0x01, 0xaa]⟩] ++ ⟨"OP_TRUE", [0x51]⟩ =
      ⟨"5 # five #\nOP_PUSHBYTES_1 aa\nOP_TRUE", [0x55, 0x01, 0xaa, 0x51]⟩ := by
    decide +kernel
  have hmade := (Made.concat (List.forall_mem_cons.mpr ⟨hcommented, List.forall_mem_cons.mpr
    ⟨hnothing, List.forall_mem_singleton.mpr hpush⟩⟩)).append hsuccess
  rw [hwhole] at hmade
  exact made_compile.1 ⟨_, _⟩ hmade

end FlowGate

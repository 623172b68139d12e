import FlowGate.Bytes.Basic

/-!
# Scripts

A script pairs a source text with byte code.

## Main definitions

* `Script` — source text and byte code
* `Script.append`, `Script.concat` — concatenation; a script without byte code is left out

## Main results

* `Script.code_append`, `Script.code_concat` — the byte code of a concatenation
-/

namespace FlowGate

/-- A source text with its byte code. -/
structure Script where
  source : String
  code : Bytes
  deriving DecidableEq, Repr

namespace Script

/-- The script without text and byte code. -/
def empty : Script := ⟨"", []⟩

/-- One script after the other. The texts stand on lines of their own, and a script without byte
code is left out with its text. -/
def append (s t : Script) : Script :=
  if s.code.isEmpty then t
  else if t.code.isEmpty then s
  else ⟨s.source ++ "\n" ++ t.source, s.code ++ t.code⟩

instance : Append Script := ⟨append⟩

/-- All scripts of a list in order. -/
def concat (scripts : List Script) : Script :=
  scripts.foldl (· ++ ·) empty

@[simp] theorem code_empty : empty.code = [] := rfl

/-- The byte code of a concatenation is the concatenation of the byte codes. -/
@[simp] theorem code_append (s t : Script) : (s ++ t).code = s.code ++ t.code := by
  change (append s t).code = _
  unfold append
  split
  · simp_all
  · split <;> simp_all

private theorem code_foldl (scripts : List Script) (s : Script) :
    (scripts.foldl (· ++ ·) s).code = s.code ++ scripts.flatMap Script.code := by
  induction scripts generalizing s with
  | nil => simp
  | cons t scripts ih => simp [ih]

/-- The byte code of a list of scripts. -/
theorem code_concat (scripts : List Script) :
    (concat scripts).code = scripts.flatMap Script.code := by
  simp [concat, code_foldl]

end Script

end FlowGate

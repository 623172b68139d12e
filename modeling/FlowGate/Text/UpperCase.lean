import FlowGate.Text.UpperCase.Table

/-!
# Upper case

The full upper-case form of a text: each character is replaced by its own upper-case form, which
may have several characters.

## Main definitions

* `Text.upperChar` — the upper-case form of a character
* `Text.upper` — the upper-case form of a text

## Main results

* `Text.upper_append` — the form of a concatenation is the concatenation of the forms
* `Text.upper_eq_self` — texts that upper case leaves alone
-/

namespace FlowGate.Text

/-- The code points of the upper-case form of a code point. -/
def upperPoints (n : Nat) : List Nat :=
  match upperSequences.lookup n with
  | some points => points
  | none =>
    match upperRuns.find? fun (first, last, step, _) =>
        first ≤ n && n ≤ last && (n - first) % step == 0 with
    | some (_, _, _, shift) => [(n + shift).toNat]
    | none => [n]

/-- The upper-case form of a character. -/
def upperChar (c : Char) : List Char :=
  if c.toNat < 128 then [c.toUpper] else (upperPoints c.toNat).map Char.ofNat

/-- The upper-case form of a text. -/
def upper (cs : List Char) : List Char :=
  cs.flatMap upperChar

@[simp] theorem upper_nil : upper [] = [] := rfl

@[simp] theorem upper_append (as bs : List Char) : upper (as ++ bs) = upper as ++ upper bs :=
  List.flatMap_append

/-- A text of characters that are their own upper-case form is its own upper-case form. -/
theorem upper_eq_self {cs : List Char} (h : ∀ c ∈ cs, upperChar c = [c]) : upper cs = cs := by
  induction cs with
  | nil => rfl
  | cons c cs ih =>
    change upperChar c ++ upper cs = c :: cs
    rw [h c List.mem_cons_self, ih fun d hd => h d (List.mem_cons_of_mem c hd), List.singleton_append]

end FlowGate.Text

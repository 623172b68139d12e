import FlowGate.Error
import FlowGate.Text.Blank
import FlowGate.Text.Digit

/-!
# Symbols of source text

Source text is a sequence of symbols between blanks. A comment runs from a mark to the next one and
counts as a blank.

## Main definitions

* `Source.dropComments` — the text with every comment replaced by a blank
* `Source.symbols` — the symbols of a text
* `Source.isHex`, `Source.isDecimal` — the two kinds of literals
* `Source.readDecimal` — the number of a decimal literal

## Main results

* `Source.dropComments_append` — comments of two texts are dropped separately if the first text
  closes its comments
-/

namespace FlowGate.Source

/-- The mark at both ends of a comment. -/
def commentMark : Char := '#'

/-- Reads one more character: inside a comment it is dropped, and the closing mark becomes a blank.
The state is whether a comment is open, and the reverse of what is kept. -/
def commentStep (state : Bool × List Char) (c : Char) : Bool × List Char :=
  if c = commentMark then
    if state.1 then (false, ' ' :: state.2) else (true, state.2)
  else if state.1 then state
  else (false, c :: state.2)

/-- The text with every comment replaced by a blank. -/
def dropComments (cs : List Char) : List Char :=
  (cs.foldl commentStep (false, [])).2.reverse

/-- Whether every comment is closed: the marks come in pairs. -/
def commentsClosed (cs : List Char) : Bool :=
  cs.countP (· == commentMark) % 2 == 0

/-- The symbols of a text. -/
def symbols (text : String) : Except Error (List String) := do
  let cs := text.toList
  ensure (commentsClosed cs) (.assembly .unterminatedComment)
  return (Text.words (dropComments cs)).map String.ofList

/-- Whether a text consists of pairs of hexadecimal digits. -/
def isHex (symbol : String) : Bool := Hex.isHex symbol.toList

/-- The digits of a decimal literal, and whether a minus stands before them. -/
def decimalDigits (symbol : String) : Bool × List Char :=
  match symbol.toList with
  | '-' :: cs => (true, cs)
  | cs => (false, cs)

/-- Whether a text is a decimal literal: digits, possibly behind a minus. -/
def isDecimal (symbol : String) : Bool :=
  let digits := (decimalDigits symbol).2
  !digits.isEmpty && digits.all Char.isDigit

/-- The number of a decimal literal of limited length. -/
def readDecimal (symbol : String) : Except Error Int := do
  let (negative, digits) := decimalDigits symbol
  -- Zeros in front count as well.
  ensure (digits.length ≤ maxLiteralDigits) (.invalid (.literalTooLong digits.length))
  let n : Int := Text.ofDecimal (digits.map (·.toNat - 48))
  return if negative then -n else n

/-- The digits of a literal behind its `x` of either case. -/
def afterX? (symbol : String) : Option (List Char) :=
  match symbol.toList with
  | 'x' :: cs => some cs
  | 'X' :: cs => some cs
  | _ => none

private theorem foldl_commentStep_snd (cs : List Char) (opened : Bool) (kept : List Char) :
    cs.foldl commentStep (opened, kept) =
      ((cs.foldl commentStep (opened, [])).1, (cs.foldl commentStep (opened, [])).2 ++ kept) := by
  induction cs generalizing opened kept with
  | nil => simp
  | cons c cs ih =>
    simp only [List.foldl_cons, commentStep]
    split
    · cases opened
      · simpa using ih true kept
      · simp only [if_true]
        rw [ih false (' ' :: kept), ih false [' ']]
        simp
    · cases opened
      · simp only [Bool.false_eq_true, if_false]
        rw [ih false (c :: kept), ih false [c]]
        simp
      · simpa using ih true kept

private theorem foldl_commentStep_fst (cs : List Char) (opened : Bool) (kept : List Char) :
    (cs.foldl commentStep (opened, kept)).1 =
      (opened ^^ (cs.countP (· == commentMark) % 2 == 1)) := by
  induction cs generalizing opened kept with
  | nil => simp
  | cons c cs ih =>
    simp only [List.foldl_cons, commentStep, List.countP_cons]
    by_cases h : c = commentMark
    · cases opened <;> simp only [h, if_true, ih] <;>
        rcases Nat.mod_two_eq_zero_or_one (cs.countP (· == commentMark)) with h2 | h2 <;>
        simp [h2, Nat.add_mod]
    · have hc : (c == commentMark) = false := by simpa using h
      cases opened <;> simp [h, ih, hc]

/-- If the first text closes its comments, those of two texts are dropped separately. -/
theorem dropComments_append {as : List Char} (h : commentsClosed as = true) (bs : List Char) :
    dropComments (as ++ bs) = dropComments as ++ dropComments bs := by
  have hclosed : (as.foldl commentStep (false, [])).1 = false := by
    rw [foldl_commentStep_fst]
    simp only [commentsClosed, beq_iff_eq] at h
    simp [h]
  have hstate : as.foldl commentStep (false, []) =
      (false, (as.foldl commentStep (false, [])).2) := Prod.ext hclosed rfl
  simp only [dropComments, List.foldl_append]
  rw [hstate, foldl_commentStep_snd bs]
  simp

end FlowGate.Source

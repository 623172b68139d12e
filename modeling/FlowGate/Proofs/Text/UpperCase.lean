import FlowGate.Proofs.Assembly.Spelling
import FlowGate.Text.UpperCase

/-!
# Upper case once and for all

The upper-case form of a text is its own upper-case form, and upper case brings neither blanks nor
marks of comments into a text. The table is long, so it is not gone through character by character:
the code points of upper-case forms lie in runs, and each run is apart from all runs of lower-case
characters, blanks and marks.

## Main definitions

* `Text.Run` — numbers at a fixed distance
* `Text.lowerRuns`, `Text.formRuns` — the characters that have another upper-case form, and those
  that occur in such forms
* `Text.IsSettled` — a character that upper case leaves alone, neither blank nor mark

## Main results

* `Text.apart_formRuns` — no character of an upper-case form has another one
* `Text.upper_upper` — the upper-case form is its own upper-case form
* `Text.of_mem_upper` — a text without blanks and marks of comments has none in upper case either
-/

namespace FlowGate

namespace Text

/-! ### Runs -/

/-- The numbers that are reached from `first` in steps, up to `last`. -/
structure Run where
  (first last step : Nat)

namespace Run

/-- A single number. Any distance will do for it, and an even one can be told from odd numbers. -/
def single (n : Nat) : Run := ⟨n, n, 2⟩

/-- The run from a first to a last number. -/
def ofRange (first last step : Nat) : Run :=
  if first = last then single first else ⟨first, last, step⟩

/-- Whether a number is reached. -/
def Has (r : Run) (n : Nat) : Prop := r.first ≤ n ∧ n ≤ r.last ∧ (n - r.first) % r.step = 0

/-- A test that two runs have no number in common: one ends before the other begins, or one has only
odd numbers and the other only even ones. -/
def apart (r s : Run) : Bool :=
  Nat.blt r.last s.first || Nat.blt s.last r.first ||
    (Nat.beq r.step 2 && Nat.beq s.step 2 && Nat.beq ((r.first + s.first) % 2) 1)

theorem has_single (n : Nat) : (single n).Has n :=
  ⟨Nat.le_refl _, Nat.le_refl _, by simp [single]⟩

theorem has_ofRange {first last step n : Nat} (hlow : first ≤ n) (hhigh : n ≤ last)
    (hstep : (n - first) % step = 0) : (ofRange first last step).Has n := by
  rw [ofRange]
  split
  · obtain rfl : first = n := by omega
    exact has_single first
  · exact ⟨hlow, hhigh, hstep⟩

theorem not_has_of_apart {r s : Run} (h : r.apart s = true) {n : Nat} (hr : r.Has n) :
    ¬ s.Has n := by
  intro hs
  obtain ⟨hr₁, hr₂, hr₃⟩ := hr
  obtain ⟨hs₁, hs₂, hs₃⟩ := hs
  simp only [apart, Bool.or_eq_true, Bool.and_eq_true, Nat.blt_eq, Nat.beq_eq] at h
  rcases h with (h | h) | ⟨⟨hr, hs⟩, hodd⟩
  · omega
  · omega
  · rw [hr] at hr₃
    rw [hs] at hs₃
    omega

end Run

/-- The characters whose upper-case form differs from them. -/
def lowerRuns : List Run :=
  upperRuns.map (fun (first, last, step, _) => .ofRange first last step) ++
    upperSequences.map fun (n, _) => .single n

/-- The characters of the forms that differ from what they are the form of. -/
def formRuns : List Run :=
  upperRuns.map (fun (first, last, step, shift) =>
      .ofRange (first + shift).toNat (last + shift).toNat step) ++
    upperSequences.flatMap fun (_, points) => points.map .single

/-- The blanks, and the mark of comments. -/
def breakRuns : List Run :=
  .single Source.commentMark.toNat :: blankRanges.map fun (first, last) => .ofRange first last 1

set_option maxRecDepth 10000 in
/-- No character of an upper-case form has another upper-case form, is a blank or marks a comment.
-/
theorem apart_formRuns : ∀ r ∈ formRuns, ∀ s ∈ lowerRuns ++ breakRuns, r.apart s = true := by
  simp only [← List.all_eq_true]
  decide +kernel

/-! ### Characters -/

/-- What is on no run has no other upper-case form. -/
theorem upperPoints_eq_self {n : Nat} (h : ∀ r ∈ lowerRuns, ¬ r.Has n) : upperPoints n = [n] := by
  simp only [lowerRuns, List.mem_append, List.mem_map, Prod.exists] at h
  have hsequence : upperSequences.lookup n = none := by
    rw [List.lookup_eq_none_iff]
    rintro ⟨m, points⟩ hmem
    rw [bne_iff_ne]
    rintro rfl
    exact h _ (.inr ⟨n, points, hmem, rfl⟩) (Run.has_single n)
  have hrun : (upperRuns.find? fun (first, last, step, _) =>
      first ≤ n && n ≤ last && (n - first) % step == 0) = none := by
    rw [List.find?_eq_none]
    rintro ⟨first, last, step, shift⟩ hmem hcontains
    simp only [Bool.and_eq_true, decide_eq_true_eq, beq_iff_eq] at hcontains
    exact h _ (.inl ⟨first, last, step, shift, hmem, rfl⟩)
      (Run.has_ofRange hcontains.1.1 hcontains.1.2 hcontains.2)
  simp only [upperPoints, hsequence, hrun]

/-- No run is moved below zero. -/
theorem nonneg_of_mem_upperRuns : ∀ run ∈ upperRuns, 0 ≤ (run.1 : Int) + run.2.2.2 := by
  decide +kernel

/-- The form of a code point is the code point itself, or lies on the runs of such forms. -/
theorem upperPoints_cases (n : Nat) :
    upperPoints n = [n] ∨ ∀ m ∈ upperPoints n, ∃ r ∈ formRuns, r.Has m := by
  unfold upperPoints
  split
  · next points hpoints =>
    right
    intro m hm
    have hmem := Assoc.mem_of_lookup_eq_some hpoints
    refine ⟨.single m, List.mem_append_right _ ?_, Run.has_single m⟩
    exact List.mem_flatMap.mpr ⟨_, hmem, List.mem_map_of_mem hm⟩
  · split
    · next first last step shift hfind =>
      right
      intro m hm
      obtain rfl : m = (n + shift).toNat := by simpa using hm
      have hmem := List.mem_of_find?_eq_some hfind
      have hcontains := List.find?_some hfind
      have hnonneg : 0 ≤ (first : Int) + shift := nonneg_of_mem_upperRuns _ hmem
      simp only [Bool.and_eq_true, decide_eq_true_eq, beq_iff_eq] at hcontains
      obtain ⟨⟨hlow, hhigh⟩, hstep⟩ := hcontains
      -- The upper-case letters of a run lie as its lower-case letters do.
      have hsame : (n + shift).toNat - (first + shift).toNat = n - first := by omega
      refine ⟨.ofRange (first + shift).toNat (last + shift).toNat step, ?_, ?_⟩
      · exact List.mem_append_left _ (List.mem_map.mpr ⟨_, hmem, rfl⟩)
      · exact Run.has_ofRange (by omega) (by omega) (hsame ▸ hstep)
    · exact .inl rfl

/-! ### Characters -/

/-- A character that is its own upper-case form, is no blank and does not mark a comment. -/
def IsSettled (c : Char) : Prop :=
  upperChar c = [c] ∧ isBlank c = false ∧ c ≠ Source.commentMark

instance : DecidablePred IsSettled := fun _ => inferInstanceAs (Decidable (_ ∧ _))

/-- What holds of the characters with a code point below 128 is checked for each. -/
theorem forall_ascii {P : Char → Prop} (h : ∀ n < 128, P (Char.ofNat n)) {c : Char}
    (hc : c.toNat < 128) : P c := by
  have hchar := h c.toNat hc
  rwa [Char.ofNat_toNat] at hchar

/-- A number is the code point of its character, unless it is none and gives the character zero. -/
theorem toNat_ofNat_cases (n : Nat) : (Char.ofNat n).toNat = n ∨ Char.ofNat n = Char.ofNat 0 := by
  by_cases hvalid : n.isValidChar
  · left
    rw [Char.ofNat, dif_pos hvalid]
    rfl
  · right
    rw [Char.ofNat, dif_neg hvalid]
    rfl

/-- A character that is on no run is settled. -/
theorem isSettled_of_forall_not_has {c : Char} (h : ∀ r ∈ lowerRuns ++ breakRuns, ¬ r.Has c.toNat) :
    IsSettled c := by
  have hlower : ∀ r ∈ lowerRuns, ¬ r.Has c.toNat := fun r hr => h r (List.mem_append_left _ hr)
  have hbreak : ∀ r ∈ breakRuns, ¬ r.Has c.toNat := fun r hr => h r (List.mem_append_right _ hr)
  refine ⟨?_, ?_, ?_⟩
  · by_cases hc : c.toNat < 128
    · -- The first run has the lower-case letters of this range.
      have hletter : ¬ (0x61 ≤ c.toNat ∧ c.toNat ≤ 0x7a) := fun hbounds =>
        hlower _ List.mem_cons_self (Run.has_ofRange hbounds.1 hbounds.2 (Nat.mod_one _))
      exact forall_ascii (P := fun c => ¬ (0x61 ≤ c.toNat ∧ c.toNat ≤ 0x7a) → upperChar c = [c])
        (by decide +kernel) hc hletter
    · rw [upperChar, if_neg hc, upperPoints_eq_self hlower, List.map_singleton, Char.ofNat_toNat]
  · rw [isBlank, inRanges, List.any_eq_false]
    intro r hr hin
    simp only [Bool.and_eq_true, decide_eq_true_eq] at hin
    exact hbreak _ (List.mem_cons_of_mem _ (List.mem_map_of_mem hr))
      (Run.has_ofRange hin.1 hin.2 (Nat.mod_one _))
  · rintro rfl
    exact hbreak _ List.mem_cons_self (Run.has_single _)

/-- The form of a character consists of characters that are their own form. -/
theorem upperChar_cases (c : Char) : upperChar c = [c] ∨ ∀ d ∈ upperChar c, IsSettled d := by
  by_cases hc : c.toNat < 128
  · -- The first 128 characters are checked one by one.
    have hcases : upperChar c = [c] ∨ IsSettled c.toUpper :=
      forall_ascii (P := fun c => upperChar c = [c] ∨ IsSettled c.toUpper) (by decide +kernel) hc
    refine hcases.imp_right fun hsettled => ?_
    rw [upperChar, if_pos hc]
    exact List.forall_mem_singleton.mpr hsettled
  · rw [upperChar, if_neg hc]
    rcases upperPoints_cases c.toNat with hsame | hforms
    · left
      rw [hsame, List.map_singleton, Char.ofNat_toNat]
    · right
      intro d hd
      obtain ⟨m, hm, rfl⟩ := List.mem_map.mp hd
      obtain ⟨r, hr, hhas⟩ := hforms m hm
      -- An upper-case letter lies in no run of letters that have one.
      rcases toNat_ofNat_cases m with hm | hzero
      · refine isSettled_of_forall_not_has fun s hs => ?_
        rw [hm]
        exact Run.not_has_of_apart (apart_formRuns r hr s hs) hhas
      · rw [hzero]
        decide +kernel

/-! ### Texts -/

/-- The upper-case form is its own upper-case form. -/
@[simp] theorem upper_upper (cs : List Char) : upper (upper cs) = upper cs := by
  apply upper_eq_self
  intro d hd
  obtain ⟨c, -, hd⟩ := List.mem_flatMap.mp hd
  rcases upperChar_cases c with hsame | hsettled
  · rw [hsame, List.mem_singleton] at hd
    rw [hd, hsame]
  · exact (hsettled d hd).1

/-- A text without blanks and marks has none in upper case either. -/
theorem of_mem_upper {cs : List Char} (h : ∀ c ∈ cs, isBlank c = false ∧ c ≠ Source.commentMark) :
    ∀ d ∈ upper cs, isBlank d = false ∧ d ≠ Source.commentMark := by
  intro d hd
  obtain ⟨c, hc, hd⟩ := List.mem_flatMap.mp hd
  rcases upperChar_cases c with hsame | hsettled
  · rw [hsame, List.mem_singleton] at hd
    exact hd ▸ h c hc
  · exact (hsettled d hd).2

end Text

end FlowGate

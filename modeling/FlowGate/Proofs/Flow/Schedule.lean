import FlowGate.Flow.Workers
import FlowGate.Proofs.Flow.FirstHit

/-!
# Workers under any schedule

Workers read the best flow without holding it, and stop when it is better than what they could still
find. Whoever takes the next step, no worker passes a nonce of its own that selects a flow unless a
flow with a smaller nonce is known, so what the team has found when all workers are done is the
first hit.

## Main definitions

* `Worker.InPlace` — a worker tries nonces of its own, and reports what they give
* `Worker.Covers` — a worker has not passed a nonce without knowing a flow that is as good
* `Team.Sound` — what holds of a team under every schedule
* `Team.answer?` — what the caller of a search answers under a schedule

## Main results

* `Team.move_cases` — what a single step can do
* `Team.Sound.move`, `Team.sound_run` — a step keeps a team sound, and so does a schedule
* `Team.Sound.best_eq_firstHit?` — the best flow of a team that ended in time is the first hit
* `Team.answer?_eq_some` — what the caller answers, whatever the schedule
-/

namespace FlowGate

variable {hash : Bytes → Digest} {p : Puzzle} {stride last i n : Nat}

/-! ### A step of a worker -/

namespace Worker

variable {stopped : Bool} {best better : Option Selection} {w : Worker}

/-- Worker number `i` tries nonces that leave `i` as remainder, tries none beyond the last, and
reports what its nonces give. -/
def InPlace (hash : Bytes → Digest) (p : Puzzle) (stride last i : Nat) : Worker → Prop
  | testing nonce => nonce % stride = i
  | comparing nonce => nonce % stride = i ∧ nonce ≤ last
  | trying nonce => nonce % stride = i ∧ nonce ≤ last
  | reporting found => p.Finds hash found ∧ found.nonce ≤ last
  | done => True

/-- A nonce is still ahead of a worker, or a flow with a nonce that is not larger is known: to the
worker, if it is about to report, and to the team, if the worker is done. -/
def Covers (best : Option Selection) (n : Nat) : Worker → Prop
  | testing nonce => nonce ≤ n
  | comparing nonce => nonce ≤ n
  | trying nonce => nonce ≤ n
  | reporting found => found.nonce ≤ n
  | done => ∃ found ∈ best, found.nonce ≤ n

theorem InPlace.step (h : w.InPlace hash p stride last i) :
    (w.step hash p stride last stopped best).1.InPlace hash p stride last i := by
  cases w with
  | testing nonce =>
    simp only [Worker.step]
    split
    · next hgo =>
      simp only [Bool.and_eq_true, decide_eq_true_eq] at hgo
      exact ⟨h, hgo.1⟩
    · trivial
  | comparing nonce =>
    cases best with
    | none => exact h
    | some found =>
      simp only [Worker.step]
      split
      · trivial
      · exact h
  | trying nonce =>
    simp only [Worker.step]
    cases hattempt : p.attempt hash nonce with
    | hit found =>
      obtain ⟨hfinds, rfl⟩ := Puzzle.finds_of_attempt_eq_hit hattempt
      exact ⟨hfinds, h.2⟩
    | miss label digest =>
      -- The next nonce leaves the same remainder.
      exact (Nat.add_mod_right nonce stride).trans h.1
  | reporting found => trivial
  | done => trivial

/-- The best flow after a step is what its nonce gives. -/
theorem InPlace.finds_step (h : w.InPlace hash p stride last i)
    (hbest : ∀ s ∈ best, p.Finds hash s ∧ s.nonce ≤ last) :
    ∀ s ∈ (w.step hash p stride last stopped best).2, p.Finds hash s ∧ s.nonce ≤ last := by
  intro s hs
  cases w with
  | testing nonce => exact hbest s hs
  | comparing nonce => cases best <;> exact hbest s hs
  | trying nonce =>
    cases hattempt : p.attempt hash nonce <;> simp only [Worker.step, hattempt] at hs <;>
      exact hbest s hs
  -- Only a report changes the best flow, and what is reported was found.
  | reporting found =>
    obtain rfl : Selection.best best found = s := Option.some.inj hs
    cases best with
    | none => exact h
    | some old =>
      rw [Selection.best]
      split
      · exact h
      · exact hbest old rfl
  | done => exact hbest s hs

/-- A step only replaces the best flow by one with a nonce that is not larger. -/
theorem exists_step_nonce_le {s : Selection} (hs : s ∈ best) :
    ∃ s' ∈ (w.step hash p stride last stopped best).2, s'.nonce ≤ s.nonce := by
  cases w with
  | testing nonce => exact ⟨s, hs, Nat.le_refl _⟩
  | comparing nonce => cases best <;> exact ⟨s, hs, Nat.le_refl _⟩
  | trying nonce =>
    cases hattempt : p.attempt hash nonce <;> simp only [Worker.step, hattempt] <;>
      exact ⟨s, hs, Nat.le_refl _⟩
  | reporting found => exact ⟨_, rfl, (Selection.nonce_best_le best found).2 s hs⟩
  | done => exact ⟨s, hs, Nat.le_refl _⟩

/-- What a worker covers it still covers when the best flow gets better. -/
theorem Covers.of_better (h : w.Covers best n)
    (hbetter : ∀ s ∈ best, ∃ s' ∈ better, s'.nonce ≤ s.nonce) : w.Covers better n := by
  cases w with
  | done =>
    obtain ⟨s, hs, hle⟩ := h
    obtain ⟨s', hs', hle'⟩ := hbetter s hs
    exact ⟨s', hs', Nat.le_trans hle' hle⟩
  | _ => exact h

/-- Unless it is told to stop, a worker passes no valid nonce of its own by a step. -/
theorem Covers.step (h : w.Covers best n) (hplace : w.InPlace hash p stride last (n % stride))
    (hvalid : p.IsValid hash n) (hlast : n ≤ last) :
    (w.step hash p stride last false best).1.Covers
      (w.step hash p stride last false best).2 n := by
  cases w with
  | testing nonce =>
    have hle : nonce ≤ n := h
    have hgo : (decide (nonce ≤ last) && !false) = true := by simp; omega
    simp only [Worker.step, hgo, if_true]
    exact hle
  | comparing nonce =>
    have hle : nonce ≤ n := h
    cases best with
    | none => exact h
    | some found =>
      simp only [Worker.step]
      split
      · next hlt => exact ⟨found, rfl, by omega⟩
      · exact h
  | trying nonce =>
    have hle : nonce ≤ n := h
    simp only [Worker.step]
    cases hattempt : p.attempt hash nonce with
    | hit found =>
      obtain ⟨-, rfl⟩ := Puzzle.finds_of_attempt_eq_hit hattempt
      exact hle
    | miss label digest =>
      -- A nonce that is no hit is not the valid one, which is thus at least a stride further on.
      have hne : nonce ≠ n := by
        rintro rfl
        exact Puzzle.not_isValid_of_attempt_eq_miss hattempt hvalid
      have hdvd : stride ∣ n - nonce :=
        Nat.dvd_of_mod_eq_zero (Nat.sub_mod_eq_zero_of_mod_eq hplace.1.symm)
      have hstride := Nat.le_of_dvd (by omega) hdvd
      change nonce + stride ≤ n
      omega
  | reporting found =>
    have hle : found.nonce ≤ n := h
    exact ⟨_, rfl, Nat.le_trans (Selection.nonce_best_le best found).1 hle⟩
  | done => exact h

end Worker

/-! ### A step of a team -/

/-- Whether the caller stopped waiting while a worker was still at work. -/
def Caller.isLate : Caller → Bool
  | waiting => false
  | awake late => late
  | stopping late => late

namespace Team

variable {t : Team} {m : Move} {w : Worker}

/-- An entry after a change is the new one, or was there before. -/
theorem eq_or_getElem?_of_set {α : Type} {xs : List α} {i j : Nat} {a b : α}
    (h : (xs.set i a)[j]? = some b) : i = j ∧ a = b ∨ xs[j]? = some b := by
  rw [List.getElem?_set] at h
  split at h
  · next hij => exact .inl ⟨hij, Option.some.inj (Option.ite_none_right_eq_some.mp h).2⟩
  · exact .inr h

theorem isDone_iff : t.isDone = true ↔ ∀ w ∈ t.workers, w = .done := by
  have hworker : ∀ w : Worker, w.isDone = true ↔ w = .done := by
    intro w
    cases w <;> simp [Worker.isDone]
  simp [isDone, hworker]

/-- What a step can do: nothing; a step of a worker that is not done yet; or a step of the caller,
who stops waiting and remembers whether a worker was late, or gives the sign to stop. -/
theorem move_cases (hash : Bytes → Digest) (p : Puzzle) (stride last : Nat) (t : Team) (m : Move) :
    t.move hash p stride last m = t ∨
      (∃ i w, m = .work i ∧ t.workers[i]? = some w ∧ w ≠ .done ∧
        t.move hash p stride last m =
          { t with
            workers := t.workers.set i (w.step hash p stride last t.isStopped t.best).1
            best := (w.step hash p stride last t.isStopped t.best).2 }) ∨
      (∃ late, t.caller = .waiting ∧ late = !t.isDone ∧ (late = true → m = .timeOut) ∧
        t.move hash p stride last m = { t with caller := .awake late }) ∨
      ∃ late, t.caller = .awake late ∧
        t.move hash p stride last m = { t with caller := .stopping late } := by
  cases m with
  | work i =>
    cases hw : t.workers[i]? with
    | none => exact .inl (by simp only [move, hw])
    | some w =>
      by_cases hdone : w = .done
      · -- Putting a worker that is done in its own place changes nothing.
        subst hdone
        have hset : t.workers.set i .done = t.workers := by
          apply List.ext_getElem?
          intro j
          rw [List.getElem?_set]
          split
          · next hij => rw [← hij, hw, if_pos (List.getElem?_eq_some_iff.mp hw).1]
          · rfl
        exact .inl (by simp only [move, hw, Worker.step_done, hset])
      · exact .inr (.inl ⟨i, w, rfl, hw, hdone, by simp only [move, hw]⟩)
  | finish =>
    by_cases h : t.caller = .waiting ∧ t.isDone = true
    · refine .inr (.inr (.inl ⟨false, h.1, by rw [h.2]; rfl, by simp, ?_⟩))
      exact if_pos h
    · exact .inl (if_neg h)
  | timeOut =>
    by_cases h : t.caller = .waiting
    · exact .inr (.inr (.inl ⟨_, h, rfl, fun _ => rfl, if_pos h⟩))
    · exact .inl (if_neg h)
  | stop =>
    cases h : t.caller with
    | awake late => exact .inr (.inr (.inr ⟨late, rfl, by simp only [move, h]⟩))
    | waiting => exact .inl (by simp only [move, h])
    | stopping late => exact .inl (by simp only [move, h])

/-- What holds of a team under every schedule: workers are in place, the best flow is what its nonce
gives, the workers cover all valid nonces unless one of them was late, and none was late who could
have gone on after the caller had seen all of them done. -/
structure Sound (hash : Bytes → Digest) (p : Puzzle) (stride last : Nat) (t : Team) : Prop where
  inPlace : ∀ i (w : Worker), t.workers[i]? = some w → w.InPlace hash p stride last i
  finds : ∀ s ∈ t.best, p.Finds hash s ∧ s.nonce ≤ last
  covers : t.caller ≠ .stopping true → ∀ n ≤ last, p.IsValid hash n →
    ∀ w : Worker, t.workers[n % stride]? = some w → w.Covers t.best n
  isDone : t.caller = .awake false ∨ t.caller = .stopping false → t.isDone = true

theorem sound_start (hash : Bytes → Digest) (p : Puzzle) (stride last : Nat) :
    (start stride).Sound hash p stride last := by
  have hworker : ∀ i w, (start stride).workers[i]? = some w → i < stride ∧ w = .testing i := by
    intro i w h
    obtain ⟨hlt, hget⟩ := List.getElem?_eq_some_iff.mp h
    rw [length_workers_start] at hlt
    exact ⟨hlt, by simp [← hget, start]⟩
  refine ⟨?_, by simp [start], ?_, by simp [start]⟩
  · intro i w h
    obtain ⟨hlt, rfl⟩ := hworker i w h
    exact Nat.mod_eq_of_lt hlt
  · intro _ n _ _ w h
    obtain ⟨-, rfl⟩ := hworker _ w h
    exact Nat.mod_le n stride

/-- A step keeps a team sound. -/
theorem Sound.move (h : t.Sound hash p stride last) (m : Move) :
    (t.move hash p stride last m).Sound hash p stride last := by
  obtain hsame | ⟨i, w, -, hw, hdone, heq⟩ | ⟨late, hcaller, rfl, -, heq⟩ | ⟨late, hcaller, heq⟩ :=
    move_cases hash p stride last t m
  · rwa [hsame]
  · -- A worker that is not done can only have been told to stop if one was late.
    have hbusy : t.isDone ≠ true := fun hall =>
      hdone (isDone_iff.mp hall w (List.mem_of_getElem? hw))
    rw [heq]
    refine ⟨?_, (h.inPlace i w hw).finds_step h.finds, ?_, fun hprompt => ?_⟩
    · intro j w' hw'
      -- Only the worker that works has moved, the others are where they were.
      obtain ⟨rfl, rfl⟩ | hold := eq_or_getElem?_of_set hw'
      · exact (h.inPlace i w hw).step
      · exact h.inPlace j w' hold
    · intro hprompt n hlast hvalid w' hw'
      have hstopped : t.isStopped = false := by
        unfold isStopped
        split
        · next late hlate =>
          cases late with
          | true => exact absurd hlate hprompt
          | false => exact absurd (h.isDone (.inr hlate)) hbusy
        · rfl
      obtain ⟨rfl, rfl⟩ | hold := eq_or_getElem?_of_set hw'
      · rw [hstopped]
        exact (h.covers hprompt n hlast hvalid w hw).step (h.inPlace _ w hw) hvalid hlast
      · exact (h.covers hprompt n hlast hvalid w' hold).of_better
          fun s hs => Worker.exists_step_nonce_le hs
    · exact absurd (h.isDone hprompt) hbusy
  · rw [heq]
    -- The caller wakes in time only if all workers are done.
    refine ⟨h.inPlace, h.finds, fun _ => h.covers (by simp [hcaller]), fun hprompt => ?_⟩
    have hall : (!t.isDone) = false := by simpa using hprompt
    change t.isDone = true
    simpa using hall
  · rw [heq]
    refine ⟨h.inPlace, h.finds, fun _ => h.covers (by simp [hcaller]), fun hprompt => ?_⟩
    obtain rfl : late = false := by simpa using hprompt
    exact h.isDone (.inl hcaller)

/-- A schedule keeps a team sound. -/
theorem Sound.run (h : t.Sound hash p stride last) (schedule : List Move) :
    (t.run hash p stride last schedule).Sound hash p stride last := by
  induction schedule generalizing t with
  | nil => exact h
  | cons m schedule ih => exact ih (h.move m)

/-- A team is sound under every schedule. -/
theorem sound_run (hash : Bytes → Digest) (p : Puzzle) (stride last : Nat)
    (schedule : List Move) :
    ((start stride).run hash p stride last schedule).Sound hash p stride last :=
  (sound_start hash p stride last).run schedule

/-- Only a time-out makes a caller find a worker late. -/
theorem timeOut_mem_of_isLate (hash : Bytes → Digest) (p : Puzzle) (stride last : Nat) (t : Team)
    (schedule : List Move)
    (h : (t.run hash p stride last schedule).caller.isLate = true) :
    t.caller.isLate = true ∨ .timeOut ∈ schedule := by
  induction schedule generalizing t with
  | nil => exact .inl h
  | cons m schedule ih =>
    rcases ih _ h with hlate | hmem
    · obtain hsame | ⟨i, w, -, -, -, heq⟩ | ⟨late, -, -, hm, heq⟩ | ⟨late, hcaller, heq⟩ :=
        move_cases hash p stride last t m
      · exact .inl (hsame ▸ hlate)
      · rw [heq] at hlate
        exact .inl hlate
      · rw [heq] at hlate
        exact .inr (hm hlate ▸ List.mem_cons_self)
      · rw [heq] at hlate
        exact .inl (by rw [hcaller]; exact hlate)
    · exact .inr (List.mem_cons_of_mem m hmem)

/-! ### The end of the search -/

/-- The best flow of a team that ended in time is the first hit. -/
theorem Sound.best_eq_firstHit? (h : t.Sound hash p stride last)
    (hlength : t.workers.length = stride) (hstride : 0 < stride)
    (hcaller : t.caller = .stopping false) : t.best = p.firstHit? hash (last + 1) 0 := by
  have hall := isDone_iff.mp (h.isDone (.inr hcaller))
  -- The worker whose nonce it is has ended because a nonce as small was known.
  have hcovered : ∀ n ≤ last, p.IsValid hash n → ∃ s ∈ t.best, s.nonce ≤ n := by
    intro n hn hvalid
    have hlt : n % stride < t.workers.length := by
      rw [hlength]
      exact Nat.mod_lt n hstride
    have hworker := List.getElem?_eq_getElem hlt
    rw [hall _ (List.getElem_mem hlt)] at hworker
    exact h.covers (by simp [hcaller]) n hn hvalid _ hworker
  cases hbest : t.best with
  | none =>
    symm
    rw [Puzzle.firstHit?_eq_none_iff]
    intro n _ hn hvalid
    obtain ⟨s, hs, -⟩ := hcovered n (by omega) hvalid
    rw [hbest] at hs
    cases hs
  | some s =>
    symm
    obtain ⟨hfinds, hlast⟩ := h.finds s hbest
    refine Puzzle.firstHit?_eq_some_iff.mpr ⟨hfinds, Nat.zero_le _, by omega, ?_⟩
    intro n _ hn hvalid
    obtain ⟨s', hs', hle⟩ := hcovered n (by omega) hvalid
    rw [hbest] at hs'
    cases hs'
    omega

/-- What the caller of a search answers after the steps of a schedule, if it answers by then. -/
def answer? (hash : Bytes → Digest) (input b l workers factor : Nat) (limit : String)
    (schedule : List Move) : Option (Except Error Selection) :=
  ((start workers).run hash ⟨input, b, l⟩ workers (Flow.lastNonce b l factor) schedule).outcome?
    factor limit

/-- What the caller answers is that the time was over, if a worker was late, and else what the
search finds without a time limit. -/
theorem answer?_eq_some {input workers b l factor : Nat} {limit : String} {schedule : List Move}
    {outcome : Except Error Selection} (hinput : input < 2 ^ 32) (hworkers : 0 < workers)
    (h : answer? hash input b l workers factor limit schedule = some outcome) :
    outcome = .error (.timedOut limit) ∧ .timeOut ∈ schedule ∨
      outcome = Flow.findSmallest hash input b l workers factor none := by
  have hsound := sound_run hash ⟨input, b, l⟩ workers (Flow.lastNonce b l factor) schedule
  have hlength : ((start workers).run hash ⟨input, b, l⟩ workers (Flow.lastNonce b l factor)
      schedule).workers.length = workers := by simp
  have hlate := timeOut_mem_of_isLate hash ⟨input, b, l⟩ workers (Flow.lastNonce b l factor)
    (start workers) schedule
  unfold answer? at h
  generalize (start workers).run hash ⟨input, b, l⟩ workers (Flow.lastNonce b l factor) schedule = t
    at h hsound hlength hlate
  unfold outcome? at h
  split at h
  · next hcaller hall =>
    -- The caller did not wait any longer, so its time was up.
    rcases hlate (by rw [hcaller]; rfl) with hstart | hmem
    · cases hstart
    · exact .inl ⟨(Option.some.inj h).symm, hmem⟩
  · next hcaller hall =>
    -- All workers were done in time, and what they share is the first hit.
    have hbest := hsound.best_eq_firstHit? hlength hworkers hcaller
    rw [Flow.findSmallest_eq hinput hworkers, ← hbest]
    right
    cases hfound : t.best with
    | none => simpa [hfound] using h.symm
    | some s => simpa [hfound] using h.symm
  · cases h

end Team

end FlowGate

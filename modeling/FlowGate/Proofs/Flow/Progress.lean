import FlowGate.Proofs.Flow.Schedule
import Mathlib.Order.Filter.AtTopBot.Basic
import Mathlib.Order.Filter.Finite

/-!
# The end of a shared search

A schedule is fair if it gives every worker and the caller a turn again and again. Each turn of a
worker brings it closer to its end, so under a fair schedule all workers end, the caller sees it,
and the search has an answer. Whatever the schedule, that answer is the one of the search that tries
one nonce after the other, unless the time was over.

## Main definitions

* `Worker.rank` — how many turns a worker takes at most until it is done
* `Team.Fair` — every worker and the caller get a turn again and again
* `Team.inTurn` — everyone in turn
* `Team.afterMoves` — the team after the first steps of an endless schedule

## Main results

* `Worker.InPlace.rank_step_lt` — a turn brings a worker closer to its end
* `Team.fair_inTurn` — giving everyone a turn in order is fair
* `Team.Fair.eventually_isDone` — under a fair schedule all workers are done in the end
* `Team.Fair.eventually_isSome_answer?` — under a fair schedule the search has an answer
* `Team.answer?_eq_sequential` — whatever the schedule, the answer is that of the search without
  workers, unless the time was over
-/

namespace FlowGate

open Filter

variable {hash : Bytes → Digest} {p : Puzzle} {stride last i : Nat}

/-! ### The rank of a worker -/

/-- How many turns a worker takes at most until it is done. -/
def Worker.rank (last : Nat) : Worker → Nat
  | testing nonce => 3 * (last + 1 - nonce) + 2
  | comparing nonce => 3 * (last + 1 - nonce) + 1
  | trying nonce => 3 * (last + 1 - nonce)
  | reporting _ => 1
  | done => 0

/-- A turn brings a worker that is not done closer to its end. -/
theorem Worker.InPlace.rank_step_lt {w : Worker} {stopped : Bool} {best : Option Selection}
    (h : w.InPlace hash p stride last i) (hstride : 0 < stride) (hdone : w ≠ .done) :
    (w.step hash p stride last stopped best).1.rank last < w.rank last := by
  cases w with
  | testing nonce =>
    simp only [Worker.step]
    split <;> simp only [rank] <;> omega
  | comparing nonce =>
    cases best with
    | none => exact Nat.lt_succ_self _
    | some found =>
      simp only [Worker.step]
      split <;> simp only [rank] <;> omega
  | trying nonce =>
    -- The worker is not beyond the last nonce, so the next one is closer to it.
    have hle : nonce ≤ last := h.2
    simp only [Worker.step]
    cases p.attempt hash nonce <;> simp only [rank] <;> omega
  | reporting found => exact Nat.zero_lt_one
  | done => exact absurd rfl hdone

namespace Team

variable {t : Team} {m : Move}

/-- Worker number `i` has at most `bound` turns left. -/
def RankLE (last i bound : Nat) (t : Team) : Prop :=
  ∀ w : Worker, t.workers[i]? = some w → w.rank last ≤ bound

/-- No step gives a worker more turns. -/
theorem Sound.rankLE_move {bound : Nat} (h : t.Sound hash p stride last) (hstride : 0 < stride)
    (hrank : t.RankLE last i bound) (m : Move) :
    (t.move hash p stride last m).RankLE last i bound := by
  intro w' hw'
  obtain hsame | ⟨j, w, -, hw, hdone, heq⟩ | ⟨late, -, -, -, heq⟩ | ⟨late, -, heq⟩ :=
    move_cases hash p stride last t m
  · exact hrank w' (hsame ▸ hw')
  · rw [heq] at hw'
    obtain ⟨rfl, rfl⟩ | hold := eq_or_getElem?_of_set hw'
    · exact (((h.inPlace j w hw).rank_step_lt hstride hdone).trans_le (hrank w hw)).le
    · exact hrank w' hold
  · exact hrank w' (by rwa [heq] at hw')
  · exact hrank w' (by rwa [heq] at hw')

/-- A turn takes one of the turns that are left. -/
theorem Sound.rankLE_move_work {bound : Nat} (h : t.Sound hash p stride last)
    (hstride : 0 < stride) (hrank : t.RankLE last i (bound + 1)) :
    (t.move hash p stride last (.work i)).RankLE last i bound := by
  intro w' hw'
  cases hw : t.workers[i]? with
  | none =>
    rw [Team.move, hw] at hw'
    simp [hw] at hw'
  | some w =>
    have hlt := (List.getElem?_eq_some_iff.mp hw).1
    simp only [Team.move, hw, List.getElem?_set_self hlt, Option.some.injEq] at hw'
    subst hw'
    by_cases hdone : w = .done
    · rw [hdone]
      exact Nat.zero_le bound
    · exact Nat.le_of_lt_succ
        (((h.inPlace i w hw).rank_step_lt hstride hdone).trans_le (hrank w hw))

/-- A worker with no turns left is done. -/
theorem Sound.isDone_of_rankLE (h : t.Sound hash p stride last)
    (hrank : ∀ i < t.workers.length, t.RankLE last i 0) : t.isDone = true := by
  rw [isDone_iff]
  intro w hw
  obtain ⟨i, hi⟩ := List.mem_iff_getElem?.mp hw
  have hzero := hrank i (List.getElem?_eq_some_iff.mp hi).1 w hi
  have hplace := h.inPlace i w hi
  cases w with
  | trying nonce =>
    have hle : nonce ≤ last := hplace.2
    simp only [Worker.rank] at hzero
    omega
  | done => rfl
  | _ => simp [Worker.rank] at hzero

/-- A caller that has stopped waiting does not wait again. -/
theorem caller_ne_waiting_move (h : t.caller ≠ .waiting) (m : Move) :
    (t.move hash p stride last m).caller ≠ .waiting := by
  obtain hsame | ⟨i, w, -, -, -, heq⟩ | ⟨late, hcaller, -⟩ | ⟨late, -, heq⟩ :=
    move_cases hash p stride last t m
  · rwa [hsame]
  · rwa [heq]
  · exact absurd hcaller h
  · simp [heq]

/-- The sign to stop is not taken back. -/
theorem isStopped_move (h : t.isStopped = true) (m : Move) :
    (t.move hash p stride last m).isStopped = true := by
  have hcaller : ∃ late, t.caller = .stopping late := by
    unfold isStopped at h
    split at h
    · next late hlate => exact ⟨late, hlate⟩
    · cases h
  obtain ⟨late, hlate⟩ := hcaller
  obtain hsame | ⟨i, w, -, -, -, heq⟩ | ⟨_, hother, -⟩ | ⟨_, hother, -⟩ :=
    move_cases hash p stride last t m
  · rwa [hsame]
  · rwa [heq]
  · simp [hlate] at hother
  · simp [hlate] at hother

/-- A caller that looks when all workers are done stops waiting. -/
theorem caller_ne_waiting_move_finish (hdone : t.isDone = true) :
    (t.move hash p stride last .finish).caller ≠ .waiting := by
  by_cases hcaller : t.caller = .waiting
  · simp [move, hcaller, hdone]
  · exact caller_ne_waiting_move hcaller .finish

/-- A caller that no longer waits gives the sign to stop at its next turn. -/
theorem isStopped_move_stop (h : t.caller ≠ .waiting) :
    (t.move hash p stride last .stop).isStopped = true := by
  cases hcaller : t.caller with
  | waiting => exact absurd hcaller h
  | awake late => simp [move, hcaller, isStopped]
  | stopping late => simp [move, hcaller, isStopped]

/-- The caller answers once it has given the sign to stop and all workers are done. -/
theorem isSome_outcome? {factor : Int} {limit : String} (hstopped : t.isStopped = true)
    (hdone : t.isDone = true) : (t.outcome? factor limit).isSome = true := by
  unfold isStopped at hstopped
  split at hstopped
  · next late hlate =>
    rw [outcome?, hlate, hdone]
    cases late with
    | true => rfl
    | false => cases t.best <;> rfl
  · cases hstopped

/-! ### Endless schedules -/

/-- An endless schedule is fair if every worker, and the caller, gets a turn again and again. -/
structure Fair (workers : Nat) (moves : Nat → Move) : Prop where
  work : ∀ i < workers, ∃ᶠ n in atTop, moves n = .work i
  finish : ∃ᶠ n in atTop, moves n = .finish
  stop : ∃ᶠ n in atTop, moves n = .stop

/-- The first steps of an endless schedule. -/
def firstMoves (moves : Nat → Move) (n : Nat) : List Move := (List.range n).map moves

/-- The schedule that gives all workers and then the caller a turn, and begins anew. -/
def inTurn (workers n : Nat) : Move :=
  if n % (workers + 2) < workers then .work (n % (workers + 2))
  else if n % (workers + 2) = workers then .finish
  else .stop

/-- Giving everyone a turn in order is fair. -/
theorem fair_inTurn (workers : Nat) : Fair workers (inTurn workers) := by
  have hagain : ∀ i < workers + 2, ∃ᶠ n in atTop, n % (workers + 2) = i := by
    intro i hi
    rw [frequently_atTop]
    intro n
    have hlarge : n ≤ n * (workers + 2) := Nat.le_mul_of_pos_right n (by omega)
    refine ⟨n * (workers + 2) + i, by omega, ?_⟩
    rw [Nat.mul_comm, Nat.mul_add_mod, Nat.mod_eq_of_lt hi]
  refine ⟨fun i hi => ?_, ?_, ?_⟩
  · refine (hagain i (by omega)).mono fun n hn => ?_
    rw [inTurn, hn, if_pos hi]
  · refine (hagain workers (by omega)).mono fun n hn => ?_
    rw [inTurn, hn, if_neg (by omega), if_pos rfl]
  · refine (hagain (workers + 1) (by omega)).mono fun n hn => ?_
    rw [inTurn, hn, if_neg (by omega), if_neg (by omega)]

section Endless

variable {moves : Nat → Move}

/-- The team after the first steps of an endless schedule. -/
def afterMoves (hash : Bytes → Digest) (p : Puzzle) (stride last : Nat) (moves : Nat → Move)
    (n : Nat) : Team :=
  (start stride).run hash p stride last (firstMoves moves n)

theorem afterMoves_succ (n : Nat) :
    afterMoves hash p stride last moves (n + 1) =
      (afterMoves hash p stride last moves n).move hash p stride last (moves n) := by
  simp [afterMoves, firstMoves, run, List.range_succ]

/-- What every step keeps holds from the time on when it holds first. -/
theorem eventually_afterMoves (holds : Team → Prop)
    (hkeep : ∀ t m, t.Sound hash p stride last → holds t → holds (t.move hash p stride last m))
    (hfirst : ∃ n, holds (afterMoves hash p stride last moves n)) :
    ∀ᶠ n in atTop, holds (afterMoves hash p stride last moves n) := by
  obtain ⟨first, hfirst⟩ := hfirst
  rw [eventually_atTop]
  refine ⟨first, fun n hn => ?_⟩
  induction n, hn using Nat.le_induction with
  | base => exact hfirst
  | succ n _ ih =>
    rw [afterMoves_succ]
    exact hkeep _ _ (sound_run hash p stride last _) ih

/-- A worker that gets a turn again and again has no turns left in the end. -/
theorem Fair.eventually_rankLE_zero (h : Fair stride moves) (hash : Bytes → Digest) (p : Puzzle)
    (last : Nat) (hi : i < stride) :
    ∀ᶠ n in atTop, (afterMoves hash p stride last moves n).RankLE last i 0 := by
  have hstays : ∀ bound, (∃ n, (afterMoves hash p stride last moves n).RankLE last i bound) →
      ∀ᶠ n in atTop, (afterMoves hash p stride last moves n).RankLE last i bound := fun bound =>
    eventually_afterMoves (RankLE last i bound)
      fun t m hsound hrank => hsound.rankLE_move (by omega) hrank m
  -- By induction on the turns that the worker has left.
  have hleft : ∀ bound, (∃ n, (afterMoves hash p stride last moves n).RankLE last i bound) →
      ∀ᶠ n in atTop, (afterMoves hash p stride last moves n).RankLE last i 0 := by
    intro bound
    induction bound with
    | zero => exact hstays 0
    | succ bound ih =>
      intro hrank
      obtain ⟨n, hturn, hrank⟩ := ((h.work i hi).and_eventually (hstays _ hrank)).exists
      apply ih
      refine ⟨n + 1, ?_⟩
      rw [afterMoves_succ, hturn]
      exact (sound_run hash p stride last _).rankLE_move_work (by omega) hrank
  apply hleft ((Worker.testing i).rank last)
  refine ⟨0, fun w hw => ?_⟩
  obtain rfl : Worker.testing i = w := by simpa [afterMoves, firstMoves, run, start, hi] using hw
  exact Nat.le_refl _

/-- Under a fair schedule all workers are done in the end. -/
theorem Fair.eventually_isDone (h : Fair stride moves) (hash : Bytes → Digest) (p : Puzzle)
    (last : Nat) : ∀ᶠ n in atTop, (afterMoves hash p stride last moves n).isDone = true := by
  have hall : ∀ᶠ n in atTop, ∀ i ∈ {i | i < stride},
      (afterMoves hash p stride last moves n).RankLE last i 0 := by
    rw [eventually_all_finite (Set.finite_lt_nat stride)]
    exact fun i hi => h.eventually_rankLE_zero hash p last hi
  refine hall.mono fun n hrank => (sound_run hash p stride last _).isDone_of_rankLE fun i hi => ?_
  exact hrank i (by simpa using hi)

/-- Under a fair schedule the sign to stop is given in the end. -/
theorem Fair.eventually_isStopped (h : Fair stride moves) (hash : Bytes → Digest) (p : Puzzle)
    (last : Nat) : ∀ᶠ n in atTop, (afterMoves hash p stride last moves n).isStopped = true := by
  obtain ⟨n, hfinish, hdone⟩ :=
    (h.finish.and_eventually (h.eventually_isDone hash p last)).exists
  have hawake : ∀ᶠ n in atTop, (afterMoves hash p stride last moves n).caller ≠ .waiting := by
    apply eventually_afterMoves (fun t => t.caller ≠ .waiting)
      fun t m _ hcaller => caller_ne_waiting_move hcaller m
    refine ⟨n + 1, ?_⟩
    rw [afterMoves_succ, hfinish]
    exact caller_ne_waiting_move_finish hdone
  obtain ⟨n, hstop, hcaller⟩ := (h.stop.and_eventually hawake).exists
  apply eventually_afterMoves (fun t => t.isStopped = true)
    fun t m _ hstopped => isStopped_move hstopped m
  refine ⟨n + 1, ?_⟩
  rw [afterMoves_succ, hstop]
  exact isStopped_move_stop hcaller

end Endless

/-- Under a fair schedule the search has an answer in the end. -/
theorem Fair.eventually_isSome_answer? {input b l workers factor : Nat} {limit : String}
    {moves : Nat → Move} (h : Fair workers moves) (hash : Bytes → Digest) :
    ∀ᶠ n in atTop,
      (answer? hash input b l workers factor limit (firstMoves moves n)).isSome = true := by
  have hdone := h.eventually_isDone hash ⟨input, b, l⟩ (Flow.lastNonce b l factor)
  have hstopped := h.eventually_isStopped hash ⟨input, b, l⟩ (Flow.lastNonce b l factor)
  exact (hstopped.and hdone).mono fun n hend => isSome_outcome? hend.1 hend.2

/-- Whatever the schedule, the answer of a search that workers share is never a flow other than the
one with the smallest nonce; it is that the time was over only if the caller ran out of time, and
else the answer of the search without workers. Under a fair schedule there is an answer in the end.
-/
theorem answer?_eq_sequential {input workers : Nat} (hinput : input < 2 ^ 32)
    (hworkers : 0 < workers) (hash : Bytes → Digest) (b l factor : Nat) (limit : String) :
    (∀ schedule outcome,
      answer? hash input b l workers factor limit schedule = some outcome →
      (∀ s, outcome = .ok s →
        IsLeast {n : Nat | n ≤ min (2 ^ (b - l) * factor) (2 ^ 64 - 1) ∧
          ∃ found, Flow.select hash input n b l = .ok found} s.nonce) ∧
      (outcome = .error (.timedOut limit) ∧ .timeOut ∈ schedule ∨
        (∀ s, outcome = .ok s ↔ Flow.findNonce hash input b l 0 factor = .ok s) ∧
        ((∃ fault, outcome = .error (.exhausted fault)) ↔
          ∃ fault, Flow.findNonce hash input b l 0 factor = .error (.exhausted fault)))) ∧
    ∀ moves, Fair workers moves →
      ∀ᶠ n in atTop,
        (answer? hash input b l workers factor limit (firstMoves moves n)).isSome = true := by
  refine ⟨fun schedule outcome h => ?_, fun moves hfair => hfair.eventually_isSome_answer? hash⟩
  -- The order in which the workers move decides only whether the time is up.
  rcases answer?_eq_some hinput hworkers h with ⟨rfl, hmem⟩ | rfl
  · exact ⟨by simp, .inl ⟨rfl, hmem⟩⟩
  · refine ⟨fun s hs => ?_, .inr ⟨fun s => ?_, ?_⟩⟩
    · rw [← Flow.lastNonce_eq]
      exact Flow.isLeast_of_findSmallest_eq_ok hinput hworkers b l factor hs
    · exact Flow.findSmallest_eq_ok_iff hinput hworkers b l factor
    · exact Flow.exists_findSmallest_exhausted_iff hinput hworkers b l factor

/-- A digest that is zero in front for the nonces that end in the byte 3 or 6. -/
def sampleHash (message : Bytes) : Digest where
  bytes := (if message[4]? = some 3 ∨ message[4]? = some 6 then 0 else 1) :: List.replicate 31 0
  length_bytes := by simp

/-- Worker 0 finds and reports the nonce 6 before worker 1 takes its first turn. -/
def sampleSchedule : List Move :=
  List.replicate 13 (.work 0) ++ List.replicate 7 (.work 1) ++ [.finish, .stop]

/-- The nonce 3 is the answer, though the nonce 6 was found before it. -/
theorem answer?_sample : ∃ s, s.nonce = 3 ∧
    answer? sampleHash 7 8 0 2 1 "1" sampleSchedule = some (.ok s) ∧
    IsLeast {n : Nat | n ≤ min (2 ^ (8 - 0) * 1) (2 ^ 64 - 1) ∧
      ∃ found, Flow.select sampleHash (7 : Nat) n (8 : Nat) (0 : Nat) = .ok found} s.nonce ∧
    Flow.findNonce sampleHash (7 : Nat) (8 : Nat) (0 : Nat) 0 (1 : Nat) = .ok s ∧
    ∀ᶠ n in atTop, (answer? sampleHash 7 8 0 2 1 "1" (firstMoves (inTurn 2) n)).isSome = true := by
  obtain ⟨hanswer, hfair⟩ := answer?_eq_sequential (show 7 < 2 ^ 32 by decide)
    (show 0 < 2 by decide) sampleHash 8 0 1 "1"
  have hschedule : answer? sampleHash 7 8 0 2 1 "1" sampleSchedule =
      some (.ok ⟨3, sampleHash (Flow.message 7 3), 0⟩) := rfl
  obtain ⟨hleast, ⟨hlate, -⟩ | ⟨hsame, -⟩⟩ := hanswer _ _ hschedule
  · cases hlate
  · exact ⟨_, rfl, hschedule, hleast _ rfl, (hsame _).mp rfl, hfair _ (fair_inTurn 2)⟩

end Team

end FlowGate

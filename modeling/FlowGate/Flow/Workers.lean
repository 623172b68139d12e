import FlowGate.Flow.Search

/-!
# Workers

Several workers search for the smallest nonce together. Each tries every nonce at a fixed stride from
its own start, and they share the best flow found so far and a sign to stop. A schedule says who takes
the next step; the steps are the smallest parts of the work that no other worker can come between.

## Main definitions

* `Worker`, `Worker.step` — where a worker is, and its next step
* `Caller` — where the one is who waits for the workers
* `Team` — the workers, the best flow so far, and the caller
* `Move`, `Team.move`, `Team.run` — a step of one of them, and the steps of a schedule
* `Team.outcome?` — what the caller answers once all workers are done

## Main results

* `Selection.nonce_best_le` — a report never replaces the best flow by one with a larger nonce
* `Team.length_workers_run` — no schedule changes the number of workers
-/

namespace FlowGate

/-- Of the best flow so far and one just found, the one with the smaller nonce. -/
def Selection.best : Option Selection → Selection → Selection
  | none, found => found
  | some best, found => if found.nonce < best.nonce then found else best

/-- Where a worker is. It is about to test whether to go on with a nonce, to compare the nonce with
the best flow, to try it, or to report what it found; or it is done. -/
inductive Worker
  | testing (nonce : Nat)
  | comparing (nonce : Nat)
  | trying (nonce : Nat)
  | reporting (found : Selection)
  | done
  deriving DecidableEq

namespace Worker

/-- Whether a worker is done. -/
def isDone : Worker → Bool
  | done => true
  | _ => false

/-- The next step of a worker: the worker after it, and the best flow. A nonce beyond the last one
and the sign to stop end the work, and so does a nonce that is larger than that of the best flow. -/
def step (hash : Bytes → Digest) (p : Puzzle) (stride last : Nat) (stopped : Bool)
    (best : Option Selection) : Worker → Worker × Option Selection
  -- The sign to stop is seen here only, and an attempt that is under way is finished.
  | testing nonce => (if nonce ≤ last && !stopped then comparing nonce else done, best)
  | comparing nonce =>
    match best with
    | none => (trying nonce, best)
    | some found => (if found.nonce < nonce then done else trying nonce, best)
  | trying nonce =>
    match p.attempt hash nonce with
    | .hit found => (reporting found, best)
    | .miss _ _ => (testing (nonce + stride), best)
  -- Another worker may have reported since, so the two are compared again.
  | reporting found => (done, some (Selection.best best found))
  | done => (done, best)

end Worker

/-- Where the caller is: it waits, it no longer waits, or it has given the sign to stop. It
remembers whether a worker was late, that is, still at work when it stopped waiting. -/
inductive Caller
  | waiting
  | awake (late : Bool)
  | stopping (late : Bool)
  deriving DecidableEq, Repr

/-- The workers, the best flow so far, and the caller. -/
structure Team where
  workers : List Worker
  best : Option Selection
  caller : Caller
  deriving DecidableEq

/-- Who takes the next step: a worker; the caller, who finds all workers done or runs out of time;
or the caller, who gives the sign to stop. -/
inductive Move
  | work (worker : Nat)
  | finish
  | timeOut
  | stop
  deriving DecidableEq, Repr

namespace Team

/-- A team at its start: as many workers as the stride, each before a nonce of its own. -/
def start (stride : Nat) : Team := ⟨(List.range stride).map .testing, none, .waiting⟩

/-- Whether all workers are done. -/
def isDone (t : Team) : Bool := t.workers.all Worker.isDone

/-- Whether the sign to stop was given. -/
def isStopped (t : Team) : Bool :=
  match t.caller with
  | .stopping _ => true
  | _ => false

/-- A step of a worker or of the caller. A step that is not possible changes nothing. -/
def move (hash : Bytes → Digest) (p : Puzzle) (stride last : Nat) (t : Team) : Move → Team
  | .work i =>
    match t.workers[i]? with
    | none => t
    | some worker =>
      let (worker, best) := worker.step hash p stride last t.isStopped t.best
      { t with workers := t.workers.set i worker, best }
  | .finish => if t.caller = .waiting ∧ t.isDone then { t with caller := .awake false } else t
  -- Whether a worker is late is settled at this moment.
  | .timeOut => if t.caller = .waiting then { t with caller := .awake (!t.isDone) } else t
  | .stop =>
    match t.caller with
    | .awake late => { t with caller := .stopping late }
    | _ => t

/-- The steps of a schedule in order. -/
def run (hash : Bytes → Digest) (p : Puzzle) (stride last : Nat) (t : Team)
    (schedule : List Move) : Team :=
  schedule.foldl (move hash p stride last) t

/-- What the caller answers once it has given the sign to stop and all workers are done: that the
time was over if a worker was late, else the best flow. -/
def outcome? (factor : Int) (limit : String) (t : Team) : Option (Except Error Selection) :=
  match t.caller, t.isDone with
  | .stopping true, true => some (.error (.timedOut limit))
  | .stopping false, true =>
    match t.best with
    | some found => some (.ok found)
    | none => some (.error (.exhausted (.budgetSpent (toString factor))))
  | _, _ => none

end Team

/-- A report never makes the nonce of the best flow larger, nor larger than the one reported. -/
theorem Selection.nonce_best_le (best : Option Selection) (found : Selection) :
    (Selection.best best found).nonce ≤ found.nonce ∧
      ∀ s ∈ best, (Selection.best best found).nonce ≤ s.nonce := by
  cases best with
  | none => simp [Selection.best]
  | some s =>
    simp only [Selection.best]
    split
    · simpa using Nat.le_of_lt (by assumption)
    · simpa using Nat.le_of_not_lt (by assumption)

/-- A worker that is done stays done and reports nothing. -/
@[simp] theorem Worker.step_done {hash : Bytes → Digest} {p : Puzzle} {stride last : Nat}
    {stopped : Bool} {best : Option Selection} :
    Worker.done.step hash p stride last stopped best = (.done, best) := rfl

namespace Team

variable {hash : Bytes → Digest} {p : Puzzle} {stride last : Nat}

@[simp] theorem length_workers_start (stride : Nat) : (start stride).workers.length = stride := by
  simp [start]

/-- No step changes the number of workers. -/
@[simp] theorem length_workers_move (t : Team) (m : Move) :
    (t.move hash p stride last m).workers.length = t.workers.length := by
  cases m with
  | work i =>
    simp only [move]
    split <;> simp
  | finish => simp only [move]; split <;> rfl
  | timeOut => simp only [move]; split <;> rfl
  | stop => simp only [move]; split <;> rfl

/-- No schedule changes the number of workers. -/
@[simp] theorem length_workers_run (t : Team) (schedule : List Move) :
    (t.run hash p stride last schedule).workers.length = t.workers.length := by
  induction schedule generalizing t with
  | nil => rfl
  | cons m schedule ih => exact (ih _).trans (length_workers_move t m)

end Team

end FlowGate

import YirangMQ.Library.Machine
import YirangMQ.Thread.JobPool

namespace YirangMQ

open JobPool

/-!
# Stopping a pool that works

`ThreadPool::stop(false)` against pushes from other threads and from inside running jobs.  `stop`
holds the mutex of the pool while it joins its workers one after the other; a push that has put its
job into the queue needs that mutex to notify them.  The lock flag is read at the start of a push
and not again.

A step of `Stopping` is what one thread does between two points where others can come in.  What is
done under the queue's own mutex is one step.  A worker holds its own mutex from the end of its wait
to its `pop`, and meanwhile looks at the queue more than once: `job_count` takes the queue's mutex
once for each priority.

* `Stopping.next` — the steps of pushes, workers and `stop`;
* `Stuck`, `Stopping.Done` — what must not happen, and what must hold when `stop` returns;
* `Careful` — the steps that avoid the windows in which it goes wrong;
* `count_undisturbed` — a count that nobody disturbs is `job_count`, and is careful;
* `stop_graceful` — **in runs of careful steps a stop is graceful.**
-/

/-- How far a push is, whose job was not refused. -/
inductive PushStage where
  | idle
  /-- the flag has been read, and the job is not in the queue -/
  | tested (job : Job)
  /-- the job is in the queue, and the mutex of the pool is wanted -/
  | queued (q : Queued)
  /-- the workers are notified under the mutex of the pool -/
  | notifying (q : Queued)
  deriving DecidableEq, Repr

/-- Where a worker is in its loop. -/
inductive WorkerStage where
  /-- in the wait, or before it -/
  | waiting
  /-- in `job_count`, with its own mutex: the priorities still to be counted, and the jobs
      counted -/
  | counting (rest : List JobPriorities) (count : Nat)
  /-- after the wait, with its own mutex -/
  | awake
  /-- before `pop`, with its own mutex -/
  | popping
  /-- `pop` has returned null -/
  | emptyHanded
  /-- it runs a job, which may push others -/
  | running (job : Queued) (push : PushStage)
  /-- the loop has ended -/
  | left
  deriving DecidableEq, Repr

/-- The push of the job that the worker runs. -/
def WorkerStage.push? : WorkerStage → Option PushStage
  | running _ push => some push
  | _ => none

/-- The job that the worker runs. -/
def WorkerStage.job? : WorkerStage → Option Queued
  | running job _ => some job
  | _ => none

/-- The worker holds its own mutex. -/
def WorkerStage.locked : WorkerStage → Bool
  | .counting _ _ | .awake | .popping => true
  | _ => false

/-- A worker of a running pool. -/
structure PoolWorker where
  priorities : List JobPriorities
  paused : Bool := false
  threadStop : Bool := false
  stage : WorkerStage := .waiting
  deriving DecidableEq, Repr

/-- Who pushes: a thread that is none of the workers, or the job a worker runs. -/
inductive Pusher where
  | outside (thread : Nat)
  | job (worker : Nat)
  deriving DecidableEq, Repr

/-- Who holds the mutex of the pool. -/
inductive Holder where
  | stop
  | pusher (who : Pusher)
  deriving DecidableEq, Repr

/-- How far `stop` is; the workers before `signalling` are joined. -/
inductive StopStage where
  | absent
  | entered
  | signalling (worker : Nat)
  | joining (worker : Nat)
  | leaving
  | returning
  | returned
  deriving DecidableEq, Repr

/-- A pool with its pushes and its stop; `reported` are the jobs whose push has answered that it
    succeeded, `finished` those that have been run. -/
structure Stopping where
  workers : List PoolWorker
  pool : JobPool := {}
  mutex : Option Holder := none
  outside : Nat → PushStage := fun _ => .idle
  stop : StopStage := .absent
  pushes : Nat := 0
  reported : List Queued := []
  finished : List Queued := []

/-- What a thread does next. -/
inductive Action where
  /-- `push` is called: the null check and the flag -/
  | test (who : Pusher) (job : Option Job)
  | insert (who : Pusher)
  | acquire (who : Pusher)
  /-- the mutex is given back and the push answers -/
  | report (who : Pusher)
  | wake (worker : Nat)
  | look (worker : Nat)
  /-- the jobs of one more priority are counted, or the sum is returned -/
  | count (worker : Nat)
  | pop (worker : Nat)
  /-- `thread_stop_` is read after an empty `pop` -/
  | reload (worker : Nat)
  | finish (worker : Nat)
  | enter
  | setFlag
  | signal
  | join
  | unsetFlag
  | release
  | giveBack
  deriving DecidableEq, Repr

namespace Stopping

/-- Replace a worker. -/
def put (i : Nat) (w : PoolWorker) (s : Stopping) : Stopping :=
  { s with workers := s.workers.set i w }

/-- The push a thread is in; a worker that runs no job pushes nothing. -/
def pushStage (s : Stopping) : Pusher → Option PushStage
  | .outside thread => some (s.outside thread)
  | .job worker => s.workers[worker]?.bind fun w => w.stage.push?

/-- Move a push on. -/
def setPush (who : Pusher) (stage : PushStage) (s : Stopping) : Stopping :=
  match who with
  | .outside thread => { s with outside := Function.update s.outside thread stage }
  | .job worker =>
    match s.workers[worker]? with
    | none => s
    | some w =>
      match w.stage with
      | .running job _ => s.put worker { w with stage := .running job stage }
      | _ => s

/-! ### Pushes -/

/-- `push` begins: a null job and a locked pool are answered at once, so no stage is entered. -/
def test (who : Pusher) (job : Option Job) (s : Stopping) : Option Stopping :=
  match s.pushStage who, job with
  | some .idle, none => some s
  | some .idle, some job =>
    if s.pool.lockCondition then some s else some (s.setPush who (.tested job))
  | _, _ => none

/-- The job joins the queue of its priority; a full queue ends the push with an error. -/
def insert (who : Pusher) (s : Stopping) : Option Stopping :=
  match s.pushStage who with
  | some (.tested job) =>
    let q : Queued := ⟨s.pushes, job⟩
    let result := s.pool.enqueue q
    let s' := { s with pool := result.2, pushes := s.pushes + 1 }
    some (s'.setPush who (if result.1.1 then .queued q else .idle))
  | _ => none

/-- `notify_callback` takes the mutex of the pool, for which `stop` may make it wait. -/
def acquire (who : Pusher) (s : Stopping) : Option Stopping :=
  match s.pushStage who, s.mutex with
  | some (.queued q), none =>
    some ({ s with mutex := some (.pusher who) }.setPush who (.notifying q))
  | _, _ => none

/-- The workers are notified, the mutex is given back and the push reports success. -/
def report (who : Pusher) (s : Stopping) : Option Stopping :=
  match s.pushStage who with
  | some (.notifying q) =>
    some ({ s with mutex := none, reported := s.reported ++ [q] }.setPush who .idle)
  | _ => none

/-! ### Workers -/

/-- The loop ends, and clears the flag it was stopped by. -/
def leave (i : Nat) (w : PoolWorker) (s : Stopping) : Stopping :=
  s.put i { w with stage := .left, threadStop := false }

/-- `has_job` begins; a worker without priorities counts all jobs at once. -/
def hasJob (i : Nat) (w : PoolWorker) (s : Stopping) : Stopping :=
  s.put i { w with
    stage :=
      if w.priorities = [] then .counting [] (s.pool.jobCount []) else .counting w.priorities 0 }

/-- `check_condition`, before and in the wait; a paused worker waits on. -/
def wake (i : Nat) (s : Stopping) : Option Stopping :=
  s.workers[i]?.bind fun w =>
    if w.stage ≠ .waiting then none
    else if w.threadStop then some (s.put i { w with stage := .awake })
    else if w.paused then none
    else some (s.hasJob i w)

/-- The tests after the wait; the jobs are counted only for a worker that is to stop. -/
def look (i : Nat) (s : Stopping) : Option Stopping :=
  s.workers[i]?.bind fun w =>
    if w.stage ≠ .awake then none
    else if w.threadStop then some (s.hasJob i w)
    else if w.paused then some (s.put i { w with stage := .waiting })
    else some (s.put i { w with stage := .popping })

/-- `job_count`, one priority at a time, and what `has_job` is asked for: after the wait when the
    worker is to stop, and in the wait otherwise. -/
def count (i : Nat) (s : Stopping) : Option Stopping :=
  s.workers[i]?.bind fun w =>
    match w.stage with
    | .counting (priority :: rest) n =>
      some (s.put i { w with stage := .counting rest (n + s.pool.queueSize priority) })
    | .counting [] n =>
      if w.threadStop then
        if n = 0 then some (s.leave i w) else some (s.put i { w with stage := .popping })
      else if n = 0 then some (s.put i { w with stage := .waiting })
      else some (s.put i { w with stage := .awake })
    | _ => none

/-- `pop`: the first job in the order of the worker's priorities, or null. -/
def popJob (i : Nat) (s : Stopping) : Option Stopping :=
  s.workers[i]?.bind fun w =>
    if w.stage ≠ .popping then none
    else
      let result := s.pool.pop w.priorities
      let s' := { s with pool := result.2 }
      match result.1 with
      | none => some (s'.put i { w with stage := .emptyHanded })
      | some q => some (s'.put i { w with stage := .running q .idle })

/-- A worker that came away with nothing leaves if it is to stop, and waits again if not. -/
def reload (i : Nat) (s : Stopping) : Option Stopping :=
  s.workers[i]?.bind fun w =>
    if w.stage ≠ .emptyHanded then none
    else if w.threadStop then some (s.leave i w)
    else some (s.put i { w with stage := .waiting })

/-- The job has been run. It ends only after the pushes it made have answered. -/
def finish (i : Nat) (s : Stopping) : Option Stopping :=
  s.workers[i]?.bind fun w =>
    match w.stage with
    | .running q .idle =>
      some ({ s with finished := s.finished ++ [q] }.put i { w with stage := .waiting })
    | _ => none

/-! ### `stop` -/

/-- `stop(false)` takes the mutex of the pool; only the first stop is followed. -/
def enter (s : Stopping) : Option Stopping :=
  if s.stop = .absent ∧ s.mutex = none then
    some { s with stop := .entered, mutex := some .stop }
  else none

/-- `lock(true)`: from here a push that reads the flag is refused. -/
def setFlag (s : Stopping) : Option Stopping :=
  if s.stop = .entered then
    some { s with stop := .signalling 0, pool := { s.pool with lockCondition := true } }
  else none

/-- `ThreadWorker::stop` sets the flag of the worker under the worker's own mutex. -/
def signal (s : Stopping) : Option Stopping :=
  match s.stop with
  | .signalling k =>
    s.workers[k]?.bind fun w =>
      if w.stage.locked then none
      else some ({ s with stop := .joining k }.put k { w with threadStop := true })
  | _ => none

/-- The worker at hand is joined: `stop` goes on to the next one when its loop has ended. -/
def join (s : Stopping) : Option Stopping :=
  match s.stop with
  | .joining k =>
    s.workers[k]?.bind fun w =>
      if w.stage = .left then some { s with stop := .signalling (k + 1) } else none
  | _ => none

/-- `lock(false)`, once all workers are joined. -/
def unsetFlag (s : Stopping) : Option Stopping :=
  match s.stop with
  | .signalling k =>
    if k < s.workers.length then none
    else some { s with stop := .leaving, pool := { s.pool with lockCondition := false } }
  | _ => none

/-- The mutex is given back when the scope of `stop` ends. -/
def release (s : Stopping) : Option Stopping :=
  if s.stop = .leaving then some { s with stop := .returning, mutex := none } else none

/-- `stop` returns to its caller. -/
def giveBack (s : Stopping) : Option Stopping :=
  if s.stop = .returning then some { s with stop := .returned } else none

/-- The state after an action, when the action can be taken. -/
def next (s : Stopping) : Action → Option Stopping
  | .test who job => s.test who job
  | .insert who => s.insert who
  | .acquire who => s.acquire who
  | .report who => s.report who
  | .wake i => s.wake i
  | .look i => s.look i
  | .count i => s.count i
  | .pop i => s.popJob i
  | .reload i => s.reload i
  | .finish i => s.finish i
  | .enter => s.enter
  | .setFlag => s.setFlag
  | .signal => s.signal
  | .join => s.join
  | .unsetFlag => s.unsetFlag
  | .release => s.release
  | .giveBack => s.giveBack

/-! ### What a stop promises -/

/-- `stop` holds the mutex of the pool and waits for a worker that waits for the mutex. -/
def Stuck (s : Stopping) : Prop :=
  ∃ k q, s.stop = .joining k ∧ s.mutex = some .stop ∧ s.pushStage (.job k) = some (.queued q)

/-- Some worker that is not paused serves the priority. -/
def Served (s : Stopping) (priority : JobPriorities) : Prop :=
  ∃ w ∈ s.workers, w.paused = false ∧ priority ∈ w.priorities

/-- Every job whose push has reported success has been run, if its priority is served. -/
def Done (s : Stopping) : Prop :=
  ∀ q ∈ s.reported, s.Served q.priority → q ∈ s.finished

/-- Some worker other than `i`, if a worker is to be left out, still takes jobs of the priority. -/
def Attended (s : Stopping) (priority : JobPriorities) (except : Option Nat) : Prop :=
  ∃ j w, some j ≠ except ∧ s.workers[j]? = some w ∧ w.stage ≠ .left ∧ priority ∈ w.priorities

/-- No job that is served waits for this worker alone. -/
def Spares (s : Stopping) (i : Nat) (w : PoolWorker) : Prop :=
  ∀ q, s.pool.Holds q → q.priority ∈ w.priorities → s.Served q.priority →
    s.Attended q.priority (some i)

/-- The step takes none of the ways in which a stop goes wrong: the flag is not set while the job
    of a worker is between its reading of the flag and its answer; no job is put into the queue
    when the workers that serve it have all left; and no worker that is to stop leaves with a job
    waiting that nobody else serves, be it that it has counted no job or that it came away from
    the queue with nothing. -/
def Careful (s : Stopping) : Action → Prop
  | .setFlag => ∀ i push, s.pushStage (.job i) = some push → push = .idle
  | .insert who => ∀ job, s.pushStage who = some (.tested job) → s.stop ≠ .returned →
    (s.pool.enqueue ⟨s.pushes, job⟩).1.1 = true → s.Served job.priority →
    s.Attended job.priority none
  | .count i => ∀ w, s.workers[i]? = some w → w.threadStop = true → w.stage = .counting [] 0 →
    s.Spares i w
  | .reload i => ∀ w, s.workers[i]? = some w → w.threadStop = true → s.Spares i w
  | _ => True

/-- A pool with its workers started and nothing in its queue. -/
def machine (workers : List PoolWorker) : Machine Stopping Action Unit where
  start := { workers := workers.map fun w => { w with threadStop := false, stage := .waiting } }
  step s a := ((), (s.next a).getD s)

/-- The runs of a pool: what a thread can do next, it may do next. -/
def Possible (_ : History Stopping Action Unit) (s : Stopping) (a : Action) : Prop :=
  (s.next a).isSome = true

/-- The runs whose steps are careful. -/
def PossibleCareful (h : History Stopping Action Unit) (s : Stopping) (a : Action) : Prop :=
  Possible h s a ∧ s.Careful a

/-- A step of a graceful stop: nobody is stuck, and what was reported is done when `stop`
    returns. -/
def Graceful (r : Step Stopping Action Unit) : Prop :=
  ¬r.after.Stuck ∧ (r.input = .giveBack → r.after.Done)

/-! ### The invariant -/

/-- The job waits, or runs, or has been run. -/
def Accounted (s : Stopping) (q : Queued) : Prop :=
  s.pool.Holds q ∨
    (∃ (i : Nat) (w : PoolWorker), s.workers[i]? = some w ∧ w.stage.job? = some q) ∨
    q ∈ s.finished

/-- How many workers have been joined. -/
def joined (s : Stopping) : Nat :=
  match s.stop with
  | .absent => 0
  | .entered => 0
  | .signalling k => k
  | .joining k => k
  | .leaving => s.workers.length
  | .returning => s.workers.length
  | .returned => s.workers.length

/-- `stop` has set the lock flag and not yet taken it back. -/
def Flagged (s : Stopping) : Prop := ∃ k, s.stop = .signalling k ∨ s.stop = .joining k

/-- What the careful steps keep. -/
structure Sound (s : Stopping) : Prop where
  represented : ∃ waiting, Represents s.pool waiting
  /-- While the flag is set no running job pushes. -/
  locked : s.Flagged → s.pool.lockCondition = true ∧
    ∀ i push, s.pushStage (.job i) = some push → push = .idle
  left : ∀ i w, i < s.joined → s.workers[i]? = some w → w.stage = .left
  /-- A job that waits is waited for. -/
  attended : s.stop ≠ .returned → ∀ q, s.pool.Holds q → s.Served q.priority →
    s.Attended q.priority none
  pushed : ∀ who q, s.pushStage who = some (.queued q) ∨ s.pushStage who = some (.notifying q) →
    s.Accounted q
  reported : ∀ q ∈ s.reported, s.Accounted q

variable {s s' : Stopping} {i : Nat} {w w' : PoolWorker}

/-! ### Replacing a worker -/

/-- What is read after a worker has been replaced. -/
theorem getElem?_put (hw : s.workers[i]? = some w) (w' : PoolWorker) (j : Nat) :
    (s.put i w').workers[j]? = if j = i then some w' else s.workers[j]? := by
  obtain ⟨hlt, -⟩ := List.getElem?_eq_some_iff.mp hw
  show (s.workers.set i w')[j]? = _
  rw [List.getElem?_set]
  by_cases hj : j = i
  · rw [if_pos hj.symm, if_pos hj, if_pos hlt]
  · rw [if_neg (Ne.symm hj), if_neg hj]

/-- Replacing a worker changes the push of its own job only. -/
theorem pushStage_put (hw : s.workers[i]? = some w) (w' : PoolWorker) (who : Pusher) :
    (s.put i w').pushStage who = if who = .job i then w'.stage.push? else s.pushStage who := by
  cases who with
  | outside thread => rw [if_neg (fun h => Pusher.noConfusion h)]; rfl
  | job j =>
    show ((s.put i w').workers[j]?).bind (fun w => w.stage.push?) = _
    rw [getElem?_put hw]
    by_cases hj : j = i
    · rw [if_pos hj, hj, if_pos rfl]
      rfl
    · rw [if_neg hj, if_neg (fun h => hj (Pusher.job.inj h))]
      rfl

/-- A priority is served by a worker at some index. -/
theorem served_iff {priority : JobPriorities} : s.Served priority ↔
    ∃ (j : Nat) (w : PoolWorker),
      s.workers[j]? = some w ∧ w.paused = false ∧ priority ∈ w.priorities := by
  constructor
  · rintro ⟨w, hw, hserves⟩
    obtain ⟨j, hj⟩ := List.mem_iff_getElem?.mp hw
    exact ⟨j, w, hj, hserves⟩
  · rintro ⟨j, w, hj, hserves⟩
    exact ⟨w, List.mem_iff_getElem?.mpr ⟨j, hj⟩, hserves⟩

/-- A worker keeps what it serves. -/
theorem served_put (hw : s.workers[i]? = some w) (hpriorities : w'.priorities = w.priorities)
    (hpaused : w'.paused = w.paused) {priority : JobPriorities} :
    (s.put i w').Served priority ↔ s.Served priority := by
  rw [served_iff, served_iff]
  constructor
  · rintro ⟨j, v, hj, hserves⟩
    rw [getElem?_put hw] at hj
    by_cases hji : j = i
    · rw [if_pos hji] at hj
      cases hj
      rw [hpriorities, hpaused] at hserves
      exact ⟨i, w, hw, hserves⟩
    · rw [if_neg hji] at hj
      exact ⟨j, v, hj, hserves⟩
  · rintro ⟨j, v, hj, hserves⟩
    by_cases hji : j = i
    · subst hji
      cases hw.symm.trans hj
      refine ⟨j, w', ?_, by rwa [hpaused, hpriorities]⟩
      rw [getElem?_put hw, if_pos rfl]
    · exact ⟨j, v, by rwa [getElem?_put hw, if_neg hji], hserves⟩

/-- The others still attend to what they attended to, and so does the worker unless it leaves. -/
theorem Attended.put {priority : JobPriorities} (h : s.Attended priority none)
    (hw : s.workers[i]? = some w) (hpriorities : w'.priorities = w.priorities)
    (hstays : w'.stage = .left → w.stage ≠ .left → priority ∈ w.priorities →
      s.Attended priority (some i)) :
    (s.put i w').Attended priority none := by
  have hothers : s.Attended priority (some i) → (s.put i w').Attended priority none := by
    rintro ⟨j, v, hj, hv, hserves⟩
    have hji : j ≠ i := fun heq => hj (congrArg some heq)
    exact ⟨j, v, Option.some_ne_none j, by rwa [getElem?_put hw, if_neg hji], hserves⟩
  obtain ⟨j, v, -, hv, hleft, hserves⟩ := h
  by_cases hji : j = i
  · subst hji
    cases hw.symm.trans hv
    by_cases hw' : w'.stage = .left
    · exact hothers (hstays hw' hleft hserves)
    · refine ⟨j, w', Option.some_ne_none j, ?_, hw', by rwa [hpriorities]⟩
      rw [getElem?_put hw, if_pos rfl]
  · exact hothers ⟨j, v, fun heq => hji (Option.some.inj heq), hv, hleft, hserves⟩

/-- A job stays accounted for when its worker is replaced by one that still runs it or has run
    it. -/
theorem Accounted.put {q : Queued} (h : s.Accounted q) (hw : s.workers[i]? = some w)
    (hjob : ∀ q, w.stage.job? = some q → w'.stage.job? = some q ∨ q ∈ s.finished) :
    (s.put i w').Accounted q := by
  rcases h with hholds | ⟨j, v, hj, hruns⟩ | hfinished
  · exact .inl hholds
  · right
    by_cases hji : j = i
    · subst hji
      cases hw.symm.trans hj
      rcases hjob q hruns with hruns' | hfinished
      · refine .inl ⟨j, w', ?_, hruns'⟩
        rw [getElem?_put hw, if_pos rfl]
      · exact .inr hfinished
    · exact .inl ⟨j, v, by rwa [getElem?_put hw, if_neg hji], hruns⟩
  · exact .inr (.inr hfinished)

/-- Replacing a worker joins none. -/
theorem joined_put : (s.put i w').joined = s.joined := by
  have hlength : (s.put i w').workers.length = s.workers.length := List.length_set
  rw [joined, joined, hlength]
  rfl

/-- A worker is replaced that has not dropped the job it ran: its push may have moved on, as far as
    the flag allows, and it leaves only when its jobs are attended to. -/
theorem Sound.put (h : Sound s) (hw : s.workers[i]? = some w)
    (hpriorities : w'.priorities = w.priorities) (hpaused : w'.paused = w.paused)
    (hjob : ∀ q, w.stage.job? = some q → w'.stage.job? = some q ∨ q ∈ s.finished)
    (hpush : ∀ push, w'.stage.push? = some push → (s.Flagged → push = .idle) ∧
      ∀ q, push = .queued q ∨ push = .notifying q → s.Accounted q)
    (hleft : w.stage = .left → w'.stage = .left)
    (hstays : ∀ q, s.pool.Holds q → s.Served q.priority → w'.stage = .left → w.stage ≠ .left →
      q.priority ∈ w.priorities → s.Attended q.priority (some i)) : Sound (s.put i w') where
  -- Each part speaks of one worker at a time: of the one that has moved it holds by assumption,
  -- of the others as before.
  represented := h.represented
  locked := by
    intro hflagged
    refine ⟨(h.locked hflagged).1, ?_⟩
    intro j push hj
    rw [pushStage_put hw] at hj
    by_cases hji : j = i
    · rw [if_pos (congrArg Pusher.job hji)] at hj
      exact (hpush push hj).1 hflagged
    · rw [if_neg (fun heq => hji (Pusher.job.inj heq))] at hj
      exact (h.locked hflagged).2 j push hj
  left := by
    intro j v hj hv
    rw [joined_put] at hj
    rw [getElem?_put hw] at hv
    by_cases hji : j = i
    · rw [if_pos hji] at hv
      cases hv
      exact hleft (h.left i w (hji ▸ hj) hw)
    · rw [if_neg hji] at hv
      exact h.left j v hj hv
  attended := by
    intro hstop q hholds hserved
    have hserved' := (served_put hw hpriorities hpaused).mp hserved
    exact (h.attended hstop q hholds hserved').put hw hpriorities
      (fun hw' hw hserves => hstays q hholds hserved' hw' hw hserves)
  pushed := by
    intro who q hwho
    refine Accounted.put ?_ hw hjob
    rw [pushStage_put hw] at hwho
    by_cases hi : who = .job i
    · rw [if_pos hi] at hwho
      rcases hwho with hpush' | hpush'
      · exact (hpush _ hpush').2 q (.inl rfl)
      · exact (hpush _ hpush').2 q (.inr rfl)
    · rw [if_neg hi] at hwho
      exact h.pushed who q hwho
  reported := fun q hq => (h.reported q hq).put hw hjob

/-- The push of the worker is where the invariant has it. -/
theorem Sound.push_of_worker (h : Sound s) (hw : s.workers[i]? = some w) {push : PushStage}
    (hpush : w.stage.push? = some push) : (s.Flagged → push = .idle) ∧
      ∀ q, push = .queued q ∨ push = .notifying q → s.Accounted q := by
  have hstage : s.pushStage (.job i) = some push := by
    rw [pushStage, hw]
    exact hpush
  refine ⟨fun hflagged => (h.locked hflagged).2 i push hstage, ?_⟩
  intro q hq
  refine h.pushed (.job i) q ?_
  rw [hstage]
  rcases hq with hq | hq
  · exact .inl (congrArg some hq)
  · exact .inr (congrArg some hq)

/-- A worker that runs no job moves on in its loop, and neither leaves nor pushes. -/
theorem Sound.move (h : Sound s) (hw : s.workers[i]? = some w) {stage : WorkerStage}
    (hbefore : w.stage.job? = none ∧ w.stage ≠ .left)
    (hafter : stage.push? = none ∧ stage ≠ .left) :
    Sound (s.put i { w with stage }) := by
  refine h.put hw rfl rfl ?_ ?_ ?_ ?_
  · intro q hq
    cases hbefore.1.symm.trans hq
  · intro push hpush
    cases hafter.1.symm.trans hpush
  · intro hleft
    exact absurd hleft hbefore.2
  · intro q _ _ hleft
    exact absurd hleft hafter.2

/-- A worker leaves that runs no job. -/
theorem Sound.leave (h : Sound s) (hw : s.workers[i]? = some w) (hjob : w.stage.job? = none)
    (hspares : s.Spares i w) : Sound (s.leave i w) := by
  refine h.put hw rfl rfl ?_ ?_ (fun _ => rfl) ?_
  · intro q hq
    cases hjob.symm.trans hq
  · intro push hpush
    cases hpush
  · intro q hholds hserved _ _ hserves
    exact hspares q hholds hserves hserved

/-! ### Steps of a worker -/

/-- A worker that runs no job begins to count. -/
theorem Sound.hasJob (h : Sound s) (hw : s.workers[i]? = some w)
    (hbefore : w.stage.job? = none ∧ w.stage ≠ .left) : Sound (s.hasJob i w) := by
  unfold Stopping.hasJob
  split
  case isTrue => exact h.move hw hbefore ⟨rfl, fun heq => WorkerStage.noConfusion heq⟩
  case isFalse => exact h.move hw hbefore ⟨rfl, fun heq => WorkerStage.noConfusion heq⟩

/-- A worker that wakes, to count or to stop, keeps the invariant. -/
theorem Sound.wake (h : Sound s) (hnext : s.wake i = some s') : Sound s' := by
  obtain ⟨w, hw, hnext⟩ := Option.bind_eq_some_iff.mp hnext
  split at hnext
  case isTrue => cases hnext
  case isFalse hwaiting =>
    have hstage : w.stage = .waiting := not_not.mp hwaiting
    have hbefore : w.stage.job? = none ∧ w.stage ≠ .left := by
      rw [hstage]
      decide
    split at hnext
    case isTrue =>
      cases hnext
      exact h.move hw hbefore (by decide)
    case isFalse =>
      split at hnext
      case isTrue => cases hnext
      case isFalse =>
        cases hnext
        exact h.hasJob hw hbefore

/-- So do the tests after the wait. -/
theorem Sound.look (h : Sound s) (hnext : s.look i = some s') : Sound s' := by
  obtain ⟨w, hw, hnext⟩ := Option.bind_eq_some_iff.mp hnext
  split at hnext
  case isTrue => cases hnext
  case isFalse hawake =>
    have hstage : w.stage = .awake := not_not.mp hawake
    have hbefore : w.stage.job? = none ∧ w.stage ≠ .left := by
      rw [hstage]
      decide
    split at hnext
    case isTrue =>
      cases hnext
      exact h.hasJob hw hbefore
    case isFalse =>
      split at hnext
      case isTrue =>
        cases hnext
        exact h.move hw hbefore (by decide)
      case isFalse =>
        cases hnext
        exact h.move hw hbefore (by decide)

/-- So does a count, where the worker that leaves spares the jobs still waiting. -/
theorem Sound.count (h : Sound s) (hcareful : s.Careful (.count i))
    (hnext : s.count i = some s') : Sound s' := by
  obtain ⟨w, hw, hnext⟩ := Option.bind_eq_some_iff.mp hnext
  have hcounting : ∀ {rest n}, w.stage = .counting rest n →
      w.stage.job? = none ∧ w.stage ≠ .left := by
    intro rest n hstage
    rw [hstage]
    exact ⟨rfl, fun heq => WorkerStage.noConfusion heq⟩
  split at hnext
  case h_1 priority rest n hstage =>
    cases hnext
    exact h.move hw (hcounting hstage) ⟨rfl, fun heq => WorkerStage.noConfusion heq⟩
  case h_2 n hstage =>
    have hbefore := hcounting hstage
    split at hnext
    case isTrue hstop =>
      split at hnext
      case isTrue hzero =>
        -- it leaves, with nothing counted
        cases hnext
        exact h.leave hw hbefore.1 (hcareful w hw hstop (hzero ▸ hstage))
      case isFalse =>
        cases hnext
        exact h.move hw hbefore (by decide)
    case isFalse =>
      split at hnext
      case isTrue =>
        cases hnext
        exact h.move hw hbefore (by decide)
      case isFalse =>
        cases hnext
        exact h.move hw hbefore (by decide)
  case h_3 => cases hnext

/-- A count that nobody disturbs is the sum over the priorities. -/
theorem count_sum (priorities : List JobPriorities) : ∀ {s : Stopping} {w : PoolWorker} {n : Nat},
    s.workers[i]? = some w → w.stage = .counting priorities n →
    (List.replicate priorities.length (Action.count i)).foldlM next s = some (s.put i { w with
      stage := .counting [] (n + (priorities.map s.pool.queueSize).sum) }) := by
  induction priorities with
  | nil =>
    intro s w n hw hstage
    obtain ⟨hlt, hget⟩ := List.getElem?_eq_some_iff.mp hw
    have hsame : s.put i { w with stage := .counting [] n } = s := by
      rw [← hstage, ← hget]
      exact congrArg (fun workers => { s with workers }) (List.set_getElem_self hlt)
    exact congrArg some hsame.symm
  | cons priority priorities ih =>
    intro s w n hw hstage
    have hstep : s.next (.count i) = some (s.put i { w with
        stage := .counting priorities (n + s.pool.queueSize priority) }) := by
      show s.workers[i]?.bind _ = _
      rw [hw, Option.bind_some, hstage]
    have hthere : (s.put i { w with
        stage := .counting priorities (n + s.pool.queueSize priority) }).workers[i]? = some _ :=
      (getElem?_put hw _ i).trans (if_pos rfl)
    rw [List.length_cons, List.replicate_succ, List.foldlM_cons, hstep]
    refine (ih hthere rfl).trans ?_
    rw [List.map_cons, List.sum_cons, ← Nat.add_assoc]
    refine congrArg some ?_
    exact congrArg (fun workers => { s with workers }) (List.set_set ..)

/-- **A count that nobody disturbs is `job_count`**, and the worker may then go by it. -/
theorem count_undisturbed (h : Sound s) (hw : s.workers[i]? = some w)
    (hstage : w.stage = .counting w.priorities 0) (hserves : w.priorities ≠ []) :
    let s' := s.put i { w with stage := .counting [] (s.pool.jobCount w.priorities) }
    (List.replicate w.priorities.length (Action.count i)).foldlM next s = some s' ∧
      s'.Careful (.count i) := by
  intro s'
  have hcount : s.pool.jobCount w.priorities = (w.priorities.map s.pool.queueSize).sum := by
    rw [jobCount, if_neg hserves]
  constructor
  · rw [count_sum w.priorities hw hstage, Nat.zero_add, ← hcount]
  · intro w' hw' _ hzero q hholds hpriority
    have hthere : s'.workers[i]? = some { w with
        stage := .counting [] (s.pool.jobCount w.priorities) } :=
      (getElem?_put hw _ i).trans (if_pos rfl)
    obtain rfl := Option.some.inj (hthere.symm.trans hw')
    obtain ⟨waiting, hrepresents⟩ := h.represented
    have hpos : 0 < s.pool.jobCount w.priorities :=
      (jobCount_pos hrepresents hserves).mpr ⟨q, hrepresents.holds_iff.mp hholds, hpriority⟩
    rw [(WorkerStage.counting.inj hzero).2] at hpos
    exact absurd hpos (Nat.lt_irrefl 0)

/-- So does the look at the flag after an empty `pop`, where the worker that leaves spares them. -/
theorem Sound.reload (h : Sound s) (hcareful : s.Careful (.reload i))
    (hnext : s.reload i = some s') : Sound s' := by
  obtain ⟨w, hw, hnext⟩ := Option.bind_eq_some_iff.mp hnext
  split at hnext
  case isTrue => cases hnext
  case isFalse hempty =>
    have hstage : w.stage = .emptyHanded := not_not.mp hempty
    have hbefore : w.stage.job? = none ∧ w.stage ≠ .left := by
      rw [hstage]
      decide
    split at hnext
    case isTrue hstop =>
      cases hnext
      exact h.leave hw hbefore.1 (hcareful w hw hstop)
    case isFalse =>
      cases hnext
      exact h.move hw hbefore (by decide)

/-- The pool is replaced: what it holds it held, and what it held and does not hold any more is
    accounted for otherwise. -/
theorem Sound.repool (h : Sound s) {pool : JobPool}
    (hrepresents : ∃ waiting, Represents pool waiting)
    (hlock : pool.lockCondition = s.pool.lockCondition)
    (hless : ∀ q, pool.Holds q → s.pool.Holds q)
    (hsame : ∀ q, s.pool.Holds q → Accounted { s with pool } q) : Sound { s with pool } := by
  have haccounted : ∀ q, s.Accounted q → Accounted { s with pool } q := by
    intro q hq
    rcases hq with hholds | hruns
    · exact hsame q hholds
    · exact .inr hruns
  refine ⟨hrepresents, ?_, h.left, ?_, ?_, ?_⟩
  · intro hflagged
    exact ⟨hlock.trans (h.locked hflagged).1, (h.locked hflagged).2⟩
  · intro hstop q hholds hserved
    exact h.attended hstop q (hless q hholds) hserved
  · intro who q hwho
    exact haccounted q (h.pushed who q hwho)
  · intro q hq
    exact haccounted q (h.reported q hq)

/-- A popped job stays accounted for: its worker runs it. -/
theorem Sound.popJob (h : Sound s) (hnext : s.popJob i = some s') : Sound s' := by
  obtain ⟨waiting, hrepresents⟩ := h.represented
  obtain ⟨w, hw, hnext⟩ := Option.bind_eq_some_iff.mp hnext
  obtain ⟨hjob, hpool, hlock⟩ := pop_spec hrepresents w.priorities
  split at hnext
  case isTrue => cases hnext
  case isFalse hpopping =>
    have hstage : w.stage = .popping := not_not.mp hpopping
    have hbefore : w.stage.job? = none ∧ w.stage ≠ .left := by
      rw [hstage]
      decide
    cases hserved : Lanes.next Queued.priority w.priorities waiting with
    | none =>
      rw [hserved] at hjob
      rw [Lanes.serve_of_none hserved] at hpool
      dsimp only at hnext
      rw [hjob] at hnext
      cases hnext
      have hmoved : Sound (s.put i { w with stage := .emptyHanded }) :=
        h.move hw hbefore (by decide)
      refine hmoved.repool ⟨waiting, hpool⟩ hlock ?_ ?_
      · intro q hq
        exact hrepresents.holds_iff.mpr (hpool.holds_iff.mp hq)
      · intro q hq
        exact .inl (hpool.holds_iff.mpr (hrepresents.holds_iff.mp hq))
    | some q =>
      rw [hserved] at hjob
      dsimp only at hnext
      rw [hjob] at hnext
      cases hnext
      have hperm := Lanes.serve_perm hserved
      have hmoved : Sound (s.put i { w with stage := .running q .idle }) := by
        refine h.put hw rfl rfl ?_ ?_ ?_ ?_
        · intro q' hq'
          cases hbefore.1.symm.trans hq'
        · intro push hpush
          cases hpush
          exact ⟨fun _ => rfl, fun q' hq' => by rcases hq' with hq' | hq' <;> cases hq'⟩
        · intro hleft
          exact absurd hleft hbefore.2
        · intro q' _ _ hleft
          cases hleft
      refine hmoved.repool ⟨_, hpool⟩ hlock ?_ ?_
      · intro q' hq'
        have hmem := hperm.mem_iff.mpr (List.mem_cons_of_mem q (hpool.holds_iff.mp hq'))
        exact hrepresents.holds_iff.mpr hmem
      · intro q' hq'
        rcases List.mem_cons.mp (hperm.mem_iff.mp (hrepresents.holds_iff.mp hq')) with hsame | hrest
        · -- the job that was taken runs now
          subst hsame
          refine .inr (.inl ⟨i, { w with stage := .running q' .idle }, ?_, rfl⟩)
          exact (getElem?_put hw _ i).trans (if_pos rfl)
        · exact .inl (hpool.holds_iff.mpr hrest)

/-- A job that has been run stays accounted for. -/
theorem Sound.finish (h : Sound s) (hnext : s.finish i = some s') : Sound s' := by
  obtain ⟨w, hw, hnext⟩ := Option.bind_eq_some_iff.mp hnext
  split at hnext
  case h_2 => cases hnext
  case h_1 q hstage =>
    cases hnext
    have hgrown : ∀ q', s.Accounted q' →
        Accounted { s with finished := s.finished ++ [q] } q' := by
      intro q' hq'
      rcases hq' with hholds | hruns | hfinished
      · exact .inl hholds
      · exact .inr (.inl hruns)
      · exact .inr (.inr (List.mem_append_left _ hfinished))
    have hfinished : Sound { s with finished := s.finished ++ [q] } :=
      ⟨h.represented, h.locked, h.left, h.attended, fun who q' hwho => hgrown q' (h.pushed who q' hwho),
        fun q' hq' => hgrown q' (h.reported q' hq')⟩
    refine hfinished.put hw rfl rfl ?_ ?_ ?_ ?_
    · intro q' hq'
      rw [hstage] at hq'
      cases hq'
      exact .inr (List.mem_append_right _ List.mem_cons_self)
    · intro push hpush
      cases hpush
    · intro hleft
      rw [hstage] at hleft
      cases hleft
    · intro q' _ _ hleft
      cases hleft

/-! ### Steps of a push -/

/-- A worker that is in a push runs a job. -/
theorem pushStage_job {push : PushStage} (h : s.pushStage (.job i) = some push) :
    ∃ w job, s.workers[i]? = some w ∧ w.stage = .running job push := by
  obtain ⟨w, hw, hpush⟩ := Option.bind_eq_some_iff.mp h
  cases hstage : w.stage with
  | running job push' =>
    rw [hstage] at hpush
    cases hpush
    exact ⟨w, job, hw, hstage⟩
  | waiting => rw [hstage] at hpush; cases hpush
  | counting => rw [hstage] at hpush; cases hpush
  | awake => rw [hstage] at hpush; cases hpush
  | popping => rw [hstage] at hpush; cases hpush
  | emptyHanded => rw [hstage] at hpush; cases hpush
  | left => rw [hstage] at hpush; cases hpush

/-- A push moves on: not past the flag in the job of a worker while the flag is set, and with its
    job accounted for once the job is in the queue. -/
theorem Sound.setPush (h : Sound s) {who : Pusher} {stage stage' : PushStage}
    (hwho : s.pushStage who = some stage)
    (hflag : s.Flagged → (∃ worker, who = .job worker) → stage' = .idle)
    (hjob : ∀ q, stage' = .queued q ∨ stage' = .notifying q → s.Accounted q) :
    Sound (s.setPush who stage') := by
  cases who with
  | outside thread =>
    refine ⟨h.represented, h.locked, h.left, h.attended, ?_, h.reported⟩
    intro who q hq
    show s.Accounted q
    cases who with
    | job worker => exact h.pushed (.job worker) q hq
    | outside thread' =>
      have hupdated : (s.setPush (.outside thread) stage').pushStage (.outside thread') =
          some (Function.update s.outside thread stage' thread') := rfl
      rw [hupdated] at hq
      by_cases hsame : thread' = thread
      · rw [hsame, Function.update_self] at hq
        exact hjob q (hq.imp Option.some.inj Option.some.inj)
      · rw [Function.update_of_ne hsame] at hq
        exact h.pushed (.outside thread') q hq
  | job worker =>
    obtain ⟨w, job, hw, hstage⟩ := pushStage_job hwho
    have hput : s.setPush (.job worker) stage' =
        s.put worker { w with stage := .running job stage' } := by
      rw [Stopping.setPush, hw]
      dsimp only
      rw [hstage]
    rw [hput]
    refine h.put hw rfl rfl ?_ ?_ ?_ ?_
    · intro q hq
      rw [hstage] at hq
      exact .inl hq
    · intro push hpush
      cases hpush
      exact ⟨fun hflagged => hflag hflagged ⟨worker, rfl⟩, hjob⟩
    · intro hleft
      rw [hstage] at hleft
      cases hleft
    · intro q _ _ hleft
      cases hleft

/-- The beginning of a push keeps the invariant: while the flag is set no job of a worker gets past
    it. -/
theorem Sound.test (h : Sound s) {who : Pusher} {job : Option Job}
    (hnext : s.test who job = some s') : Sound s' := by
  unfold Stopping.test at hnext
  split at hnext
  case h_1 =>
    cases hnext
    exact h
  case h_2 job hidle =>
    split at hnext
    case isTrue =>
      cases hnext
      exact h
    case isFalse hlock =>
      cases hnext
      refine h.setPush hidle ?_ ?_
      · -- while the flag is set the push is refused
        intro hflagged
        exact absurd (h.locked hflagged).1 hlock
      · intro q hq
        rcases hq with hq | hq <;> cases hq
  case h_3 => cases hnext

/-- An insertion keeps it where the priority is still attended. -/
theorem Sound.insert (h : Sound s) {who : Pusher} (hcareful : s.Careful (.insert who))
    (hnext : s.insert who = some s') : Sound s' := by
  obtain ⟨waiting, hrepresents⟩ := h.represented
  rw [Stopping.insert] at hnext
  split at hnext
  case h_2 => cases hnext
  case h_1 job htested =>
    cases hnext
    rcases enqueue_spec hrepresents ⟨s.pushes, job⟩ with
      ⟨-, -, hfull⟩ | ⟨-, hanswer, hjoined, hlock⟩
    · rw [hfull]
      have hcounted : Sound { s with pushes := s.pushes + 1 } := { h with }
      refine hcounted.setPush htested (fun _ _ => rfl) ?_
      intro q hq
      rcases hq with hq | hq <;> cases hq
    · have hgrown : ∀ q, s.pool.Holds q →
          (s.pool.enqueue ⟨s.pushes, job⟩).2.Holds q := by
        intro q hq
        exact hjoined.holds_iff.mpr (List.mem_append_left _ (hrepresents.holds_iff.mp hq))
      have haccounted : ∀ q, s.Accounted q → Accounted { s with
          pool := (s.pool.enqueue ⟨s.pushes, job⟩).2, pushes := s.pushes + 1 } q := by
        intro q hq
        rcases hq with hholds | hruns
        · exact .inl (hgrown q hholds)
        · exact .inr hruns
      have hinserted : Sound { s with
          pool := (s.pool.enqueue ⟨s.pushes, job⟩).2, pushes := s.pushes + 1 } := by
        refine ⟨⟨_, hjoined⟩, ?_, h.left, ?_, fun who q hq => haccounted q (h.pushed who q hq),
          fun q hq => haccounted q (h.reported q hq)⟩
        · intro hflagged
          exact ⟨hlock.trans (h.locked hflagged).1, (h.locked hflagged).2⟩
        · intro hstop q hholds hserved
          rcases List.mem_append.mp (hjoined.holds_iff.mp hholds) with hold | hnew
          · exact h.attended hstop q (hrepresents.holds_iff.mpr hold) hserved
          · rw [List.mem_singleton.mp hnew] at hserved ⊢
            exact hcareful job htested hstop (congrArg Prod.fst hanswer) hserved
      rw [hanswer]
      refine hinserted.setPush htested ?_ ?_
      · -- the job of a worker cannot be past the flag now
        rintro hflagged ⟨worker, rfl⟩
        cases (h.locked hflagged).2 worker _ htested
      · intro q hq
        have hnew : q = ⟨s.pushes, job⟩ := by
          rcases hq with hq | hq <;> cases hq
          rfl
        refine .inl (hjoined.holds_iff.mpr (List.mem_append_right _ ?_))
        exact List.mem_singleton.mpr hnew

/-- A push that takes the mutex keeps the invariant, for `stop` does not hold it then. -/
theorem Sound.acquire (h : Sound s) {who : Pusher} (hnext : s.acquire who = some s') :
    Sound s' := by
  rw [Stopping.acquire] at hnext
  split at hnext
  case h_2 => cases hnext
  case h_1 q hqueued hfree =>
    cases hnext
    have hheld : Sound { s with mutex := some (.pusher who) } := { h with }
    refine hheld.setPush hqueued ?_ ?_
    · rintro hflagged ⟨worker, rfl⟩
      cases (h.locked hflagged).2 worker _ hqueued
    · intro q' hq'
      have hsame : q' = q := by
        rcases hq' with hq' | hq' <;> cases hq'
        rfl
      exact hsame ▸ h.pushed who q (.inl hqueued)

/-- A push reports a job that is accounted for. -/
theorem Sound.report (h : Sound s) {who : Pusher} (hnext : s.report who = some s') :
    Sound s' := by
  rw [Stopping.report] at hnext
  split at hnext
  case h_2 => cases hnext
  case h_1 q hnotifying =>
    cases hnext
    have hanswered : Sound { s with mutex := none, reported := s.reported ++ [q] } := by
      refine ⟨h.represented, h.locked, h.left, h.attended, h.pushed, ?_⟩
      intro q' hq'
      rcases List.mem_append.mp hq' with hold | hnew
      · exact h.reported q' hold
      · rw [List.mem_singleton.mp hnew]
        exact h.pushed who q (.inr hnotifying)
    refine hanswered.setPush hnotifying (fun _ _ => rfl) ?_
    intro q' hq'
    rcases hq' with hq' | hq' <;> cases hq'

/-! ### Steps of `stop` -/

/-- `stop` enters while no push notifies. -/
theorem Sound.enter (h : Sound s) (hnext : s.enter = some s') : Sound s' := by
  unfold Stopping.enter at hnext
  split at hnext
  case isFalse => cases hnext
  case isTrue habsent =>
    cases hnext
    refine ⟨h.represented, ?_, ?_, fun _ => h.attended ?_, h.pushed, h.reported⟩
    · rintro ⟨k, hk | hk⟩ <;> cases hk
    · intro j v hj
      exact absurd hj (Nat.not_lt_zero j)
    · rw [habsent.1]
      decide

/-- The flag is set while no running job pushes. -/
theorem Sound.setFlag (h : Sound s) (hcareful : s.Careful .setFlag)
    (hnext : s.setFlag = some s') : Sound s' := by
  unfold Stopping.setFlag at hnext
  split at hnext
  case isFalse => cases hnext
  case isTrue hstop =>
    cases hnext
    refine ⟨h.represented, fun _ => ⟨rfl, hcareful⟩, ?_, fun _ => h.attended ?_, h.pushed,
      h.reported⟩
    · intro j v hj
      exact absurd hj (Nat.not_lt_zero j)
    · rw [hstop]
      decide

/-- A signalled worker is marked, and takes jobs as long as there are any. -/
theorem Sound.signal (h : Sound s) (hnext : s.signal = some s') : Sound s' := by
  unfold Stopping.signal at hnext
  split at hnext
  case h_2 => cases hnext
  case h_1 k hstop =>
    obtain ⟨w, hw, hnext⟩ := Option.bind_eq_some_iff.mp hnext
    split at hnext
    case isTrue => cases hnext
    case isFalse =>
      cases hnext
      have hjoined : s.joined = k := by rw [joined, hstop]
      have hstopped : s.stop ≠ .returned := by
        rw [hstop]
        exact fun heq => StopStage.noConfusion heq
      have hflagged : s.Flagged := ⟨k, .inl hstop⟩
      have hjoining : Sound { s with stop := .joining k } := by
        refine ⟨h.represented, fun _ => h.locked hflagged, ?_, fun _ => h.attended hstopped,
          h.pushed, h.reported⟩
        intro j v hj
        exact h.left j v (hjoined ▸ hj)
      refine hjoining.put hw rfl rfl (fun q hq => .inl hq) ?_ id ?_
      · intro push hpush
        exact hjoining.push_of_worker hw hpush
      · intro q _ _ hleft hstays
        exact absurd hleft hstays

/-- A joined worker has left. -/
theorem Sound.join (h : Sound s) (hnext : s.join = some s') : Sound s' := by
  unfold Stopping.join at hnext
  split at hnext
  case h_2 => cases hnext
  case h_1 k hstop =>
    obtain ⟨w, hw, hnext⟩ := Option.bind_eq_some_iff.mp hnext
    split at hnext
    case isFalse => cases hnext
    case isTrue hleft =>
      cases hnext
      have hjoined : s.joined = k := by rw [joined, hstop]
      have hstopped : s.stop ≠ .returned := by
        rw [hstop]
        exact fun heq => StopStage.noConfusion heq
      have hflagged : s.Flagged := ⟨k, .inr hstop⟩
      refine ⟨h.represented, fun _ => h.locked hflagged, ?_, fun _ => h.attended hstopped,
        h.pushed, h.reported⟩
      intro j v hj hv
      rcases Nat.lt_succ_iff_lt_or_eq.mp hj with hlt | heq
      · exact h.left j v (hjoined ▸ hlt) hv
      · subst heq
        cases hw.symm.trans hv
        exact hleft

/-- The flag is taken back when all workers are joined. -/
theorem Sound.unsetFlag (h : Sound s) (hnext : s.unsetFlag = some s') : Sound s' := by
  unfold Stopping.unsetFlag at hnext
  split at hnext
  case h_2 => cases hnext
  case h_1 k hstop =>
    split at hnext
    case isTrue => cases hnext
    case isFalse hall =>
      cases hnext
      have hjoined : s.joined = k := by rw [joined, hstop]
      have hstopped : s.stop ≠ .returned := by
        rw [hstop]
        exact fun heq => StopStage.noConfusion heq
      refine ⟨h.represented, ?_, ?_, fun _ => h.attended hstopped, h.pushed, h.reported⟩
      · rintro ⟨k, hk | hk⟩ <;> cases hk
      · intro j v hj
        have hlt : j < s.workers.length := hj
        exact h.left j v (by omega)

/-- Giving the mutex back keeps the invariant. -/
theorem Sound.release (h : Sound s) (hnext : s.release = some s') : Sound s' := by
  unfold Stopping.release at hnext
  split at hnext
  case isFalse => cases hnext
  case isTrue hstop =>
    cases hnext
    have hjoined : s.joined = s.workers.length := by rw [joined, hstop]
    have hstopped : s.stop ≠ .returned := by
      rw [hstop]
      decide
    refine ⟨h.represented, ?_, ?_, fun _ => h.attended hstopped, h.pushed, h.reported⟩
    · rintro ⟨k, hk | hk⟩ <;> cases hk
    · intro j v hj
      exact h.left j v (hjoined ▸ hj)

/-- **When `stop` returns, what was reported is done:** nobody is left to run it later, so it has
    been run. -/
theorem Sound.giveBack (h : Sound s) (hnext : s.giveBack = some s') : Sound s' ∧ s'.Done := by
  unfold Stopping.giveBack at hnext
  split at hnext
  case isFalse => cases hnext
  case isTrue hstop =>
    cases hnext
    have hjoined : s.joined = s.workers.length := by rw [joined, hstop]
    have hall : ∀ (j : Nat) (v : PoolWorker), s.workers[j]? = some v → v.stage = .left := by
      intro j v hv
      obtain ⟨hlt, -⟩ := List.getElem?_eq_some_iff.mp hv
      exact h.left j v (hjoined ▸ hlt) hv
    constructor
    · refine ⟨h.represented, ?_, ?_, fun hreturned => absurd rfl hreturned, h.pushed, h.reported⟩
      · rintro ⟨k, hk | hk⟩ <;> cases hk
      · intro j v _ hv
        exact hall j v hv
    · intro q hq hserved
      rcases h.reported q hq with hholds | ⟨j, v, hv, hruns⟩ | hfinished
      · -- a job that waits is attended to, but every worker has left
        have hstopped : s.stop ≠ .returned := by
          rw [hstop]
          decide
        obtain ⟨j, v, -, hv, hstays, -⟩ := h.attended hstopped q hholds hserved
        exact absurd (hall j v hv) hstays
      · rw [hall j v hv] at hruns
        cases hruns
      · exact hfinished

/-- Every careful step keeps the invariant. -/
theorem Sound.next (h : Sound s) {a : Action} (hcareful : s.Careful a)
    (hnext : s.next a = some s') : Sound s' := by
  cases a with
  | test who job => exact h.test hnext
  | insert who => exact h.insert hcareful hnext
  | acquire who => exact h.acquire hnext
  | report who => exact h.report hnext
  | wake i => exact h.wake hnext
  | look i => exact h.look hnext
  | count i => exact h.count hcareful hnext
  | pop i => exact h.popJob hnext
  | reload i => exact h.reload hcareful hnext
  | finish i => exact h.finish hnext
  | enter => exact h.enter hnext
  | setFlag => exact h.setFlag hcareful hnext
  | signal => exact h.signal hnext
  | join => exact h.join hnext
  | unsetFlag => exact h.unsetFlag hnext
  | release => exact h.release hnext
  | giveBack => exact (h.giveBack hnext).1

/-- Nobody is stuck: while a worker is joined, no running job waits for the mutex. -/
theorem Sound.not_stuck (h : Sound s) : ¬s.Stuck := by
  rintro ⟨k, q, hstop, -, hwaits⟩
  cases (h.locked ⟨k, .inr hstop⟩).2 k _ hwaits

/-- The invariant holds of a pool that has just been started. -/
theorem sound_start (workers : List PoolWorker) : Sound (machine workers).start where
  represented := ⟨[], represents_fresh⟩
  locked := by
    rintro ⟨k, hk | hk⟩ <;> cases hk
  left := by
    intro j v hj
    exact absurd hj (Nat.not_lt_zero j)
  attended := by
    intro _ q hholds
    cases represents_fresh.holds_iff.mp hholds
  pushed := by
    intro who q hwho
    cases who with
    | outside thread => rcases hwho with hwho | hwho <;> cases hwho
    | job worker =>
      exfalso
      rcases hwho with hwho | hwho
      all_goals
        obtain ⟨w, job, hw, hstage⟩ := pushStage_job hwho
        obtain ⟨v, -, rfl⟩ := List.mem_map.mp (List.mem_of_getElem? hw)
        cases hstage
  reported := by
    intro q hq
    cases hq

/-- **A stop is graceful** in every run of careful steps: no worker is stuck, and when it returns
    every job that was accepted and is served has been run. -/
theorem stop_graceful {workers : List PoolWorker} {h : History Stopping Action Unit}
    {s : Stopping} (run : Run (machine workers) PossibleCareful h s) : ∀ r ∈ h, Graceful r := by
  have hall : (∀ r ∈ h, Graceful r) ∧ Sound s := by
    refine run.invariant (fun h s => (∀ r ∈ h, Graceful r) ∧ Sound s)
      ⟨by simp, sound_start workers⟩ ?_
    rintro h s a - ⟨hgraceful, hsound⟩ ⟨hpossible, hcareful⟩
    obtain ⟨s', hs'⟩ := Option.isSome_iff_exists.mp hpossible
    have hafter : ((machine workers).step s a).2 = s' := by
      show (s.next a).getD s = s'
      rw [hs', Option.getD_some]
    have hsound' := hsound.next hcareful hs'
    rw [hafter]
    refine ⟨?_, hsound'⟩
    intro r hr
    rcases List.mem_cons.mp hr with hlast | hr
    · rw [hlast]
      refine ⟨?_, ?_⟩
      · rw [Machine.stepAt_after, hafter]
        exact hsound'.not_stuck
      · intro hgives
        rw [Machine.stepAt_after, hafter]
        have hnext : s.giveBack = some s' := by
          rw [← hs']
          exact congrArg s.next hgives.symm
        exact (hsound.giveBack hnext).2
    · exact hgraceful r hr
  exact hall.1

/-- Whether an action is possible can be computed. -/
instance (h : History Stopping Action Unit) (s : Stopping) (a : Action) :
    Decidable (Possible h s a) := inferInstanceAs (Decidable (_ = true))

/-- A job, pushed from outside. -/
def pushed : List Action :=
  [.test (.outside 0) (some ⟨.normal, "job"⟩), .insert (.outside 0), .acquire (.outside 0),
    .report (.outside 0)]

/-- A worker that runs a job is stopped when the job is done. -/
theorem stop_graceful_one : ∃ (h : History Stopping Action Unit) (s : Stopping),
    Run (machine [{ priorities := [.normal] }]) PossibleCareful h s ∧
    s.stop = .returned ∧ s.reported = s.finished ∧ s.reported ≠ [] ∧ ∀ r ∈ h, Graceful r := by
  let actions : List Action := pushed ++ [.wake 0, .count 0, .count 0, .look 0, .pop 0, .finish 0,
    .enter, .setFlag, .signal, .wake 0, .look 0, .count 0, .count 0, .join, .unsetFlag, .release,
    .giveBack]
  have hidle : ∀ (i : Nat) (push : PushStage),
      ([({ priorities := [.normal] } : PoolWorker)][i]?.bind fun w => w.stage.push?) = some push →
      push = .idle := by
    intro i push hpush
    cases i with
    | zero => cases hpush
    | succ i => cases hpush
  have hpermits : (machine [{ priorities := [.normal] }]).Permits PossibleCareful actions
      ([], (machine [{ priorities := [.normal] }]).start) := by
    refine ⟨⟨by decide, trivial⟩, ⟨by decide, ?_⟩, ⟨by decide, trivial⟩, ⟨by decide, trivial⟩,
      ⟨by decide, trivial⟩, ⟨by decide, ?_⟩, ⟨by decide, ?_⟩, ⟨by decide, trivial⟩,
      ⟨by decide, trivial⟩, ⟨by decide, trivial⟩, ⟨by decide, trivial⟩, ⟨by decide, hidle⟩,
      ⟨by decide, trivial⟩, ⟨by decide, trivial⟩, ⟨by decide, trivial⟩, ⟨by decide, ?_⟩,
      ⟨by decide, ?_⟩, ⟨by decide, trivial⟩, ⟨by decide, trivial⟩, ⟨by decide, trivial⟩,
      ⟨by decide, trivial⟩, trivial⟩
    · intro job hjob _ _ _
      cases hjob
      exact ⟨0, { priorities := [.normal] }, by decide, rfl, by decide, by decide⟩
    · intro w hw hstop
      cases hw
      cases hstop
    · intro w hw hstop
      cases hw
      cases hstop
    · intro w hw _ hstage
      cases hw
      cases hstage
    · -- nothing waits when the worker leaves
      intro w hw _ _ q hholds hpriority
      cases hw
      obtain hnormal : q.priority = .normal := List.mem_singleton.mp hpriority
      rw [Holds, hnormal] at hholds
      cases hholds
  have hrun := run_replay actions hpermits
  exact ⟨_, _, hrun, by decide, by decide, by decide, stop_graceful hrun⟩

/-- The return of `stop` ends a run that was not graceful, when a reported job is left. -/
theorem not_graceful_of_lost {workers : List PoolWorker} {actions : List Action} {q : Queued}
    (hpermits : (machine workers).Permits Possible actions ([], (machine workers).start)) :
    let r := (machine workers).replay actions ([], (machine workers).start)
    let after := ((machine workers).stepAt r.2 .giveBack).after
    Possible r.1 r.2 .giveBack → q ∈ after.reported → after.Served q.priority → q ∉ after.finished →
    ∃ (h : History Stopping Action Unit) (s : Stopping),
      Run (machine workers) Possible h s ∧ ¬s.Done ∧ ¬∀ r ∈ h, Graceful r := by
  intro r after hlast hreported hserved hleft
  have hrun := (run_replay actions hpermits).stepAt .giveBack hlast
  have hnot : ¬after.Done := fun hdone => hleft (hdone q hreported hserved)
  refine ⟨_, _, hrun, hnot, ?_⟩
  intro hall
  exact hnot ((hall _ List.mem_cons_self).2 rfl)

/-- A job that has read the flag before `stop` set it, and comes to the queue after, waits for the
    mutex that `stop` holds while it waits for the job's worker; a push from outside that does so
    reports success for a job that nobody runs; and so does one that comes to the queue between two
    looks of the last worker, which has found the queue of the job's priority empty. -/
theorem stop_not_graceful :
    (∃ (h : History Stopping Action Unit) (s : Stopping),
      Run (machine [{ priorities := [.normal] }]) Possible h s ∧ s.Stuck ∧
      ¬∀ r ∈ h, Graceful r) ∧
    (∃ (h : History Stopping Action Unit) (s : Stopping),
      Run (machine [{ priorities := [.normal] }]) Possible h s ∧ ¬s.Done ∧
      ¬∀ r ∈ h, Graceful r) ∧
    ∃ (h : History Stopping Action Unit) (s : Stopping),
      Run (machine [{ priorities := [.normal, .low] }]) Possible h s ∧ ¬s.Done ∧
      ¬∀ r ∈ h, Graceful r := by
  let job : Job := ⟨.normal, "job"⟩
  let stuck : List Action := pushed ++ [.wake 0, .count 0, .count 0, .look 0, .pop 0,
    .test (.job 0) (some ⟨.normal, "nested"⟩), .enter, .setFlag, .insert (.job 0)]
  let lost : List Action := [.test (.outside 0) (some job), .enter, .setFlag, .signal, .wake 0,
    .look 0, .count 0, .count 0, .join, .insert (.outside 0), .unsetFlag, .release,
    .acquire (.outside 0), .report (.outside 0)]
  let overlooked : List Action := [.test (.outside 0) (some job), .enter, .setFlag, .signal,
    .wake 0, .look 0, .count 0, .insert (.outside 0), .count 0, .count 0, .join, .unsetFlag,
    .release, .acquire (.outside 0), .report (.outside 0)]
  refine ⟨?_, ?_, ?_⟩
  · have hrun := @run_replay _ _ _ (machine [{ priorities := [.normal] }]) Possible stuck (by decide)
    have hlast := hrun.stepAt .signal (by decide)
    refine ⟨_, _, hlast, ?_, ?_⟩
    · exact ⟨0, ⟨1, ⟨.normal, "nested"⟩⟩, by decide, by decide, by decide⟩
    · intro hall
      refine (hall _ List.mem_cons_self).1 ?_
      exact ⟨0, ⟨1, ⟨.normal, "nested"⟩⟩, by decide, by decide, by decide⟩
  · exact @not_graceful_of_lost [{ priorities := [.normal] }] lost ⟨0, job⟩ (by decide) (by decide)
      (by decide) ⟨{ priorities := [.normal], stage := .left }, by decide, rfl, by decide⟩
      (by decide)
  · exact @not_graceful_of_lost [{ priorities := [.normal, .low] }] overlooked ⟨0, job⟩ (by decide)
      (by decide) (by decide)
      ⟨{ priorities := [.normal, .low], stage := .left }, by decide, rfl, by decide⟩ (by decide)

end Stopping

end YirangMQ

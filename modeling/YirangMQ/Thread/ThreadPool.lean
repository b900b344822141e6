import YirangMQ.Library.LifeCycle

namespace YirangMQ

/-!
# The thread pool

`ThreadWorker` and `ThreadPool`, as far as their life cycle goes.  A worker has one promise for all
its life, which its thread fulfils when it runs; `get_future` throws on a promise whose future has
been retrieved.  `ThreadPool::start` starts every worker it holds, those of an earlier start
included.

* `ThreadWorker.start`, `ThreadWorker.stop`, `ThreadPool.push`, `ThreadPool.start`,
  `ThreadPool.stop`;
* `ThreadPool.lifeCycle` — the pool as an object that is started and stopped;
* `ThreadPool.oneShot` — **it can be started once.**
-/

/-- `JobPriorities`: the classes of jobs, each with a queue of its own. -/
inductive JobPriorities where
  | top
  | high
  | normal
  | low
  | longTerm
  deriving DecidableEq, Repr

/-- A job, as far as the pool looks at it. -/
structure Job where
  priority : JobPriorities
  title : String
  deriving DecidableEq, Repr

/-! ### Workers -/

/-- A worker: `retrieved` says that the future of its promise has been retrieved, and `thread` that
    its thread runs. -/
structure ThreadWorker where
  priorities : List JobPriorities
  retrieved : Bool := false
  thread : Bool := false
  threadStop : Bool := false
  deriving DecidableEq, Repr

namespace ThreadWorker

/-- The thread is told to stop and joined; it clears the flag when it ends. -/
def stop (w : ThreadWorker) : Outcome × ThreadWorker :=
  if w.thread then (.ok, { w with thread := false, threadStop := false })
  else (.refused "Thread is not running.", w)

/-- `allocated` says whether there is memory for the thread. -/
def start (allocated : Bool) (w : ThreadWorker) : Outcome × ThreadWorker :=
  let w := w.stop.2
  if w.priorities = [] then (.refused "cannot start by empty priorities", w)
  else if w.retrieved then (.thrown, { w with threadStop := false })
  else if allocated then (.ok, { w with threadStop := false, retrieved := true, thread := true })
  else (.refused "Failed to create thread instance.",
    { w with threadStop := false, retrieved := true })

/-- The worker's thread takes jobs. -/
def Able (w : ThreadWorker) : Prop := w.thread = true ∧ w.threadStop = false ∧ w.priorities ≠ []

/-- The worker can be started. -/
def Startable (w : ThreadWorker) : Prop := w.priorities ≠ [] ∧ w.retrieved = false

/-- Whether a worker can be started can be computed. -/
instance (w : ThreadWorker) : Decidable w.Startable := inferInstanceAs (Decidable (_ ∧ _))

variable {w : ThreadWorker} {allocated : Bool}

/-- Stopping a worker keeps its priorities. -/
@[simp] theorem stop_priorities : w.stop.2.priorities = w.priorities := by
  unfold stop
  split <;> rfl

/-- Stopping a worker does not give back the promise that has been retrieved. -/
@[simp] theorem stop_retrieved : w.stop.2.retrieved = w.retrieved := by
  unfold stop
  split <;> rfl

/-- A startable worker is started, where there is memory for its thread. -/
theorem start_eq_ok : (w.start allocated).1 = .ok ↔ w.Startable ∧ allocated = true := by
  unfold start Startable
  by_cases hpriorities : w.priorities = []
  · simp [hpriorities]
  · cases hretrieved : w.retrieved <;> cases allocated <;> simp [hpriorities, hretrieved]

/-- A worker that has been started takes jobs and cannot be started again. -/
theorem start_ok (h : (w.start allocated).1 = .ok) :
    (w.start allocated).2.Able ∧ (w.start allocated).2.retrieved = true := by
  obtain ⟨⟨hpriorities, hretrieved⟩, rfl⟩ := start_eq_ok.mp h
  simp [start, Able, hpriorities, hretrieved]

end ThreadWorker

/-! ### The pool -/

/-- `ThreadPool`: its workers, whether it is working, whether its job pool is locked, and its
    jobs. -/
structure ThreadPool where
  workers : List ThreadWorker := []
  /-- The jobs it was given and has not been cleared of: they wait or run. -/
  jobs : List Job := []
  /-- The job pool takes no more jobs. -/
  locked : Bool := false
  working : Bool := false
  deriving DecidableEq, Repr

namespace ThreadPool

/-- Start the workers in their order, up to the first that is not started; `allocated` says for
    each whether there is memory for its thread. -/
def startWorkers : List Bool → List ThreadWorker → Outcome × List ThreadWorker
  | _, [] => (.ok, [])
  | allocated, w :: ws =>
    match w.start (allocated.headD true) with
    | (.ok, w') =>
      let (outcome, ws') := startWorkers allocated.tail ws
      (outcome, w' :: ws')
    | (outcome, w') => (outcome, w' :: ws)

/-- Stop the workers in their order, up to the first that is not stopped. -/
def stopWorkers : List ThreadWorker → Outcome × List ThreadWorker
  | [] => (.ok, [])
  | w :: ws =>
    match w.stop with
    | (.ok, w') =>
      let (outcome, ws') := stopWorkers ws
      (outcome, w' :: ws')
    | (outcome, w') => (outcome, w' :: ws)

/-- `start`: the workers are started one by one, until one of them fails. Those before it run
    on. -/
def start (allocated : List Bool) (p : ThreadPool) : Outcome × ThreadPool :=
  if p.working then (.refused "already started", p)
  else
    match startWorkers allocated p.workers with
    | (.ok, workers) => (.ok, { p with workers, working := true })
    | (outcome, workers) => (outcome, { p with workers })

/-- The workers finish the jobs of their priorities before they stop, unless the job pool is
    cleared. -/
def stop (stopImmediately : Bool) (p : ThreadPool) : Outcome × ThreadPool :=
  if ¬ p.working then (.refused "not started", p)
  else
    let jobs := if stopImmediately then []
      else p.jobs.filter fun job => p.workers.all fun w => job.priority ∉ w.priorities
    match stopWorkers p.workers with
    | (.ok, workers) => (.ok, { workers, jobs, locked := false, working := false })
    | (outcome, workers) => (outcome, { p with workers, jobs, locked := true })

/-- Hand a worker over; a working pool starts it. -/
def pushWorker (w : ThreadWorker) (p : ThreadPool) : ThreadPool :=
  { p with workers := p.workers ++ [if p.working then (w.start true).2 else w] }

/-- Hand a job over; a locked pool does not take it. -/
def pushJob (job : Job) (p : ThreadPool) : ThreadPool :=
  if p.locked then p else { p with jobs := p.jobs ++ [job] }

/-- The pool works and takes jobs, and so does every worker. -/
def Able (p : ThreadPool) : Prop :=
  p.working = true ∧ p.locked = false ∧ p.workers ≠ [] ∧ ∀ w ∈ p.workers, w.Able

/-- There is memory for the threads of `n` workers. -/
def Allocated (n : ℕ) (allocated : List Bool) : Prop := ∀ b ∈ allocated.take n, b = true

/-- Whether there is memory can be computed. -/
instance (n : ℕ) (allocated : List Bool) : Decidable (Allocated n allocated) :=
  inferInstanceAs (Decidable (∀ b ∈ allocated.take n, b = true))

variable {p : ThreadPool} {ws : List ThreadWorker} {allocated : List Bool}

/-- Memory for one thread more is memory for the first and for the rest. -/
theorem allocated_succ {n : ℕ} :
    Allocated (n + 1) allocated ↔ allocated.headD true = true ∧ Allocated n allocated.tail := by
  cases allocated <;> simp [Allocated]

/-- Where the first worker starts, the others are started after it. -/
theorem startWorkers_cons_ok {w : ThreadWorker} (h : (w.start (allocated.headD true)).1 = .ok) :
    startWorkers allocated (w :: ws) =
      ((startWorkers allocated.tail ws).1,
        (w.start (allocated.headD true)).2 :: (startWorkers allocated.tail ws).2) := by
  rw [startWorkers]
  split
  case h_1 w' hw =>
    rw [hw]
  case h_2 outcome w' hne hw =>
    rw [hw] at h
    exact absurd h hne

/-- Where the first worker fails, so does the start. -/
theorem startWorkers_cons_fails {w : ThreadWorker}
    (h : (w.start (allocated.headD true)).1 ≠ .ok) :
    (startWorkers allocated (w :: ws)).1 ≠ .ok := by
  rw [startWorkers]
  split
  case h_1 w' hw => exact absurd (congrArg Prod.fst hw) h
  case h_2 outcome w' hne hw => exact congrArg Prod.fst hw ▸ h

/-- The workers are all started exactly when all can be. -/
theorem startWorkers_eq_ok :
    (startWorkers allocated ws).1 = .ok ↔
      (∀ w ∈ ws, w.Startable) ∧ Allocated ws.length allocated := by
  induction ws generalizing allocated with
  | nil => simp [startWorkers, Allocated]
  | cons w ws ih =>
    rw [List.forall_mem_cons, List.length_cons, allocated_succ]
    by_cases hw : (w.start (allocated.headD true)).1 = .ok
    · obtain ⟨hstartable, hhead⟩ := ThreadWorker.start_eq_ok.mp hw
      rw [startWorkers_cons_ok hw, ih]
      tauto
    · have hfails := @startWorkers_cons_fails ws _ _ hw
      rw [ThreadWorker.start_eq_ok] at hw
      tauto

/-- Workers that have all been started take jobs and cannot be started again. -/
theorem startWorkers_ok (h : (startWorkers allocated ws).1 = .ok) :
    (startWorkers allocated ws).2.length = ws.length ∧
    ∀ w ∈ (startWorkers allocated ws).2, w.Able ∧ w.retrieved = true := by
  induction ws generalizing allocated with
  | nil => simp [startWorkers]
  | cons w ws ih =>
    have hw : (w.start (allocated.headD true)).1 = .ok := by
      by_contra hfails
      exact startWorkers_cons_fails hfails h
    rw [startWorkers_cons_ok hw] at h ⊢
    obtain ⟨hlength, hworkers⟩ := ih h
    refine ⟨by simp [hlength], ?_⟩
    rw [List.forall_mem_cons]
    exact ⟨ThreadWorker.start_ok hw, hworkers⟩

/-- Workers that take jobs are all stopped; their futures stay retrieved. -/
theorem stopWorkers_ok (h : ∀ w ∈ ws, w.Able ∧ w.retrieved = true) :
    (stopWorkers ws).1 = .ok ∧ (stopWorkers ws).2.length = ws.length ∧
      ∀ w ∈ (stopWorkers ws).2, w.retrieved = true := by
  induction ws with
  | nil => simp [stopWorkers]
  | cons w ws ih =>
    rw [List.forall_mem_cons] at h
    obtain ⟨⟨hable, hretrieved⟩, hrest⟩ := h
    obtain ⟨hok, hlength, hworkers⟩ := ih hrest
    have hstop : w.stop = (.ok, { w with thread := false, threadStop := false }) :=
      if_pos hable.1
    simp only [stopWorkers, hstop, hok, List.length_cons, hlength, List.forall_mem_cons]
    exact ⟨trivial, trivial, hretrieved, hworkers⟩

/-- The pool is started exactly when it does not work yet and all workers can be started. -/
theorem start_eq_ok :
    (p.start allocated).1 = .ok ↔ p.working = false ∧ (∀ w ∈ p.workers, w.Startable) ∧
      Allocated p.workers.length allocated := by
  unfold start
  cases hworking : p.working with
  | true => simp
  | false =>
    rw [← startWorkers_eq_ok]
    simp only [Bool.false_eq_true, if_false, true_and]
    split
    case h_1 workers hstart => simp [hstart]
    case h_2 outcome workers hne hstart => simp [hstart]

/-- A pool that has been started works with all its workers, none of which can be started again. -/
theorem start_ok (h : (p.start allocated).1 = .ok) :
    (p.start allocated).2.working = true ∧ (p.start allocated).2.locked = p.locked ∧
    (p.start allocated).2.jobs = p.jobs ∧
    (p.start allocated).2.workers.length = p.workers.length ∧
    ∀ w ∈ (p.start allocated).2.workers, w.Able ∧ w.retrieved = true := by
  obtain ⟨hworking, hworkers⟩ := start_eq_ok.mp h
  have hstart : (startWorkers allocated p.workers).1 = .ok := startWorkers_eq_ok.mpr hworkers
  obtain ⟨hlength, hable⟩ := startWorkers_ok hstart
  have hp : p.start allocated =
      (.ok, { p with workers := (startWorkers allocated p.workers).2, working := true }) := by
    unfold start
    rw [hworking]
    simp only [Bool.false_eq_true, if_false]
    split
    case h_1 workers hw => rw [hw]
    case h_2 outcome workers hne hw =>
      rw [hw] at hstart
      exact absurd hstart hne
  rw [hp]
  exact ⟨rfl, rfl, rfl, hlength, hable⟩

/-- A working pool is stopped; the futures of its workers stay retrieved. -/
theorem stop_ok (stopImmediately : Bool) (hworking : p.working = true)
    (h : ∀ w ∈ p.workers, w.Able ∧ w.retrieved = true) :
    (p.stop stopImmediately).1 = .ok ∧ (p.stop stopImmediately).2.working = false ∧
    (p.stop stopImmediately).2.locked = false ∧
    (p.stop stopImmediately).2.workers.length = p.workers.length ∧
    ∀ w ∈ (p.stop stopImmediately).2.workers, w.retrieved = true := by
  obtain ⟨hok, hlength, hworkers⟩ := stopWorkers_ok h
  unfold stop
  rw [if_neg (by simp [hworking])]
  dsimp only
  split
  case h_1 workers hstop =>
    rw [hstop] at hlength hworkers
    exact ⟨rfl, rfl, rfl, hlength, hworkers⟩
  case h_2 outcome workers hne hstop =>
    rw [hstop] at hok
    exact absurd hok hne

/-- A pool with a worker that has been started before cannot be started. -/
theorem start_fails {w : ThreadWorker} (hw : w ∈ p.workers) (hretrieved : w.retrieved = true) :
    (p.start allocated).1 ≠ .ok := by
  intro h
  have hstartable : w.Startable := (start_eq_ok.mp h).2.1 w hw
  exact absurd hretrieved (by simp [hstartable.2])

/-! ### The life cycle of a pool -/

/-- The calls to start a pool and to stop it. -/
inductive Call where
  | start (allocated : List Bool)
  | stop (stopImmediately : Bool)
  deriving DecidableEq, Repr

/-- Whether a call starts the pool. -/
def Call.starts : Call → Bool
  | .start _ => true
  | .stop _ => false

/-- What a call does. -/
def step (p : ThreadPool) : Call → Outcome × ThreadPool
  | .start allocated => p.start allocated
  | .stop stopImmediately => p.stop stopImmediately

/-- The life of a pool under these calls. -/
def lifeCycle : LifeCycle ThreadPool Call where
  starts := Call.starts
  step := step
  running := working
  able := Able

/-- The first start of a pool with these workers succeeds. -/
def Good (workers : List ThreadWorker) : Call → Prop
  | .start allocated => (∀ w ∈ workers, w.Startable) ∧ Allocated workers.length allocated
  | .stop _ => True

/-- A pool of workers that has not been started. -/
def ofWorkers (workers : List ThreadWorker) : ThreadPool := { workers }

/-- A pool that is being used. -/
def Up (p : ThreadPool) : Prop :=
  p.working = true ∧ p.locked = false ∧ p.workers ≠ [] ∧
    ∀ w ∈ p.workers, w.Able ∧ w.retrieved = true

/-- A pool that is stopped and has been used. -/
def Spent (p : ThreadPool) : Prop := p.working = false ∧ ∃ w ∈ p.workers, w.retrieved = true

/-- As many workers as before are some, where there were some. -/
theorem ne_nil_of_length_eq {ws' : List ThreadWorker} (h : ws'.length = ws.length)
    (hne : ws ≠ []) : ws' ≠ [] := by
  rw [← List.length_pos_iff, h]
  exact List.length_pos_iff.mpr hne

/-- **A pool can be started once.** -/
theorem oneShot (hne : ws ≠ []) : lifeCycle.OneShot (ofWorkers ws) (Good ws) Up Spent where
  fresh_running := rfl
  start c hc hgood := by
    cases c with
    | stop _ => cases hc
    | start allocated =>
      have hok : ((ofWorkers ws).start allocated).1 = .ok := start_eq_ok.mpr ⟨rfl, hgood⟩
      obtain ⟨hworking, hlocked, -, hlength, hworkers⟩ := start_ok hok
      exact ⟨hok, hworking, hlocked, ne_nil_of_length_eq hlength hne, hworkers⟩
  start_fails c hc hbad := by
    cases c with
    | stop _ => cases hc
    | start allocated => exact fun hok => hbad (start_eq_ok.mp hok).2
  stop_fresh c hc := by
    cases c with
    | start _ => cases hc
    | stop _ => rfl
  up_running p hp := hp.1
  up_able p hp := ⟨hp.1, hp.2.1, hp.2.2.1, fun w hw => (hp.2.2.2 w hw).1⟩
  start_up p c hp hc := by
    cases c with
    | stop _ => cases hc
    | start allocated =>
      have hstart : p.start allocated = (.refused "already started", p) := if_pos hp.1
      exact ⟨⟨_, congrArg Prod.fst hstart⟩, congrArg Prod.snd hstart⟩
  stop_up p c hp hc := by
    cases c with
    | start _ => cases hc
    | stop stopImmediately =>
      obtain ⟨hok, hworking, -, hlength, hworkers⟩ := stop_ok stopImmediately hp.1 hp.2.2.2
      obtain ⟨w, hw⟩ := List.exists_mem_of_ne_nil _ (ne_nil_of_length_eq hlength hp.2.2.1)
      exact ⟨hok, hworking, w, hw, hworkers w hw⟩
  spent_running p hp := hp.1
  start_spent p c hp hc := by
    cases c with
    | stop _ => cases hc
    | start allocated =>
      obtain ⟨-, w, hw, hretrieved⟩ := hp
      exact start_fails hw hretrieved
  stop_spent p c hp hc := by
    cases c with
    | start _ => cases hc
    | stop stopImmediately =>
      have hstop : p.stop stopImmediately = (.refused "not started", p) :=
        if_pos (by simp [hp.1])
      exact (congrArg Prod.snd hstop).symm ▸ hp

end ThreadPool

end YirangMQ

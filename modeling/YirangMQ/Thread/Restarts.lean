import YirangMQ.Thread.ThreadPool

namespace YirangMQ

/-!
# Starting the services again

`QueueManager` and `MailboxHandler`, as far as their life cycle goes.  Each start hands two further
workers to the service's pool, which still holds those of the last start.  The folder watcher is
one for the whole process: its handle is created the first time it is asked for, and never again
after it has been destroyed.

* `QueueManager`, `MailboxHandler` — the services, with `start` and `stop`;
* `QueueManager.oneShot`, `MailboxHandler.oneShot` — each can be started once;
* `keeps_life_cycle_iff` — **the pool and the services keep their life cycles exactly as long as
  they are not started again.**
-/

/-- The worker of a daemon. -/
def longTermWorker : ThreadWorker where
  priorities := [.longTerm]

/-- Hand two further workers to a service's pool and start it. -/
def ThreadPool.startService (allocated : List Bool) (p : ThreadPool) : Outcome × ThreadPool :=
  ((p.pushWorker longTermWorker).pushWorker longTermWorker).start allocated

namespace ThreadPool

variable {p : ThreadPool} {allocated : List Bool}

/-- The pool of a new service is started, where there is memory for two threads. -/
theorem startService_eq_ok :
    ((ThreadPool.startService allocated {}).1 = .ok ↔ Allocated 2 allocated) := by
  have hworkers : ∀ w ∈ [longTermWorker, longTermWorker], w.Startable := by decide
  exact start_eq_ok.trans ⟨fun h => h.2.2, fun h => ⟨rfl, hworkers, h⟩⟩

/-- A service that starts has its pool up, with no job in it yet. -/
theorem startService_ok (h : (ThreadPool.startService allocated {}).1 = .ok) :
    (ThreadPool.startService allocated {}).2.Up ∧
      (ThreadPool.startService allocated {}).2.jobs = [] := by
  obtain ⟨hworking, hlocked, hjobs, hlength, hworkers⟩ := start_ok h
  have hne : [longTermWorker, longTermWorker] ≠ [] := by decide
  exact ⟨⟨hworking, hlocked, ne_nil_of_length_eq hlength hne, hworkers⟩, hjobs⟩

/-- A pool that has been used is not started, whatever workers it is handed. -/
theorem startService_fails (hp : p.Spent) : (p.startService allocated).1 ≠ .ok := by
  obtain ⟨-, w, hw, hretrieved⟩ := hp
  refine start_fails (w := w) ?_ hretrieved
  simp [pushWorker, hw]

/-- A pool that is being used takes a job. -/
theorem Up.pushJob (hp : p.Up) (job : Job) :
    (p.pushJob job).Up ∧ (p.pushJob job).jobs = p.jobs ++ [job] := by
  have hpush : p.pushJob job = { p with jobs := p.jobs ++ [job] } := if_neg (by simp [hp.2.1])
  rw [hpush]
  exact ⟨hp, rfl⟩

/-- A pool that is up takes jobs. -/
theorem Up.able (hp : p.Up) : p.Able :=
  ⟨hp.1, hp.2.1, hp.2.2.1, fun w hw => (hp.2.2.2 w hw).1⟩

/-- Stopping a pool that is up leaves it stopped and used. -/
theorem Up.stop (hp : p.Up) : (p.stop true).2.Spent :=
  ((@oneShot [longTermWorker] (by decide)).stop_up p (.stop true) hp rfl).2

end ThreadPool

/-! ### The queue manager -/

/-- `QueueManager`, as far as its starting and stopping go. -/
structure QueueManager where
  pool : ThreadPool := {}
  running : Bool := false

namespace QueueManager

/-- The job of the lease sweep. -/
def leaseSweepJob : Job := ⟨.longTerm, "LeaseSweepWorker"⟩
/-- The job of the retry sweep. -/
def retrySweepJob : Job := ⟨.longTerm, "RetrySweepWorker"⟩

/-- `start`: the pool is filled and started, and the two sweeps are pushed. A failure leaves the
    pool as far as it came. -/
def start (allocated : List Bool) (m : QueueManager) : Outcome × QueueManager :=
  if m.running then (.refused "already running", m)
  else
    match m.pool.startService allocated with
    | (.ok, pool) =>
      (.ok, { pool := (pool.pushJob leaseSweepJob).pushJob retrySweepJob, running := true })
    | (outcome, pool) => (outcome, { m with pool })

/-- `stop`: the pool is stopped at once, and is kept for the next start. -/
def stop (m : QueueManager) : Outcome × QueueManager :=
  if m.running then (.ok, { pool := (m.pool.stop true).2, running := false }) else (.ok, m)

/-- The calls of the two functions. -/
inductive Call where
  | start (allocated : List Bool)
  | stop
  deriving DecidableEq, Repr

/-- Whether a call starts the manager. -/
def Call.starts : Call → Bool
  | .start _ => true
  | .stop => false

/-- What a call does. -/
def step (m : QueueManager) : Call → Outcome × QueueManager
  | .start allocated => m.start allocated
  | .stop => m.stop

/-- The workers take jobs, and the two sweeps are among them. -/
def Able (m : QueueManager) : Prop :=
  m.pool.Able ∧ leaseSweepJob ∈ m.pool.jobs ∧ retrySweepJob ∈ m.pool.jobs

/-- The life of a manager under these calls. -/
def lifeCycle : LifeCycle QueueManager Call where
  starts := Call.starts
  step := step
  running := running
  able := Able

/-- There is memory for the threads of the workers. -/
def Good : Call → Prop
  | .start allocated => ThreadPool.Allocated 2 allocated
  | .stop => True

/-- A running manager whose workers have the two sweeps. -/
def Up (m : QueueManager) : Prop :=
  m.running = true ∧ m.pool.Up ∧ m.pool.jobs = [leaseSweepJob, retrySweepJob]

/-- A stopped manager whose pool has been used. -/
def Spent (m : QueueManager) : Prop := m.running = false ∧ m.pool.Spent

variable {m : QueueManager} {allocated : List Bool}

/-- A stopped manager is started when its pool is. -/
theorem start_eq_ok (hrunning : m.running = false) :
    (m.start allocated).1 = .ok ↔ (m.pool.startService allocated).1 = .ok := by
  unfold start
  rw [hrunning, if_neg (by simp)]
  split
  case h_1 pool hpool => simp [hpool]
  case h_2 outcome pool hne hpool => simp [hpool]

/-- A first start that succeeds leaves the manager up. -/
theorem start_ok (h : (({} : QueueManager).start allocated).1 = .ok) :
    (({} : QueueManager).start allocated).2.Up := by
  have hpool : (ThreadPool.startService allocated {}).1 = .ok := (start_eq_ok rfl).mp h
  obtain ⟨hup, hjobs⟩ := ThreadPool.startService_ok hpool
  unfold start
  split
  case isTrue hrunning => cases hrunning
  case isFalse =>
    split
    case h_1 pool hstart =>
      rw [hstart] at hup hjobs
      obtain ⟨hup₁, hjobs₁⟩ := hup.pushJob leaseSweepJob
      obtain ⟨hup₂, hjobs₂⟩ := hup₁.pushJob retrySweepJob
      refine ⟨rfl, hup₂, ?_⟩
      rw [hjobs₂, hjobs₁, hjobs]
      rfl
    case h_2 outcome pool hne hstart =>
      rw [hstart] at hpool
      exact absurd hpool hne

/-- **A queue manager can be started once.** -/
theorem oneShot : lifeCycle.OneShot {} Good Up Spent where
  fresh_running := rfl
  start c hc hgood := by
    cases c with
    | stop => cases hc
    | start allocated =>
      have hok : (({} : QueueManager).start allocated).1 = .ok :=
        (start_eq_ok rfl).mpr (ThreadPool.startService_eq_ok.mpr hgood)
      exact ⟨hok, start_ok hok⟩
  start_fails c hc hbad := by
    cases c with
    | stop => cases hc
    | start allocated =>
      exact fun hok => hbad (ThreadPool.startService_eq_ok.mp ((start_eq_ok rfl).mp hok))
  stop_fresh c hc := by
    cases c with
    | start _ => cases hc
    | stop => rfl
  up_running m hm := hm.1
  up_able m hm := by
    obtain ⟨-, hpool, hjobs⟩ := hm
    exact ⟨hpool.able, by simp [hjobs], by simp [hjobs]⟩
  start_up m c hm hc := by
    cases c with
    | stop => cases hc
    | start allocated =>
      have hstart : m.start allocated = (.refused "already running", m) := if_pos hm.1
      exact ⟨⟨_, congrArg Prod.fst hstart⟩, congrArg Prod.snd hstart⟩
  stop_up m c hm hc := by
    cases c with
    | start _ => cases hc
    | stop =>
      have hstop : m.stop = (.ok, { pool := (m.pool.stop true).2, running := false }) :=
        if_pos hm.1
      exact ⟨congrArg Prod.fst hstop, (congrArg Prod.snd hstop).symm ▸ ⟨rfl, hm.2.1.stop⟩⟩
  spent_running m hm := hm.1
  start_spent m c hm hc := by
    cases c with
    | stop => cases hc
    | start allocated =>
      exact fun hok => ThreadPool.startService_fails hm.2 ((start_eq_ok hm.1).mp hok)
  stop_spent m c hm hc := by
    cases c with
    | start _ => cases hc
    | stop =>
      have hstop : m.stop = (.ok, m) := if_neg (by simp [hm.1])
      exact (congrArg Prod.snd hstop).symm ▸ hm

end QueueManager

/-! ### The mailbox handler -/

/-- The process's handle of the folder watcher. -/
inductive Watcher where
  | unused
  | alive
  | destroyed
  deriving DecidableEq, Repr

/-- `FolderWatcher::handle`: the first call creates the watcher; after `destroy` there is none, and
    the reference is a null reference. -/
def Watcher.handle : Watcher → Option Watcher
  | .unused | .alive => some .alive
  | .destroyed => none

/-- `MailboxHandler`, as far as its starting and stopping go. The watcher is one for the whole
    process. -/
structure MailboxHandler where
  useFolderWatcher : Bool
  watcher : Watcher
  pool : ThreadPool := {}
  running : Bool := false

namespace MailboxHandler

/-- The job that handles requests. -/
def requestJob : Job := ⟨.longTerm, "MailboxRequestWorker"⟩
/-- The job that removes stale files. -/
def cleanupJob : Job := ⟨.longTerm, "MailboxCleanupWorker"⟩

/-- The handle after the watcher has been asked for, in the mode that uses it. -/
def watch (m : MailboxHandler) : Option Watcher :=
  if m.useFolderWatcher then m.watcher.handle else some m.watcher

/-- `directories` says whether the directories are there or can be created. -/
def start (directories : Bool) (allocated : List Bool) (m : MailboxHandler) :
    Outcome × MailboxHandler :=
  if m.running then (.refused "already running", m)
  else if ¬ directories then (.refused "failed to create directory", m)
  else
    match m.pool.startService allocated with
    | (.ok, pool) =>
      match m.watch with
      | none => (.undefined, { m with pool, running := true })
      | some watcher =>
        (.ok, { m with
          watcher
          pool := (pool.pushJob requestJob).pushJob cleanupJob
          running := true })
    | (outcome, pool) => (outcome, { m with pool })

/-- `stop`: the watcher is destroyed where it is used, and the pool is stopped at once. -/
def stop (m : MailboxHandler) : Outcome × MailboxHandler :=
  if ¬ m.running then (.ok, m)
  else
    match m.watch with
    | none => (.undefined, { m with running := false })
    | some watcher =>
      (.ok, { m with
        watcher := if m.useFolderWatcher then .destroyed else watcher
        pool := (m.pool.stop true).2
        running := false })

/-- The calls of the two functions; a start may find that a directory cannot be made. -/
inductive Call where
  | start (directories : Bool) (allocated : List Bool)
  | stop
  deriving DecidableEq, Repr

/-- Whether a call starts the handler. -/
def Call.starts : Call → Bool
  | .start _ _ => true
  | .stop => false

/-- What a call does. -/
def step (m : MailboxHandler) : Call → Outcome × MailboxHandler
  | .start directories allocated => m.start directories allocated
  | .stop => m.stop

/-- The workers take jobs, the two daemons are among them, and the watcher is there where it is
    used. -/
def Able (m : MailboxHandler) : Prop :=
  m.pool.Able ∧ requestJob ∈ m.pool.jobs ∧ cleanupJob ∈ m.pool.jobs ∧
    (m.useFolderWatcher = true → m.watcher = .alive)

/-- The life of a handler under these calls. -/
def lifeCycle : LifeCycle MailboxHandler Call where
  starts := Call.starts
  step := step
  running := running
  able := Able

/-- The first start of a handler in this mode and process succeeds. -/
def Good (useFolderWatcher : Bool) (watcher : Watcher) : Call → Prop
  | .start directories allocated =>
    directories = true ∧ ThreadPool.Allocated 2 allocated ∧
      ¬ (useFolderWatcher = true ∧ watcher = .destroyed)
  | .stop => True

/-- A running handler whose workers have the two jobs, and which is told of files where it
    watches. -/
def Up (m : MailboxHandler) : Prop :=
  m.running = true ∧ m.pool.Up ∧ m.pool.jobs = [requestJob, cleanupJob] ∧
    (m.useFolderWatcher = true → m.watcher = .alive)

/-- A stopped handler whose pool has been used. -/
def Spent (m : MailboxHandler) : Prop := m.running = false ∧ m.pool.Spent

variable {m : MailboxHandler} {directories : Bool} {allocated : List Bool}

/-- No watcher is to be had once it has been destroyed, in the mode that uses it. -/
theorem watch_eq_none :
    m.watch = none ↔ m.useFolderWatcher = true ∧ m.watcher = .destroyed := by
  unfold watch
  cases m.useFolderWatcher <;> cases m.watcher <;> simp [Watcher.handle]

/-- A watcher that is had is alive. -/
theorem watch_alive {watcher : Watcher} (hmode : m.useFolderWatcher = true)
    (h : m.watch = some watcher) : watcher = .alive := by
  unfold watch at h
  rw [if_pos hmode] at h
  cases hw : m.watcher <;> simp [hw, Watcher.handle] at h
  all_goals exact h.symm

/-- A stopped handler is started when its directories are there, its pool is started and there is
    a watcher. -/
theorem start_eq_ok (hrunning : m.running = false) :
    (m.start directories allocated).1 = .ok ↔
      directories = true ∧ (m.pool.startService allocated).1 = .ok ∧ m.watch ≠ none := by
  unfold start
  rw [hrunning, if_neg (by simp)]
  cases directories with
  | false => simp
  | true =>
    rw [if_neg (by simp)]
    split
    case h_1 pool hpool =>
      cases hwatch : m.watch <;> simp [hpool]
    case h_2 outcome pool hne hpool =>
      have hfails : outcome ≠ .ok := fun hok => hne hok
      simp [hpool, hfails]

/-- A start that succeeds on a fresh pool leaves the handler up. -/
theorem start_ok (hrunning : m.running = false) (hpool : m.pool = {})
    (h : (m.start directories allocated).1 = .ok) : (m.start directories allocated).2.Up := by
  obtain ⟨rfl, hstart, hwatch⟩ := (start_eq_ok hrunning).mp h
  rw [hpool] at hstart
  obtain ⟨hup, hjobs⟩ := ThreadPool.startService_ok hstart
  rw [← hpool] at hstart hup hjobs
  unfold start
  rw [hrunning, if_neg (by simp), if_neg (by simp)]
  split
  case h_1 pool hpool' =>
    rw [hpool'] at hup hjobs
    obtain ⟨hup₁, hjobs₁⟩ := hup.pushJob requestJob
    obtain ⟨hup₂, hjobs₂⟩ := hup₁.pushJob cleanupJob
    split
    case h_1 hnone => exact absurd hnone hwatch
    case h_2 watcher hwatcher =>
      have halive : m.useFolderWatcher = true → watcher = .alive := fun hmode =>
        watch_alive hmode hwatcher
      refine ⟨rfl, hup₂, ?_, halive⟩
      rw [hjobs₂, hjobs₁, hjobs]
      rfl
  case h_2 outcome pool hne hpool' =>
    rw [hpool'] at hstart
    exact absurd hstart hne

/-- A handler that is being used is stopped. -/
theorem stop_up (hm : m.Up) : m.stop.1 = .ok ∧ m.stop.2.Spent := by
  obtain ⟨hrunning, hpool, -, halive⟩ := hm
  have hwatch : m.watch ≠ none := by
    rw [Ne, watch_eq_none]
    rintro ⟨hmode, hdestroyed⟩
    rw [halive hmode] at hdestroyed
    cases hdestroyed
  unfold stop
  rw [if_neg (by simp [hrunning])]
  split
  case h_1 hnone => exact absurd hnone hwatch
  case h_2 watcher hwatcher => exact ⟨rfl, rfl, hpool.stop⟩

/-- **A mailbox handler can be started once, in either mode.** -/
theorem oneShot (useFolderWatcher : Bool) (watcher : Watcher) :
    lifeCycle.OneShot { useFolderWatcher, watcher } (Good useFolderWatcher watcher) Up Spent where
  fresh_running := rfl
  start c hc hgood := by
    cases c with
    | stop => cases hc
    | start directories allocated =>
      have hok : (start directories allocated { useFolderWatcher, watcher }).1 = .ok := by
        refine (start_eq_ok rfl).mpr ⟨hgood.1, ThreadPool.startService_eq_ok.mpr hgood.2.1, ?_⟩
        exact fun hnone => hgood.2.2 (watch_eq_none.mp hnone)
      exact ⟨hok, start_ok rfl rfl hok⟩
  start_fails c hc hbad := by
    cases c with
    | stop => cases hc
    | start directories allocated =>
      intro hok
      obtain ⟨hdirectories, hpool, hwatch⟩ := (start_eq_ok rfl).mp hok
      refine hbad ⟨hdirectories, ThreadPool.startService_eq_ok.mp hpool, ?_⟩
      exact fun hnone => hwatch (watch_eq_none.mpr hnone)
  stop_fresh c hc := by
    cases c with
    | start _ _ => cases hc
    | stop => rfl
  up_running m hm := hm.1
  up_able m hm := by
    obtain ⟨-, hpool, hjobs, halive⟩ := hm
    exact ⟨hpool.able, by simp [hjobs], by simp [hjobs], halive⟩
  start_up m c hm hc := by
    cases c with
    | stop => cases hc
    | start directories allocated =>
      have hstart : m.start directories allocated = (.refused "already running", m) :=
        if_pos hm.1
      exact ⟨⟨_, congrArg Prod.fst hstart⟩, congrArg Prod.snd hstart⟩
  stop_up m c hm hc := by
    cases c with
    | start _ _ => cases hc
    | stop => exact MailboxHandler.stop_up hm
  spent_running m hm := hm.1
  start_spent m c hm hc := by
    cases c with
    | stop => cases hc
    | start directories allocated =>
      exact fun hok => ThreadPool.startService_fails hm.2 ((start_eq_ok hm.1).mp hok).2.1
  stop_spent m c hm hc := by
    cases c with
    | start _ _ => cases hc
    | stop =>
      have hstop : m.stop = (.ok, m) := if_pos (by simp [hm.1])
      exact (congrArg Prod.snd hstop).symm ▸ hm

end MailboxHandler

/-! ### All three -/

/-- **A pool with a worker, the queue manager and the mailbox handler keep their life cycles in a
    sequence of calls exactly when the first start finds what it needs and there is no start after
    a stop of the started object.** -/
theorem keeps_life_cycle_iff {ws : List ThreadWorker} (hne : ws ≠ [])
    (poolCalls : List ThreadPool.Call) (managerCalls : List QueueManager.Call)
    (useFolderWatcher : Bool) (watcher : Watcher) (handlerCalls : List MailboxHandler.Call) :
    (ThreadPool.lifeCycle.Keeps false (.ofWorkers ws) poolCalls ↔
      (∀ c, poolCalls.find? ThreadPool.Call.starts = some c → ThreadPool.Good ws c) ∧
        ¬ [true, false, true].Sublist (poolCalls.map ThreadPool.Call.starts)) ∧
    (QueueManager.lifeCycle.Keeps false {} managerCalls ↔
      (∀ c, managerCalls.find? QueueManager.Call.starts = some c → QueueManager.Good c) ∧
        ¬ [true, false, true].Sublist (managerCalls.map QueueManager.Call.starts)) ∧
    (MailboxHandler.lifeCycle.Keeps false { useFolderWatcher, watcher } handlerCalls ↔
      (∀ c, handlerCalls.find? MailboxHandler.Call.starts = some c →
        MailboxHandler.Good useFolderWatcher watcher c) ∧
        ¬ [true, false, true].Sublist (handlerCalls.map MailboxHandler.Call.starts)) := by
  refine ⟨?_, ?_, ?_⟩
  · exact (ThreadPool.oneShot hne).keeps_iff
  · exact QueueManager.oneShot.keeps_iff
  · exact (MailboxHandler.oneShot useFolderWatcher watcher).keeps_iff

/-- A pool of one worker is started, started again in vain, and stopped. -/
theorem keeps_life_cycle_iff_once :
    ThreadPool.lifeCycle.Keeps false (.ofWorkers [longTermWorker])
      [.start [true], .start [true], .stop true] := by
  have hiff := @keeps_life_cycle_iff [longTermWorker] (by decide)
    [.start [true], .start [true], .stop true] [] false .unused []
  have hgood : ThreadPool.Good [longTermWorker] (.start [true]) := ⟨by decide, by decide⟩
  exact hiff.1.mpr ⟨fun c hc => Option.some.inj hc ▸ hgood, by decide⟩

/-- A queue manager that is started, stopped and started again throws. -/
theorem queue_manager_not_restarted :
    let started := (QueueManager.start [true, true] {}).2
    let stopped := started.stop.2
    started.running = true ∧ stopped.running = false ∧
      (stopped.start [true, true, true, true]).1 = .thrown ∧
      ¬ QueueManager.lifeCycle.Keeps false {}
        [.start [true, true], .stop, .start [true, true, true, true]] := by
  refine ⟨by decide, by decide, by decide, ?_⟩
  intro h
  have hnever := (QueueManager.oneShot.keeps_iff.mp h).2
  exact absurd hnever (by decide)

end YirangMQ

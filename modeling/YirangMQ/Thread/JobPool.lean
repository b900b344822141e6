import YirangMQ.Library.Lanes
import YirangMQ.Thread.ThreadPool
import Mathlib.Algebra.Ring.Nat
import Mathlib.Data.List.Pairwise

namespace YirangMQ

open Lanes

/-!
# The job pool

`JobPool` keeps a deque for each priority that has been pushed to, in a map from which `clear`
takes them out again.  `push` reads the lock flag before it takes the mutex, so what it read may be
out of date by then; everything else that `push`, `pop` and `clear` do is done under the mutex, one
call after the other.

What the pool is for is one line of jobs in the order in which they were accepted, with a lane for
each priority: `Represents` says that the deques are the lanes of a line, and each operation is an
operation of the line.

* `JobPool.enqueue_spec`, `JobPool.pop_spec`, `JobPool.jobCount_pos` — what the operations are;
* `Account` — a pool with the record of what was accepted, popped and cleared;
* `Account.run_orderly` — **jobs are conserved and served in order**, in every sequence of calls.
-/

/-- A job that a push put into the pool, with the number of the push. -/
structure Queued where
  number : Nat
  job : Job
  deriving DecidableEq, Repr

/-- The priority a queued job waits under. -/
def Queued.priority (q : Queued) : JobPriorities := q.job.priority

/-- The state of a `JobPool`; the entries of the deques are pointers. -/
structure JobPool where
  lockCondition : Bool := false
  jobQueues : JobPriorities → Option (List (Option Queued)) := fun _ => none

/-- `MAX_QUEUE_LOW` -/
def maxQueueLow : Nat := 4096

/-- What a push answers. -/
abbrev PushAnswer := Bool × Option String

namespace JobPool

/-- Replace the deque of one priority, or take it out of the map. -/
def setQueue (priority : JobPriorities) (queue : Option (List (Option Queued))) (pool : JobPool) :
    JobPool :=
  { pool with jobQueues := Function.update pool.jobQueues priority queue }

/-- What `push` does under the mutex. -/
def enqueue (q : Queued) (pool : JobPool) : PushAnswer × JobPool :=
  let qsize := ((pool.jobQueues q.priority).map List.length).getD 0
  if q.priority = .low ∧ maxQueueLow ≤ qsize then
    ((false, some "backpressure: low-priority queue is full"), pool)
  else
    match pool.jobQueues q.priority with
    | some queue => ((true, none), pool.setQueue q.priority (some (queue ++ [some q])))
    | none => ((true, none), pool.setQueue q.priority (some [some q]))

/-- `push`, where the lock flag was `locked` when it was read. -/
def push (number : Nat) (job : Option Job) (locked : Bool) (pool : JobPool) :
    PushAnswer × JobPool :=
  match job with
  | none => ((false, some "cannot push empty job"), pool)
  | some job =>
    if locked then
      ((false, some "the system is locked and new tasks cannot be created"), pool)
    else
      pool.enqueue ⟨number, job⟩

/-- The loop of `pop`. -/
def popFrom : List JobPriorities → JobPool → Option Queued × JobPool
  | [], pool => (none, pool)
  | priority :: priorities, pool =>
    match pool.jobQueues priority with
    | some (some q :: rest) => (some q, pool.setQueue priority (some rest))
    | some (none :: _) => popFrom priorities pool
    | some [] => popFrom priorities pool
    | none => popFrom priorities pool

/-- `pop` -/
def pop (priorities : List JobPriorities) (pool : JobPool) : Option Queued × JobPool :=
  if priorities = [] then (none, pool) else popFrom priorities pool

/-- `clear` -/
def clear (pool : JobPool) : JobPool := { pool with jobQueues := fun _ => none }

/-- `clear` of one priority -/
def clearOf (priority : JobPriorities) (pool : JobPool) : JobPool :=
  match pool.jobQueues priority with
  | none => pool
  | some _ => pool.setQueue priority none

/-- The priorities there are, in the order of the enumeration. -/
def allPriorities : List JobPriorities := [.top, .high, .normal, .low, .longTerm]

/-- The size of the deque of a priority. -/
def queueSize (priority : JobPriorities) (pool : JobPool) : Nat :=
  ((pool.jobQueues priority).map List.length).getD 0

/-- `job_count`; an empty list of priorities counts the jobs of all. -/
def jobCount (priorities : List JobPriorities) (pool : JobPool) : Nat :=
  if priorities = [] then (allPriorities.map pool.queueSize).sum
  else (priorities.map pool.queueSize).sum

/-! ### The line of jobs -/

/-- The deques are the lanes of a line of jobs. -/
def Represents (pool : JobPool) (waiting : List Queued) : Prop :=
  ∀ priority, (pool.jobQueues priority).getD [] = (lane Queued.priority priority waiting).map some

variable {pool : JobPool} {waiting : List Queued} {q : Queued} {priority : JobPriorities}
  {priorities : List JobPriorities}

/-- A new pool represents that no job waits. -/
theorem represents_fresh : Represents {} [] := fun _ => rfl

/-- The queues after one of them has been replaced. -/
theorem setQueue_getD (priority' : JobPriorities) (queue : Option (List (Option Queued))) :
    ((pool.setQueue priority queue).jobQueues priority').getD [] =
      if priority' = priority then queue.getD [] else (pool.jobQueues priority').getD [] := by
  show (Function.update pool.jobQueues priority queue priority').getD [] = _
  by_cases h : priority' = priority
  · rw [if_pos h, h, Function.update_self]
  · rw [if_neg h, Function.update_of_ne h]

/-- The length of a queue is that of the lane of its priority. -/
theorem Represents.queueSize (h : Represents pool waiting) (priority : JobPriorities) :
    pool.queueSize priority = (lane Queued.priority priority waiting).length := by
  have hlane := congrArg List.length (h priority)
  rw [List.length_map] at hlane
  rw [JobPool.queueSize, ← hlane]
  cases pool.jobQueues priority with
  | none => rfl
  | some queue => rfl

/-- A job that is accepted joins the end of the line; one that is refused leaves the pool as it
    is.  Only the low priority is ever full. -/
theorem enqueue_spec (h : Represents pool waiting) (q : Queued) :
    (q.priority = .low ∧ maxQueueLow ≤ (lane Queued.priority .low waiting).length ∧
      pool.enqueue q = ((false, some "backpressure: low-priority queue is full"), pool)) ∨
    (¬(q.priority = .low ∧ maxQueueLow ≤ (lane Queued.priority .low waiting).length) ∧
      (pool.enqueue q).1 = (true, none) ∧ Represents (pool.enqueue q).2 (waiting ++ [q]) ∧
      (pool.enqueue q).2.lockCondition = pool.lockCondition) := by
  have hsize := h.queueSize q.priority
  rw [JobPool.queueSize] at hsize
  rw [enqueue, hsize]
  by_cases hfull : q.priority = .low ∧ maxQueueLow ≤ (lane Queued.priority .low waiting).length
  · left
    have hlow : q.priority = .low ∧
        maxQueueLow ≤ (lane Queued.priority q.priority waiting).length := by
      rw [hfull.1]
      exact ⟨rfl, hfull.2⟩
    exact ⟨hfull.1, hfull.2, if_pos hlow⟩
  · right
    have hlow : ¬(q.priority = .low ∧
        maxQueueLow ≤ (lane Queued.priority q.priority waiting).length) := by
      intro hlow
      refine hfull ⟨hlow.1, ?_⟩
      rw [← hlow.1]
      exact hlow.2
    rw [if_neg hlow]
    -- the lane of the priority grows at its end, whether there was a deque or not
    have hjoined : ∀ queue, queue = (pool.jobQueues q.priority).getD [] →
        Represents (pool.setQueue q.priority (some (queue ++ [some q]))) (waiting ++ [q]) := by
      intro queue hqueue priority
      rw [setQueue_getD, lane_append, lane_single]
      by_cases hpriority : priority = q.priority
      · rw [if_pos hpriority, Option.getD_some, hqueue, h q.priority, hpriority, if_pos rfl,
          List.map_append]
        rfl
      · rw [if_neg hpriority, if_neg (Ne.symm hpriority), List.append_nil]
        exact h priority
    cases hqueue : pool.jobQueues q.priority with
    | none =>
      refine ⟨hfull, rfl, ?_, rfl⟩
      exact hjoined [] (by rw [hqueue, Option.getD_none])
    | some queue =>
      refine ⟨hfull, rfl, ?_, rfl⟩
      exact hjoined queue (by rw [hqueue, Option.getD_some])

/-- `pop` gives the next job in the order of the priorities and leaves the others. -/
theorem popFrom_spec (h : Represents pool waiting) : ∀ priorities,
    (popFrom priorities pool).1 = next Queued.priority priorities waiting ∧
    Represents (popFrom priorities pool).2 (serve Queued.priority priorities waiting) ∧
    (popFrom priorities pool).2.lockCondition = pool.lockCondition
  | [] => ⟨rfl, h, rfl⟩
  | priority :: priorities => by
    have hqueue := h priority
    cases hlane : lane Queued.priority priority waiting with
    | nil =>
      -- no job of the priority: the map has no deque for it, or an empty one
      have hskip : popFrom (priority :: priorities) pool = popFrom priorities pool := by
        rw [hlane] at hqueue
        rw [popFrom]
        cases hdeque : pool.jobQueues priority with
        | none => rfl
        | some queue =>
          rw [hdeque, Option.getD_some] at hqueue
          rw [hqueue]
          rfl
      have hserve : serve Queued.priority (priority :: priorities) waiting =
          serve Queued.priority priorities waiting := by
        rw [serve, serve, next_cons_of_empty hlane]
      rw [hskip, next_cons_of_empty hlane, hserve]
      exact popFrom_spec h priorities
    | cons q rest =>
      have hq : q.priority = priority :=
        (mem_lane.mp (hlane ▸ List.mem_cons_self : q ∈ lane Queued.priority priority waiting)).2
      have hnext := @next_cons_of_lane _ _ _ Queued.priority _ priorities _ _ _ hlane
      have hpop : popFrom (priority :: priorities) pool =
          (some q, pool.setQueue priority (some (rest.map some))) := by
        rw [hlane] at hqueue
        rw [popFrom]
        cases hdeque : pool.jobQueues priority with
        | none =>
          rw [hdeque] at hqueue
          cases hqueue
        | some queue =>
          rw [hdeque, Option.getD_some] at hqueue
          rw [hqueue]
          rfl
      rw [hpop, hnext]
      refine ⟨rfl, ?_, rfl⟩
      intro priority'
      rw [setQueue_getD, lane_serve hnext, hq]
      by_cases hpriority : priority' = priority
      · rw [if_pos hpriority, if_pos hpriority, hpriority, hlane]
        rfl
      · rw [if_neg hpriority, if_neg hpriority]
        exact h priority'

/-- `pop` takes the job that has waited longest in the first of the priorities that has one. -/
theorem pop_spec (h : Represents pool waiting) (priorities : List JobPriorities) :
    (pool.pop priorities).1 = next Queued.priority priorities waiting ∧
    Represents (pool.pop priorities).2 (serve Queued.priority priorities waiting) ∧
    (pool.pop priorities).2.lockCondition = pool.lockCondition := by
  rw [pop]
  split
  case isTrue hempty =>
    rw [hempty]
    exact ⟨rfl, h, rfl⟩
  case isFalse => exact popFrom_spec h priorities

/-- A cleared pool represents that no job waits. -/
theorem represents_clear : Represents pool.clear [] := fun _ => rfl

/-- Clearing one priority leaves the jobs of the others waiting. -/
theorem Represents.clearOf (h : Represents pool waiting) (priority : JobPriorities) :
    Represents (pool.clearOf priority) (waiting.filter fun q => q.priority ≠ priority) := by
  -- Clearing one lane leaves the others as they are.
  have hothers : ∀ priority', lane Queued.priority priority'
      (waiting.filter fun q => q.priority ≠ priority) =
      if priority' = priority then [] else lane Queued.priority priority' waiting := by
    intro priority'
    by_cases hpriority : priority' = priority
    · rw [if_pos hpriority, lane_eq_nil]
      intro q hq heq
      exact of_decide_eq_true (List.mem_filter.mp hq).2 (heq.trans hpriority)
    · rw [if_neg hpriority, lane, lane, List.filter_filter]
      refine List.filter_congr fun q hq => ?_
      by_cases hq' : q.priority = priority'
      · simp [hq', hpriority]
      · simp [hq']
  intro priority'
  rw [hothers, JobPool.clearOf]
  cases hqueue : pool.jobQueues priority with
  | none =>
    by_cases hpriority : priority' = priority
    · rw [if_pos hpriority, hpriority]
      show (pool.jobQueues priority).getD [] = _
      rw [hqueue]
      rfl
    · rw [if_neg hpriority]
      exact h priority'
  | some queue =>
    show ((pool.setQueue priority none).jobQueues priority').getD [] = _
    rw [setQueue_getD]
    by_cases hpriority : priority' = priority
    · rw [if_pos hpriority, if_pos hpriority]
      rfl
    · rw [if_neg hpriority, if_neg hpriority]
      exact h priority'

/-- A sum is positive exactly when a summand is. -/
theorem sum_pos_iff {l : List Nat} : 0 < l.sum ↔ ∃ n ∈ l, 0 < n := by
  induction l with
  | nil => simp
  | cons n l ih =>
    rw [List.sum_cons, List.exists_mem_cons_iff, ← ih]
    omega

/-- There are jobs to count exactly when the line has a job of one of the priorities. -/
theorem jobCount_pos (h : Represents pool waiting) (hpriorities : priorities ≠ []) :
    0 < pool.jobCount priorities ↔ ∃ q ∈ waiting, q.priority ∈ priorities := by
  rw [jobCount, if_neg hpriorities, sum_pos_iff]
  constructor
  · rintro ⟨size, hsize, hpos⟩
    obtain ⟨priority, hpriority, rfl⟩ := List.mem_map.mp hsize
    rw [h.queueSize] at hpos
    obtain ⟨q, hq⟩ := List.exists_mem_of_length_pos hpos
    obtain ⟨hwaiting, hlane⟩ := mem_lane.mp hq
    exact ⟨q, hwaiting, hlane ▸ hpriority⟩
  · rintro ⟨q, hq, hpriority⟩
    refine ⟨pool.queueSize q.priority, List.mem_map.mpr ⟨q.priority, hpriority, rfl⟩, ?_⟩
    rw [h.queueSize]
    exact List.length_pos_of_mem (mem_lane.mpr ⟨hq, rfl⟩)

/-- The job is in the deque of its priority. -/
def Holds (pool : JobPool) (q : Queued) : Prop :=
  some q ∈ (pool.jobQueues q.priority).getD []

/-- The pool holds exactly the jobs that wait. -/
theorem Represents.holds_iff (h : Represents pool waiting) : pool.Holds q ↔ q ∈ waiting := by
  rw [Holds, h q.priority]
  simp [mem_lane]

end JobPool

/-! ### Runs -/

/-- A call on the pool; a push comes with what it read of the lock flag. -/
inductive PoolCall where
  | push (job : Option Job) (locked : Bool)
  | pop (priorities : List JobPriorities)
  | clear
  | clearOf (priority : JobPriorities)
  deriving DecidableEq, Repr

/-- A pool with the record of its calls: the pushes are numbered as they come. -/
structure Account where
  pool : JobPool := {}
  pushes : Nat := 0
  accepted : List Queued := []
  popped : List Queued := []
  cleared : List Queued := []

namespace Account

open JobPool

/-- The jobs that are in the deque of a priority. -/
def contents (priority : JobPriorities) (s : Account) : List Queued :=
  ((s.pool.jobQueues priority).getD []).filterMap id

/-- One call, with what it adds to the record. -/
def call (s : Account) : PoolCall → Account
  | .push job locked =>
    let (answer, pool) := s.pool.push s.pushes job locked
    { s with
      pool
      pushes := s.pushes + 1
      accepted :=
        if answer.1 then s.accepted ++ (job.map (Queued.mk s.pushes)).toList else s.accepted }
  | .pop priorities =>
    let (job, pool) := s.pool.pop priorities
    { s with pool, popped := s.popped ++ job.toList }
  | .clear =>
    { s with pool := s.pool.clear, cleared := s.cleared ++ allPriorities.flatMap (s.contents ·) }
  | .clearOf priority =>
    { s with
      pool := s.pool.clearOf priority
      cleared := s.cleared ++ s.contents priority }

/-- A sequence of calls on a new pool. -/
def run (calls : List PoolCall) : Account := calls.foldl call {}

/-- What the pool promises. -/
structure Orderly (s : Account) : Prop where
  /-- `pop` returns the longest-queued job of the first listed priority that has one -/
  first : ∀ priorities q, (s.pool.pop priorities).1 = some q →
    s.pool.Holds q ∧
    (∀ q', s.pool.Holds q' → q'.priority = q.priority → q.number ≤ q'.number) ∧
    ∃ before after, priorities = before ++ q.priority :: after ∧
      ∀ q', s.pool.Holds q' → q'.priority ∉ before
  /-- and null only if none has one. -/
  none : ∀ priorities, (s.pool.pop priorities).1 = Option.none →
    ∀ q, s.pool.Holds q → q.priority ∉ priorities
  /-- Each accepted push is returned by at most one pop -/
  once : (s.popped.map Queued.number).Nodup
  /-- and lost only through `clear`: it is queued, or popped, or cleared, and no two of these. -/
  numbered : (s.accepted.map Queued.number).Nodup
  conserved : ∃ held, (∀ q, q ∈ held ↔ s.pool.Holds q) ∧
    s.accepted.Perm (held ++ (s.popped ++ s.cleared))
  /-- A refused push leaves the queues as they were. -/
  refused : ∀ job locked, (s.pool.push s.pushes job locked).1.1 = false →
    (s.pool.push s.pushes job locked).2 = s.pool
  /-- The low queue is bounded. -/
  bounded : ∀ queue, s.pool.jobQueues .low = some queue → queue.length ≤ maxQueueLow

/-- The invariant of the calls: the line that the deques stand for, in the order of the pushes, is
    what was accepted less what was popped or cleared. -/
structure Keeps (s : Account) (waiting : List Queued) : Prop where
  represents : Represents s.pool waiting
  ordered : waiting.Pairwise fun q q' => q.number < q'.number
  numbers : ∀ q ∈ s.accepted, q.number < s.pushes
  numbered : (s.accepted.map Queued.number).Nodup
  conserved : s.accepted.Perm (waiting ++ (s.popped ++ s.cleared))
  low : (lane Queued.priority .low waiting).length ≤ maxQueueLow

variable {s : Account} {waiting : List Queued}

/-- The invariant holds of a new pool. -/
theorem keeps_start : Keeps {} [] where
  represents := represents_fresh
  ordered := List.Pairwise.nil
  numbers := by simp
  numbered := List.nodup_nil
  conserved := List.Perm.refl []
  low := Nat.zero_le maxQueueLow

/-- The jobs of a priority are its lane. -/
theorem contents_eq (h : Represents s.pool waiting) (priority : JobPriorities) :
    s.contents priority = lane Queued.priority priority waiting := by
  rw [contents, h priority, List.filterMap_map]
  exact List.filterMap_some

/-- A lane gets no longer when jobs leave. -/
theorem lane_length_of_sublist {left : List Queued} (h : left.Sublist waiting) :
    (lane Queued.priority .low left).length ≤ (lane Queued.priority .low waiting).length :=
  (h.filter _).length_le

/-- A push, accepted or refused. -/
theorem Keeps.push (h : Keeps s waiting) (job : Option Job) (locked : Bool) :
    ∃ left, Keeps (s.call (.push job locked)) left := by
  have hrefused : Keeps { s with pushes := s.pushes + 1 } waiting :=
    { h with numbers := fun q hq => Nat.lt_succ_of_lt (h.numbers q hq) }
  cases job with
  | none => exact ⟨waiting, hrefused⟩
  | some job =>
    cases locked with
    | true => exact ⟨waiting, hrefused⟩
    | false =>
      have hcall : s.call (.push (some job) false) = { s with
          pool := (s.pool.enqueue ⟨s.pushes, job⟩).2
          pushes := s.pushes + 1
          accepted := if (s.pool.enqueue ⟨s.pushes, job⟩).1.1 then
            s.accepted ++ [⟨s.pushes, job⟩] else s.accepted } := rfl
      rw [hcall]
      rcases enqueue_spec h.represents ⟨s.pushes, job⟩ with
        ⟨-, -, hfull⟩ | ⟨hroom, hanswer, hjoined, -⟩
      · rw [hfull]
        exact ⟨waiting, hrefused⟩
      · -- the job is the last of the line, and its number is the largest
        have hwaiting : ∀ q ∈ waiting, q.number < s.pushes := by
          intro q hq
          exact h.numbers q (h.conserved.mem_iff.mpr (List.mem_append_left _ hq))
        have hfresh : s.pushes ∉ s.accepted.map Queued.number := by
          intro hmem
          obtain ⟨q, hq, heq⟩ := List.mem_map.mp hmem
          have hlt := h.numbers q hq
          omega
        rw [hanswer]
        refine ⟨waiting ++ [⟨s.pushes, job⟩], hjoined, ?_, ?_, ?_, ?_, ?_⟩
        · rw [List.pairwise_append]
          refine ⟨h.ordered, List.pairwise_singleton _ _, ?_⟩
          intro q hq q' hq'
          rw [List.mem_singleton] at hq'
          rw [hq']
          exact hwaiting q hq
        · intro q hq
          show q.number < s.pushes + 1
          rcases List.mem_append.mp hq with hq | hq
          · exact Nat.lt_succ_of_lt (h.numbers q hq)
          · rw [List.mem_singleton] at hq
            rw [hq]
            exact Nat.lt_succ_self s.pushes
        · show ((s.accepted ++ [Queued.mk s.pushes job]).map Queued.number).Nodup
          rw [List.map_append, List.nodup_append]
          refine ⟨h.numbered, List.nodup_singleton _, ?_⟩
          intro n hn n' hn' heq
          rw [List.map_singleton, List.mem_singleton] at hn'
          have hsame : n = s.pushes := heq.trans hn'
          exact hfresh (hsame ▸ hn)
        · show (s.accepted ++ [Queued.mk s.pushes job]).Perm
            (waiting ++ [Queued.mk s.pushes job] ++ (s.popped ++ s.cleared))
          rw [List.append_assoc]
          have hend := h.conserved.append_right [(⟨s.pushes, job⟩ : Queued)]
          rw [List.append_assoc] at hend
          exact hend.trans (List.perm_append_comm.append_left waiting)
        · rw [lane_append, lane_single]
          have hlow := h.low
          by_cases hpriority : (⟨s.pushes, job⟩ : Queued).priority = .low
          · have hlt : (lane Queued.priority .low waiting).length < maxQueueLow := by
              by_contra hle
              exact hroom ⟨hpriority, Nat.le_of_not_lt hle⟩
            rw [if_pos hpriority, List.length_append]
            exact hlt
          · rw [if_neg hpriority, List.append_nil]
            exact hlow

/-- A `pop` keeps the account: the job that leaves is noted as popped. -/
theorem Keeps.pop (h : Keeps s waiting) (priorities : List JobPriorities) :
    Keeps (s.call (.pop priorities)) (serve Queued.priority priorities waiting) := by
  obtain ⟨hjob, hpool, -⟩ := pop_spec h.represents priorities
  have hsublist := @serve_sublist _ _ _ Queued.priority priorities waiting
  refine ⟨hpool, h.ordered.sublist hsublist, h.numbers, h.numbered, ?_,
    (lane_length_of_sublist hsublist).trans h.low⟩
  show s.accepted.Perm (serve Queued.priority priorities waiting ++
    (s.popped ++ (s.pool.pop priorities).1.toList ++ s.cleared))
  rw [hjob]
  cases hnext : next Queued.priority priorities waiting with
  | none =>
    rw [serve_of_none hnext, Option.toList_none, List.append_nil]
    exact h.conserved
  | some q =>
    have hserved := (serve_perm hnext).append_right (s.popped ++ s.cleared)
    have hmoved : (serve Queued.priority priorities waiting ++
        (s.popped ++ [q] ++ s.cleared)).Perm
        (q :: serve Queued.priority priorities waiting ++ (s.popped ++ s.cleared)) := by
      rw [List.append_assoc, List.singleton_append]
      refine (List.perm_middle.append_left _).trans ?_
      exact List.perm_middle
    exact (h.conserved.trans hserved).trans hmoved.symm

/-- Clearing throws away what the deques held. -/
theorem Keeps.clear (h : Keeps s waiting) : Keeps (s.call .clear) [] := by
  have hlanes : allPriorities.flatMap (s.contents ·) =
      allPriorities.flatMap fun priority => lane Queued.priority priority waiting :=
    List.flatMap_congr fun priority _ => contents_eq h.represents priority
  have hall : ∀ q ∈ waiting, q.priority ∈ allPriorities := by
    intro q hq
    cases q.priority <;> decide
  have hperm := lanes_perm hall (by decide) (h.ordered.imp fun hlt heq => by
    rw [heq] at hlt
    exact Nat.lt_irrefl _ hlt)
  refine ⟨represents_clear, List.Pairwise.nil, h.numbers, h.numbered, ?_, Nat.zero_le _⟩
  show s.accepted.Perm (s.popped ++ (s.cleared ++ allPriorities.flatMap (s.contents ·)))
  rw [hlanes, ← List.append_assoc]
  refine (h.conserved.trans List.perm_append_comm).trans ?_
  exact hperm.symm.append_left _

/-- Clearing a priority keeps the account: its jobs are noted as cleared. -/
theorem Keeps.clearOf (h : Keeps s waiting) (priority : JobPriorities) :
    Keeps (s.call (.clearOf priority)) (waiting.filter fun q => q.priority ≠ priority) := by
  have hsublist : (waiting.filter fun q => q.priority ≠ priority).Sublist waiting :=
    List.filter_sublist
  refine ⟨h.represents.clearOf priority, h.ordered.sublist hsublist, h.numbers, h.numbered, ?_,
    (lane_length_of_sublist hsublist).trans h.low⟩
  show s.accepted.Perm ((waiting.filter fun q => q.priority ≠ priority) ++
    (s.popped ++ (s.cleared ++ s.contents priority)))
  rw [contents_eq h.represents, lane]
  have hsplit : waiting.Perm ((waiting.filter fun q => q.priority ≠ priority) ++
      waiting.filter fun q => q.priority = priority) := by
    have hparts := List.filter_append_perm (fun q : Queued => decide (q.priority ≠ priority)) waiting
    simpa using hparts.symm
  refine h.conserved.trans ((hsplit.append_right _).trans ?_)
  rw [List.append_assoc]
  refine List.Perm.append_left _ ?_
  rw [← List.append_assoc s.popped]
  exact List.perm_append_comm

/-- Every call keeps the invariant. -/
theorem Keeps.call (h : Keeps s waiting) (c : PoolCall) : ∃ left, Keeps (s.call c) left := by
  cases c with
  | push job locked => exact h.push job locked
  | pop priorities => exact ⟨_, h.pop priorities⟩
  | clear => exact ⟨_, h.clear⟩
  | clearOf priority => exact ⟨_, h.clearOf priority⟩

/-- **Any calls keep the account.** -/
theorem keeps_run (calls : List PoolCall) : ∃ waiting, Keeps (run calls) waiting := by
  rw [run]
  generalize hstart : ({} : Account) = s
  have h : ∃ waiting, Keeps s waiting := hstart ▸ ⟨[], keeps_start⟩
  clear hstart
  induction calls generalizing s with
  | nil => exact h
  | cons c calls ih =>
    obtain ⟨waiting, hkeeps⟩ := h
    rw [List.foldl_cons]
    exact ih (s.call c) (hkeeps.call c)

/-- What the account keeps is the claim about it. -/
theorem Keeps.orderly (h : Keeps s waiting) : Orderly s where
  first := by
    intro priorities q hpop
    obtain ⟨hjob, -, -⟩ := pop_spec h.represents priorities
    have hnext := hjob.symm.trans hpop
    obtain ⟨⟨rest, hlane⟩, before, after, heq, hbefore⟩ := next_eq_some hnext
    -- The lane of the job is in the order of the pushes, so the first of it is the oldest.
    have hordered : (q :: rest).Pairwise fun q q' => q.number < q'.number := by
      rw [← hlane]
      exact h.ordered.sublist List.filter_sublist
    refine ⟨h.represents.holds_iff.mpr (mem_of_next hnext).1, ?_, before, after, heq, ?_⟩
    · intro q' hq' hpriority
      have hmem : q' ∈ lane Queued.priority q.priority waiting :=
        mem_lane.mpr ⟨h.represents.holds_iff.mp hq', hpriority⟩
      rw [hlane] at hmem
      rcases List.mem_cons.mp hmem with hsame | hrest
      · rw [hsame]
      · exact Nat.le_of_lt (List.rel_of_pairwise_cons hordered hrest)
    · intro q' hq'
      exact hbefore q' (h.represents.holds_iff.mp hq')
  none := by
    intro priorities hpop q hq
    obtain ⟨hjob, -, -⟩ := pop_spec h.represents priorities
    exact next_eq_none.mp (hjob.symm.trans hpop) q (h.represents.holds_iff.mp hq)
  once := by
    have hall := (h.conserved.map Queued.number).nodup_iff.mp h.numbered
    rw [List.map_append, List.map_append] at hall
    exact (List.nodup_append.mp (List.nodup_append.mp hall).2.1).1
  numbered := h.numbered
  conserved := ⟨waiting, fun q => h.represents.holds_iff.symm, h.conserved⟩
  -- A push is refused only where the pool leaves it as it was.
  refused := by
    intro job locked hanswer
    cases job with
    | none => rfl
    | some job =>
      cases locked with
      | true => rfl
      | false =>
        have hpush : s.pool.push s.pushes (some job) false =
            s.pool.enqueue ⟨s.pushes, job⟩ := rfl
        rw [hpush] at hanswer ⊢
        rcases enqueue_spec h.represents ⟨s.pushes, job⟩ with
          ⟨-, -, hfull⟩ | ⟨-, haccepted, -, -⟩
        · rw [hfull]
        · rw [haccepted] at hanswer
          cases hanswer
  bounded := by
    intro queue hqueue
    have hlane := h.represents .low
    rw [hqueue, Option.getD_some] at hlane
    rw [hlane, List.length_map]
    exact h.low

/-- **The pool conserves and orders its jobs**, in every sequence of pushes, pops and clears. -/
theorem run_orderly (calls : List PoolCall) : Orderly (run calls) := by
  obtain ⟨waiting, hkeeps⟩ := keeps_run calls
  exact hkeeps.orderly

end Account

end YirangMQ

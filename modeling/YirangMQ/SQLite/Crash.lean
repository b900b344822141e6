import YirangMQ.Backend.Stops
import YirangMQ.Library.Interruption
import YirangMQ.SQLite.Atomicity
import YirangMQ.SQLite.Lifecycle

namespace YirangMQ.SQLite

open Program Abortable

/-!
# What a stop leaves in the SQLite store

The process may stop between any two primitives of an operation.  Every change is made in a
transaction or by one statement, and the database brings back what has been committed.

* `program_interruptible` — stopping an operation is failing from then on;
* `stopping` — the machine whose calls may be stopped;
* `stops_atomic` — **a stopped call has been performed or has changed nothing**;
* `stops_durable` — **a message whose publication was answered is kept, with its content, until an
  acknowledgement takes it away.**
-/

variable {schema : SchemaFile} {env : Env} {s : Store} {α : Type}

/-! ### Operations that are stopped -/

/-- A prepared statement may be stopped before its steps and after them. -/
theorem prepared_interruptible {error : Option String} {f : Tables → Except String (α × Tables)} :
    InterruptibleE Conn.rolledBack (prepared error f : Abortable Store α) :=
  .bind rolledBack_rolledBack (.attempt rolledBack_rolledBack) fun _ =>
    .attemptOr rolledBack_rolledBack

/-- A transaction of one statement. -/
theorem statement_interruptible {error : Option String}
    {f : Tables → Except String (α × Tables)} :
    Interruptible Conn.rolledBack (transaction (prepared error f) : Program Store _) :=
  .transaction prepared_interruptible

/-- So may the edit of a value. -/
theorem editValue_interruptible (key : String) (now : Int)
    (edit : Json String → Option (Json String)) :
    InterruptibleE Conn.rolledBack (editValue key now edit) := by
  refine .bind rolledBack_rolledBack (.attemptOr rolledBack_rolledBack) fun value => ?_
  split
  · exact .pure
  · exact prepared_interruptible

/-- So may `enqueue`. -/
theorem enqueue_interruptible (message : MessageEnvelope) :
    Interruptible Conn.rolledBack (enqueue schema env message) :=
  .transaction (.bind rolledBack_rolledBack prepared_interruptible fun _ => prepared_interruptible)

/-- So may `lease_next`. -/
theorem leaseNext_interruptible (queue c : String) (timeout : Int) :
    Interruptible Conn.rolledBack (leaseNext schema env queue c timeout) := by
  have hrow : InterruptibleE Conn.rolledBack
      (leaseRow schema queue c env.now (env.now + timeout * 1000)) := by
    refine .bind rolledBack_rolledBack prepared_interruptible fun row => ?_
    refine .bind rolledBack_rolledBack prepared_interruptible fun _ => ?_
    exact .bind rolledBack_rolledBack prepared_interruptible fun _ => .pure
  refine .bind rolledBack_rolledBack (.transaction hrow) fun r => ?_
  cases r with
  | error e => exact .pure
  | ok r =>
    dsimp only
    split
    · exact .pure
    · exact .pure

/-- So may `ack`. -/
theorem ack_interruptible (lease : LeaseToken) : Interruptible Conn.rolledBack (ack lease) :=
  .transaction (.bind rolledBack_rolledBack prepared_interruptible fun _ => prepared_interruptible)

/-- So may `nack`. -/
theorem nack_interruptible (lease : LeaseToken) (reason : String) (requeue : Bool) :
    Interruptible Conn.rolledBack (nack env lease reason requeue) := by
  cases requeue with
  | true => exact statement_interruptible
  | false =>
    refine .transaction (.bind rolledBack_rolledBack prepared_interruptible fun _ => ?_)
    refine .bind rolledBack_rolledBack (.attempt rolledBack_rolledBack) fun _ => ?_
    exact .orDefault rolledBack_rolledBack (editValue_interruptible _ _ _)

/-- An update followed by an edit of a value, whose errors are ignored. -/
theorem updateEditing_interruptible {error : Option String} (p : IndexRow → Bool)
    (f : IndexRow → IndexRow) (key : String) (now : Int)
    (edit : Json String → Option (Json String)) :
    Interruptible Conn.rolledBack (transaction do
      prepared error (always (Tables.updateIndex p f))
      orDefault (do prepare; editValue key now edit) () : Program Store Status) := by
  refine .transaction (.bind rolledBack_rolledBack prepared_interruptible fun _ => ?_)
  refine .orDefault rolledBack_rolledBack ?_
  exact .bind rolledBack_rolledBack (.attempt rolledBack_rolledBack) fun _ =>
    editValue_interruptible _ _ _

/-- So may a sweep. -/
theorem updateCounting_interruptible (error : String) (p : IndexRow → Bool)
    (f : IndexRow → IndexRow) :
    Interruptible Conn.rolledBack (transaction (updateCounting error p f)) := by
  refine .transaction (.bind rolledBack_rolledBack prepared_interruptible fun changes => ?_)
  refine .bind rolledBack_rolledBack (.attempt rolledBack_rolledBack) fun _ => ?_
  exact .orDefault rolledBack_rolledBack (.attemptOr rolledBack_rolledBack)

/-- **Stopping an operation is failing from then on.** -/
theorem program_interruptible (call : Call) :
    Interruptible Conn.rolledBack (program schema env call) := by
  have hanswer : ∀ {β : Type} {op : Program Store β} {f : β → Reply},
      Interruptible Conn.rolledBack op →
      Interruptible Conn.rolledBack (do return f (← op)) := fun h =>
    .bind rolledBack_rolledBack h fun _ => .pure
  cases call with
  | enqueue message => exact hanswer (enqueue_interruptible message)
  | leaseNext queue c timeout => exact hanswer (leaseNext_interruptible queue c timeout)
  | ack lease => exact hanswer (ack_interruptible lease)
  | nack lease reason requeue => exact hanswer (nack_interruptible lease reason requeue)
  | extendLease lease timeout => exact hanswer statement_interruptible
  | savePolicy queue policy => exact hanswer prepared_interruptible
  | recoverExpiredLeases => exact hanswer (updateCounting_interruptible _ _ _)
  | processDelayedMessages => exact hanswer (updateCounting_interruptible _ _ _)
  | delayMessage key delayMs => exact hanswer statement_interruptible
  | moveToDlq key reason => exact hanswer (updateEditing_interruptible _ _ _ _ _)
  | reprocessDlqMessage key => exact hanswer (updateEditing_interruptible _ _ _ _ _)

/-! ### Runs with stops -/

/-- A call, and the number of primitives after which the process stops, if it does. -/
structure StoppedCall where
  env : Env
  call : Call
  cut : Option Nat

/-- Calls one after another, each of which may be stopped; a stopped call gives no answer. -/
def stopping (schema : SchemaFile) : Machine Store StoppedCall (Option Reply) where
  start := (adapter schema).start
  step s i :=
    let p := program schema i.env i.call
    (if i.cut = none then some (p.run i.env.faults s).1 else none, p.afterStop i.env.faults i.cut s)

/-- A stopped call ends as one in which primitives fail, and an answer is that of its call. -/
theorem stopping_step (hsaved : s.saved = none) (i : StoppedCall) :
    ∃ faults, ((stopping schema).step s i).2 =
      ((adapter schema).perform { i.env with faults } i.call s).2 ∧
      ∀ reply, ((stopping schema).step s i).1 = some reply →
        reply = ((adapter schema).perform { i.env with faults } i.call s).1 := by
  have hrun : ∀ faults, (program schema i.env i.call).run faults s =
      (adapter schema).perform { i.env with faults } i.call s := by
    intro faults
    cases hcall : i.call <;> rfl
  obtain ⟨env, call, cut⟩ := i
  cases cut with
  | none => exact ⟨env.faults, rfl, fun reply hreply => (Option.some.inj hreply).symm⟩
  | some n =>
    have hclosed : ∀ faults, ((program schema env call).run faults s).2.saved = none := by
      intro faults
      rw [hrun]
      exact (@perform_performs True schema { env with faults } s hsaved (.inl trivial) call).1
    obtain ⟨faults, hafter⟩ := (program_interruptible call).afterStop_eq hclosed env.faults n
    refine ⟨faults, ?_, fun reply hreply => by cases hreply⟩
    rw [← hrun]
    exact hafter

/-- The stopping adapter is a machine of cut calls. -/
theorem stopping_cutMachine (schema : SchemaFile) :
    CutMachine (lifecycle schema) (stopping schema) StoppedCall.call where
  start := rfl
  step i hinv := by
    obtain ⟨faults, hafter, hanswer⟩ := @stopping_step schema _ hinv.saved i
    exact ⟨_, trivial, hafter, hanswer⟩

/-! ### What a stop leaves -/

variable {h : History Store StoppedCall (Option Reply)} {m : MessageEnvelope}

/-- The effect of a call has nothing to do with the failures around it. -/
theorem effect_faults (faults : List (Option String)) (call : Call) (reply : Reply) (t t' : Tables) :
    Effect schema { env with faults } call reply t t' ↔ Effect schema env call reply t t' := by
  cases call <;> exact Iff.rfl

/-- After every run with failing statements and stops no transaction is open, and every value can
    be parsed. -/
theorem allOpen_of_stops
    {allowed : History Store StoppedCall (Option Reply) → Store → StoppedCall → Prop}
    (run : Run (stopping schema) allowed h s) : s.saved = none ∧ AllOpen s.data := by
  induction run with
  | start => exact ⟨rfl, by simp [AllOpen, stopping, adapter, Tables.empty]⟩
  | @step h s i run ok ih =>
    obtain ⟨hsaved, hopens⟩ := ih
    obtain ⟨faults, hafter, -⟩ := @stopping_step schema _ hsaved i
    have hkept := @AllOpen.perform schema _ hsaved hopens { i.env with faults } i.call
    rw [← hafter] at hkept
    exact hkept

/-- **A stopped call has been performed or has changed nothing.**  In every run with failing
    statements and stops, of any calls whatever, no transaction is left open, and each call leaves
    the tables as they were or as a performed call does: as they were if it reports failure, and as
    the performed call with its answer does if it reports more than a refusal. -/
theorem stops_atomic
    {allowed : History Store StoppedCall (Option Reply) → Store → StoppedCall → Prop}
    (run : Run (stopping schema) allowed h s) :
    s.saved = none ∧ ∀ r ∈ h,
      (r.after.data = r.before.data ∨
        ∃ reply, Effect schema r.input.env r.input.call reply r.before.data r.after.data) ∧
      ∀ reply, r.output = some reply →
        (reply.failed = true → r.after.data = r.before.data) ∧
        (¬reply.IsRefusal → Effect schema r.input.env r.input.call reply r.before.data r.after.data) := by
  refine ⟨(allOpen_of_stops run).1, fun r hr => ?_⟩
  obtain ⟨older, run', -, hstep⟩ := run.allowed_of_mem r hr
  obtain ⟨hsaved, hopens⟩ := allOpen_of_stops run'
  obtain ⟨faults, hafter, hanswer⟩ := @stopping_step schema _ hsaved r.input
  have hperforms := (@perform_performs True schema { r.input.env with faults } r.before hsaved
    (.inl trivial) r.input.call).2
  have hout : r.output = ((stopping schema).step r.before r.input).1 := congrArg Step.output hstep
  have hstate : r.after = ((stopping schema).step r.before r.input).2 := congrArg Step.after hstep
  rw [← hafter, ← hstate] at hperforms
  refine ⟨?_, fun reply hreply => ?_⟩
  · rcases hperforms with ⟨-, hsame, -⟩ | heffect
    · exact .inl hsame
    · exact .inr ⟨_, (effect_faults _ _ _ _ _).mp heffect⟩
  · rw [← hanswer reply (hout ▸ hreply)] at hperforms
    rcases hperforms with ⟨hrefusal, hsame, -⟩ | heffect
    · exact ⟨fun _ => hsame, fun hnot => absurd hrefusal hnot⟩
    · refine ⟨fun hfailed => ?_, fun _ => (effect_faults _ _ _ _ _).mp heffect⟩
      rw [heffect.succeeds hopens] at hfailed
      cases hfailed

/-- A lease whose process stops within its transaction. -/
theorem stops_atomic_lease :
    let env (n : Nat) : Env := { now := n + 1, now_pos := Int.succ_ofNat_pos n }
    let message : MessageEnvelope := {
      key := "msg:q:a", messageId := "a", queue := "q", payloadJson := "1", attributesJson := "" }
    let M := stopping .mainMq
    let published := M.stepAt M.start ⟨env 1, .enqueue message, none⟩
    let stopped := M.stepAt published.after ⟨env 2, .leaseNext "q" "c" 30, some 5⟩
    stopped.output = none ∧ stopped.after.saved = none ∧ (stopped.after.data = published.after.data ∨
      ∃ reply, Effect .mainMq (env 2) (.leaseNext "q" "c" 30) reply published.after.data
        stopped.after.data) := by
  intro env message M published stopped
  have run : Run M ((lifecycle .mainMq).AdmitsStop StoppedCall.call) [] M.start := .start
  have run := run.stepAt ⟨env 1, .enqueue message, none⟩ ⟨trivial, by decide⟩
  have hreadable : '\x00' ∉ "q".toList := by decide
  have run := run.stepAt ⟨env 2, .leaseNext "q" "c" 30, some 5⟩ ⟨hreadable, trivial⟩
  obtain ⟨hsaved, hsteps⟩ := stops_atomic run
  exact ⟨rfl, hsaved, (hsteps _ List.mem_cons_self).1⟩

/-- **An answered publication survives every stop.**  In every run with failing statements and
    stops, a message whose publication was answered with success is in the store with its content
    until an acknowledgement takes it away for good; and a `lease_next` that reads its row, as one
    can when its key has no NUL character, gives it back. -/
theorem stops_durable
    (run : Run (stopping schema) ((lifecycle schema).AdmitsStop StoppedCall.call) h s)
    (hanswered : Answered StoppedCall.call h m) :
    ((lifecycle schema).Taken StoppedCall.call h m.key ∧ s.data.row? m.key = none) ∨
    (¬(lifecycle schema).Taken StoppedCall.call h m.key ∧
      ∃ row value message, s.data.row? m.key = some row ∧ s.data.value? m.key = some value ∧
        row.queue = m.queue ∧ row.targetConsumerId = m.targetConsumerId ∧
        leasedMessage m.queue row value = some message ∧ SameContent m message ∧
        ∀ env c timeout, env.faults = [] →
          s.data.nextRow? schema m.queue c env.now = some row →
          ∃ token, ((adapter schema).perform env (.leaseNext m.queue c timeout) s).1.granted =
            some (message, token)) := by
  have hcut := stopping_cutMachine schema
  have hslot : ∀ t : Store, (lifecycle schema).slot t m.key = none ↔ t.data.row? m.key = none :=
    fun t => Option.map_eq_none_iff
  by_cases htaken : (lifecycle schema).Taken StoppedCall.call h m.key
  · exact .inl ⟨htaken, (hslot s).mp (hcut.taken_gone run htaken).1⟩
  -- No recovery takes a row away, whatever stops it.
  · have hrecovers : ∀ r ∈ h, r.input.call = .recoverExpiredLeases →
        (lifecycle schema).slot r.before m.key ≠ none →
        (lifecycle schema).slot r.after m.key ≠ none := by
      intro r hr hcall hbefore
      obtain ⟨older, run', -, hstep⟩ := run.allowed_of_mem r hr
      have hsaved : r.before.saved = none := (hcut.inv_of_stops run').1.saved
      obtain ⟨faults, hafter, -⟩ := @stopping_step schema _ hsaved r.input
      rw [hstep]
      show Tables.slot ((stopping schema).step r.before r.input).2.data m.key ≠ none
      rw [hafter, hcall]
      exact slot_recovered hsaved hbefore
    -- So the row is there, and its value is that of the message published under the key.
    have hthere := (hcut.durable run hrecovers hanswered).mpr htaken
    obtain ⟨row, hrow⟩ := Option.ne_none_iff_exists'.mp (mt (hslot s).mpr hthere)
    obtain ⟨h', run', hgiven⟩ := hcut.run_of_stops run
    have hbacked := (content_kept run').2
    have hwell := (hcut.inv_of_stops run).2
    rw [hgiven] at hbacked
    obtain ⟨j, hj, hcarries⟩ := hbacked row (Table.row?_mem hrow)
    obtain ⟨m', hm', hdescribes, message, hmessage, hcontent⟩ := hcarries.leasedMessage m.queue
    have hkey : row.messageKey = m.key := Table.row?_key hrow
    obtain ⟨r, hr, hcall, -⟩ := hanswered
    obtain rfl : m' = m := hwell.eq_of_key hm' (CutMachine.mem_givenBy hr hcall)
      (hdescribes.key.symm.trans hkey)
    -- A lease that selects the row reads this message, since nothing of its key is cut off.
    have hreads : ∀ env c timeout, env.faults = [] →
        s.data.nextRow? schema m'.queue c env.now = some row →
        ∃ token, ((adapter schema).perform env (.leaseNext m'.queue c timeout) s).1.granted =
          some (message, token) := by
      intro env c timeout hcalm hnext
      exact ⟨_, leaseNext_reads (hcut.inv_of_stops run).1.saved hcalm hnext hj hmessage⟩
    rw [hkey] at hj
    exact .inr ⟨htaken, row, some j, message, hrow, hj, hdescribes.queue, hdescribes.target, hmessage,
      hcontent, hreads⟩

/-- A message that is published, and whose acknowledgement is stopped before its end. -/
theorem stops_durable_ack :
    let env (n : Nat) : Env := { now := n + 1, now_pos := Int.succ_ofNat_pos n }
    let message : MessageEnvelope := {
      key := "msg:q:a", messageId := "a", queue := "q", payloadJson := "1", attributesJson := "" }
    let M := stopping .mainMq
    let published := M.stepAt M.start ⟨env 1, .enqueue message, none⟩
    let leased := M.stepAt published.after ⟨env 2, .leaseNext "q" "c" 30, none⟩
    let stopped := M.stepAt leased.after ⟨env 3, .ack ⟨"", "msg:q:a", "c", 0⟩, some 5⟩
    let h := [stopped, leased, published]
    Answered StoppedCall.call h message ∧
      (((lifecycle .mainMq).Taken StoppedCall.call h message.key ∧
          stopped.after.data.row? message.key = none) ∨
        (¬(lifecycle .mainMq).Taken StoppedCall.call h message.key ∧
          ∃ row value given, stopped.after.data.row? message.key = some row ∧
            stopped.after.data.value? message.key = some value ∧ row.queue = message.queue ∧
            row.targetConsumerId = message.targetConsumerId ∧
            leasedMessage message.queue row value = some given ∧ SameContent message given ∧
            ∀ env c timeout, env.faults = [] →
              stopped.after.data.nextRow? .mainMq message.queue c env.now = some row →
              ∃ token, ((adapter .mainMq).perform env (.leaseNext message.queue c timeout)
                stopped.after).1.granted = some (given, token))) := by
  intro env message M published leased stopped h
  have run : Run M ((lifecycle .mainMq).AdmitsStop StoppedCall.call) [] M.start := .start
  have run := run.stepAt ⟨env 1, .enqueue message, none⟩ ⟨trivial, by decide⟩
  have hreadable : '\x00' ∉ "q".toList := by decide
  have run := run.stepAt ⟨env 2, .leaseNext "q" "c" 30, none⟩ ⟨hreadable, trivial⟩
  have run := run.stepAt ⟨env 3, .ack ⟨"", "msg:q:a", "c", 0⟩, some 5⟩ ⟨trivial, trivial⟩
  have hanswered : Answered StoppedCall.call h message :=
    ⟨published, by simp [h], rfl, congrArg some (Reply.succeeded_iff.mp (by decide +kernel))⟩
  exact ⟨hanswered, stops_durable run hanswered⟩

end YirangMQ.SQLite

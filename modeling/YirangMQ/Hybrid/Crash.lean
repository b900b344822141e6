import YirangMQ.Hybrid.Placement
import YirangMQ.Library.Interruption

namespace YirangMQ.Hybrid

open Program Abortable

/-!
# What a stop leaves in the Hybrid store

The process may stop between any two primitives of an operation.  The database then brings back what
has been committed, and the payload files are as they were left.

* `program_interruptible` — stopping an operation is failing from then on;
* `CutCall`, `crashing` — the machine whose calls may be cut;
* `run_of_crashes` — **every state it reaches is reached by calls in which primitives fail**;
* `Survived` — what the store keeps therefore;
* `AckCommitted`, `acked_gone` — messages whose acknowledgement is committed have no row again.
-/

variable {schema : SchemaFile} {env : Env} {s t : Store} {α : Type}

/-! ### Operations that are stopped -/

/-- A statement may be stopped before it or after it. -/
theorem execute_interruptible {describe : String → String}
    {f : Tables → Except String (α × Tables)} :
    InterruptibleE Conn.rolledBack (execute describe f) := by
  refine Interruptible.bind rolledBack_rolledBack .prim fun r => ?_
  cases r with
  | ok a => exact .pure
  | error e => exact .pure

/-- So may a query. -/
theorem query_interruptible {error : Option String} {g : Tables → Option α} :
    InterruptibleE Conn.rolledBack (query error g) :=
  InterruptibleE.attemptOr rolledBack_rolledBack

/-- So may the removal of a file. -/
theorem removeFile_interruptible (path : String) :
    Interruptible Conn.rolledBack (removeFile path) := .prim

/-- So may the move of a payload. -/
theorem movePayload_interruptible (src dest : String) :
    Interruptible Conn.rolledBack (movePayload src dest) :=
  .bind rolledBack_rolledBack .prim fun _ => .pure

/-- The writing of a payload may be stopped between its two steps. -/
theorem atomicWrite_interruptible (path : String) (content : JsonText) :
    Interruptible Conn.rolledBack (atomicWrite path content) := by
  refine .bind rolledBack_rolledBack .prim fun r => ?_
  cases r with
  | error e => exact .pure
  | ok u =>
    refine .bind rolledBack_rolledBack .prim fun r => ?_
    cases r with
    | error e => exact .bind rolledBack_rolledBack (removeFile_interruptible _) fun _ => .pure
    | ok u => exact .pure

/-- `enqueue` may be stopped anywhere. -/
theorem enqueue_interruptible (message : MessageEnvelope) :
    Interruptible Conn.rolledBack (enqueue schema env message) := by
  -- Each branch is a sequence of primitives, between any two of which the transaction rolls back.
  have hundo : ∀ e, Interruptible Conn.rolledBack
      (undoEnqueue (buildPayloadPath message.queue message.messageId) e) := by
    intro e
    refine .bind rolledBack_rolledBack .modify_back fun _ =>
      .bind rolledBack_rolledBack (removeFile_interruptible _) fun r => ?_
    cases r with
    | error what => exact .pure
    | ok u => exact .pure
  refine .bind rolledBack_rolledBack .prim fun r => ?_
  cases r with
  | error e => exact .pure
  | ok u =>
    refine .bind rolledBack_rolledBack .prim fun r => ?_
    cases r with
    | error e => exact .pure
    | ok u =>
      refine .bind rolledBack_rolledBack (atomicWrite_interruptible _ _) fun r => ?_
      cases r with
      | error e => exact .bind rolledBack_rolledBack .modify_back fun _ => .pure
      | ok u =>
        have hinsert : InterruptibleE Conn.rolledBack (insertMessage schema env message) :=
          InterruptibleE.bind rolledBack_rolledBack execute_interruptible fun _ =>
            execute_interruptible
        refine .bind rolledBack_rolledBack hinsert fun r => ?_
        cases r with
        | error e => exact hundo e
        | ok u =>
          refine .bind rolledBack_rolledBack .prim fun r => ?_
          cases r with
          | error e => exact hundo (some e)
          | ok u => exact .pure

/-- So may `lease_next`. -/
theorem leaseNext_interruptible (queue c : String) (timeout : Int) :
    Interruptible Conn.rolledBack (leaseNext schema env queue c timeout) := by
  have hrow : InterruptibleE Conn.rolledBack
      (leaseRow schema queue c env.now (env.now + timeout * 1000)) := by
    refine InterruptibleE.bind rolledBack_rolledBack query_interruptible fun row => ?_
    refine InterruptibleE.bind rolledBack_rolledBack execute_interruptible fun _ => ?_
    exact InterruptibleE.bind rolledBack_rolledBack query_interruptible fun _ => .pure
  refine .bind rolledBack_rolledBack (Interruptible.transaction hrow) fun r => ?_
  rcases r with e | ⟨row, value⟩
  · exact .pure
  · have hread : Interruptible Conn.rolledBack (readMessage row value) := by
      unfold readMessage
      split
      · exact .pure
      · exact .bind rolledBack_rolledBack .prim fun _ => .pure
    refine .bind rolledBack_rolledBack hread fun r => ?_
    cases r with
    | none => exact .pure
    | some message => exact .pure

/-- So may `ack`, between its transaction and the move as well. -/
theorem ack_interruptible (lease : LeaseToken) :
    Interruptible Conn.rolledBack (ack schema lease) := by
  refine .bind rolledBack_rolledBack (Interruptible.transaction ?_) fun r => ?_
  · refine InterruptibleE.bind rolledBack_rolledBack query_interruptible fun queue => ?_
    refine InterruptibleE.bind rolledBack_rolledBack execute_interruptible fun _ => ?_
    exact InterruptibleE.bind rolledBack_rolledBack execute_interruptible fun _ => .pure
  · cases r with
    | error e => exact .pure
    | ok queue =>
      exact .bind rolledBack_rolledBack (movePayload_interruptible _ _) fun _ => .pure

/-- So may `nack`, between the move and the end of its transaction as well. -/
theorem nack_interruptible (lease : LeaseToken) (reason : String) (requeue : Bool) :
    Interruptible Conn.rolledBack (nack env lease reason requeue) := by
  refine Interruptible.transaction ?_
  refine InterruptibleE.bind rolledBack_rolledBack query_interruptible fun queue => ?_
  cases requeue with
  | true => exact execute_interruptible
  | false =>
    refine InterruptibleE.bind rolledBack_rolledBack execute_interruptible fun _ => ?_
    refine InterruptibleE.bind rolledBack_rolledBack
      (.orDefault rolledBack_rolledBack execute_interruptible) fun _ => ?_
    exact .lift rolledBack_rolledBack (movePayload_interruptible _ _)

/-- So may a sweep. -/
theorem updateCounting_interruptible (p : IndexRow → Bool) (f : IndexRow → IndexRow) :
    Interruptible Conn.rolledBack (updateCounting p f) := by
  refine .bind rolledBack_rolledBack .prim fun r => ?_
  split
  · exact .pure
  · exact .pure
  · refine .bind rolledBack_rolledBack execute_interruptible fun r => ?_
    cases r with
    | error e => exact .pure
    | ok u => exact .pure

/-- So may `move_to_dlq`. -/
theorem moveToDlq_interruptible (key reason : String) :
    Interruptible Conn.rolledBack (moveToDlq env key reason) := by
  refine .bind rolledBack_rolledBack (Interruptible.transaction ?_) fun r => ?_
  · refine InterruptibleE.bind rolledBack_rolledBack
      (.orDefault rolledBack_rolledBack query_interruptible) fun queue => ?_
    refine InterruptibleE.bind rolledBack_rolledBack execute_interruptible fun _ => ?_
    exact InterruptibleE.bind rolledBack_rolledBack
      (.orDefault rolledBack_rolledBack execute_interruptible) fun _ => .pure
  · cases r with
    | error e => exact .pure
    | ok queue =>
      dsimp only
      split
      · exact .bind rolledBack_rolledBack (movePayload_interruptible _ _) fun _ => .pure
      · exact .pure

/-- So may `reprocess_dlq_message`. -/
theorem reprocessDlqMessage_interruptible (key : String) :
    Interruptible Conn.rolledBack (reprocessDlqMessage env key) := by
  refine .bind rolledBack_rolledBack (Interruptible.transaction ?_) fun r => ?_
  · refine InterruptibleE.bind rolledBack_rolledBack query_interruptible fun queue => ?_
    refine InterruptibleE.bind rolledBack_rolledBack execute_interruptible fun _ => ?_
    exact InterruptibleE.bind rolledBack_rolledBack
      (.orDefault rolledBack_rolledBack execute_interruptible) fun _ => .pure
  · cases r with
    | error e => exact .pure
    | ok queue =>
      dsimp only
      split
      · exact .bind rolledBack_rolledBack (movePayload_interruptible _ _) fun _ => .pure
      · exact .pure

/-- **Stopping an operation is failing from then on.** -/
theorem program_interruptible (call : Call) :
    Interruptible Conn.rolledBack (program schema env call) := by
  have hanswer : ∀ {β : Type} {op : Program Store β} {f : β → Reply},
      Interruptible Conn.rolledBack op →
      Interruptible Conn.rolledBack (do return f (← op)) := fun h =>
    .bind rolledBack_rolledBack h fun _ => .pure
  cases call with
  | enqueue message => exact enqueue_interruptible message
  | leaseNext queue c timeout => exact hanswer (leaseNext_interruptible queue c timeout)
  | ack lease => exact hanswer (ack_interruptible lease)
  | nack lease reason requeue => exact hanswer (nack_interruptible lease reason requeue)
  | extendLease lease timeout => exact hanswer execute_interruptible
  | savePolicy queue policy =>
    exact hanswer (.bind rolledBack_rolledBack .prim fun _ => execute_interruptible)
  | recoverExpiredLeases => exact hanswer (updateCounting_interruptible _ _)
  | processDelayedMessages => exact hanswer (updateCounting_interruptible _ _)
  | delayMessage key delayMs => exact hanswer execute_interruptible
  | moveToDlq key reason => exact hanswer (moveToDlq_interruptible key reason)
  | reprocessDlqMessage key => exact hanswer (reprocessDlqMessage_interruptible key)

/-! ### Runs with cuts -/

/-- A call, and the number of primitives after which the process stops, if it does. -/
structure CutCall where
  env : Env
  call : Call
  cut : Option Nat

/-- The store after a call that may be cut: when the process starts again, the database has brought
    back what was committed. -/
def afterCut (schema : SchemaFile) (s : Store) (i : CutCall) : Store :=
  let p := program schema i.env i.call
  match i.cut with
  | none => (p.run i.env.faults s).2
  | some n => ((p.passedStates i.env.faults s).getD n (p.run i.env.faults s).2).rolledBack

/-- Calls one after another, each of which may be cut; a cut call gives no answer. -/
def crashing (schema : SchemaFile) : Machine Store CutCall (Option Reply) where
  start := ⟨.empty, none, ∅⟩
  step s i :=
    (if i.cut = none then some ((program schema i.env i.call).run i.env.faults s).1 else none,
      afterCut schema s i)

/-- The messages given to `enqueue`, newest first. -/
def given (h : History Store CutCall (Option Reply)) : List MessageEnvelope :=
  h.foldr (fun r messages => r.input.call.publishing messages) []

/-- A call that leaves no transaction open is at rest. -/
theorem rolledBack_of_closed (hsaved : s.saved = none) : s.rolledBack = s := by
  obtain ⟨data, saved, files⟩ := s
  cases hsaved
  rfl

/-- A call that is cut ends as one in which primitives fail. -/
theorem afterCut_eq (hsaved : s.saved = none) (i : CutCall) :
    ∃ faults, afterCut schema s i =
      ((adapter schema).perform { i.env with faults } i.call s).2 := by
  have hclosed : ∀ faults, ((adapter schema).perform { i.env with faults } i.call s).2.saved = none :=
    fun faults => (@perform_performs True schema { i.env with faults } s hsaved (.inl trivial)
      i.call).1.1
  have hrun : ∀ faults, ((program schema i.env i.call).run faults s).2 =
      ((adapter schema).perform { i.env with faults } i.call s).2 := by
    intro faults
    cases hcall : i.call <;> rfl
  unfold afterCut
  cases hcut : i.cut with
  | none => exact ⟨i.env.faults, hrun _⟩
  | some n =>
    dsimp only
    rw [List.getD_eq_getElem?_getD]
    cases hstate : ((program schema i.env i.call).passedStates i.env.faults s)[n]? with
    | none =>
      refine ⟨i.env.faults, ?_⟩
      rw [Option.getD_none, hrun, rolledBack_of_closed (hclosed _)]
    | some t =>
      obtain ⟨faults, hrests⟩ := (program_interruptible i.call).passed (List.mem_of_getElem? hstate)
      refine ⟨faults, ?_⟩
      rw [hrun] at hrests
      rw [Option.getD_some]
      rcases hrests with hsame | hback
      · rw [hsame]
        exact rolledBack_of_closed (hsame ▸ hclosed faults)
      · exact hback.symm

/-! ### What survives -/

/-- The strings of the call stand in its statements, and it publishes under a fresh identifier and
    in a directory of its own. -/
structure Stoppable (h : History Store CutCall (Option Reply)) (_ : Store) (i : CutCall) : Prop where
  plain : i.call.Plain
  fresh : i.call.Fresh (given h)
  identified : ∀ m ∈ i.call.publishing (given h), m.messageId ≠ ""
  apart : Apart (i.call.publishing (given h))

/-- **Every state a run with cuts reaches is reached by calls in which primitives fail.** -/
theorem run_of_crashes {h : History Store CutCall (Option Reply)} {s : Store}
    (run : Run (crashing schema) Stoppable h s) :
    ∃ h', Run (adapter schema).machine (lifecycle schema).Admitted h' s ∧
      publishedBy h' = given h := by
  induction run with
  | start => exact ⟨[], .start, rfl⟩
  | @step h s i run ok ih =>
    obtain ⟨h', run', hpublished⟩ := ih
    have hsaved : s.saved = none := ((lifecycle schema).inv_of_run run').1.saved
    obtain ⟨faults, hafter⟩ := @afterCut_eq schema s hsaved i
    have hfresh : i.call.Fresh (publishedBy h') := hpublished ▸ ok.fresh
    let r := (adapter schema).machine.stepAt s ({ i.env with faults }, i.call)
    have run'' : Run _ _ (r :: h') r.after := run'.stepAt _ ⟨trivial, ok.plain, hfresh⟩
    refine ⟨r :: h', ?_, congrArg (fun published => i.call.publishing published) hpublished⟩
    show Run _ _ _ (afterCut schema s i)
    rw [hafter]
    exact run''

/-- What the store keeps when calls are cut. -/
structure Survived (published : List MessageEnvelope) (s : Store) : Prop where
  keeps : Keeps published s
  well : WellPublished published
  known : Known published s.data
  filed : Filed published s.files
  content : s.data.Backed (Carries published)
  identified : ∀ m ∈ published, m.messageId ≠ ""

/-- **After every run that may be stopped anywhere the store has survived.** -/
theorem survived_of_run {h : History Store CutCall (Option Reply)} {s : Store}
    (run : Run (crashing schema) Stoppable h s) : Survived (given h) s := by
  have hids : ∀ m ∈ given h, m.messageId ≠ "" := by
    cases run with
    | start => exact fun _ hm => nomatch hm
    | step run ok => exact ok.identified
  obtain ⟨h', run', hpublished⟩ := run_of_crashes run
  obtain ⟨hwell, howned⟩ := owned_of_run (fun _ _ _ ok => ok.fresh) run'
  have hkeeps : Keeps (publishedBy h') s := ((lifecycle schema).inv_of_run run').1
  have hcontent : s.data.Backed (Carries (publishedBy h')) := content_kept run'
  rw [hpublished] at hwell howned hkeeps hcontent
  exact ⟨hkeeps, hwell, howned.data, howned.files, hcontent, hids⟩

/-- An `ack` of the run has taken the row of the key away, answered or not. -/
def AckCommitted (h : History Store CutCall (Option Reply)) (key : String) : Prop :=
  ∃ r ∈ h, ∃ lease, r.input.call = .ack lease ∧ lease.messageKey = key ∧
    r.before.data.row? key ≠ none ∧ r.after.data.row? key = none

/-- A key is without a slot exactly when it has no row. -/
theorem slot_eq_none {key : String} : s.data.slot key = none ↔ s.data.row? key = none :=
  Option.map_eq_none_iff

/-- A call brings no row back. -/
theorem row_gone {published : List MessageEnvelope} (hsurvived : Survived published s) {i : CutCall}
    (hplain : i.call.Plain) (hfresh : i.call.Fresh published) {key : String}
    (hkey : key ∈ published.map MessageEnvelope.key) (hgone : s.data.row? key = none) :
    (afterCut schema s i).data.row? key = none := by
  obtain ⟨faults, hafter⟩ := @afterCut_eq schema s hsurvived.keeps.saved i
  have hmoves := (@Keeps.perform schema { i.env with faults } published s hsurvived.keeps i.call
    hplain hfresh).2 key
  rw [← hafter, MovesKey, slot_eq_none.mpr hgone] at hmoves
  rw [← slot_eq_none]
  generalize hcall : i.call = call at hmoves hfresh
  generalize (afterCut schema s i).data.slot key = slot at hmoves
  cases hmoves with
  | stay hidle => rfl
  | publish hsame hok => exact absurd hfresh (hsurvived.well.not_fresh (hsame ▸ hkey))

/-- A message whose acknowledgement is committed has been published, and has no row again. -/
theorem acked_gone {h : History Store CutCall (Option Reply)} {s : Store}
    (run : Run (crashing schema) Stoppable h s) {key : String} (hacked : AckCommitted h key) :
    s.data.row? key = none ∧ key ∈ (given h).map MessageEnvelope.key := by
  induction run with
  | start =>
    obtain ⟨r, hr, -⟩ := hacked
    cases hr
  | @step h s i run ok ih =>
    obtain ⟨r, hr, lease, hcall, hkey, hbefore, hafter⟩ := hacked
    have hsurvived := survived_of_run run
    rcases List.mem_cons.mp hr with rfl | hr
    · have hslot : s.data.slot key ≠ none := mt slot_eq_none.mp hbefore
      exact ⟨hafter, i.call.mem_publishing (hsurvived.keeps.known key hslot)⟩
    · obtain ⟨hgone, hknown⟩ := ih ⟨r, hr, lease, hcall, hkey, hbefore, hafter⟩
      exact ⟨row_gone hsurvived ok.plain ok.fresh hknown hgone, i.call.mem_publishing hknown⟩

end YirangMQ.Hybrid

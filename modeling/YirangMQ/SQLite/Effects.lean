import YirangMQ.SQLite.Adapter

namespace YirangMQ.SQLite

open Program Abortable Table

/-!
# What the SQLite calls do

Each call either refuses and leaves both tables as they were, or performs its effect; in both
cases no transaction stays open.

* `Effect` — the effect of each call that is performed, with the answer that goes with it;
* `Refuses` — the reasons a call has to refuse although no statement fails;
* `enqueue_sat`, …, `reprocessDlqMessage_sat` — one judgement for each operation;
* `program_sat`, `perform_performs` — **every call refuses or performs its effect.**
-/

variable {faulty : Prop} {schema : SchemaFile} {env : Env} {s : Store}

/-- The tables after a message has been inserted. -/
def enqueued (env : Env) (message : MessageEnvelope) (t : Tables) : Tables where
  kv := t.kv ++ [⟨message.key, some (envelopeJson message env.now), "message", env.now, env.now⟩]
  index := t.index ++ [newRow message env.now]

/-- The tables after the message of `row` has been leased. -/
def leased (row : IndexRow) (leaseUntil : Int) (t : Tables) : Tables :=
  t.updateIndex (fun r => r.messageKey = row.messageKey) fun r =>
    { r with state := .inflight, leaseUntil := some leaseUntil, attempt := row.attempt + 1 }

/-- The answer when `row` has been leased and its value read. -/
def leaseReply (env : Env) (queue consumerId : String) (leaseUntil : Int) (row : IndexRow)
    (value : JsonText) : LeaseResult :=
  match leasedMessage queue row value with
  | none => { error := some "failed to parse message" }
  | some message =>
    { leased := true
      message := some message
      lease := some ⟨env.guid, row.messageKey, consumerId, leaseUntil⟩ }

/-- The tables after an acknowledgement that no statement failed in. -/
def acked (key : String) (t : Tables) : Tables :=
  (t.deleteIndex fun r => r.messageKey = key ∧ r.state = .inflight).deleteKv key

/-- The effect of a performed call, and its answer. -/
def Effect (schema : SchemaFile) (env : Env) : Call → Reply → Tables → Tables → Prop
  | .enqueue message, reply, t, t' =>
    reply = .status (.ok ()) ∧ message.key ∉ t.kv.map KvRow.key ∧ t' = enqueued env message t
  | .leaseNext queue c timeout, reply, t, t' =>
    ∃ row value, t.nextRow? schema queue c env.now = some row ∧ t.value? row.messageKey = some value ∧
      reply = .lease (leaseReply env queue c (env.now + timeout * 1000) row value) ∧
      t' = leased row (env.now + timeout * 1000) t
  | .ack lease, reply, t, t' => reply = .status (.ok ()) ∧ t' = acked lease.messageKey t
  | .nack lease reason requeue, reply, t, t' =>
    reply = .status (.ok ()) ∧
    if requeue then
      t' = t.updateIndex (fun r => r.messageKey = lease.messageKey ∧ r.state = .inflight)
        fun r => { r with state := .ready, leaseUntil := none, availableAt := env.now }
    else
      EditsValue lease.messageKey env.now (withDlqFields reason env.now)
        (t.updateIndex (fun r => r.messageKey = lease.messageKey ∧ r.state = .inflight)
          fun r => { r with state := .dlq, leaseUntil := none }) t'
  | .extendLease lease timeout, reply, t, t' =>
    reply = .status (.ok ()) ∧
    t' = t.updateIndex (fun r => r.messageKey = lease.messageKey ∧ r.state = .inflight ∧
        r.leaseUntil.any (env.now < ·))
      fun r => { r with leaseUntil := some (env.now + timeout * 1000) }
  | .savePolicy queue policy, reply, t, t' =>
    reply = .status (.ok ()) ∧
    t' = t.replaceKv ⟨"policy:" ++ queue, some policy.toJson, "policy", env.now, env.now⟩
  | .recoverExpiredLeases, reply, t, t' =>
    (∃ n, reply = .count n none) ∧
    t' = t.updateIndex (Tables.isExpired env.now) fun r =>
      { r with state := .ready, leaseUntil := none }
  | .processDelayedMessages, reply, t, t' =>
    (∃ n, reply = .count n none) ∧
    t' = t.updateIndex (fun r => r.state = .delayed ∧ r.availableAt ≤ env.now) fun r =>
      { r with state := .ready }
  | .delayMessage key delayMs, reply, t, t' =>
    reply = .status (.ok ()) ∧
    t' = t.updateIndex (fun r => r.messageKey = key) fun r =>
      { r with state := .delayed, leaseUntil := none, availableAt := env.now + delayMs }
  | .moveToDlq key reason, reply, t, t' =>
    reply = .status (.ok ()) ∧
    EditsValue key env.now (withDlqFields reason env.now)
      (t.updateIndex (fun r => r.messageKey = key) fun r =>
        { r with
          state := .dlq, leaseUntil := none, dlqReason := some reason
          dlqAt := some env.now }) t'
  | .reprocessDlqMessage key, reply, t, t' =>
    reply = .status (.ok ()) ∧
    EditsValue key env.now withoutDlqFields
      (t.updateIndex (fun r => r.messageKey = key ∧ r.state = .dlq) fun r =>
        { r with
          state := .ready, leaseUntil := none, availableAt := env.now, attempt := 0
          dlqReason := none, dlqAt := none }) t'

/-- Why a call refuses although no statement fails. -/
def Refuses (schema : SchemaFile) (env : Env) : Call → Tables → Prop
  | .enqueue message, t =>
    message.key ∈ t.kv.map KvRow.key ∨ message.key ∈ t.index.map IndexRow.messageKey
  | .leaseNext queue c _, t =>
    ∀ row, t.nextRow? schema queue c env.now = some row → t.value? row.messageKey = none
  | _, _ => False

/-- The call refuses and changes nothing, because a statement fails or for its own reasons, or
    it performs its effect. -/
def Performs (faulty : Prop) (schema : SchemaFile) (env : Env) (call : Call) (reply : Reply)
    (t t' : Tables) : Prop :=
  reply.IsRefusal ∧ t' = t ∧ (faulty ∨ Refuses schema env call t) ∨ Effect schema env call reply t t'

/-! ### One judgement for each operation -/

theorem enqueue_sat (hsaved : s.saved = none) (message : MessageEnvelope) :
    Sat faulty (fun _ => True) s (enqueue schema env message)
      (Applies s
        (fun _ t => message.key ∉ s.data.kv.map KvRow.key ∧ t = enqueued env message s.data)
        (fun _ => faulty ∨ Refuses schema env (.enqueue message) s.data)) := by
  refine Sat.transaction_applies hsaved (fun hf _ => .inl hf) ?_
  refine SatE.bind (SatE.prepared ?_ ?_ fun hf _ => ⟨rfl, .inl hf⟩)
  · intro _ t hkv
    obtain ⟨hnew, rfl⟩ := Tables.insertKv_ok hkv
    refine SatE.prepared ?_ ?_ fun hf _ => ⟨rfl, .inl hf⟩
    · intro _ t hindex
      obtain rfl := Tables.insertIndex_ok hindex
      exact ⟨rfl, hnew, rfl⟩
    · intro text hindex
      rcases Tables.insertIndex_error hindex with hfk | hpk
      · simp [newRow] at hfk
      · exact ⟨rfl, .inr (.inr hpk)⟩
  · intro text hkv
    exact ⟨rfl, .inr (.inl (Tables.insertKv_error hkv))⟩

theorem leaseRow_sat (hsaved : s.saved = none) (queue c : String) (now leaseUntil : Int) :
    Sat faulty (fun _ => True) s (transaction (leaseRow schema queue c now leaseUntil))
      (Applies s
        (fun r t => s.data.nextRow? schema queue c now = some r.1 ∧
          s.data.value? r.1.messageKey = some r.2 ∧ t = leased r.1 leaseUntil s.data)
        (fun e => faulty ∨ e = none ∧ s.data.nextRow? schema queue c now = none ∨
          ∃ row, s.data.nextRow? schema queue c now = some row ∧
            s.data.value? row.messageKey = none)) := by
  refine Sat.transaction_applies hsaved (fun hf _ => .inl hf) ?_
  refine SatE.bind (SatE.prepared_selecting ?_ ?_ fun hf _ => ⟨rfl, .inl hf⟩)
  · intro row hrow
    refine SatE.bind (SatE.prepared_always ?_ fun hf _ => ⟨rfl, .inl hf⟩)
    refine SatE.bind (SatE.prepared_selecting ?_ ?_ fun hf _ => ⟨rfl, .inl hf⟩)
    · exact fun value hvalue => SatE.pure ⟨rfl, hrow, hvalue, rfl⟩
    · exact fun hvalue => ⟨rfl, .inr (.inr ⟨row, hrow, hvalue⟩)⟩
  · exact fun hrow => ⟨rfl, .inr (.inl ⟨rfl, hrow⟩)⟩

theorem ack_sat (hsaved : s.saved = none) (lease : LeaseToken) :
    Sat faulty (fun _ => True) s (ack lease)
      (Applies s (fun _ t => t = acked lease.messageKey s.data) (fun _ => faulty)) := by
  refine Sat.transaction_applies hsaved (fun hf _ => hf) ?_
  refine SatE.bind (SatE.prepared_always ?_ fun hf _ => ⟨rfl, hf⟩)
  exact SatE.prepared_always ⟨rfl, rfl⟩ fun hf _ => ⟨rfl, hf⟩

/-- A transaction of one update. -/
theorem update_sat (hsaved : s.saved = none) (error : String) (p : IndexRow → Bool)
    (f : IndexRow → IndexRow) :
    Sat faulty (fun _ => True) s
      (transaction (prepared (some error) (always (Tables.updateIndex p f))))
      (Applies s (fun _ t => t = s.data.updateIndex p f) (fun _ => faulty)) := by
  refine Sat.transaction_applies hsaved (fun hf _ => hf) ?_
  exact SatE.prepared_always ⟨rfl, rfl⟩ fun hf _ => ⟨rfl, hf⟩

/-- A transaction of one update that counts the rows it changed. -/
theorem updateCounting_sat (hsaved : s.saved = none) (error : String) (p : IndexRow → Bool)
    (f : IndexRow → IndexRow) :
    Sat faulty (fun _ => True) s (transaction (updateCounting error p f))
      (Applies s (fun _ t => t = s.data.updateIndex p f) (fun _ => faulty)) := by
  refine Sat.transaction_applies hsaved (fun hf _ => hf) ?_
  refine SatE.bind (SatE.prepared ?_ (by simp) fun hf _ => ⟨rfl, hf⟩)
  rintro n t ⟨rfl, rfl⟩
  refine SatE.bind (SatE.prepare ?_ fun hf _ => ⟨rfl, hf⟩)
  exact SatE.orDefault (SatE.step (by rintro n t ⟨rfl, rfl⟩; exact ⟨rfl, rfl⟩) (by simp)
    fun _ => ⟨rfl, rfl⟩)

/-- Editing the value of a key changes nothing else. -/
theorem editValue_sat (key : String) (now : Int) (edit : Json String → Option (Json String))
    {Q : Unit → Store → Prop} {E : Option String → Store → Prop}
    (hok : ∀ t, EditsValue key now edit s.data t → Q () { s with data := t })
    (herr : ∀ e, E e s) :
    SatE faulty (fun _ => True) s (editValue key now edit) Q E := by
  refine SatE.bind (SatE.step_selecting ?_ (fun _ => herr _) fun _ => herr _)
  intro value hvalue
  split
  case h_1 => exact SatE.pure (hok _ (.inl rfl))
  case h_2 envelope henvelope =>
    obtain ⟨j, rfl, hj⟩ := Option.bind_eq_some_iff.mp henvelope
    exact SatE.prepared_always (hok _ (.inr ⟨j, envelope, hvalue, hj, rfl⟩)) fun _ => herr

/-- A transaction of one update and an edit of the key's value that may be left out. -/
theorem updateEditing_sat (hsaved : s.saved = none) (error : String) (p : IndexRow → Bool)
    (f : IndexRow → IndexRow) (key : String) (now : Int)
    (edit : Json String → Option (Json String)) :
    Sat faulty (fun _ => True) s
      (transaction do
        prepared (some error) (always (Tables.updateIndex p f))
        orDefault (do prepare; editValue key now edit) ())
      (Applies s (fun _ t => EditsValue key now edit (s.data.updateIndex p f) t)
        (fun _ => faulty)) := by
  refine Sat.transaction_applies hsaved (fun hf _ => hf) ?_
  refine SatE.bind (SatE.prepared_always ?_ fun hf _ => ⟨rfl, hf⟩)
  refine SatE.orDefault (SatE.bind (SatE.prepare ?_ fun _ _ => ⟨rfl, .inl rfl⟩))
  exact editValue_sat key now edit (fun t ht => ⟨rfl, ht⟩) fun _ => ⟨rfl, .inl rfl⟩

theorem nack_sat (hsaved : s.saved = none) (lease : LeaseToken) (reason : String)
    (requeue : Bool) :
    Sat faulty (fun _ => True) s (nack env lease reason requeue)
      (Applies s
        (fun r t => Effect schema env (.nack lease reason requeue) (.status (.ok r)) s.data t)
        (fun _ => faulty)) := by
  cases requeue with
  | true =>
    refine (update_sat hsaved _ _ _).weaken fun r t h => ?_
    rcases r with e | r
    · exact h
    · exact ⟨h.1, rfl, h.2⟩
  | false =>
    refine Sat.transaction_applies hsaved (fun hf _ => hf) ?_
    refine SatE.bind (SatE.prepared_always ?_ fun hf _ => ⟨rfl, hf⟩)
    refine SatE.bind (SatE.prepare ?_ fun hf _ => ⟨rfl, hf⟩)
    refine SatE.orDefault ?_
    exact editValue_sat _ _ _ (fun t ht => ⟨rfl, rfl, ht⟩) fun _ => ⟨rfl, rfl, .inl rfl⟩

theorem savePolicy_sat (hsaved : s.saved = none) (queue : String) (policy : QueuePolicy) :
    Sat faulty (fun _ => True) s (savePolicy env queue policy)
      (Applies s
        (fun _ t => t = s.data.replaceKv
          ⟨"policy:" ++ queue, some policy.toJson, "policy", env.now, env.now⟩)
        (fun _ => faulty)) := by
  refine Sat.weaken (SatE.prepared_always (Q := fun _ t => t.saved = none ∧ t.data = _)
    (E := fun _ t => t.saved = none ∧ t.data = s.data ∧ faulty) ⟨hsaved, rfl⟩
    fun hf _ => ⟨hsaved, rfl, hf⟩) ?_
  rintro (e | u) t ht
  · exact ht
  · exact ht

/-! ### Every call -/

/-- A judgement on an operation that answers with a status, as one on its call. -/
theorem status_sat {call : Call} {m : Program Store Status} {effect : Unit → Tables → Prop}
    {refusal : Option String → Prop}
    (h : Sat faulty (fun _ => True) s m (Applies s effect refusal))
    (heffect : ∀ t, effect () t → Effect schema env call (.status (.ok ())) s.data t)
    (hrefusal : ∀ e, refusal e → faulty ∨ Refuses schema env call s.data) :
    Sat faulty (fun _ => True) s (do return Reply.status (← m)) fun reply s' =>
      s'.saved = none ∧ Performs faulty schema env call reply s.data s'.data := by
  refine Sat.bind (h.weaken fun r t ht => Sat.pure ?_)
  obtain ⟨hopen, ht⟩ := ht
  rcases r with e | r
  · exact ⟨hopen, .inl ⟨⟨e, rfl⟩, ht.1, hrefusal e ht.2⟩⟩
  · exact ⟨hopen, .inr (heffect _ ht)⟩

/-- A judgement on an operation that answers with a number, as one on its call. -/
theorem count_sat {call : Call} {m : Program Store (Except (Option String) Nat)}
    {effect : Nat → Tables → Prop}
    (h : Sat faulty (fun _ => True) s m (Applies s effect fun _ => faulty))
    (heffect : ∀ n t, effect n t → Effect schema env call (.count n none) s.data t) :
    Sat faulty (fun _ => True) s (do return Reply.ofCount (← m)) fun reply s' =>
      s'.saved = none ∧ Performs faulty schema env call reply s.data s'.data := by
  refine Sat.bind (h.weaken fun r t ht => Sat.pure ?_)
  obtain ⟨hopen, ht⟩ := ht
  rcases r with e | n
  · exact ⟨hopen, .inl ⟨rfl, ht.1, .inl ht.2⟩⟩
  · exact ⟨hopen, .inr (heffect _ _ ht)⟩

/-- How `lease_next` answers: with a lease, or with the error of a failed statement, or with
    no error when no message is ready. -/
theorem leaseNext_sat (hsaved : s.saved = none) (queue c : String) (timeout : Int) :
    Sat faulty (fun _ => True) s (leaseNext schema env queue c timeout) fun r s' =>
      s'.saved = none ∧
      ((∃ e, r = { error := e } ∧ s'.data = s.data ∧
          (faulty ∨ e = none ∧ s.data.nextRow? schema queue c env.now = none ∨
            ∃ row, s.data.nextRow? schema queue c env.now = some row ∧
              s.data.value? row.messageKey = none)) ∨
        Effect schema env (.leaseNext queue c timeout) (.lease r) s.data s'.data) := by
  refine Sat.bind ((leaseRow_sat hsaved queue c _ _).weaken fun r t ht => ?_)
  obtain ⟨hopen, ht⟩ := ht
  rcases r with e | ⟨row, value⟩
  · exact Sat.pure ⟨hopen, .inl ⟨e, rfl, ht.1, ht.2⟩⟩
  · obtain ⟨hrow, hvalue, hleased⟩ := ht
    have heffect : Effect schema env (.leaseNext queue c timeout)
        (.lease (leaseReply env queue c (env.now + timeout * 1000) row value)) s.data t.data :=
      ⟨row, value, hrow, hvalue, rfl, hleased⟩
    dsimp only
    split
    case h_1 hmessage =>
      refine Sat.pure ⟨hopen, .inr ?_⟩
      simpa only [leaseReply, hmessage] using heffect
    case h_2 message hmessage =>
      refine Sat.pure ⟨hopen, .inr ?_⟩
      simpa only [leaseReply, hmessage] using heffect

/-- **Every call refuses or performs its effect**, and leaves no transaction open. -/
theorem program_sat (hsaved : s.saved = none) (call : Call) :
    Sat faulty (fun _ => True) s (program schema env call) fun reply s' =>
      s'.saved = none ∧ Performs faulty schema env call reply s.data s'.data := by
  cases call with
  | enqueue message =>
    exact status_sat (enqueue_sat hsaved message) (fun t ht => ⟨rfl, ht⟩) fun e he => he
  | leaseNext queue c timeout =>
    refine Sat.bind ((leaseNext_sat hsaved queue c timeout).weaken fun r t ht => Sat.pure ?_)
    obtain ⟨hopen, ⟨e, rfl, hsame, hrefused⟩ | heffect⟩ := ht
    -- `lease_next` refuses for its own reasons too: no row, or a row without a value.
    · refine ⟨hopen, .inl ⟨⟨e, rfl⟩, hsame, hrefused.imp_right ?_⟩⟩
      rintro (⟨-, hnone⟩ | ⟨row, hrow, hvalue⟩) row' hrow'
      · simp [hnone] at hrow'
      · rw [hrow, Option.some.injEq] at hrow'
        exact hrow' ▸ hvalue
    · exact ⟨hopen, .inr heffect⟩
  | ack lease =>
    exact status_sat (ack_sat hsaved lease) (fun t ht => ⟨rfl, ht⟩) fun e he => .inl he
  | nack lease reason requeue =>
    exact status_sat (nack_sat hsaved lease reason requeue) (fun t ht => ht) fun e he => .inl he
  | extendLease lease timeout =>
    exact status_sat (update_sat hsaved _ _ _) (fun t ht => ⟨rfl, ht⟩) fun e he => .inl he
  | savePolicy queue policy =>
    exact status_sat (savePolicy_sat hsaved queue policy) (fun t ht => ⟨rfl, ht⟩)
      fun e he => .inl he
  | recoverExpiredLeases =>
    exact count_sat (updateCounting_sat hsaved _ _ _) fun n t ht => ⟨⟨n, rfl⟩, ht⟩
  | processDelayedMessages =>
    exact count_sat (updateCounting_sat hsaved _ _ _) fun n t ht => ⟨⟨n, rfl⟩, ht⟩
  | delayMessage key delayMs =>
    exact status_sat (update_sat hsaved _ _ _) (fun t ht => ⟨rfl, ht⟩) fun e he => .inl he
  | moveToDlq key reason =>
    exact status_sat (updateEditing_sat hsaved _ _ _ _ _ _) (fun t ht => ⟨rfl, ht⟩)
      fun e he => .inl he
  | reprocessDlqMessage key =>
    exact status_sat (updateEditing_sat hsaved _ _ _ _ _ _) (fun t ht => ⟨rfl, ht⟩)
      fun e he => .inl he

/-- What one step of the adapter does, with or without failing statements. -/
theorem perform_performs (hsaved : s.saved = none) (hfaults : faulty ∨ env.faults = [])
    (call : Call) :
    ((adapter schema).perform env call s).2.saved = none ∧
    Performs faulty schema env call ((adapter schema).perform env call s).1 s.data
      ((adapter schema).perform env call s).2.data :=
  ((program_sat hsaved call).run hfaults trivial).1

/-- `get_expired_inflight_messages` lists expired rows, all of them when no statement fails. -/
theorem expired_eq {l : List ExpiredLeaseInfo} (hl : (adapter schema).expired env s = .ok l) :
    l.Sublist (s.data.expiredRows env.now) ∧ (env.faults = [] → l = s.data.expiredRows env.now) := by
  have hsat : Sat (env.faults ≠ []) (fun _ => True) s (getExpiredInflightMessages env)
      fun r _ => ∀ l, r = .ok l → l.Sublist (s.data.expiredRows env.now) ∧
        (env.faults = [] → l = s.data.expiredRows env.now) := by
    refine Sat.bind (Sat.prim ?_ (by simp [Conn.reading]) fun _ _ => Sat.pure (by simp))
    rintro t u ⟨rfl, rfl⟩
    refine ⟨trivial, Sat.bind (Sat.fetch _ (fun n hn => Sat.pure ?_) trivial)⟩
    rintro l ⟨rfl⟩
    refine ⟨List.take_sublist _ _, fun hnone => ?_⟩
    rw [hn (by simp [hnone]), List.take_length]
    rfl
  exact (hsat.run (em (env.faults = [])).symm trivial).1 l hl

end YirangMQ.SQLite

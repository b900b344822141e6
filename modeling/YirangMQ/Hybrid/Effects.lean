import YirangMQ.Hybrid.Adapter

namespace YirangMQ.Hybrid

open Program Abortable Table

/-!
# What the Hybrid calls do

As on the SQLite store, each call either refuses and leaves both tables as they were, or
performs its effect on them.  What happens to the payload files beside them is not undone by a
rollback; it is enough that every file stays a payload document.

* `PayloadsOk`, `Tidy` — the payload files, and what a program may do to them;
* `Effect`, `Refuses`, `Performs` — the effects and refusals;
* `program_sat`, `perform_performs` — **every call refuses or performs its effect.**
-/

variable {faulty : Prop} {schema : SchemaFile} {env : Env} {s : Store} {α : Type}

/-! ### Payload files -/

/-- The text is a document that `lease_next` can read a payload from. -/
def IsPayload (text : JsonText) : Prop :=
  ∃ j, text = some j ∧ j.isObject = true ∧ (∃ p, j.get? "payload" = some (.str p)) ∧
    ∃ a, j.get? "attributes" = some (.str a)

/-- Every payload file is a payload document. -/
def PayloadsOk (files : Payloads) : Prop := ∀ path text, files.lookup path = some text →
  IsPayload text

/-- The connection has no transaction open, and its payload files are still in order. -/
def Tidy (s t : Store) : Prop := t.saved = none ∧ (PayloadsOk s.files → PayloadsOk t.files)

/-- What is written for a message is a payload. -/
theorem isPayload_payloadJson (message : MessageEnvelope) :
    IsPayload (some (payloadJson message)) := ⟨_, rfl, rfl, ⟨_, rfl⟩, ⟨_, rfl⟩⟩

/-- A payload may be written anywhere. -/
theorem PayloadsOk.insert {files : Payloads} (h : PayloadsOk files) {path : String}
    {text : JsonText} (htext : IsPayload text) : PayloadsOk (files.insert path text) := by
  intro path' text' hlookup
  rw [Files.lookup_insert'] at hlookup
  split at hlookup
  case isTrue =>
    obtain rfl := Option.some.inj hlookup
    exact htext
  case isFalse => exact h path' text' hlookup

/-- Any file may be removed. -/
theorem PayloadsOk.erase {files : Payloads} (h : PayloadsOk files) (path : String) :
    PayloadsOk (files.erase path) := by
  intro path' text' hlookup
  rw [Files.lookup_erase'] at hlookup
  split at hlookup
  case isTrue => cases hlookup
  case isFalse => exact h path' text' hlookup

/-- The rule of a file operation that keeps payload files. -/
theorem Sat.onFiles {f : Payloads → Except String (α × Payloads)}
    {Q : Except String α → Store → Prop}
    (hok : ∀ a files, f s.files = .ok (a, files) → Q (.ok a) { s with files })
    (herr : ∀ text, f s.files = .error text → Q (.error text) s)
    (hfault : faulty → ∀ text, Q (.error text) s) :
    Sat faulty (fun _ => True) s (prim (Conn.onFiles f)) Q := by
  refine Sat.prim ?_ ?_ hfault
  · intro a t h
    cases hf : f s.files with
    | error text => simp [Conn.onFiles, hf, Except.map] at h
    | ok r =>
      simp only [Conn.onFiles, hf, Except.map, Except.ok.injEq, Prod.mk.injEq] at h
      obtain ⟨rfl, rfl⟩ := h
      exact ⟨trivial, hok _ _ hf⟩
  · intro text h
    cases hf : f s.files with
    | error text' =>
      simp only [Conn.onFiles, hf, Except.map, Except.error.injEq] at h
      exact h ▸ herr _ hf
    | ok r => simp [Conn.onFiles, hf, Except.map] at h

/-- The rule of the removal of a file. -/
theorem removeFile_sat {path : String} {Q : Except String Unit → Store → Prop}
    (h : ∀ r files, (r = .ok () ∨ faulty) → (PayloadsOk s.files → PayloadsOk files) →
      Q r { s with files }) :
    Sat faulty (fun _ => True) s (removeFile path) Q := by
  refine Sat.onFiles ?_ (by simp [Files.remove]) fun hf e => h (.error e) s.files (.inr hf) id
  rintro a files ⟨rfl, rfl⟩
  exact h (.ok ()) _ (.inl rfl) fun hok => hok.erase path

/-- The rule of a move, which may not happen. -/
theorem movePayload_sat {src dest : String} {Q : Unit → Store → Prop}
    (h : ∀ files, (PayloadsOk s.files → PayloadsOk files) → Q () { s with files }) :
    Sat faulty (fun _ => True) s (movePayload src dest) Q := by
  refine Sat.bind (Sat.onFiles ?_ (fun _ _ => Sat.pure (h _ id)) fun _ _ => Sat.pure (h _ id))
  intro a files hrename
  unfold Files.rename at hrename
  split at hrename
  case h_1 => cases hrename
  case h_2 content hcontent =>
    simp only [Except.ok.injEq, Prod.mk.injEq] at hrename
    obtain ⟨-, rfl⟩ := hrename
    exact Sat.pure (h _ fun hok => (hok.erase src).insert (hok _ _ hcontent))

/-- The rule of the writing of a payload. -/
theorem atomicWrite_sat {path : String} {text : JsonText} (htext : IsPayload text)
    {Q : Except String Unit → Store → Prop}
    (hok : ∀ files, (PayloadsOk s.files → PayloadsOk files) → Q (.ok ()) { s with files })
    (herr : faulty → ∀ e files, (PayloadsOk s.files → PayloadsOk files) →
      Q (.error e) { s with files }) :
    Sat faulty (fun _ => True) s (atomicWrite path text) Q := by
  refine Sat.bind (Sat.onFiles ?_ (by simp [Files.create]) fun hf e => ?_)
  · rintro a files ⟨rfl, rfl⟩
    refine Sat.bind (Sat.onFiles ?_ ?_ fun hf e => ?_)
    · intro a files hrename
      simp only [Files.rename, AList.lookup_insert, Except.ok.injEq, Prod.mk.injEq] at hrename
      obtain ⟨-, rfl⟩ := hrename
      exact Sat.pure (hok _ fun h => ((h.insert htext).erase _).insert htext)
    · intro e hrename
      simp [Files.rename, AList.lookup_insert] at hrename
    · refine Sat.bind (removeFile_sat fun _ files _ hfiles => Sat.pure (herr hf _ files ?_))
      exact fun h => hfiles (h.insert htext)
  · exact Sat.pure (herr hf _ s.files id)

/-! ### Statements -/

/-- The rule of a statement. -/
theorem SatE.execute {describe : String → String} {f : Tables → Except String (α × Tables)}
    {Q : α → Store → Prop} {E : Option String → Store → Prop}
    (hok : ∀ a d, f s.data = .ok (a, d) → Q a { s with data := d })
    (herr : ∀ text, f s.data = .error text → E (some (describe text)) s)
    (hfault : faulty → ∀ e, E e s) :
    SatE faulty (fun _ => True) s (execute describe f) Q E := by
  refine Sat.bind (Sat.prim ?_ ?_ fun hf text => Sat.pure (hfault hf _))
  · intro a t h
    cases hf : f s.data with
    | error text => simp [Conn.onData, hf, Except.map] at h
    | ok r =>
      simp only [Conn.onData, hf, Except.map, Except.ok.injEq, Prod.mk.injEq] at h
      obtain ⟨rfl, rfl⟩ := h
      exact ⟨trivial, Sat.pure (hok _ _ hf)⟩
  · intro text h
    cases hf : f s.data with
    | error text' =>
      simp only [Conn.onData, hf, Except.map, Except.error.injEq] at h
      exact Sat.pure (h ▸ herr _ hf)
    | ok r => simp [Conn.onData, hf, Except.map] at h

/-- The rule of a statement that always succeeds in itself. -/
theorem SatE.execute_always {describe : String → String} {f : Tables → Tables}
    {Q : Unit → Store → Prop} {E : Option String → Store → Prop}
    (hok : Q () { s with data := f s.data }) (hfault : faulty → ∀ e, E e s) :
    SatE faulty (fun _ => True) s (Hybrid.execute describe (always f)) Q E :=
  SatE.execute (by rintro a d ⟨rfl, rfl⟩; exact hok) (by simp [always]) hfault

/-- Editing the value of a key is left out when it fails. -/
theorem editKv_sat {key : String} {now : Int} {edit : Json String → Json String}
    {Q : Unit → Store → Prop} {E : Option String → Store → Prop}
    (h : ∀ t, EditsValue key now (fun j => some (edit j)) s.data t → Q () { s with data := t }) :
    SatE faulty (fun _ => True) s (orDefault (execute id (editKv key now edit)) ()) Q E := by
  refine SatE.orDefault (SatE.execute ?_ (fun _ _ => h _ (.inl rfl)) fun _ _ => h _ (.inl rfl))
  intro a d hd
  unfold editKv at hd
  split at hd
  case h_1 =>
    simp only [Except.ok.injEq, Prod.mk.injEq] at hd
    exact h _ (.inl hd.2.symm)
  case h_2 => cases hd
  case h_3 j hj =>
    simp only [Except.ok.injEq, Prod.mk.injEq] at hd
    exact h _ (.inr ⟨j, edit j, hj, rfl, hd.2.symm⟩)

/-- The rule of a transaction that keeps payload files. -/
theorem applies_sat {body : Abortable Store α} (effect : α → Tables → Prop) (refusal : Prop)
    (hsaved : s.saved = none) (hfault : faulty → refusal)
    (hbody : SatE faulty (fun _ => True) { s with saved := some s.data } body
      (fun a t => t.saved = some s.data ∧ (PayloadsOk s.files → PayloadsOk t.files) ∧
        effect a t.data)
      (fun _ t => t.saved = some s.data ∧ (PayloadsOk s.files → PayloadsOk t.files) ∧
        refusal)) :
    Sat faulty (fun _ => True) s (transaction body) fun r t =>
      Tidy s t ∧
      match r with
      | .ok a => effect a t.data
      | .error _ => t.data = s.data ∧ refusal := by
  refine Sat.transaction hsaved (hbody.weaken ?_ ?_) ?_
  · rintro a t ⟨hopen, hfiles, heffect⟩
    exact ⟨hopen, ⟨⟨rfl, hfiles⟩, heffect⟩, fun hf _ => ⟨⟨rfl, hfiles⟩, rfl, hfault hf⟩⟩
  · rintro e t ⟨hopen, hfiles, hrefusal⟩
    exact ⟨hopen, ⟨rfl, hfiles⟩, rfl, hrefusal⟩
  · exact fun hf _ => ⟨⟨hsaved, id⟩, rfl, hfault hf⟩

/-! ### Effects -/

/-- The tables after a message has been inserted. -/
def enqueued (env : Env) (message : MessageEnvelope) (t : Tables) : Tables where
  kv := t.kv ++ [⟨message.key, some (envelopeJson message), "message", env.now, env.now⟩]
  index := t.index ++ [newRow message env.now]

/-- The tables after the message of `row` has been leased. -/
def leased (row : IndexRow) (leaseUntil : Int) (t : Tables) : Tables :=
  t.updateIndex (fun r => r.messageKey = row.messageKey) fun r =>
    { r with state := .inflight, leaseUntil := some leaseUntil, attempt := row.attempt + 1 }

/-- The answer when `row` has been leased and its value and payload read. -/
def leaseReply (env : Env) (consumerId : String) (leaseUntil : Int) (row : IndexRow)
    (value : JsonText) (content : Except String JsonText) : LeaseResult :=
  match (leasedEnvelope row value).bind (withPayload · content) with
  | none => { error := some "envelope parse error" }
  | some message =>
    { leased := true
      message := some message
      lease := some ⟨env.guid, row.messageKey, consumerId, leaseUntil⟩ }

/-- The tables after a message has been acknowledged. -/
def acked (schema : SchemaFile) (key : String) (t : Tables) : Tables :=
  deleteKv schema key (t.deleteIndex fun r => r.messageKey = key)

/-- The effect of a performed call, and its answer. -/
def Effect (schema : SchemaFile) (env : Env) (files : Payloads) : Call → Reply → Tables →
    Tables → Prop
  | .enqueue message, reply, t, t' =>
    reply = .status (.ok ()) ∧ message.key ∉ t.kv.map KvRow.key ∧ t' = enqueued env message t
  | .leaseNext queue c timeout, reply, t, t' =>
    ∃ row value content, t.readyRow? schema queue c env.now = some row ∧
      t.value? row.messageKey = some value ∧
      (∀ text, content = .ok text → ∃ path, files.lookup path = some text) ∧
      reply = .lease (leaseReply env c (env.now + timeout * 1000) row value content) ∧
      t' = leased row (env.now + timeout * 1000) t
  | .ack lease, reply, t, t' =>
    reply = .status (.ok ()) ∧ queueInState lease.messageKey .inflight t ≠ none ∧
    t' = acked schema lease.messageKey t
  | .nack lease reason requeue, reply, t, t' =>
    reply = .status (.ok ()) ∧ queueInState lease.messageKey .inflight t ≠ none ∧
    if requeue then
      t' = t.updateIndex (fun r => r.messageKey = lease.messageKey)
        fun r => { r with state := .ready, leaseUntil := none, availableAt := env.now }
    else
      EditsValue lease.messageKey env.now (fun j => some (withDlqFields reason env.now j))
        (t.updateIndex (fun r => r.messageKey = lease.messageKey)
          fun r => { r with state := .dlq, leaseUntil := none }) t'
  | .extendLease lease timeout, reply, t, t' =>
    reply = .status (.ok ()) ∧
    t' = t.updateIndex (fun r => r.messageKey = lease.messageKey ∧ r.state = .inflight ∧
        r.leaseUntil.any (env.now < ·))
      fun r => { r with leaseUntil := some (env.now + timeout * 1000) }
  | .savePolicy queue policy, reply, t, t' =>
    reply = .status (.ok ()) ∧
    t' = t.upsertKv ⟨"policy:" ++ queue, some policy.toJson, "policy", env.now, env.now⟩
  | .recoverExpiredLeases, reply, t, t' =>
    (∃ n, reply = .count n none) ∧
    t' = t.updateIndex (Tables.isExpired env.now) fun r =>
      { r with state := .ready, leaseUntil := none, availableAt := env.now }
  | .processDelayedMessages, reply, t, t' =>
    (∃ n, reply = .count n none) ∧
    t' = t.updateIndex (fun r => r.state = .delayed ∧ r.availableAt ≤ env.now) fun r =>
      { r with state := .ready }
  | .delayMessage key delayMs, reply, t, t' =>
    reply = .status (.ok ()) ∧
    t' = t.updateIndex (fun r => r.messageKey = key) fun r =>
      { r with
        state := if 0 < delayMs then .delayed else .ready
        leaseUntil := none, availableAt := env.now + delayMs }
  | .moveToDlq key reason, reply, t, t' =>
    reply = .status (.ok ()) ∧
    EditsValue key env.now (fun j => some (withDlqFields reason env.now j))
      (t.updateIndex (fun r => r.messageKey = key) fun r =>
        { r with state := .dlq, leaseUntil := none }) t'
  | .reprocessDlqMessage key, reply, t, t' =>
    reply = .status (.ok ()) ∧ queueInState key .dlq t ≠ none ∧
    EditsValue key env.now (fun j => some (withoutDlqFields j))
      (t.updateIndex (fun r => r.messageKey = key) fun r =>
        { r with
          state := .ready, leaseUntil := none, availableAt := env.now, attempt := 0
          dlqReason := none, dlqAt := none }) t'

/-- Why a call refuses although nothing fails. -/
def Refuses (schema : SchemaFile) (env : Env) : Call → Tables → Prop
  | .enqueue message, t =>
    message.key ∈ t.kv.map KvRow.key ∨ message.key ∈ t.index.map IndexRow.messageKey
  | .leaseNext queue c _, t =>
    ∀ row, t.readyRow? schema queue c env.now = some row → t.value? row.messageKey = none
  | .ack lease, t | .nack lease _ _, t => queueInState lease.messageKey .inflight t = none
  | .reprocessDlqMessage key, t => queueInState key .dlq t = none
  | _, _ => False

/-- The call refuses and leaves the tables as they were, because something fails or for its
    own reasons, or it performs its effect. -/
def Performs (faulty : Prop) (schema : SchemaFile) (env : Env) (files : Payloads) (call : Call)
    (reply : Reply) (t t' : Tables) : Prop :=
  reply.IsRefusal ∧ t' = t ∧ (faulty ∨ Refuses schema env call t) ∨
    Effect schema env files call reply t t'

/-! ### One judgement for each operation -/

/-- The rule of the insertion of a message: its key is new, or nothing is inserted. -/
theorem insertMessage_sat (message : MessageEnvelope) :
    SatE faulty (fun _ => True) s (insertMessage schema env message)
      (fun _ t => message.key ∉ s.data.kv.map KvRow.key ∧
        t = { s with data := enqueued env message s.data })
      (fun _ t => t.saved = s.saved ∧ t.files = s.files ∧
        (faulty ∨ Refuses schema env (.enqueue message) s.data)) := by
  refine SatE.bind (SatE.execute ?_ ?_ fun hf e => ⟨rfl, rfl, .inl hf⟩)
  · intro _ t hkv
    obtain ⟨hnew, rfl⟩ := Tables.insertKv_ok hkv
    refine SatE.execute ?_ ?_ fun hf e => ⟨rfl, rfl, .inl hf⟩
    · intro _ t hindex
      obtain rfl := Tables.insertIndex_ok hindex
      exact ⟨hnew, rfl⟩
    · intro text hindex
      rcases Tables.insertIndex_error hindex with hfk | hpk
      · simp [newRow] at hfk
      · exact ⟨rfl, rfl, .inr (.inr hpk)⟩
  · intro text hkv
    exact ⟨rfl, rfl, .inr (.inl (Tables.insertKv_error hkv))⟩

/-- What a failing `enqueue` has written is undone, or the removal throws. -/
theorem undoEnqueue_sat {path : String} {error : Option String} {Q : Reply → Store → Prop}
    (h : ∀ reply files, reply.IsRefusal → (PayloadsOk s.files → PayloadsOk files) →
      Q reply { s.rolledBack with files }) :
    Sat faulty (fun _ => True) s (undoEnqueue path error) Q := by
  refine Sat.bind (Sat.modify trivial (Sat.bind (removeFile_sat fun r files _ hfiles => ?_)))
  cases r with
  | error what => exact Sat.pure (h _ files trivial hfiles)
  | ok u => exact Sat.pure (h _ files ⟨error, rfl⟩ hfiles)

/-- The rule of `enqueue`: it inserts the message, or refuses and leaves the tables. -/
theorem enqueue_sat (hsaved : s.saved = none) (message : MessageEnvelope) :
    Sat faulty (fun _ => True) s (enqueue schema env message) fun reply t =>
      Tidy s t ∧
      (reply.IsRefusal ∧ t.data = s.data ∧
          (faulty ∨ Refuses schema env (.enqueue message) s.data) ∨
        reply = .status (.ok ()) ∧ message.key ∉ s.data.kv.map KvRow.key ∧
          t.data = enqueued env message s.data) := by
  -- Every way to fail leaves the rows as they were, and the transaction closed.
  have hrefused : ∀ {error : Option String} {t : Store}, Tidy s t → t.data = s.data → faulty →
      Tidy s t ∧ ((Reply.status (.error error)).IsRefusal ∧ t.data = s.data ∧
          (faulty ∨ Refuses schema env (.enqueue message) s.data) ∨
        Reply.status (.error error) = .status (.ok ()) ∧ message.key ∉ s.data.kv.map KvRow.key ∧
          t.data = enqueued env message s.data) :=
    fun htidy hdata hf => ⟨htidy, .inl ⟨⟨_, rfl⟩, hdata, .inl hf⟩⟩
  refine Sat.bind (Sat.onFiles ?_ (by simp) fun hf e => Sat.pure (hrefused ⟨hsaved, id⟩ rfl hf))
  -- The directories are there; next `BEGIN`.
  rintro _ _ ⟨rfl, rfl⟩
  refine Sat.bind (Sat.prim ?_ ?_ fun hf e => Sat.pure (hrefused ⟨hsaved, id⟩ rfl hf))
  · intro _ t hbegun
    simp only [Conn.begun, hsaved, Option.isSome_none, Bool.false_eq_true, if_false,
      Except.ok.injEq, Prod.mk.injEq] at hbegun
    obtain ⟨-, rfl⟩ := hbegun
    refine ⟨trivial, Sat.bind (atomicWrite_sat (isPayload_payloadJson message) ?_ ?_)⟩
    -- The payload is written; next the two insertions.
    · intro files hfiles
      refine Sat.bind (Sat.weaken (insertMessage_sat message) ?_)
      rintro (e | u) t ht
      -- The insertions fail and are rolled back.
      · obtain ⟨hopen, hsame, hwhy⟩ := ht
        refine undoEnqueue_sat fun reply files' hrefusal hfiles' => ?_
        refine ⟨⟨rfl, fun h => hfiles' ?_⟩, .inl ⟨hrefusal, ?_, hwhy⟩⟩
        · rw [hsame]
          exact hfiles h
        · simp [Conn.rolledBack, hopen]
      · obtain ⟨hnew, rfl⟩ := ht
        -- They succeed, and the commit may still fail.
        refine Sat.bind (Sat.prim ?_ (by simp [Conn.committed]) ?_)
        · intro _ t hcommitted
          simp only [Conn.committed, Option.isSome_some, if_true, Except.ok.injEq,
            Prod.mk.injEq] at hcommitted
          obtain ⟨-, rfl⟩ := hcommitted
          exact ⟨trivial, Sat.pure ⟨⟨rfl, hfiles⟩, .inr ⟨rfl, hnew, rfl⟩⟩⟩
        · intro hf e
          refine undoEnqueue_sat fun reply files' hrefusal hfiles' => ?_
          exact ⟨⟨rfl, fun h => hfiles' (hfiles h)⟩, .inl ⟨hrefusal, rfl, .inl hf⟩⟩
    -- The payload is not written.
    · intro hf e files hfiles
      exact Sat.bind (Sat.modify trivial (Sat.pure (hrefused ⟨rfl, hfiles⟩ rfl hf)))
  · intro text hbegun
    simp [Conn.begun, hsaved] at hbegun

/-- The rule of the transaction of `lease_next`: it leases the row that is next, or leaves the
    tables. -/
theorem leaseRow_sat (hsaved : s.saved = none) (queue c : String) (now leaseUntil : Int) :
    Sat faulty (fun _ => True) s (transaction (leaseRow schema queue c now leaseUntil)) fun r t =>
      Tidy s t ∧ t.files = s.files ∧
      match r with
      | .ok (row, value) => s.data.readyRow? schema queue c now = some row ∧
          s.data.value? row.messageKey = some value ∧ t.data = leased row leaseUntil s.data
      | .error e => t.data = s.data ∧
          (faulty ∨ e = none ∧ s.data.readyRow? schema queue c now = none ∨
            ∃ row, s.data.readyRow? schema queue c now = some row ∧
              s.data.value? row.messageKey = none) := by
  refine Sat.transaction hsaved ?_ fun hf e => ⟨⟨hsaved, id⟩, rfl, rfl, .inl hf⟩
  refine SatE.bind (SatE.step_selecting ?_ ?_ fun hf => ⟨rfl, ⟨rfl, id⟩, rfl, rfl, .inl hf⟩)
  · intro row hrow
    refine SatE.bind (SatE.execute_always ?_ fun hf _ => ⟨rfl, ⟨rfl, id⟩, rfl, rfl, .inl hf⟩)
    refine SatE.bind (SatE.step_selecting ?_ ?_ fun hf => ⟨rfl, ⟨rfl, id⟩, rfl, rfl, .inl hf⟩)
    · intro value hvalue
      exact SatE.pure ⟨rfl, ⟨⟨rfl, id⟩, rfl, hrow, hvalue, rfl⟩,
        fun hf e => ⟨⟨rfl, id⟩, rfl, rfl, .inl hf⟩⟩
    · exact fun hvalue => ⟨rfl, ⟨rfl, id⟩, rfl, rfl, .inr (.inr ⟨row, hrow, hvalue⟩)⟩
  · exact fun hrow => ⟨rfl, ⟨rfl, id⟩, rfl, rfl, .inr (.inl ⟨rfl, hrow⟩)⟩

/-- The rule of the reading of a leased message: it reads only. -/
theorem readMessage_sat (row : IndexRow) (value : JsonText) :
    Sat faulty (fun _ => True) s (readMessage row value) fun r t =>
      t = s ∧ ∃ content : Except String JsonText,
        (∀ text, content = .ok text → ∃ path, s.files.lookup path = some text) ∧
        r = (leasedEnvelope row value).bind (withPayload · content) := by
  unfold readMessage
  split
  case h_1 hnone => exact Sat.pure ⟨rfl, .error "", by simp, by simp [hnone]⟩
  case h_2 envelope henvelope =>
    have hfailed : ∀ e, (fun r t => t = s ∧ ∃ content : Except String JsonText,
        (∀ text, content = .ok text → ∃ path, s.files.lookup path = some text) ∧
        r = (leasedEnvelope row value).bind (withPayload · content))
          (withPayload envelope (.error e)) s :=
      fun e => ⟨rfl, .error e, by simp, by simp [henvelope]⟩
    refine Sat.bind (Sat.onFiles ?_ (fun e _ => Sat.pure (hfailed e)) fun _ e =>
      Sat.pure (hfailed e))
    intro text files hread
    unfold Files.read at hread
    split at hread
    case h_1 => cases hread
    case h_2 content hcontent =>
      simp only [Except.ok.injEq, Prod.mk.injEq] at hread
      obtain ⟨rfl, rfl⟩ := hread
      refine Sat.pure ⟨rfl, .ok content, ?_, by simp [henvelope]⟩
      rintro _ ⟨rfl⟩
      exact ⟨_, hcontent⟩

/-- How `lease_next` answers: with an error, or with what it reads of the leased message. -/
theorem leaseNext_sat (schema : SchemaFile) (hsaved : s.saved = none) (queue c : String)
    (timeout : Int) :
    Sat faulty (fun _ => True) s (leaseNext schema env queue c timeout) fun r t =>
      Tidy s t ∧
      ((∃ e, r = { error := e } ∧ t.data = s.data ∧
          (faulty ∨ e = none ∧ s.data.readyRow? schema queue c env.now = none ∨
            ∃ row, s.data.readyRow? schema queue c env.now = some row ∧
              s.data.value? row.messageKey = none)) ∨
        Effect schema env s.files (.leaseNext queue c timeout) (.lease r) s.data t.data) := by
  refine Sat.bind ((leaseRow_sat hsaved queue c _ _).weaken fun r t ht => ?_)
  obtain ⟨htidy, hsame, ht⟩ := ht
  rcases r with e | ⟨row, value⟩
  · exact Sat.pure ⟨htidy, .inl ⟨e, rfl, ht.1, ht.2⟩⟩
  · obtain ⟨hrow, hvalue, hleased⟩ := ht
    refine Sat.bind ((readMessage_sat row value).weaken fun r u hu => ?_)
    obtain ⟨rfl, content, hcontent, hread⟩ := hu
    rw [hsame] at hcontent
    have heffect : Effect schema env s.files (.leaseNext queue c timeout)
        (.lease (leaseReply env c (env.now + timeout * 1000) row value content)) s.data u.data :=
      ⟨row, value, content, hrow, hvalue, hcontent, rfl, hleased⟩
    rw [leaseReply, ← hread] at heffect
    cases r with
    | none => exact Sat.pure ⟨htidy, .inr heffect⟩
    | some message => exact Sat.pure ⟨htidy, .inr heffect⟩

/-- The rule of the query for a row in a state. -/
theorem queueInState_query {key : String} {state : MessageState} {error : Option String}
    {Q : String → Store → Prop} {E : Option String → Store → Prop}
    (hsome : ∀ queue, queueInState key state s.data ≠ none → Q queue s)
    (hnone : queueInState key state s.data = none → E error s) (hfault : faulty → E error s) :
    SatE faulty (fun _ => True) s (query error (queueInState key state)) Q E :=
  SatE.step_selecting (fun queue hqueue => hsome queue (by simp [hqueue])) hnone hfault

/-- The rule of `ack`. -/
theorem ack_sat (hsaved : s.saved = none) (lease : LeaseToken) :
    Sat faulty (fun _ => True) s (ack schema lease) fun r t =>
      Tidy s t ∧
      match r with
      | .ok () => Effect schema env s.files (.ack lease) (.status (.ok ())) s.data t.data
      | .error _ => t.data = s.data ∧ (faulty ∨ Refuses schema env (.ack lease) s.data) := by
  refine Sat.bind ((applies_sat
    (fun _ t => queueInState lease.messageKey .inflight s.data ≠ none ∧
      t = acked schema lease.messageKey s.data)
    (faulty ∨ Refuses schema env (.ack lease) s.data) hsaved .inl ?_).weaken fun r t ht => ?_)
  · refine SatE.bind (queueInState_query ?_ ?_ fun hf => ⟨rfl, id, .inl hf⟩)
    · intro queue hqueue
      refine SatE.bind (SatE.execute_always ?_ fun hf _ => ⟨rfl, id, .inl hf⟩)
      refine SatE.bind (SatE.execute_always ?_ fun hf _ => ⟨rfl, id, .inl hf⟩)
      exact SatE.pure ⟨rfl, id, hqueue, rfl⟩
    · exact fun hnone => ⟨rfl, id, .inr hnone⟩
  · obtain ⟨⟨hopen, hfiles⟩, ht⟩ := ht
    rcases r with e | queue
    · exact Sat.pure ⟨⟨hopen, hfiles⟩, ht⟩
    · refine Sat.bind (movePayload_sat fun files hfiles' => Sat.pure ?_)
      exact ⟨⟨hopen, fun h => hfiles' (hfiles h)⟩, rfl, ht⟩

/-- The rule of `nack`. -/
theorem nack_sat (hsaved : s.saved = none) (lease : LeaseToken) (reason : String)
    (requeue : Bool) :
    Sat faulty (fun _ => True) s (nack env lease reason requeue) fun r t =>
      Tidy s t ∧
      match r with
      | .ok () =>
        Effect schema env s.files (.nack lease reason requeue) (.status (.ok ())) s.data t.data
      | .error _ =>
        t.data = s.data ∧ (faulty ∨ Refuses schema env (.nack lease reason requeue) s.data) := by
  refine (applies_sat
    (fun _ t =>
      Effect schema env s.files (.nack lease reason requeue) (.status (.ok ())) s.data t)
    (faulty ∨ Refuses schema env (.nack lease reason requeue) s.data) hsaved .inl ?_).weaken
    (by rintro (e | u) t ht <;> exact ht)
  refine SatE.bind (queueInState_query ?_ ?_ fun hf => ⟨rfl, id, .inl hf⟩)
  · intro queue hqueue
    cases requeue with
    | true => exact SatE.execute_always ⟨rfl, id, rfl, hqueue, rfl⟩ fun hf _ => ⟨rfl, id, .inl hf⟩
    | false =>
      refine SatE.bind (SatE.execute_always ?_ fun hf _ => ⟨rfl, id, .inl hf⟩)
      refine SatE.bind (editKv_sat fun t ht => ?_)
      refine Sat.bind (movePayload_sat fun files hfiles => Sat.pure ?_)
      exact ⟨rfl, hfiles, rfl, hqueue, ht⟩
  · exact fun hnone => ⟨rfl, id, .inr hnone⟩

/-- A statement that always succeeds in itself, outside a transaction. -/
theorem executed_sat (hsaved : s.saved = none) (f : Tables → Tables) :
    Sat faulty (fun _ => True) s (ExceptT.run (execute id (always f)) : Program Store Status)
      fun r t =>
        Tidy s t ∧
        match r with
        | .ok () => t.data = f s.data
        | .error _ => t.data = s.data ∧ faulty := by
  refine Sat.weaken (SatE.execute_always (Q := fun _ t => Tidy s t ∧ t.data = f s.data)
    (E := fun _ t => Tidy s t ∧ t.data = s.data ∧ faulty) ⟨⟨hsaved, id⟩, rfl⟩
    fun hf _ => ⟨⟨hsaved, id⟩, rfl, hf⟩) ?_
  rintro (e | u) t ht
  · exact ht
  · exact ht

/-- The rule of `save_policy`. -/
theorem savePolicy_sat (hsaved : s.saved = none) (queue : String) (policy : QueuePolicy) :
    Sat faulty (fun _ => True) s (savePolicy env queue policy) fun r t =>
      Tidy s t ∧
      match r with
      | .ok () => t.data = s.data.upsertKv
          ⟨"policy:" ++ queue, some policy.toJson, "policy", env.now, env.now⟩
      | .error _ => t.data = s.data ∧ faulty := by
  refine Sat.bind (Sat.onFiles ?_ (by simp) fun _ _ => executed_sat hsaved _)
  rintro _ _ ⟨rfl, rfl⟩
  exact executed_sat hsaved _

/-- An update without rows changes nothing. -/
theorem updateIndex_of_length {p : IndexRow → Bool} {f : IndexRow → IndexRow} {t : Tables}
    (hnone : (t.index.filter p).length = 0) : t.updateIndex p f = t := by
  rw [List.length_eq_zero_iff, List.filter_eq_nil_iff] at hnone
  have hindex : update p f t.index = t.index := by
    unfold update
    rw [List.map_congr_left (g := id) fun r hr => by simp [hnone r hr], List.map_id]
  rw [Tables.updateIndex, hindex]

/-- The rule of a counting statement, of which nobody hears that it failed. -/
theorem updateCounting_sat (hsaved : s.saved = none) (p : IndexRow → Bool)
    (f : IndexRow → IndexRow) :
    Sat faulty (fun _ => True) s (updateCounting p f) fun r t =>
      Tidy s t ∧
      match r with
      | .ok n => t.data = s.data.updateIndex p f ∨ n = 0 ∧ t.data = s.data ∧ faulty
      | .error _ => t.data = s.data ∧ faulty := by
  refine Sat.bind (Sat.prim ?_ (by simp [Conn.reading]) ?_)
  · rintro n t ⟨rfl, rfl⟩
    refine ⟨trivial, ?_⟩
    split
    case h_1 text hcount => cases hcount
    case h_2 hcount =>
      rw [Except.ok.injEq] at hcount
      exact Sat.pure ⟨⟨hsaved, id⟩, .inl (updateIndex_of_length hcount).symm⟩
    case h_3 count hcount =>
      refine Sat.bind ((executed_sat hsaved _).weaken fun r t ht => ?_)
      obtain ⟨htidy, ht⟩ := ht
      rcases r with e | u
      · exact Sat.pure ⟨htidy, ht⟩
      · exact Sat.pure ⟨htidy, .inl ht⟩
  · exact fun hf text => Sat.pure ⟨⟨hsaved, id⟩, .inr ⟨rfl, rfl, hf⟩⟩

/-- The rule of `move_to_dlq`. -/
theorem moveToDlq_sat (hsaved : s.saved = none) (key reason : String) :
    Sat faulty (fun _ => True) s (moveToDlq env key reason) fun r t =>
      Tidy s t ∧
      match r with
      | .ok () => Effect schema env s.files (.moveToDlq key reason) (.status (.ok ())) s.data t.data
      | .error _ => t.data = s.data ∧ faulty := by
  refine Sat.bind ((applies_sat
    (fun _ t => Effect schema env s.files (.moveToDlq key reason) (.status (.ok ())) s.data t)
    faulty hsaved id ?_).weaken fun r t ht => ?_)
  · have hbody : ∀ queue : String, SatE faulty (fun _ => True)
        { s with saved := some s.data } (do
          execute id <| always <| Tables.updateIndex (fun r => r.messageKey = key)
            fun r => { r with state := .dlq, leaseUntil := none }
          orDefault (execute id (editKv key env.now (withDlqFields reason env.now))) ()
          return queue : Abortable Store String)
        (fun _ t => t.saved = some s.data ∧ (PayloadsOk s.files → PayloadsOk t.files) ∧
          Effect schema env s.files (.moveToDlq key reason) (.status (.ok ())) s.data t.data)
        (fun _ t => t.saved = some s.data ∧ (PayloadsOk s.files → PayloadsOk t.files) ∧
          faulty) := by
      intro queue
      refine SatE.bind (SatE.execute_always ?_ fun hf _ => ⟨rfl, id, hf⟩)
      exact SatE.bind (editKv_sat fun t ht => SatE.pure ⟨rfl, id, rfl, ht⟩)
    refine SatE.bind (SatE.orDefault (SatE.step_selecting ?_ ?_ ?_))
    · exact fun queue _ => hbody queue
    · exact fun _ => hbody ""
    · exact fun _ => hbody ""
  · obtain ⟨⟨hopen, hfiles⟩, ht⟩ := ht
    rcases r with e | queue
    · exact Sat.pure ⟨⟨hopen, hfiles⟩, ht⟩
    · dsimp only
      split
      case isTrue =>
        refine Sat.bind (movePayload_sat fun files hfiles' => Sat.pure ?_)
        exact ⟨⟨hopen, fun h => hfiles' (hfiles h)⟩, ht⟩
      case isFalse => exact Sat.pure ⟨⟨hopen, hfiles⟩, ht⟩

/-- The rule of `reprocess_dlq_message`. -/
theorem reprocessDlqMessage_sat (hsaved : s.saved = none) (key : String) :
    Sat faulty (fun _ => True) s (reprocessDlqMessage env key) fun r t =>
      Tidy s t ∧
      match r with
      | .ok () =>
        Effect schema env s.files (.reprocessDlqMessage key) (.status (.ok ())) s.data t.data
      | .error _ =>
        t.data = s.data ∧ (faulty ∨ Refuses schema env (.reprocessDlqMessage key) s.data) := by
  refine Sat.bind ((applies_sat
    (fun _ t => Effect schema env s.files (.reprocessDlqMessage key) (.status (.ok ())) s.data t)
    (faulty ∨ Refuses schema env (.reprocessDlqMessage key) s.data) hsaved .inl ?_).weaken
    fun r t ht => ?_)
  · refine SatE.bind (queueInState_query ?_ ?_ fun hf => ⟨rfl, id, .inl hf⟩)
    · intro queue hqueue
      refine SatE.bind (SatE.execute_always ?_ fun hf _ => ⟨rfl, id, .inl hf⟩)
      exact SatE.bind (editKv_sat fun t ht => SatE.pure ⟨rfl, id, rfl, hqueue, ht⟩)
    · exact fun hnone => ⟨rfl, id, .inr hnone⟩
  · obtain ⟨⟨hopen, hfiles⟩, ht⟩ := ht
    rcases r with e | queue
    · exact Sat.pure ⟨⟨hopen, hfiles⟩, ht⟩
    · dsimp only
      split
      case isTrue =>
        refine Sat.bind (movePayload_sat fun files hfiles' => Sat.pure ?_)
        exact ⟨⟨hopen, fun h => hfiles' (hfiles h)⟩, ht⟩
      case isFalse => exact Sat.pure ⟨⟨hopen, hfiles⟩, ht⟩

/-! ### Every call -/

/-- A judgement on an operation that answers with a status, as one on its call. -/
theorem status_sat {call : Call} {m : Program Store Status} {effect : Tables → Prop}
    {refusal : Prop}
    (h : Sat faulty (fun _ => True) s m fun r t =>
      Tidy s t ∧
      match r with
      | .ok () => effect t.data
      | .error _ => t.data = s.data ∧ refusal)
    (heffect : ∀ t, effect t → Effect schema env s.files call (.status (.ok ())) s.data t)
    (hrefusal : refusal → faulty ∨ Refuses schema env call s.data) :
    Sat faulty (fun _ => True) s (do return Reply.status (← m)) fun reply s' =>
      Tidy s s' ∧ Performs faulty schema env s.files call reply s.data s'.data := by
  refine Sat.bind (h.weaken fun r t ht => Sat.pure ?_)
  obtain ⟨htidy, ht⟩ := ht
  rcases r with e | r
  · exact ⟨htidy, .inl ⟨⟨e, rfl⟩, ht.1, hrefusal ht.2⟩⟩
  · exact ⟨htidy, .inr (heffect _ ht)⟩

/-- An update that counts its rows, as a judgement on its call. -/
theorem count_sat {call : Call} {p : IndexRow → Bool} {f : IndexRow → IndexRow}
    (hsaved : s.saved = none)
    (heffect : ∀ n, Effect schema env s.files call (.count n none) s.data
      (s.data.updateIndex p f)) :
    Sat faulty (fun _ => True) s (do return Reply.ofCount (← updateCounting p f))
      fun reply s' =>
        Tidy s s' ∧ Performs faulty schema env s.files call reply s.data s'.data := by
  refine Sat.bind ((updateCounting_sat hsaved p f).weaken fun r t ht => Sat.pure ?_)
  obtain ⟨htidy, ht⟩ := ht
  rcases r with e | n
  · exact ⟨htidy, .inl ⟨rfl, ht.1, .inl ht.2⟩⟩
  · rcases ht with hdone | ⟨rfl, hsame, hf⟩
    · exact ⟨htidy, .inr (hdone ▸ heffect n)⟩
    · exact ⟨htidy, .inl ⟨rfl, hsame, .inl hf⟩⟩

/-- **Every call refuses or performs its effect**, and leaves no transaction open. -/
theorem program_sat (hsaved : s.saved = none) (call : Call) :
    Sat faulty (fun _ => True) s (program schema env call) fun reply s' =>
      Tidy s s' ∧ Performs faulty schema env s.files call reply s.data s'.data := by
  cases call with
  | enqueue message =>
    refine (enqueue_sat hsaved message).weaken fun reply t ht => ?_
    obtain ⟨htidy, hrefused | hdone⟩ := ht
    · exact ⟨htidy, .inl hrefused⟩
    · exact ⟨htidy, .inr hdone⟩
  | leaseNext queue c timeout =>
    refine Sat.bind ((leaseNext_sat schema hsaved queue c timeout).weaken
      fun r t ht => Sat.pure ?_)
    obtain ⟨htidy, ⟨e, rfl, hsame, hrefused⟩ | heffect⟩ := ht
    · refine ⟨htidy, .inl ⟨⟨e, rfl⟩, hsame, hrefused.imp_right ?_⟩⟩
      rintro (⟨-, hnone⟩ | ⟨row, hrow, hvalue⟩) row' hrow'
      · simp [hnone] at hrow'
      · rw [hrow, Option.some.injEq] at hrow'
        exact hrow' ▸ hvalue
    · exact ⟨htidy, .inr heffect⟩
  | ack lease => exact status_sat (ack_sat hsaved lease) (fun t ht => ht) id
  | nack lease reason requeue =>
    exact status_sat (nack_sat hsaved lease reason requeue) (fun t ht => ht) id
  | extendLease lease timeout =>
    exact status_sat (executed_sat hsaved _) (fun t ht => ⟨rfl, ht⟩) .inl
  | savePolicy queue policy =>
    exact status_sat (savePolicy_sat hsaved queue policy) (fun t ht => ⟨rfl, ht⟩) .inl
  | recoverExpiredLeases => exact count_sat hsaved fun n => ⟨⟨n, rfl⟩, rfl⟩
  | processDelayedMessages => exact count_sat hsaved fun n => ⟨⟨n, rfl⟩, rfl⟩
  | delayMessage key delayMs =>
    exact status_sat (executed_sat hsaved _) (fun t ht => ⟨rfl, ht⟩) .inl
  | moveToDlq key reason => exact status_sat (moveToDlq_sat hsaved key reason) (fun t ht => ht) .inl
  | reprocessDlqMessage key =>
    exact status_sat (reprocessDlqMessage_sat hsaved key) (fun t ht => ht) id

/-- What one step of the adapter does, with or without failing primitives. -/
theorem perform_performs (hsaved : s.saved = none) (hfaults : faulty ∨ env.faults = [])
    (call : Call) :
    Tidy s ((adapter schema).perform env call s).2 ∧
    Performs faulty schema env s.files call ((adapter schema).perform env call s).1 s.data
      ((adapter schema).perform env call s).2.data :=
  ((program_sat hsaved call).run hfaults trivial).1

/-- `get_expired_inflight_messages` lists the expired rows. -/
theorem expired_eq {l : List ExpiredLeaseInfo} (hl : (adapter schema).expired env s = .ok l) :
    l = s.data.expiredRows env.now := by
  have hsat : Sat True (fun _ => True) s (getExpiredInflightMessages env)
      fun r _ => ∀ l, r = .ok l → l = s.data.expiredRows env.now := by
    refine Sat.prim ?_ (by simp [Conn.reading]) (by simp)
    rintro rows t ⟨rfl, rfl⟩
    refine ⟨trivial, ?_⟩
    rintro l ⟨rfl⟩
    rfl
  exact (hsat.run (.inl trivial) trivial).1 l hl

end YirangMQ.Hybrid

import YirangMQ.SQLite.Effects
import YirangMQ.Sql.Columns

namespace YirangMQ.SQLite

open Table

/-!
# The invariant of the SQLite store

* `IsEnvelope`, `RowOk`, `Invariant` — the invariant: index keys and message values
  correspond, values are envelopes, and each row's columns agree with its state;
* `Change`, `Effect.change` — the kinds of change that a performed call makes;
* `Invariant.effect` — every performed call keeps it, through one lemma for each statement;
* `invariant_of_run` — it holds after every sequence of calls, failing statements included;
* `metrics_sum`, `leaseNext_error_free` — what follows for `metrics` and `lease_next`;
* `StoreInvariant`, `store_invariant` — the three together, **in runs whose keys can be read**;
* `published_not_found` — a key with a NUL character cannot.
-/

variable {schema : SchemaFile} {env : Env} {now : Int} {t t' : Tables}

/-- The document is an envelope of a message of `queue`. -/
structure IsEnvelope (j : Json String) (queue : String) : Prop where
  object : j.isObject = true
  messageId : ∃ id, j.get? "messageId" = some (.str id)
  queue : j.get? "queue" = some (.str queue)
  payload : ∃ payload, j.get? "payload" = some (.str payload)
  attributes : ∃ attributes, j.get? "attributes" = some (.str attributes)
  createdAt : ∃ n, j.get? "createdAt" = some (.int n)

/-- The columns of a row agree with its state at time `now`. -/
structure RowOk (now : Int) (r : IndexRow) : Prop where
  state : r.state = .ready ∨ r.state = .inflight ∨ r.state = .delayed ∨ r.state = .dlq
  lease : r.leaseUntil.isSome ↔ r.state = .inflight
  available : r.state = .ready ∨ r.state = .inflight → r.availableAt ≤ now

/-- The store invariant at time `now`. -/
structure Invariant (now : Int) (t : Tables) : Prop extends t.Integrity where
  messages : ∀ k, k ∈ t.indexKeys ↔ (k, "message") ∈ t.storedKeys
  formed : ∀ k ∈ t.indexKeys, ∃ queue id, k = messageKey queue id
  envelopes : ∀ r ∈ t.index, ∃ j, t.value? r.messageKey = some (some j) ∧ IsEnvelope j r.queue
  rows : ∀ r ∈ t.index, RowOk now r

/-! ### Envelopes -/

/-- What keeps the five fields of an envelope keeps it an envelope. -/
theorem IsEnvelope.of_get? {j j' : Json String} {queue : String} (h : IsEnvelope j queue)
    (hobj : j'.isObject = true)
    (hget : ∀ k ∈ ["messageId", "queue", "payload", "attributes", "createdAt"],
      j'.get? k = j.get? k) : IsEnvelope j' queue where
  object := hobj
  messageId := by rw [hget _ (by simp)]; exact h.messageId
  queue := by rw [hget _ (by simp)]; exact h.queue
  payload := by rw [hget _ (by simp)]; exact h.payload
  attributes := by rw [hget _ (by simp)]; exact h.attributes
  createdAt := by rw [hget _ (by simp)]; exact h.createdAt

/-- Marking a dead letter keeps an envelope an envelope. -/
theorem IsEnvelope.withDlqFields {j j' : Json String} {queue reason : String}
    (h : IsEnvelope j queue) (hedit : withDlqFields reason now j = some j') :
    IsEnvelope j' queue := by
  obtain ⟨j₁, hj₁, hj₂⟩ := Option.bind_eq_some_iff.mp hedit
  have hobj : j'.isObject = true :=
    Json.isObject_set hj₂
  refine h.of_get? hobj fun k hk => ?_
  rw [Json.get?_set hj₂, Json.get?_set hj₁]
  have hne : k ≠ "dlqAt" ∧ k ≠ "dlqReason" := by
    constructor <;> rintro rfl <;> simp at hk
  rw [if_neg hne.1, if_neg hne.2]

/-- Unmarking it does so as well. -/
theorem IsEnvelope.withoutDlqFields {j j' : Json String} {queue : String}
    (h : IsEnvelope j queue) (hedit : withoutDlqFields j = some j') : IsEnvelope j' queue := by
  obtain ⟨j₁, hj₁, hedit⟩ := Option.bind_eq_some_iff.mp hedit
  obtain ⟨j₂, hj₂, hj₃⟩ := Option.bind_eq_some_iff.mp hedit
  refine h.of_get? (Json.isObject_set hj₃) fun k hk => ?_
  rw [Json.get?_set hj₃, Json.get?_erase hj₂, Json.get?_erase hj₁]
  have hne : k ≠ "attempt" ∧ k ≠ "dlqAt" ∧ k ≠ "dlqReason" := by
    refine ⟨?_, ?_, ?_⟩ <;> rintro rfl <;> simp at hk
  rw [if_neg hne.1, if_neg hne.2.1, if_neg hne.2.2]

/-- What is written for a message is an envelope of its queue. -/
theorem isEnvelope_envelopeJson (message : MessageEnvelope) (now : Int) :
    IsEnvelope (envelopeJson message now) message.queue where
  object := rfl
  messageId := ⟨_, rfl⟩
  queue := rfl
  payload := ⟨_, rfl⟩
  attributes := ⟨_, rfl⟩
  createdAt := ⟨_, rfl⟩

/-- `lease_next` can read every envelope. -/
theorem IsEnvelope.leasedMessage {j : Json String} {row : IndexRow} {q : String}
    (h : IsEnvelope j row.queue) : ∃ m, leasedMessage q row (some j) = some m ∧
      m.key = row.messageKey ∧ m.attempt = row.attempt + 1 ∧ m.queue = row.queue := by
  obtain ⟨id, hid⟩ := h.messageId
  obtain ⟨payload, hpayload⟩ := h.payload
  obtain ⟨attributes, hattributes⟩ := h.attributes
  obtain ⟨n, hn⟩ := h.createdAt
  simp [SQLite.leasedMessage, Json.valueStr_of_get? _ hid, Json.valueStr_of_get? _ h.queue,
    Json.valueStr_of_get? _ hpayload, Json.valueStr_of_get? _ hattributes,
    Json.valueInt_of_get? _ hn]

/-! ### One lemma for each statement -/

/-- Time passing keeps the invariant. -/
theorem Invariant.later (h : Invariant now t) {now' : Int} (hle : now ≤ now') :
    Invariant now' t where
  toIntegrity := h.toIntegrity
  messages := h.messages
  formed := h.formed
  envelopes := h.envelopes
  rows r hr :=
    ⟨(h.rows r hr).state, (h.rows r hr).lease, fun hs => ((h.rows r hr).available hs).trans hle⟩

/-- An index update that keeps keys and queues and leaves the rows it changes in order. -/
theorem Invariant.updateIndex (h : Invariant now t) {p : IndexRow → Bool}
    {f : IndexRow → IndexRow} (hkey : ∀ r, (f r).messageKey = r.messageKey)
    (hqueue : ∀ r, (f r).queue = r.queue)
    (hrows : ∀ r ∈ t.index, p r = true → RowOk now r → RowOk now (f r)) :
    Invariant now (t.updateIndex p f) where
  toIntegrity := h.toIntegrity.updateIndex hkey
  messages k := by
    rw [Tables.indexKeys_updateIndex hkey]
    exact h.messages k
  formed := by
    rw [Tables.indexKeys_updateIndex hkey]
    exact h.formed
  envelopes r hr := by
    obtain ⟨r, hmem, rfl⟩ := mem_update.mp hr
    obtain ⟨j, hj, henvelope⟩ := h.envelopes r hmem
    refine ⟨j, ?_, ?_⟩
    · split
      · rw [hkey]; exact hj
      · exact hj
    · split
      · rw [hqueue]; exact henvelope
      · exact henvelope
  rows r hr := by
    obtain ⟨r, hmem, rfl⟩ := mem_update.mp hr
    split
    case isTrue hp => exact hrows r hmem hp (h.rows r hmem)
    case isFalse => exact h.rows r hmem

/-- An edit of a key's value that keeps envelopes. -/
theorem Invariant.editsValue (h : Invariant now t) {key : String} {time : Int}
    {edit : Json String → Option (Json String)}
    (hedit : ∀ j j' queue, edit j = some j' → IsEnvelope j queue → IsEnvelope j' queue)
    (hedits : EditsValue key time edit t t') : Invariant now t' := by
  rcases hedits with rfl | ⟨j, j', hvalue, hj, rfl⟩
  · exact h
  · refine ⟨h.toIntegrity.updateKvValue _ _, ?_, h.formed, fun r hr => ?_, h.rows⟩
    · intro k
      rw [Tables.storedKeys_updateKvValue]
      exact h.messages k
    · obtain ⟨i, hi, henvelope⟩ := h.envelopes r hr
      rw [Tables.value?_updateKvValue, hi]
      split
      case isTrue hkey =>
        rw [hkey, hvalue, Option.some.injEq, Option.some.injEq] at hi
        exact ⟨j', rfl, hedit j j' r.queue hj (hi ▸ henvelope)⟩
      case isFalse => exact ⟨i, rfl, henvelope⟩

/-- The guard on the index delete makes no difference: the delete in `kv` cascades. -/
theorem acked_eq (key : String) (t : Tables) : acked key t = t.deleteKv key := by
  simp only [acked, Tables.deleteKv, Tables.deleteIndex, delete, List.filter_filter,
    Tables.mk.injEq, true_and]
  refine List.filter_congr fun r _ => ?_
  by_cases hkey : r.messageKey = key <;> simp [hkey]

/-- Deleting a key keeps the invariant. -/
theorem Invariant.deleteKv (h : Invariant now t) (key : String) :
    Invariant now (t.deleteKv key) where
  toIntegrity := h.toIntegrity.deleteKv key
  messages k := by
    rw [Tables.mem_indexKeys_deleteKv, Tables.mem_storedKeys_deleteKv, h.messages]
  formed k hk := h.formed k (Tables.mem_indexKeys_deleteKv.mp hk).1
  envelopes r hr := by
    obtain ⟨hmem, hne⟩ := List.mem_filter.mp hr
    rw [(Tables.deleteKv_of_ne (by simpa using hne)).1]
    exact h.envelopes r hmem
  rows r hr := h.rows r (List.mem_filter.mp hr).1

/-- A new row of `kv` that is no message. -/
theorem Invariant.insertPolicy (h : Invariant now t) {row : KvRow}
    (hnew : row.key ∉ t.kv.map KvRow.key) (htype : row.valueType ≠ "message") :
    Invariant now { t with kv := t.kv ++ [row] } where
  toIntegrity := h.toIntegrity.insertKv hnew
  messages k := by
    show k ∈ t.indexKeys ↔ _
    rw [h.messages, Tables.storedKeys, Tables.storedKeys, List.map_append, List.mem_append]
    simp [htype.symm]
  formed := h.formed
  envelopes r hr := by
    rw [Tables.value?_append]
    obtain ⟨j, hj, henvelope⟩ := h.envelopes r hr
    exact ⟨j, by simp [hj], henvelope⟩
  rows := h.rows

/-- The row of an enqueued message is as it should be. -/
theorem rowOk_newRow (message : MessageEnvelope) (hle : env.now ≤ now) :
    RowOk now (newRow message env.now) := by
  by_cases hlater : env.now < availableFrom message env.now
  · exact ⟨by simp [newRow, hlater], by simp [newRow, hlater], by simp [newRow, hlater]⟩
  · have hnow : availableFrom message env.now ≤ env.now := not_lt.mp hlater
    exact ⟨by simp [newRow, hlater], by simp [newRow, hlater], fun _ => hnow.trans hle⟩

/-- Enqueueing a message under a new key keeps the invariant. -/
theorem Invariant.enqueued (h : Invariant now t) {message : MessageEnvelope}
    (hle : env.now ≤ now) (hformed : ∃ queue id, message.key = messageKey queue id)
    (hnew : message.key ∉ t.kv.map KvRow.key) : Invariant now (enqueued env message t) := by
  refine ⟨h.toIntegrity.insertMessage hnew rfl, fun k => ?_, ?_, ?_, ?_⟩
  · show k ∈ (t.index ++ [newRow message env.now]).map IndexRow.messageKey ↔ _
    rw [List.map_append, List.mem_append, SQLite.enqueued, Tables.storedKeys, List.map_append,
      List.mem_append]
    exact or_congr (h.messages k) (by simp [newRow])
  · intro k hk
    simp only [SQLite.enqueued, Tables.indexKeys, List.map_append, List.mem_append] at hk
    rcases hk with hk | hk
    · exact h.formed k hk
    · obtain rfl : k = message.key := by simpa [newRow] using hk
      exact hformed
  · intro r hr
    rw [SQLite.enqueued, Tables.value?_append]
    rcases List.mem_append.mp hr with hr | hr
    · obtain ⟨j, hj, henvelope⟩ := h.envelopes r hr
      exact ⟨j, by simp [hj], henvelope⟩
    · obtain rfl : r = newRow message env.now := by simpa using hr
      refine ⟨envelopeJson message env.now, ?_, isEnvelope_envelopeJson _ _⟩
      rw [show t.value? (newRow message env.now).messageKey = none from
        Tables.value?_eq_none.mpr hnew]
      simp [newRow]
  · intro r hr
    rcases List.mem_append.mp hr with hr | hr
    · exact h.rows r hr
    · obtain rfl : r = newRow message env.now := by simpa using hr
      exact rowOk_newRow message hle

/-! ### The kinds of change -/

/-- The edits of a value that the calls make: a dead letter is marked, or a message unmarked. -/
inductive MarksLetter (now : Int) : (Json String → Option (Json String)) → Prop
  | marks (reason : String) : MarksLetter now (withDlqFields reason now)
  | unmarks : MarksLetter now withoutDlqFields

/-- A performed call inserts a message, deletes one, stores a policy, or updates rows without
    changing what was published and may edit a value. -/
inductive Change (env : Env) (t : Tables) : Call → Tables → Prop
  | inserted (message : MessageEnvelope) (hnew : message.key ∉ t.kv.map KvRow.key) :
    Change env t (.enqueue message) (enqueued env message t)
  | deleted (lease : LeaseToken) : Change env t (.ack lease) (t.deleteKv lease.messageKey)
  | stored (queue : String) (policy : QueuePolicy) :
    Change env t (.savePolicy queue policy)
      (t.replaceKv ⟨"policy:" ++ queue, some policy.toJson, "policy", env.now, env.now⟩)
  | updated {call : Call} {t' : Tables} (p : IndexRow → Bool) (f : IndexRow → IndexRow)
    (key : String) (edit : Json String → Option (Json String)) (hkeeps : KeepsColumns f)
    (hmarks : MarksLetter env.now edit)
    (hedits : EditsValue key env.now edit (t.updateIndex p f) t') : Change env t call t'

/-- An update of rows alone is such a change. -/
theorem Change.ofRows (call : Call) (p : IndexRow → Bool) {f : IndexRow → IndexRow}
    (hkeeps : KeepsColumns f) : Change env t call (t.updateIndex p f) :=
  .updated p f "" withoutDlqFields hkeeps .unmarks (.inl rfl)

/-- **What a performed call changes is of one of these kinds.** -/
theorem Effect.change {call : Call} {reply : Reply} (heffect : Effect schema env call reply t t') :
    Change env t call t' := by
  -- Most calls update rows alone; only dead letters have their value edited with them.
  cases call with
  | enqueue message =>
    obtain ⟨-, hnew, rfl⟩ := heffect
    exact .inserted message hnew
  | leaseNext queue c timeout =>
    obtain ⟨row, value, -, -, -, rfl⟩ := heffect
    exact .ofRows _ _ fun _ => ⟨rfl, rfl, rfl, rfl⟩
  | ack lease =>
    obtain ⟨-, rfl⟩ := heffect
    rw [acked_eq]
    exact .deleted lease
  | nack lease reason requeue =>
    obtain ⟨-, heffect⟩ := heffect
    cases requeue with
    | true =>
      rw [if_pos rfl] at heffect
      rw [heffect]
      exact .ofRows _ _ fun _ => ⟨rfl, rfl, rfl, rfl⟩
    | false =>
      rw [if_neg Bool.false_ne_true] at heffect
      refine .updated _ _ _ _ ?_ (.marks reason) heffect
      exact fun _ => ⟨rfl, rfl, rfl, rfl⟩
  | savePolicy queue policy =>
    obtain ⟨-, rfl⟩ := heffect
    exact .stored queue policy
  | moveToDlq key reason =>
    obtain ⟨-, heffect⟩ := heffect
    refine .updated _ _ _ _ ?_ (.marks reason) heffect
    exact fun _ => ⟨rfl, rfl, rfl, rfl⟩
  | reprocessDlqMessage key =>
    obtain ⟨-, heffect⟩ := heffect
    refine .updated _ _ _ _ ?_ .unmarks heffect
    exact fun _ => ⟨rfl, rfl, rfl, rfl⟩
  | extendLease | recoverExpiredLeases | processDelayedMessages | delayMessage =>
    obtain ⟨-, rfl⟩ := heffect
    exact .ofRows _ _ fun _ => ⟨rfl, rfl, rfl, rfl⟩

/-! ### Every call -/

/-- The call leases a message, if it does, whose key is read as it is. -/
def Readable (env : Env) (t : Tables) : Call → Prop
  | .leaseNext queue c _ => t.Legible queue c env.now
  | _ => True

/-- **Every performed call keeps the invariant**, unless it leases what it cannot read. -/
theorem Invariant.effect (h : Invariant now t) (hle : env.now ≤ now) {call : Call}
    {reply : Reply} (hformed : call.Formed) (hreadable : Readable env t call)
    (heffect : Effect schema env call reply t t') : Invariant now t' := by
  cases call with
  | enqueue message =>
    obtain ⟨-, hnew, rfl⟩ := heffect
    exact h.enqueued hle hformed hnew
  | leaseNext queue c timeout =>
    obtain ⟨row, value, hrow, -, -, rfl⟩ := heffect
    obtain ⟨hmem, hready⟩ := Tables.readyRow?_some (hreadable.nextRow?_eq ▸ hrow)
    refine h.updateIndex (fun _ => rfl) (fun _ => rfl) fun r hr hkey _ => ?_
    -- the updated row is the selected one, because keys are distinct
    obtain rfl : r = row := List.inj_on_of_nodup_map h.indexKeyed hr hmem (by simpa using hkey)
    simp only [Tables.isReadyFor, decide_eq_true_eq] at hready
    exact ⟨.inr (.inl rfl), by simp, fun _ => hready.2.2.1.trans hle⟩
  | ack lease =>
    obtain ⟨-, rfl⟩ := heffect
    rw [acked_eq]
    exact h.deleteKv _
  | nack lease reason requeue =>
    obtain ⟨-, heffect⟩ := heffect
    cases requeue with
    | true =>
      simp only [if_true] at heffect
      subst heffect
      exact h.updateIndex (fun _ => rfl) (fun _ => rfl) fun r _ _ _ =>
        ⟨.inl rfl, by simp, fun _ => hle⟩
    | false =>
      simp only [Bool.false_eq_true, if_false] at heffect
      refine Invariant.editsValue ?_ (fun j j' q hedit hj => hj.withDlqFields hedit) heffect
      exact h.updateIndex (fun _ => rfl) (fun _ => rfl) fun r _ _ _ =>
        ⟨.inr (.inr (.inr rfl)), by simp, by simp⟩
  | extendLease lease timeout =>
    obtain ⟨-, rfl⟩ := heffect
    refine h.updateIndex (fun _ => rfl) (fun _ => rfl) fun r _ hp hr => ?_
    have hinflight : r.state = .inflight := by
      simp only [decide_eq_true_eq] at hp
      exact hp.2.1
    exact ⟨hr.state, by simp [hinflight], hr.available⟩
  | savePolicy queue policy =>
    obtain ⟨-, rfl⟩ := heffect
    refine (h.deleteKv ("policy:" ++ queue)).insertPolicy ?_ (by simp)
    exact Tables.value?_eq_none.mp Tables.deleteKv_self.1
  | recoverExpiredLeases =>
    obtain ⟨-, rfl⟩ := heffect
    refine h.updateIndex (fun _ => rfl) (fun _ => rfl) fun r _ hp hr => ?_
    have hinflight : r.state = .inflight := by
      simp only [Tables.isExpired, decide_eq_true_eq] at hp
      exact hp.1
    exact ⟨.inl rfl, by simp, fun _ => hr.available (.inr hinflight)⟩
  | processDelayedMessages =>
    obtain ⟨-, rfl⟩ := heffect
    refine h.updateIndex (fun _ => rfl) (fun _ => rfl) fun r _ hp hr => ?_
    simp only [decide_eq_true_eq] at hp
    refine ⟨.inl rfl, ?_, fun _ => hp.2.trans hle⟩
    simp [hr.lease, hp.1]
  | delayMessage key delayMs =>
    obtain ⟨-, rfl⟩ := heffect
    exact h.updateIndex (fun _ => rfl) (fun _ => rfl) fun r _ _ _ =>
      ⟨.inr (.inr (.inl rfl)), by simp, by simp⟩
  | moveToDlq key reason =>
    obtain ⟨-, heffect⟩ := heffect
    refine Invariant.editsValue ?_ (fun j j' q hedit hj => hj.withDlqFields hedit) heffect
    exact h.updateIndex (fun _ => rfl) (fun _ => rfl) fun r _ _ _ =>
      ⟨.inr (.inr (.inr rfl)), by simp, by simp⟩
  | reprocessDlqMessage key =>
    obtain ⟨-, heffect⟩ := heffect
    refine Invariant.editsValue ?_ (fun j j' q hedit hj => hj.withoutDlqFields hedit) heffect
    exact h.updateIndex (fun _ => rfl) (fun _ => rfl) fun r _ _ _ =>
      ⟨.inl rfl, by simp, fun _ => hle⟩

/-- Where every key can be read, every call leases what it can read. -/
theorem readable_of_legible (h : ∀ k ∈ t.indexKeys, '\x00' ∉ k.toList) (call : Call) :
    Readable env t call := by
  cases call with
  | leaseNext queue c timeout => exact fun r hr _ => h _ (List.mem_map_of_mem hr)
  | _ => trivial

/-- The empty tables satisfy the invariant. -/
theorem invariant_empty (now : Int) : Invariant now Tables.empty :=
  ⟨Tables.integrity_empty, by simp [Tables.empty, Tables.indexKeys, Tables.storedKeys],
    by simp [Tables.empty, Tables.indexKeys], by simp [Tables.empty], by simp [Tables.empty]⟩

/-- The message a call publishes, if it does, has a key without a NUL character. -/
def Call.Legible : Call → Prop
  | .enqueue message => '\x00' ∉ message.key.toList
  | _ => True

/-- Whether a call is legible can be computed. -/
instance : (call : Call) → Decidable (Call.Legible call)
  | .enqueue message => inferInstanceAs (Decidable ('\x00' ∉ message.key.toList))
  | .leaseNext _ _ _ | .ack _ | .nack _ _ _ | .extendLease _ _ | .savePolicy _ _
  | .recoverExpiredLeases | .processDelayedMessages | .delayMessage _ _ | .moveToDlq _ _
  | .reprocessDlqMessage _ => inferInstanceAs (Decidable True)

/-- The runs of the store: formed keys that can be read, and a clock that never goes back. -/
def Allowed (h : History Store (Env × Call) Reply) (_ : Store) (i : Env × Call) : Prop :=
  Later (·.1.now) h i ∧ i.2.Formed ∧ Call.Legible i.2

/-- A key of the index after a call was there before it, or is the published one. -/
theorem indexKeys_effect {call : Call} {reply : Reply}
    (heffect : Effect schema env call reply t t') :
    ∀ k ∈ t'.indexKeys, k ∈ t.indexKeys ∨ ∃ message, call = .enqueue message ∧ message.key = k := by
  intro k hk
  cases heffect.change with
  | inserted message =>
    simp only [SQLite.enqueued, Tables.indexKeys, List.map_append, List.mem_append] at hk
    rcases hk with hk | hk
    · exact .inl hk
    · exact .inr ⟨message, rfl, (List.mem_singleton.mp hk).symm⟩
  | deleted lease => exact .inl (Tables.mem_indexKeys_deleteKv.mp hk).1
  | stored queue policy =>
    have hkept : k ∈ (t.deleteKv ("policy:" ++ queue)).indexKeys := hk
    exact .inl (Tables.mem_indexKeys_deleteKv.mp hkept).1
  | updated p f key edit hkeeps hmarks hedits =>
    rw [Tables.indexKeys_editsValue hedits] at hk
    exact .inl (Tables.mem_indexKeys_updateIndex hk fun r => (hkeeps r).1)

/-- **The invariant holds after every sequence of calls**, all keys can be read, and no
    transaction stays open. -/
theorem invariant_of_run {h : History Store (Env × Call) Reply} {s : Store}
    (run : Run (adapter schema).machine Allowed h s) :
    s.saved = none ∧ (∀ k ∈ s.data.indexKeys, '\x00' ∉ k.toList) ∧
      ∀ now, (∀ r ∈ h, r.input.1.now ≤ now) → Invariant now s.data := by
  refine Run.invariant (fun h s => s.saved = none ∧ (∀ k ∈ s.data.indexKeys, '\x00' ∉ k.toList) ∧
    ∀ now, (∀ r ∈ h, r.input.1.now ≤ now) → Invariant now s.data) ?_ ?_ run
  · exact ⟨rfl, List.forall_mem_nil _, fun now _ => invariant_empty now⟩
  · rintro h s ⟨env, call⟩ - ⟨hsaved, hlegible, hinv⟩ ⟨hlater, hformed, hkey⟩
    obtain ⟨hopen, hperforms⟩ :=
      @perform_performs True schema env s hsaved (.inl trivial) call
    have hreadable : Readable env s.data call := readable_of_legible hlegible call
    refine ⟨hopen, ?_, fun now hnow => ?_⟩
    · rcases hperforms with ⟨-, hsame, -⟩ | heffect
      · exact hsame ▸ hlegible
      · intro k hk
        rcases indexKeys_effect heffect k hk with hold | ⟨message, rfl, rfl⟩
        · exact hlegible k hold
        · exact hkey
    · have hle : env.now ≤ now := by simpa using hnow _ List.mem_cons_self
      have hbefore : Invariant env.now s.data := hinv _ hlater
      rcases hperforms with ⟨-, hsame, -⟩ | heffect
      · exact (hsame ▸ hbefore).later hle
      · exact (hbefore.later hle).effect hle hformed hreadable heffect

/-! ### Metrics -/

/-- The number of stored messages whose envelope names the queue. -/
def storedMessages (queue : String) (t : Tables) : Nat :=
  t.kv.countP fun r =>
    r.valueType = "message" ∧ r.value.bind (·.valueStr "queue" "") = some queue

/-- The row of a message in `kv`, and its value. -/
theorem Invariant.kv_row (h : Invariant now t) {row : KvRow} (hrow : row ∈ t.kv)
    (htype : row.valueType = "message") :
    ∃ r ∈ t.index, r.messageKey = row.key ∧ ∃ j, row.value = some j ∧ IsEnvelope j r.queue := by
  have hkey : row.key ∈ t.indexKeys :=
    (h.messages _).mpr (List.mem_map.mpr ⟨row, hrow, by rw [htype]⟩)
  obtain ⟨r, hr, hrkey⟩ := List.mem_map.mp hkey
  obtain ⟨j, hj, henvelope⟩ := h.envelopes r hr
  rw [Tables.value?, hrkey, h.kvKeyed.row?_of_mem hrow] at hj
  exact ⟨r, hr, hrkey, j, by simpa using hj, henvelope⟩

/-- As many index rows as stored messages name a queue. -/
theorem Invariant.countP_queue (h : Invariant now t) (queue : String) :
    t.index.countP (fun r => r.queue = queue) = storedMessages queue t := by
  rw [storedMessages, List.countP_eq_length_filter, List.countP_eq_length_filter,
    ← List.length_map (f := IndexRow.messageKey), ← List.length_map (f := KvRow.key)]
  refine List.Perm.length_eq ((List.perm_ext_iff_of_nodup ?_ ?_).mpr fun k => ?_)
  · exact h.indexKeyed.sublist (List.filter_sublist.map _)
  · exact h.kvKeyed.sublist (List.filter_sublist.map _)
  · simp only [List.mem_map, List.mem_filter, decide_eq_true_eq]
    constructor
    · rintro ⟨r, ⟨hr, rfl⟩, rfl⟩
      obtain ⟨row, hrow, hkeys⟩ :=
        List.mem_map.mp ((h.messages _).mp (List.mem_map_of_mem hr))
      obtain ⟨hkey, htype⟩ := Prod.mk.inj hkeys
      obtain ⟨r', hr', hkey', j, hj, henvelope⟩ := h.kv_row hrow htype
      obtain rfl : r' = r :=
        List.inj_on_of_nodup_map h.indexKeyed hr' hr (hkey'.trans hkey)
      exact ⟨row, ⟨hrow, htype, by simp [hj, Json.valueStr_of_get? _ henvelope.queue]⟩, hkey⟩
    · rintro ⟨row, ⟨hrow, htype, hqueue⟩, rfl⟩
      obtain ⟨r, hr, hkey, j, hj, henvelope⟩ := h.kv_row hrow htype
      refine ⟨r, ⟨hr, ?_⟩, hkey⟩
      simpa [hj, Json.valueStr_of_get? _ henvelope.queue] using hqueue

/-- Groups without rows do not matter when a count is looked up. -/
theorem lookup_groups (count : MessageState → Nat) (states : List MessageState)
    (state : MessageState) :
    (((states.map fun st => (st, count st)).filter (0 < ·.2)).lookup state).getD 0 =
      if state ∈ states then count state else 0 := by
  induction states with
  | nil => rfl
  | cons st states ih =>
    by_cases hpos : 0 < count st
    · rw [List.map_cons, List.filter_cons_of_pos (by simpa using hpos), List.lookup_cons]
      by_cases heq : state = st
      · simp [heq]
      · have hne : (state == st) = false := by simpa using heq
        simp only [hne, ih, List.mem_cons, heq, false_or]
    · rw [List.map_cons, List.filter_cons_of_neg (by simpa using hpos), ih]
      by_cases heq : state = st
      · subst heq
        simp [Nat.eq_zero_of_not_pos hpos]
      · simp [heq]

/-- The counts `metrics` answers when no statement fails. -/
theorem metrics_eq (queue : String) (s : Store) :
    let count (state : MessageState) :=
      s.data.index.countP fun r => r.queue = queue ∧ r.state = state
    ((metrics queue).run [] s).1 =
      (⟨count .ready, count .inflight, count .delayed, count .dlq⟩, none) := by
  intro count
  have hsat : Program.Sat False (fun _ => True) s (metrics queue) fun r _ =>
      r = (⟨count .ready, count .inflight, count .delayed, count .dlq⟩, none) := by
    refine Program.Sat.bind (Program.Sat.prim ?_ (by simp [Conn.reading]) (by simp))
    rintro t u ⟨rfl, rfl⟩
    refine ⟨trivial, Program.Sat.bind (Program.Sat.fetch _ (fun n hn => Program.Sat.pure ?_)
      trivial)⟩
    rw [hn not_false, List.take_length]
    simp only [stateCounts, lookup_groups, id]
    rfl
  exact (hsat.run (.inr rfl) trivial).1

/-- The rows of a queue, counted by state. -/
theorem countP_states (queue : String) {rows : List IndexRow}
    (hrows : ∀ r ∈ rows, RowOk now r) :
    rows.countP (fun r => r.queue = queue ∧ r.state = .ready) +
        rows.countP (fun r => r.queue = queue ∧ r.state = .inflight) +
        rows.countP (fun r => r.queue = queue ∧ r.state = .delayed) +
        rows.countP (fun r => r.queue = queue ∧ r.state = .dlq) =
      rows.countP (fun r => r.queue = queue) := by
  induction rows with
  | nil => rfl
  | cons r rows ih =>
    have ih := ih fun r' hr' => hrows r' (List.mem_cons_of_mem _ hr')
    have hstate := (hrows r List.mem_cons_self).state
    simp only [List.countP_cons, Bool.decide_and] at ih ⊢
    by_cases hqueue : r.queue = queue
    · rcases hstate with hs | hs | hs | hs <;> simp [hqueue, hs] <;> omega
    · simp [hqueue, ih]

/-- The four counts add up to the number of stored messages. -/
theorem Invariant.metrics_sum {s : Store} (h : Invariant now s.data) (queue : String) :
    ∃ m, ((metrics queue).run [] s).1 = (m, none) ∧
      m.ready + m.inflight + m.delayed + m.dlq = storedMessages queue s.data :=
  ⟨_, metrics_eq queue s, (countP_states queue h.rows).trans (h.countP_queue queue)⟩

/-- When no statement fails, `lease_next` reports no error on messages it can read. -/
theorem Invariant.leaseNext_error_free {s : Store} (hsaved : s.saved = none)
    (h : Invariant env.now s.data) {queue c : String} (hlegible : s.data.Legible queue c env.now)
    (timeout : Int) : ((leaseNext schema env queue c timeout).run [] s).1.error = none := by
  obtain ⟨-, hresult⟩ :=
    ((@leaseNext_sat False schema env s hsaved queue c timeout).run (.inr rfl) trivial).1
  rw [hlegible.nextRow?_eq] at hresult
  rcases hresult with ⟨e, hr, -, hf | ⟨rfl, -⟩ | ⟨row, hrow, hvalue⟩⟩ | heffect
  · exact hf.elim
  · rw [hr]
  · obtain ⟨j, hj, -⟩ := h.envelopes row (Tables.readyRow?_some hrow).1
    rw [hj] at hvalue
    cases hvalue
  · obtain ⟨row, value, hrow, hvalue, hreply, -⟩ := heffect
    rw [hlegible.nextRow?_eq] at hrow
    obtain ⟨j, hj, henvelope⟩ := h.envelopes row (Tables.readyRow?_some hrow).1
    obtain ⟨m, hm, -⟩ := henvelope.leasedMessage (q := queue)
    rw [hj, Option.some.injEq] at hvalue
    rw [Reply.lease.injEq] at hreply
    rw [hreply, ← hvalue, leaseReply, hm]

/-- What the store invariant says, of a store at time `now`: index keys are distinct and are the
    keys of the stored messages; each stored message parses as an envelope of its row's queue; each
    row is ready, inflight, delayed or dlq, with a lease time exactly when inflight; no ready or
    inflight row lies in the future; the counts of `metrics` add up; and `lease_next` reports no
    error. -/
def StoreInvariant (schema : SchemaFile) (now : Int) (s : Store) : Prop :=
  (s.data.indexKeys.Nodup ∧
    ∀ k, k ∈ s.data.indexKeys ↔ ∃ row ∈ s.data.kv, row.key = k ∧ row.valueType = "message") ∧
  (∀ row ∈ s.data.kv, row.valueType = "message" →
    ∃ r ∈ s.data.index, r.messageKey = row.key ∧
      ∃ j, row.value = some j ∧ IsEnvelope j r.queue) ∧
  (∀ r ∈ s.data.index,
    (r.state = .ready ∨ r.state = .inflight ∨ r.state = .delayed ∨ r.state = .dlq) ∧
    (r.leaseUntil.isSome ↔ r.state = .inflight)) ∧
  (∀ r ∈ s.data.index, r.state = .ready ∨ r.state = .inflight → r.availableAt ≤ now) ∧
  (∀ queue, ∃ m, ((metrics queue).run [] s).1 = (m, none) ∧
    m.ready + m.inflight + m.delayed + m.dlq = storedMessages queue s.data) ∧
  ∀ env queue c timeout, now ≤ env.now →
    ((leaseNext schema env queue c timeout).run [] s).1.error = none

/-- **The store invariant** holds after every sequence of calls from the empty schema that
    publishes under keys without NUL characters. -/
theorem store_invariant (schema : SchemaFile) {h : History Store (Env × Call) Reply} {s : Store}
    (run : Run (adapter schema).machine Allowed h s) {now : Int}
    (hnow : ∀ r ∈ h, r.input.1.now ≤ now) : StoreInvariant schema now s := by
  obtain ⟨hsaved, hlegible, hinvs⟩ := invariant_of_run run
  have hinv := hinvs now hnow
  refine ⟨⟨hinv.indexKeyed, fun k => ?_⟩, fun row hrow htype => hinv.kv_row hrow htype,
    fun r hr => ⟨(hinv.rows r hr).state, (hinv.rows r hr).lease⟩,
    fun r hr => (hinv.rows r hr).available, hinv.metrics_sum, fun env queue c timeout hle => ?_⟩
  · rw [hinv.messages, Tables.storedKeys, List.mem_map]
    simp only [Prod.mk.injEq]
  · refine (hinv.later hle).leaseNext_error_free hsaved ?_ timeout
    exact fun r hr _ => hlegible _ (List.mem_map_of_mem hr)

/-- A message published and leased under the schema without a primary key. -/
theorem store_invariant_leased :
    let env (n : Nat) : Env := { now := n + 1, now_pos := Int.succ_ofNat_pos n }
    let message : MessageEnvelope :=
      { key := messageKey "q" "a", messageId := "a", queue := "q", payloadJson := "{}"
        attributesJson := "{}" }
    let calls := [(env 1, Call.enqueue message), (env 2, .leaseNext "q" "c" 30)]
    let s := ((adapter .backendAdapter).machine.replay calls
      ([], (adapter .backendAdapter).machine.start)).2
    s.data.index.map IndexRow.leaseUntil = [some 30003] ∧ StoreInvariant .backendAdapter 4 s := by
  intro env message calls s
  refine ⟨by decide, ?_⟩
  have hallowed : (adapter .backendAdapter).machine.Permits Allowed calls
      ([], (adapter .backendAdapter).machine.start) :=
    ⟨⟨by simp [Later], ⟨"q", "a", rfl⟩, by decide⟩, ⟨by simp [Later, env], trivial, trivial⟩,
      trivial⟩
  have run := run_replay calls hallowed
  have hnow : ∀ r ∈ ((adapter .backendAdapter).machine.replay calls
      ([], (adapter .backendAdapter).machine.start)).1, r.input.1.now ≤ 4 := by
    simp [calls, Machine.replay, env]
  exact store_invariant .backendAdapter run hnow

/-- A message is published to a queue whose name ends in a NUL character.  Its key is read up to
    that character, and `lease_next` does not find the message of the key that it has read. -/
theorem published_not_found :
    let env (n : Nat) : Env := { now := n + 1, now_pos := Int.succ_ofNat_pos n }
    let message : MessageEnvelope :=
      { key := messageKey "q\x00" "a", messageId := "a", queue := "q\x00", payloadJson := "{}"
        attributesJson := "{}" }
    let s := ((adapter .mainMq).machine.replay [(env 1, .enqueue message)]
      ([], (adapter .mainMq).machine.start)).2
    (Call.enqueue message).Formed ∧ ¬StoreInvariant .mainMq 2 s ∧
      ((leaseNext .mainMq (env 2) "q\x00" "c" 30).run [] s).1.error =
        some "message not found in kv table" := by
  intro env message s
  have hfailed : ((leaseNext .mainMq (env 2) "q\x00" "c" 30).run [] s).1.error =
      some "message not found in kv table" := by decide
  refine ⟨⟨"q\x00", "a", rfl⟩, fun hinvariant => ?_, hfailed⟩
  have hnone := hinvariant.2.2.2.2.2 (env 2) "q\x00" "c" 30 (by decide)
  rw [hfailed] at hnone
  cases hnone

end YirangMQ.SQLite

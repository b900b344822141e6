import YirangMQ.Hybrid.Effects
import YirangMQ.Sql.Integrity

namespace YirangMQ.Hybrid

open Table

/-!
# The invariant of the Hybrid store

* `IsEnvelope`, `RowOk`, `Invariant` — both tables have integrity, every row has an envelope
  that `lease_next` can read, and a lease time exactly when it is inflight;
* `Invariant.effect` — **every performed call keeps it.**
-/

variable {schema : SchemaFile} {env : Env} {t t' : Tables} {files : Payloads}

/-- The document is an envelope of a message. -/
structure IsEnvelope (j : Json String) : Prop where
  object : j.isObject = true
  messageId : ∃ id, j.get? "messageId" = some (.str id)
  queue : ∃ queue, j.get? "queue" = some (.str queue)
  priority : ∃ n, j.get? "priority" = some (.int n)
  createdAt : ∃ n, j.get? "createdAt" = some (.int n)

/-- The lease time of a row agrees with its state. -/
structure RowOk (r : IndexRow) : Prop where
  state : r.state ≠ .archived
  lease : r.leaseUntil.isSome ↔ r.state = .inflight

/-- The store invariant. -/
structure Invariant (t : Tables) : Prop extends t.Integrity where
  formed : ∀ k ∈ t.indexKeys, ∃ queue id, k = messageKey queue id
  envelopes : ∀ r ∈ t.index, ∃ j, t.value? r.messageKey = some (some j) ∧ IsEnvelope j
  rows : ∀ r ∈ t.index, RowOk r

/-- The empty tables satisfy the invariant. -/
theorem invariant_empty : Invariant Tables.empty :=
  ⟨Tables.integrity_empty, by simp [Tables.empty, Tables.indexKeys], by simp [Tables.empty],
    by simp [Tables.empty]⟩

/-! ### Envelopes -/

/-- The fields of an object after one has been set. -/
theorem get?_jsonSet {j : Json String} (hobj : j.isObject = true) (field : String)
    (v : Json String) (k : String) :
    (jsonSet field v j).get? k = if k = field then some v else j.get? k := by
  cases j <;> simp only [Json.isObject, Bool.false_eq_true] at hobj
  case obj fields =>
    have hset : (Json.obj fields).set field v = some (jsonSet field v (.obj fields)) := rfl
    exact Json.get?_set hset k

/-- The fields of an object after one has been removed. -/
theorem get?_jsonRemove {j : Json String} (hobj : j.isObject = true) (field k : String) :
    (jsonRemove field j).get? k = if k = field then none else j.get? k := by
  cases j <;> simp only [Json.isObject, Bool.false_eq_true] at hobj
  case obj fields =>
    have herase : (Json.obj fields).erase field = some (jsonRemove field (.obj fields)) := rfl
    exact Json.get?_erase herase k

/-- Setting a field keeps an object an object. -/
theorem isObject_jsonSet {j : Json String} (hobj : j.isObject = true) (field : String)
    (v : Json String) : (jsonSet field v j).isObject = true := by
  cases j <;> simp_all [Json.isObject, jsonSet]

/-- Removing a field keeps an object an object. -/
theorem isObject_jsonRemove {j : Json String} (hobj : j.isObject = true) (field : String) :
    (jsonRemove field j).isObject = true := by
  cases j <;> simp_all [Json.isObject, jsonRemove]

/-- What keeps the four fields of an envelope keeps it an envelope. -/
theorem IsEnvelope.of_get? {j j' : Json String} (h : IsEnvelope j) (hobj : j'.isObject = true)
    (hget : ∀ k ∈ ["messageId", "queue", "priority", "createdAt"], j'.get? k = j.get? k) :
    IsEnvelope j' where
  object := hobj
  messageId := by rw [hget _ (by simp)]; exact h.messageId
  queue := by rw [hget _ (by simp)]; exact h.queue
  priority := by rw [hget _ (by simp)]; exact h.priority
  createdAt := by rw [hget _ (by simp)]; exact h.createdAt

/-- Marking a dead letter keeps an envelope an envelope. -/
theorem IsEnvelope.withDlqFields {j : Json String} (h : IsEnvelope j) (reason : String)
    (now : Int) : IsEnvelope (withDlqFields reason now j) := by
  have hobj : (jsonSet "dlqReason" (.str reason) j).isObject = true :=
    isObject_jsonSet h.object _ _
  refine h.of_get? (isObject_jsonSet hobj _ _) fun k hk => ?_
  have hne : k ≠ "dlqAt" ∧ k ≠ "dlqReason" := by
    constructor <;> rintro rfl <;> simp at hk
  rw [Hybrid.withDlqFields, get?_jsonSet hobj, get?_jsonSet h.object, if_neg hne.1, if_neg hne.2]

/-- Unmarking it does so as well. -/
theorem IsEnvelope.withoutDlqFields {j : Json String} (h : IsEnvelope j) :
    IsEnvelope (withoutDlqFields j) := by
  have hset : (jsonSet "attempt" (.int 0) j).isObject = true := isObject_jsonSet h.object _ _
  have hremoved := isObject_jsonRemove hset "dlqReason"
  refine h.of_get? (isObject_jsonRemove hremoved _) fun k hk => ?_
  have hne : k ≠ "attempt" ∧ k ≠ "dlqAt" ∧ k ≠ "dlqReason" := by
    refine ⟨?_, ?_, ?_⟩ <;> rintro rfl <;> simp at hk
  rw [Hybrid.withoutDlqFields, get?_jsonRemove hremoved, get?_jsonRemove hset,
    get?_jsonSet h.object, if_neg hne.1, if_neg hne.2.1, if_neg hne.2.2]

/-- What is written for a message is an envelope. -/
theorem isEnvelope_envelopeJson (message : MessageEnvelope) :
    IsEnvelope (envelopeJson message) where
  object := rfl
  messageId := ⟨_, rfl⟩
  queue := ⟨_, rfl⟩
  priority := ⟨_, rfl⟩
  createdAt := ⟨_, rfl⟩

/-- `lease_next` can read every envelope. -/
theorem IsEnvelope.leasedEnvelope {j : Json String} (h : IsEnvelope j) (row : IndexRow) :
    ∃ m, leasedEnvelope row (some j) = some m ∧ m.key = row.messageKey ∧
      m.attempt = row.attempt + 1 := by
  obtain ⟨id, hid⟩ := h.messageId
  obtain ⟨queue, hqueue⟩ := h.queue
  obtain ⟨priority, hpriority⟩ := h.priority
  obtain ⟨n, hn⟩ := h.createdAt
  simp [Hybrid.leasedEnvelope, Json.valueStr_of_get? _ hid, Json.valueStr_of_get? _ hqueue,
    Json.valueInt_of_get? _ hpriority, Json.valueInt_of_get? _ hn]

/-- `lease_next` can read every payload document, and goes on without a file. -/
theorem withPayload_of_isPayload {content : Except String JsonText}
    (hcontent : ∀ text, content = .ok text → IsPayload text) (message : MessageEnvelope) :
    ∃ m, withPayload message content = some m ∧ m.key = message.key ∧
      m.attempt = message.attempt := by
  cases content with
  | error e => exact ⟨message, rfl, rfl, rfl⟩
  | ok text =>
    obtain ⟨j, rfl, -, ⟨payload, hpayload⟩, attributes, hattributes⟩ := hcontent text rfl
    simp [withPayload, Json.valueStr_of_get? _ hpayload, Json.valueStr_of_get? _ hattributes]

/-! ### One lemma for each statement -/

/-- An update of the index that keeps keys and rows as they should be keeps the invariant. -/
theorem Invariant.updateIndex (h : Invariant t) {p : IndexRow → Bool} {f : IndexRow → IndexRow}
    (hkey : ∀ r, (f r).messageKey = r.messageKey)
    (hrows : ∀ r ∈ t.index, p r = true → RowOk r → RowOk (f r)) :
    Invariant (t.updateIndex p f) where
  toIntegrity := h.toIntegrity.updateIndex hkey
  formed := by
    rw [Tables.indexKeys_updateIndex hkey]
    exact h.formed
  envelopes r hr := by
    obtain ⟨r, hmem, rfl⟩ := mem_update.mp hr
    obtain ⟨j, hj, henvelope⟩ := h.envelopes r hmem
    refine ⟨j, ?_, henvelope⟩
    split
    · rw [hkey]; exact hj
    · exact hj
  rows r hr := by
    obtain ⟨r, hmem, rfl⟩ := mem_update.mp hr
    split
    case isTrue hp => exact hrows r hmem hp (h.rows r hmem)
    case isFalse => exact h.rows r hmem

/-- An edit of a key's value that keeps envelopes. -/
theorem Invariant.editsValue (h : Invariant t) {key : String} {time : Int}
    {edit : Json String → Json String} (hedit : ∀ j, IsEnvelope j → IsEnvelope (edit j))
    (hedits : EditsValue key time (fun j => some (edit j)) t t') : Invariant t' := by
  refine ⟨h.toIntegrity.editsValue hedits, ?_, ?_, ?_⟩
  · rcases hedits with rfl | ⟨j, j', -, -, rfl⟩ <;> exact h.formed
  · rcases hedits with rfl | ⟨j, j', hvalue, hj, rfl⟩
    · exact h.envelopes
    · intro r hr
      obtain ⟨i, hi, henvelope⟩ := h.envelopes r hr
      rw [Tables.value?_updateKvValue, hi]
      split
      case isTrue hkey =>
        rw [hkey, hvalue, Option.some.injEq, Option.some.injEq] at hi
        subst hi
        exact ⟨j', rfl, Option.some.inj hj ▸ hedit j henvelope⟩
      case isFalse => exact ⟨i, rfl, henvelope⟩
  · rcases hedits with rfl | ⟨j, j', -, -, rfl⟩ <;> exact h.rows

/-- An acknowledged message leaves both tables, also where foreign keys are off. -/
theorem acked_eq (schema : SchemaFile) (key : String) (t : Tables) :
    acked schema key t = t.deleteKv key := by
  cases schema with
  | mainMq => rfl
  | backendAdapter =>
    simp [acked, deleteKv, Tables.deleteKv, Tables.deleteIndex, delete, List.filter_filter]

/-- Deleting a key keeps the invariant. -/
theorem Invariant.deleteKv (h : Invariant t) (key : String) : Invariant (t.deleteKv key) where
  toIntegrity := h.toIntegrity.deleteKv key
  formed k hk := h.formed k (Tables.mem_indexKeys_deleteKv.mp hk).1
  envelopes r hr := by
    obtain ⟨hmem, hne⟩ := List.mem_filter.mp hr
    rw [(Tables.deleteKv_of_ne (by simpa using hne)).1]
    exact h.envelopes r hmem
  rows r hr := h.rows r (List.mem_filter.mp hr).1

/-- The row of an enqueued message is as it should be. -/
theorem rowOk_newRow (message : MessageEnvelope) (now : Int) : RowOk (newRow message now) := by
  by_cases hlater : now < message.availableAtMs
  · exact ⟨by simp [newRow, hlater], by simp [newRow, hlater]⟩
  · exact ⟨by simp [newRow, hlater], by simp [newRow, hlater]⟩

/-- Enqueueing a message under a new key keeps the invariant. -/
theorem Invariant.enqueued (h : Invariant t) {message : MessageEnvelope}
    (hformed : ∃ queue id, message.key = messageKey queue id)
    (hnew : message.key ∉ t.kv.map KvRow.key) : Invariant (enqueued env message t) := by
  refine ⟨h.toIntegrity.insertMessage hnew rfl, ?_, ?_, ?_⟩
  · intro k hk
    simp only [Hybrid.enqueued, Tables.indexKeys, List.map_append, List.mem_append] at hk
    rcases hk with hk | hk
    · exact h.formed k hk
    · obtain rfl : k = message.key := by simpa [newRow] using hk
      exact hformed
  · intro r hr
    rw [Hybrid.enqueued, Tables.value?_append]
    rcases List.mem_append.mp hr with hr | hr
    · obtain ⟨j, hj, henvelope⟩ := h.envelopes r hr
      exact ⟨j, by simp [hj], henvelope⟩
    · obtain rfl : r = newRow message env.now := by simpa using hr
      refine ⟨envelopeJson message, ?_, isEnvelope_envelopeJson message⟩
      rw [show t.value? (newRow message env.now).messageKey = none from
        Tables.value?_eq_none.mpr hnew]
      simp [newRow]
  · intro r hr
    rcases List.mem_append.mp hr with hr | hr
    · exact h.rows r hr
    · obtain rfl : r = newRow message env.now := by simpa using hr
      exact rowOk_newRow message env.now

/-- A value under a key that no message has. -/
theorem Invariant.upsertKv (h : Invariant t) {row : KvRow} (hother : row.key ∉ t.indexKeys) :
    Invariant (t.upsertKv row) := by
  unfold Tables.upsertKv
  split
  case isTrue =>
    refine ⟨h.toIntegrity.updateKvValue _ _, h.formed, fun r hr => ?_, h.rows⟩
    have hne : r.messageKey ≠ row.key := fun hkey => hother (hkey ▸ List.mem_map_of_mem hr)
    rw [Tables.value?_updateKvValue, if_neg hne]
    exact h.envelopes r hr
  case isFalse hnew =>
    refine ⟨h.toIntegrity.insertKv hnew, h.formed, fun r hr => ?_, h.rows⟩
    obtain ⟨j, hj, henvelope⟩ := h.envelopes r hr
    rw [Tables.value?_append]
    exact ⟨j, by simp [hj], henvelope⟩

/-! ### Every call -/

/-- **Every performed call keeps the invariant.** -/
theorem Invariant.effect (h : Invariant t) {call : Call} {reply : Reply}
    (hformed : call.Formed) (heffect : Effect schema env files call reply t t') :
    Invariant t' := by
  cases call with
  | enqueue message =>
    obtain ⟨-, hnew, rfl⟩ := heffect
    exact h.enqueued hformed hnew
  | leaseNext queue c timeout =>
    obtain ⟨row, value, content, -, -, -, -, rfl⟩ := heffect
    exact h.updateIndex (fun _ => rfl) fun r _ _ _ => ⟨by simp, by simp⟩
  | ack lease =>
    obtain ⟨-, -, rfl⟩ := heffect
    rw [acked_eq]
    exact h.deleteKv _
  | nack lease reason requeue =>
    obtain ⟨-, -, heffect⟩ := heffect
    cases requeue with
    | true =>
      simp only [if_true] at heffect
      subst heffect
      exact h.updateIndex (fun _ => rfl) fun r _ _ _ => ⟨by simp, by simp⟩
    | false =>
      simp only [Bool.false_eq_true, if_false] at heffect
      refine Invariant.editsValue ?_ (fun j hj => hj.withDlqFields _ _) heffect
      exact h.updateIndex (fun _ => rfl) fun r _ _ _ => ⟨by simp, by simp⟩
  | extendLease lease timeout =>
    obtain ⟨-, rfl⟩ := heffect
    refine h.updateIndex (fun _ => rfl) fun r _ hp hr => ?_
    -- Only a row that is inflight already is extended.
    have hinflight : r.state = .inflight := by
      simp only [decide_eq_true_eq] at hp
      exact hp.2.1
    exact ⟨hr.state, by simp [hinflight]⟩
  | savePolicy queue policy =>
    obtain ⟨-, rfl⟩ := heffect
    -- A policy is stored under a key that is of no message.
    refine h.upsertKv fun hmem => ?_
    obtain ⟨q, id, hkey⟩ := h.formed _ hmem
    exact policyKey_ne queue q id hkey
  | recoverExpiredLeases =>
    obtain ⟨-, rfl⟩ := heffect
    exact h.updateIndex (fun _ => rfl) fun r _ _ _ => ⟨by simp, by simp⟩
  | processDelayedMessages =>
    obtain ⟨-, rfl⟩ := heffect
    refine h.updateIndex (fun _ => rfl) fun r _ hp hr => ⟨by simp, ?_⟩
    -- Only delayed rows are made ready, and they have no lease.
    simp only [decide_eq_true_eq] at hp
    simp [hr.lease, hp.1]
  | delayMessage key delayMs =>
    obtain ⟨-, rfl⟩ := heffect
    refine h.updateIndex (fun _ => rfl) fun r _ _ _ => ?_
    by_cases hpos : 0 < delayMs
    · exact ⟨by simp [hpos], by simp [hpos]⟩
    · exact ⟨by simp [hpos], by simp [hpos]⟩
  | moveToDlq key reason =>
    obtain ⟨-, heffect⟩ := heffect
    refine Invariant.editsValue ?_ (fun j hj => hj.withDlqFields _ _) heffect
    exact h.updateIndex (fun _ => rfl) fun r _ _ _ => ⟨by simp, by simp⟩
  | reprocessDlqMessage key =>
    obtain ⟨-, -, heffect⟩ := heffect
    refine Invariant.editsValue ?_ (fun j hj => hj.withoutDlqFields) heffect
    exact h.updateIndex (fun _ => rfl) fun r _ _ _ => ⟨by simp, by simp⟩

end YirangMQ.Hybrid

import YirangMQ.SQLite.Invariant
import YirangMQ.Sql.Columns

namespace YirangMQ.SQLite

/-!
# The SQLite store keeps the content of its messages

* `Carries` — a row and its value carry the content of a published message;
* `Effect.carried` — **every performed call keeps them so**, with any keys;
* `content_kept` — after every run of calls, failing statements included;
* `leased_content` — so what `lease_next` leases has the published content.
-/

variable {schema : SchemaFile} {env : Env} {t t' : Tables} {published : List MessageEnvelope}
  {m : MessageEnvelope} {r : IndexRow} {j j' : Json String}

/-- The document holds the content of `m` that its row does not hold. -/
structure HasContent (m : MessageEnvelope) (j : Json String) : Prop where
  object : j.isObject = true
  messageId : j.get? "messageId" = some (.str m.messageId)
  queue : j.get? "queue" = some (.str m.queue)
  payload : j.get? "payload" = some (.str m.payloadJson)
  attributes : j.get? "attributes" = some (.str m.attributesJson)
  createdAt : ∃ n, j.get? "createdAt" = some (.int n) ∧ (0 < m.createdAtMs → n = m.createdAtMs)

/-- The row and its value carry the content of a published message. -/
def Carries (published : List MessageEnvelope) (r : IndexRow) (j : Json String) : Prop :=
  ∃ m ∈ published, r.Describes m ∧ HasContent m j

/-! ### Documents -/

theorem hasContent_envelopeJson (m : MessageEnvelope) (now : Int) :
    HasContent m (envelopeJson m now) where
  object := rfl
  messageId := rfl
  queue := rfl
  payload := rfl
  attributes := rfl
  createdAt := ⟨_, rfl, fun hpos => if_pos hpos⟩

/-- What keeps the five fields keeps the content. -/
theorem HasContent.of_get? (h : HasContent m j) (hobj : j'.isObject = true)
    (hget : ∀ k ∈ ["messageId", "queue", "payload", "attributes", "createdAt"],
      j'.get? k = j.get? k) : HasContent m j' where
  object := hobj
  messageId := by rw [hget _ (by simp)]; exact h.messageId
  queue := by rw [hget _ (by simp)]; exact h.queue
  payload := by rw [hget _ (by simp)]; exact h.payload
  attributes := by rw [hget _ (by simp)]; exact h.attributes
  createdAt := by rw [hget _ (by simp)]; exact h.createdAt

/-- An edit sets and erases none of the five fields. -/
def Spares (edit : Json String → Option (Json String)) : Prop :=
  ∀ j j', edit j = some j' → j'.isObject = true ∧
    ∀ k ∈ ["messageId", "queue", "payload", "attributes", "createdAt"], j'.get? k = j.get? k

theorem spares_withDlqFields (reason : String) (now : Int) :
    Spares (withDlqFields reason now) := by
  intro j j' hedit
  obtain ⟨j₁, hj₁, hj₂⟩ := Option.bind_eq_some_iff.mp hedit
  refine ⟨Json.isObject_set hj₂, fun k hk => ?_⟩
  have hne : k ≠ "dlqAt" ∧ k ≠ "dlqReason" := by
    constructor <;> rintro rfl <;> simp at hk
  rw [Json.get?_set hj₂, Json.get?_set hj₁, if_neg hne.1, if_neg hne.2]

theorem spares_withoutDlqFields : Spares withoutDlqFields := by
  intro j j' hedit
  obtain ⟨j₁, hj₁, hedit⟩ := Option.bind_eq_some_iff.mp hedit
  obtain ⟨j₂, hj₂, hj₃⟩ := Option.bind_eq_some_iff.mp hedit
  refine ⟨Json.isObject_set hj₃, fun k hk => ?_⟩
  have hne : k ≠ "attempt" ∧ k ≠ "dlqAt" ∧ k ≠ "dlqReason" := by
    refine ⟨?_, ?_, ?_⟩ <;> rintro rfl <;> simp at hk
  rw [Json.get?_set hj₃, Json.get?_erase hj₂, Json.get?_erase hj₁, if_neg hne.1, if_neg hne.2.1,
    if_neg hne.2.2]

/-- So the edits of the calls spare them. -/
theorem MarksLetter.spares {now : Int} {edit : Json String → Option (Json String)}
    (hmarks : MarksLetter now edit) : Spares edit := by
  cases hmarks with
  | marks reason => exact spares_withDlqFields reason now
  | unmarks => exact spares_withoutDlqFields

theorem Carries.edit {edit : Json String → Option (Json String)} (hspares : Spares edit)
    (hedit : edit j = some j') (h : Carries published r j) : Carries published r j' := by
  obtain ⟨m, hm, hdescribes, hcontent⟩ := h
  obtain ⟨hobj, hget⟩ := hspares j j' hedit
  exact ⟨m, hm, hdescribes, hcontent.of_get? hobj hget⟩

/-- What `lease_next` reads from a row that carries a message. -/
theorem Carries.leasedMessage (h : Carries published r j) (queue : String) :
    ∃ m ∈ published, r.Describes m ∧ ∃ message,
      leasedMessage queue r (some j) = some message ∧ SameContent m message := by
  obtain ⟨m, hm, hdescribes, hcontent⟩ := h
  obtain ⟨n, hn, hcreated⟩ := hcontent.createdAt
  refine ⟨m, hm, hdescribes, ⟨r.messageKey, m.messageId, m.queue, m.payloadJson,
    m.attributesJson, r.priority, r.attempt + 1, n, 0, ""⟩, ?_, ?_⟩
  · simp [SQLite.leasedMessage, Json.valueStr_of_get? _ hcontent.messageId,
      Json.valueStr_of_get? _ hcontent.queue, Json.valueStr_of_get? _ hcontent.payload,
      Json.valueStr_of_get? _ hcontent.attributes, Json.valueInt_of_get? _ hn]
  · exact ⟨hdescribes.key, rfl, rfl, rfl, rfl, hdescribes.priority, hcreated⟩

/-! ### Every call -/

/-- An index update that keeps the columns of messages. -/
theorem carried_updateIndex (h : t.Backed (Carries published)) {p : IndexRow → Bool}
    {f : IndexRow → IndexRow} (hf : KeepsColumns f) :
    (t.updateIndex p f).Backed (Carries published) := by
  refine h.updateIndex (fun r => (hf r).1) fun r _ j _ hcarries => ?_
  obtain ⟨m, hm, hdescribes, hcontent⟩ := hcarries
  exact ⟨m, hm, hdescribes.update hf, hcontent⟩

/-- An index update followed by an edit of a value. -/
theorem carried_editsValue (h : t.Backed (Carries published)) {key : String} {time : Int}
    {edit : Json String → Option (Json String)} (hspares : Spares edit)
    (hedits : EditsValue key time edit t t') : t'.Backed (Carries published) :=
  h.editsValue (fun _ _ _ hedit hcarries => hcarries.edit hspares hedit) hedits

/-- **Every performed call keeps rows and values as the messages were published.** -/
theorem Effect.carried (h : t.Backed (Carries published)) {call : Call} {reply : Reply}
    (heffect : Effect schema env call reply t t') : t'.Backed (Carries (call.publishing published)) := by
  cases heffect.change with
  | inserted message hnew =>
    -- the rows that were there carry what they carried, and the new one carries the message
    have hwider : t.Backed (Carries (message :: published)) := by
      refine h.weaken fun r j hcarries => ?_
      obtain ⟨m, hm, hcarried⟩ := hcarries
      exact ⟨m, List.mem_cons_of_mem _ hm, hcarried⟩
    refine hwider.insertMessage hnew rfl rfl ?_
    exact ⟨message, List.mem_cons_self, ⟨rfl, rfl, rfl, rfl⟩, hasContent_envelopeJson _ _⟩
  | deleted lease => exact h.deleteKv _
  | stored queue policy => exact (h.deleteKv _).insertKv _
  | updated p f key edit hkeeps hmarks hedits =>
    have hupdated := carried_editsValue (carried_updateIndex h hkeeps) hmarks.spares hedits
    refine hupdated.weaken fun r j hcarries => ?_
    obtain ⟨m, hm, hcarried⟩ := hcarries
    exact ⟨m, call.publishing_of_mem hm, hcarried⟩

/-- After every run of calls, rows and values are as the messages were published. -/
theorem content_kept {allowed : History Store (Env × Call) Reply → Store → Env × Call → Prop}
    {h : History Store (Env × Call) Reply} {s : Store}
    (run : Run (adapter schema).machine allowed h s) :
    s.saved = none ∧ s.data.Backed (Carries (publishedBy h)) := by
  induction run with
  | start => exact ⟨rfl, by simp [Adapter.machine, adapter, Tables.Backed, Tables.empty]⟩
  | @step h s i run ok ih =>
    obtain ⟨env, call⟩ := i
    obtain ⟨hsaved, hbacked⟩ := ih
    obtain ⟨hopen, hperforms⟩ := @perform_performs True schema env s hsaved (.inl trivial) call
    refine ⟨hopen, ?_⟩
    rcases hperforms with ⟨-, hsame, -⟩ | heffect
    · refine (hsame ▸ hbacked : Tables.Backed _ _).weaken fun r j hcarries => ?_
      obtain ⟨m, hm, hcarried⟩ := hcarries
      exact ⟨m, call.publishing_of_mem hm, hcarried⟩
    · exact Effect.carried hbacked heffect

/-- What `lease_next` leases has the content of a message published in its queue. -/
theorem leased_content {s : Store} (hsaved : s.saved = none)
    (h : s.data.Backed (Carries published)) {queue c : String} {timeout : Int}
    (hlegible : s.data.Legible queue c env.now) {message : MessageEnvelope} {token : LeaseToken}
    (hgranted : ((adapter schema).perform env (.leaseNext queue c timeout) s).1.granted =
      some (message, token)) : ∃ m ∈ published, m.queue = queue ∧ SameContent m message := by
  obtain ⟨-, hperforms⟩ :=
    @perform_performs True schema env s hsaved (.inl trivial) (.leaseNext queue c timeout)
  rcases hperforms with ⟨hrefusal, -⟩ | ⟨row, value, hrow, hvalue, hreply, -⟩
  · rw [hrefusal.granted] at hgranted
    cases hgranted
  · rw [hlegible.nextRow?_eq] at hrow
    obtain ⟨hmem, hready⟩ := Tables.readyRow?_some hrow
    obtain ⟨j, hj, hcarries⟩ := h row hmem
    obtain ⟨m, hm, hdescribes, message', hmessage, hcontent⟩ := hcarries.leasedMessage queue
    have hqueue : row.queue = queue := by
      simp only [Tables.isReadyFor, decide_eq_true_eq] at hready
      exact hready.1
    rw [hj, Option.some.injEq] at hvalue
    rw [hreply, leaseReply, ← hvalue, hmessage] at hgranted
    simp only [Reply.granted, Option.some.injEq, Prod.mk.injEq] at hgranted
    exact ⟨m, hm, hdescribes.queue.symm.trans hqueue, hgranted.1 ▸ hcontent⟩

end YirangMQ.SQLite

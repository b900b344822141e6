import YirangMQ.Hybrid.Lifecycle
import YirangMQ.Sql.Columns

namespace YirangMQ.Hybrid

/-!
# The Hybrid store keeps the envelopes of its messages

* `Carries` — a row and its value carry the envelope of a published message, whose payload is
  in a file of its own;
* `Effect.carried` — **every performed call keeps them so**;
* `content_kept` — after every run of admitted calls, failing primitives included.
-/

variable {schema : SchemaFile} {env : Env} {t t' : Tables} {files : Payloads}
  {published : List MessageEnvelope} {m : MessageEnvelope} {r : IndexRow} {j j' : Json String}

/-- The document holds the envelope of `m`. -/
structure HasContent (m : MessageEnvelope) (j : Json String) : Prop where
  object : j.isObject = true
  messageId : j.get? "messageId" = some (.str m.messageId)
  queue : j.get? "queue" = some (.str m.queue)
  priority : j.get? "priority" = some (.int m.priority)
  createdAt : j.get? "createdAt" = some (.int m.createdAtMs)

/-- The row and its value carry the envelope of a published message. -/
def Carries (published : List MessageEnvelope) (r : IndexRow) (j : Json String) : Prop :=
  ∃ m ∈ published, r.Describes m ∧ HasContent m j

/-! ### Documents -/

theorem hasContent_envelopeJson (m : MessageEnvelope) : HasContent m (envelopeJson m) := by
  constructor <;> rfl

/-- What keeps the four fields keeps the envelope. -/
theorem HasContent.of_get? (h : HasContent m j) (hobj : j'.isObject = true)
    (hget : ∀ k ∈ ["messageId", "queue", "priority", "createdAt"], j'.get? k = j.get? k) :
    HasContent m j' where
  object := hobj
  messageId := by rw [hget _ (by simp)]; exact h.messageId
  queue := by rw [hget _ (by simp)]; exact h.queue
  priority := by rw [hget _ (by simp)]; exact h.priority
  createdAt := by rw [hget _ (by simp)]; exact h.createdAt

theorem HasContent.withDlqFields (h : HasContent m j) (reason : String) (now : Int) :
    HasContent m (withDlqFields reason now j) := by
  have hobj : (jsonSet "dlqReason" (.str reason) j).isObject = true :=
    isObject_jsonSet h.object _ _
  refine h.of_get? (isObject_jsonSet hobj _ _) fun k hk => ?_
  have hne : k ≠ "dlqAt" ∧ k ≠ "dlqReason" := by
    constructor <;> rintro rfl <;> simp at hk
  rw [Hybrid.withDlqFields, get?_jsonSet hobj, get?_jsonSet h.object, if_neg hne.1, if_neg hne.2]

theorem HasContent.withoutDlqFields (h : HasContent m j) : HasContent m (withoutDlqFields j) := by
  have hset : (jsonSet "attempt" (.int 0) j).isObject = true := isObject_jsonSet h.object _ _
  have hremoved := isObject_jsonRemove hset "dlqReason"
  refine h.of_get? (isObject_jsonRemove hremoved _) fun k hk => ?_
  have hne : k ≠ "attempt" ∧ k ≠ "dlqAt" ∧ k ≠ "dlqReason" := by
    refine ⟨?_, ?_, ?_⟩ <;> rintro rfl <;> simp at hk
  rw [Hybrid.withoutDlqFields, get?_jsonRemove hremoved, get?_jsonRemove hset,
    get?_jsonSet h.object, if_neg hne.1, if_neg hne.2.1, if_neg hne.2.2]

/-- What `lease_next` reads from a row that carries an envelope, without its payload. -/
theorem Carries.leasedEnvelope (h : Carries published r j) :
    ∃ m ∈ published, r.Describes m ∧ leasedEnvelope r (some j) =
      some { m with payloadJson := "", attributesJson := "", attempt := r.attempt + 1
                    availableAtMs := 0, targetConsumerId := "" } := by
  obtain ⟨m, hm, hdescribes, hcontent⟩ := h
  refine ⟨m, hm, hdescribes, ?_⟩
  simp [Hybrid.leasedEnvelope, Json.valueStr_of_get? _ hcontent.messageId,
    Json.valueStr_of_get? _ hcontent.queue, Json.valueInt_of_get? _ hcontent.priority,
    Json.valueInt_of_get? _ hcontent.createdAt, hdescribes.key]

/-- Reading the payload changes nothing else. -/
theorem withPayload_some {message given : MessageEnvelope} {content : Except String JsonText}
    (h : withPayload message content = some given) :
    ∃ payloadJson attributesJson, given = { message with payloadJson, attributesJson } := by
  cases content with
  | error e => exact ⟨_, _, (Option.some.inj h).symm⟩
  | ok text =>
    obtain ⟨j, -, h⟩ := Option.bind_eq_some_iff.mp h
    obtain ⟨payload, -, h⟩ := Option.bind_eq_some_iff.mp h
    obtain ⟨attributes, -, h⟩ := Option.bind_eq_some_iff.mp h
    exact ⟨payload, attributes, (Option.some.inj h).symm⟩

/-! ### Every call -/

/-- An index update that keeps the columns of messages. -/
theorem carried_updateIndex (h : t.Backed (Carries published)) {p : IndexRow → Bool}
    {f : IndexRow → IndexRow} (hf : KeepsColumns f) :
    (t.updateIndex p f).Backed (Carries published) := by
  refine h.updateIndex (fun r => (hf r).1) fun r _ j _ hcarries => ?_
  obtain ⟨m, hm, hdescribes, hcontent⟩ := hcarries
  exact ⟨m, hm, hdescribes.update hf, hcontent⟩

/-- An index update followed by an edit of a value. -/
theorem carried_editsValue (h : t.Backed (Carries published)) {key : String} {time : Int}
    {edit : Json String → Json String}
    (hedit : ∀ m j, HasContent m j → HasContent m (edit j))
    (hedits : EditsValue key time (fun j => some (edit j)) t t') :
    t'.Backed (Carries published) := by
  refine h.editsValue (fun r j j' hj hcarries => ?_) hedits
  obtain ⟨m, hm, hdescribes, hcontent⟩ := hcarries
  exact ⟨m, hm, hdescribes, Option.some.inj hj ▸ hedit m j hcontent⟩

/-- **Every performed call keeps rows and values as the messages were published.** -/
theorem Effect.carried (h : t.Backed (Carries published))
    (hformed : ∀ k ∈ t.indexKeys, ∃ queue id, k = messageKey queue id) {call : Call} {reply : Reply}
    (heffect : Effect schema env files call reply t t') :
    t'.Backed (Carries (call.publishing published)) := by
  -- Rows and values come in pairs of one key; a call adds such a pair, edits one half in a way that
  -- keeps the content, or takes both away.
  cases call with
  | enqueue message =>
    obtain ⟨-, hnew, rfl⟩ := heffect
    have hwider : t.Backed (Carries (message :: published)) := by
      refine h.weaken fun r j hcarries => ?_
      obtain ⟨m, hm, hcarried⟩ := hcarries
      exact ⟨m, List.mem_cons_of_mem _ hm, hcarried⟩
    refine hwider.insertMessage hnew rfl rfl ?_
    exact ⟨message, List.mem_cons_self, ⟨rfl, rfl, rfl, rfl⟩, hasContent_envelopeJson _⟩
  | leaseNext queue c timeout =>
    obtain ⟨row, value, content, -, -, -, -, rfl⟩ := heffect
    exact carried_updateIndex h fun _ => ⟨rfl, rfl, rfl, rfl⟩
  | ack lease =>
    obtain ⟨-, -, rfl⟩ := heffect
    rw [acked_eq]
    exact h.deleteKv _
  | nack lease reason requeue =>
    obtain ⟨-, -, heffect⟩ := heffect
    cases requeue with
    | true =>
      simp only [if_true] at heffect
      rw [heffect]
      exact carried_updateIndex h fun _ => ⟨rfl, rfl, rfl, rfl⟩
    | false =>
      simp only [Bool.false_eq_true, if_false] at heffect
      refine carried_editsValue ?_ (fun m j hj => hj.withDlqFields _ _) heffect
      exact carried_updateIndex h fun _ => ⟨rfl, rfl, rfl, rfl⟩
  | savePolicy queue policy =>
    obtain ⟨-, rfl⟩ := heffect
    refine h.upsertKv fun hmem => ?_
    obtain ⟨q, id, hkey⟩ := hformed _ hmem
    exact policyKey_ne queue q id hkey
  | extendLease lease timeout =>
    obtain ⟨-, rfl⟩ := heffect
    exact carried_updateIndex h fun _ => ⟨rfl, rfl, rfl, rfl⟩
  | recoverExpiredLeases =>
    obtain ⟨-, rfl⟩ := heffect
    exact carried_updateIndex h fun _ => ⟨rfl, rfl, rfl, rfl⟩
  | processDelayedMessages =>
    obtain ⟨-, rfl⟩ := heffect
    exact carried_updateIndex h fun _ => ⟨rfl, rfl, rfl, rfl⟩
  | delayMessage key delayMs =>
    obtain ⟨-, rfl⟩ := heffect
    exact carried_updateIndex h fun _ => ⟨rfl, rfl, rfl, rfl⟩
  | moveToDlq key reason =>
    obtain ⟨-, heffect⟩ := heffect
    refine carried_editsValue ?_ (fun m j hj => hj.withDlqFields _ _) heffect
    exact carried_updateIndex h fun _ => ⟨rfl, rfl, rfl, rfl⟩
  | reprocessDlqMessage key =>
    obtain ⟨-, -, heffect⟩ := heffect
    refine carried_editsValue ?_ (fun m j hj => hj.withoutDlqFields) heffect
    exact carried_updateIndex h fun _ => ⟨rfl, rfl, rfl, rfl⟩

/-- After every run of calls, rows and values are as the messages were published. -/
theorem content_kept {h : History Store (Env × Call) Reply} {s : Store}
    (run : Run (adapter schema).machine (lifecycle schema).Admitted h s) :
    s.data.Backed (Carries (publishedBy h)) := by
  induction run with
  | start => simp [Adapter.machine, adapter, Tables.Backed, Tables.empty]
  | @step h s i run ok ih =>
    obtain ⟨env, call⟩ := i
    have hkeeps : Keeps (publishedBy h) s := ((lifecycle schema).inv_of_run run).1
    obtain ⟨-, hperforms⟩ := @perform_performs True schema env s hkeeps.saved (.inl trivial) call
    rcases hperforms with ⟨-, hsame, -⟩ | heffect
    · refine (hsame ▸ ih : Tables.Backed _ _).weaken fun r j hcarries => ?_
      obtain ⟨m, hm, hcarried⟩ := hcarries
      exact ⟨m, call.publishing_of_mem hm, hcarried⟩
    · exact Effect.carried ih hkeeps.invariant.formed heffect

end YirangMQ.Hybrid

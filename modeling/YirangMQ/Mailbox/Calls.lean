import YirangMQ.Mailbox.Handler

namespace YirangMQ.Mailbox

/-!
# The calls requests make

* `Published` — what `handle_publish` hands to the backend;
* `Makes` — what a request makes the backend do, and `handleRequest_makes`, which says that it
  makes it do nothing else.
-/

variable {ctx : Context} {request : MailboxRequest} {call : Call}

/-- The message is one that `handle_publish` makes of a request: under the identifier generated
    for it, and valid under the schema of its queue. -/
structure Published (ctx : Context) (message : MessageEnvelope) : Prop where
  messageId : message.messageId = ctx.env.guid
  key : message.key = messageKey message.queue message.messageId
  createdAt : message.createdAtMs = ctx.env.now
  attempt : message.attempt = 0
  valid : ∃ validation,
    publishErrors ctx message = .ok validation ∧ validation.valid = true

/-- The payload of the request is an object whose string field `field` is `value`. -/
def HasField (ctx : Context) (request : MailboxRequest) (field value : String) : Prop :=
  ∃ payload, ctx.libs.parse request.payloadJson = .ok payload ∧ payload.getStr? field = some value

/-- What a request makes the backend do. -/
def Makes (ctx : Context) (request : MailboxRequest) : Call → Prop
  | .enqueue message =>
    request.command = .publish ∧ HasField ctx request "queue" message.queue ∧
      Published ctx message
  | .leaseNext queue _ _ => HasField ctx request "queue" queue
  | .ack lease | .nack lease _ _ | .extendLease lease _ =>
    HasField ctx request "messageKey" lease.messageKey
  | .reprocessDlqMessage messageKey => HasField ctx request "messageKey" messageKey
  | _ => False

/-- A handler that makes a call has read the field it needs. -/
theorem withField_call {field : String} {body : Json String → String → Except String Handling}
    (h : (withField ctx request field body).call? = some call) :
    ∃ payload value handling, ctx.libs.parse request.payloadJson = .ok payload ∧
      payload.getStr? field = some value ∧ body payload value = .ok handling ∧
      handling.call? = some call := by
  unfold withField at h
  cases hparse : ctx.libs.parse request.payloadJson with
  | error what => simp [hparse, bind, Except.bind, Handling.caught, Handling.call?] at h
  | ok payload =>
    simp only [hparse, bind, Except.bind] at h
    cases hfield : payload.getStr? field with
    | none => simp [hfield, Handling.caught, Handling.call?, pure, Except.pure] at h
    | some value =>
      simp only [hfield] at h
      cases hbody : body payload value with
      | error what => simp [hbody, Handling.caught, Handling.call?] at h
      | ok handling =>
        refine ⟨payload, value, handling, rfl, hfield, hbody, ?_⟩
        simpa [hbody, Handling.caught] using h

/-- The first step of a computation that succeeds. -/
theorem ok_of_bind {α β : Type} {x : Except String α} {f : α → Except String β} {b : β}
    (h : (x >>= f) = .ok b) : ∃ a, x = .ok a ∧ f a = .ok b := by
  cases x with
  | error e => cases h
  | ok a => exact ⟨a, rfl, h⟩

/-- A publication is made with the fields of its payload. -/
theorem handlePublish_makes (hcommand : request.command = .publish)
    (h : (handlePublish ctx request).call? = some call) : Makes ctx request call := by
  obtain ⟨payload, queue, handling, hparse, hqueue, hbody, hcall⟩ := withField_call h
  obtain ⟨envelope, henvelope, hbody⟩ := ok_of_bind hbody
  obtain ⟨validation, hvalidation, hbody⟩ := ok_of_bind hbody
  cases hvalid : validation.valid with
  | false =>
    simp only [hvalid, Bool.not_false, if_true] at hbody
    obtain rfl := Except.ok.inj hbody
    cases hcall
  | true =>
    simp only [hvalid, Bool.not_true, Bool.false_eq_true, if_false] at hbody
    obtain rfl := Except.ok.inj hbody
    obtain rfl := Option.some.inj hcall
    obtain ⟨payloadJson, -, henvelope⟩ := ok_of_bind henvelope
    obtain ⟨attributesJson, -, henvelope⟩ := ok_of_bind henvelope
    obtain ⟨priority, -, henvelope⟩ := ok_of_bind henvelope
    obtain ⟨target, -, henvelope⟩ := ok_of_bind henvelope
    obtain ⟨delayMs, -, henvelope⟩ := ok_of_bind henvelope
    obtain rfl := Except.ok.inj henvelope
    exact ⟨hcommand, ⟨payload, hparse, hqueue⟩, rfl, rfl, rfl, rfl, validation, hvalidation, hvalid⟩

/-- A lease is asked for the consumer in the payload, or the client. -/
theorem handleConsumeNext_makes (h : (handleConsumeNext ctx request).call? = some call) :
    Makes ctx request call := by
  obtain ⟨payload, queue, handling, hparse, hqueue, hbody, hcall⟩ := withField_call h
  obtain ⟨consumerId, -, hbody⟩ := ok_of_bind hbody
  obtain ⟨timeout, -, hbody⟩ := ok_of_bind hbody
  obtain rfl := Except.ok.inj hbody
  obtain rfl := Option.some.inj hcall
  exact ⟨payload, hparse, hqueue⟩

/-- The token of a request is about the key it names. -/
theorem leaseToken_key {payload : Json String} {key : String} {lease : LeaseToken}
    (h : leaseToken ctx request payload key = .ok lease) : lease.messageKey = key := by
  obtain ⟨leaseId, -, h⟩ := ok_of_bind h
  obtain ⟨consumerId, -, h⟩ := ok_of_bind h
  obtain rfl := Except.ok.inj h
  rfl

/-- An `ack` is made with the token in the payload. -/
theorem handleAck_makes (h : (handleAck ctx request).call? = some call) :
    Makes ctx request call := by
  obtain ⟨payload, key, handling, hparse, hkey, hbody, hcall⟩ := withField_call h
  obtain ⟨lease, hlease, hbody⟩ := ok_of_bind hbody
  obtain rfl := Except.ok.inj hbody
  obtain rfl := Option.some.inj hcall
  exact ⟨payload, hparse, (leaseToken_key hlease).symm ▸ hkey⟩

/-- So is a `nack`. -/
theorem handleNack_makes (h : (handleNack ctx request).call? = some call) :
    Makes ctx request call := by
  obtain ⟨payload, key, handling, hparse, hkey, hbody, hcall⟩ := withField_call h
  obtain ⟨lease, hlease, hbody⟩ := ok_of_bind hbody
  obtain ⟨reason, -, hbody⟩ := ok_of_bind hbody
  obtain ⟨requeue, -, hbody⟩ := ok_of_bind hbody
  obtain rfl := Except.ok.inj hbody
  obtain rfl := Option.some.inj hcall
  exact ⟨payload, hparse, (leaseToken_key hlease).symm ▸ hkey⟩

/-- So is an extension. -/
theorem handleExtendLease_makes (h : (handleExtendLease ctx request).call? = some call) :
    Makes ctx request call := by
  obtain ⟨payload, key, handling, hparse, hkey, hbody, hcall⟩ := withField_call h
  obtain ⟨lease, hlease, hbody⟩ := ok_of_bind hbody
  obtain ⟨timeout, -, hbody⟩ := ok_of_bind hbody
  obtain rfl := Except.ok.inj hbody
  obtain rfl := Option.some.inj hcall
  exact ⟨payload, hparse, (leaseToken_key hlease).symm ▸ hkey⟩

/-- A reprocessing is made with the key in the payload. -/
theorem handleReprocessDlq_makes (h : (handleReprocessDlq ctx request).call? = some call) :
    Makes ctx request call := by
  obtain ⟨payload, key, handling, hparse, hkey, hbody, hcall⟩ := withField_call h
  obtain rfl := Except.ok.inj hbody
  obtain rfl := Option.some.inj hcall
  exact ⟨payload, hparse, hkey⟩

/-- The two handlers that only read. -/
theorem handleStatus_call : (handleStatus ctx request).call? = none := by
  cases h : (handleStatus ctx request).call? with
  | none => rfl
  | some call =>
    obtain ⟨payload, queue, handling, -, -, hbody, hcall⟩ := withField_call h
    obtain rfl := Except.ok.inj hbody
    cases hcall

/-- Listing the dead letters changes nothing. -/
theorem handleListDlq_call : (handleListDlq ctx request).call? = none := by
  cases h : (handleListDlq ctx request).call? with
  | none => rfl
  | some call =>
    obtain ⟨payload, queue, handling, -, -, hbody, hcall⟩ := withField_call h
    obtain ⟨limit, -, hbody⟩ := ok_of_bind hbody
    obtain rfl := Except.ok.inj hbody
    cases hcall

/-- **The call of a request.** -/
theorem handleRequest_makes (h : (handleRequest ctx request).call? = some call) :
    Makes ctx request call := by
  unfold handleRequest at h
  cases hcommand : request.command with
  | publish => exact handlePublish_makes hcommand (by simpa [hcommand] using h)
  | consumeNext => exact handleConsumeNext_makes (by simpa [hcommand] using h)
  | ack => exact handleAck_makes (by simpa [hcommand] using h)
  | nack => exact handleNack_makes (by simpa [hcommand] using h)
  | extendLease => exact handleExtendLease_makes (by simpa [hcommand] using h)
  | reprocessDlq => exact handleReprocessDlq_makes (by simpa [hcommand] using h)
  | status => simp [hcommand, handleStatus_call] at h
  | listDlq => simp [hcommand, handleListDlq_call] at h
  | health | metrics | unknown =>
    simp [hcommand, handleHealth, handleMetrics, Handling.call?] at h

end YirangMQ.Mailbox

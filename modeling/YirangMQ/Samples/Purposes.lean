import YirangMQ.Mailbox.Survival
import YirangMQ.Samples.Clients

namespace YirangMQ.Samples

open Mailbox

/-!
# What a client asks for

A request goes from the command line of a client through a file and the parser of the daemon to a
handler, which makes the call of the backend.

* `Purpose`, `Invocation.purpose` — what a command line asks for;
* `Achieved` — the backend has done it;
* `received`, `parseRequest_requestJson` — the request that the daemon reads from the file;
* `Conveys`, `handleRequest_conveys` — **its handler does what the command line asks for, and
  answers success exactly when the backend has done it.**
-/

/-! ### What a command asks for -/

/-- What is asked of the daemon: a call, a report on a queue, a list of dead letters, or an answer
    that needs no backend. -/
inductive Purpose where
  | call (call : Call)
  | metrics (queue : String)
  | listDlq (queue : String) (limit : Int)
  | answer
  deriving DecidableEq

/-- The token named on a command line. -/
def leaseOf (args : ArgumentParser) (config : ConsumerConfigurations) : LeaseToken where
  leaseId := (args.toString "--lease-id").getD ""
  messageKey := (args.toString "--message-key").getD ""
  consumerId := config.consumerId
  leaseUntilMs := 0

/-- The message named on a command line. -/
def messageOf (args : ArgumentParser) (config : PublisherConfigurations) (env : Env) :
    MessageEnvelope where
  key := messageKey config.defaultQueue env.guid
  messageId := env.guid
  queue := config.defaultQueue
  payloadJson := (args.toString "--message").getD ""
  attributesJson := "{}"
  priority := config.defaultPriority
  createdAtMs := env.now
  availableAtMs := env.now + (args.toInt "--delay").getD 0
  targetConsumerId := config.defaultTarget

/-- What a command line asks for; `env` is what surrounds its handling. -/
def Invocation.purpose (args : ArgumentParser) (env : Env) : Invocation → Purpose
  | publish config => .call (.enqueue (messageOf args config env))
  | status config => .metrics config.defaultQueue
  | health _ | metrics _ => .answer
  | consume config =>
    .call (.leaseNext config.defaultQueue config.consumerId config.visibilityTimeoutSec)
  | ack config => .call (.ack (leaseOf args config))
  | nack config => .call (.nack (leaseOf args config) ((args.toString "--reason").getD "")
      (args.toString "--requeue").isSome)
  | extendLease config => .call (.extendLease (leaseOf args config)
      ((args.toInt "--visibility").getD config.visibilityTimeoutSec))
  | listDlq config => .listDlq config.defaultQueue ((args.toInt "--limit").getD 100)
  | reprocess _ => .call (.reprocessDlqMessage ((args.toString "--message-key").getD ""))

/-- What a handler does. -/
def purposeOf : Handling → Purpose
  | .respond _ => .answer
  | .status call _ => .call call
  | .lease queue consumerId timeout _ => .call (.leaseNext queue consumerId timeout)
  | .metrics queue _ => .metrics queue
  | .listDlq queue limit _ => .listDlq queue limit

/-- The backend has done what it was asked for; an empty queue is no failure. -/
def Achieved (answers : Answers) : Purpose → Prop
  | .call (.leaseNext _ _ _) => answers.lease.leased = true ∨ answers.lease.error = none
  | .call _ => answers.status = .ok ()
  | .metrics _ => answers.metrics.2 = none
  | .listDlq _ _ => answers.listDlq.2 = none
  | .answer => True

/-- What the backend answers, and the policies, are texts that can be written. -/
structure Encoded (ctx : Context) (answers : Answers) : Prop where
  lease : (leaseData answers.lease).WellEncoded
  listDlq : ∀ queue, IsUtf8 queue → (dlqData queue answers.listDlq.1).WellEncoded
  policies : ∀ queue policy, ctx.policies queue = some policy → policy.toJson.WellEncoded

/-- The number fits into 32 bits. -/
def IsInt32 (n : Int) : Prop := -2 ^ 31 ≤ n ∧ n < 2 ^ 31

/-- The numbers of the configuration are `int32_t`. -/
def Invocation.Fits : Invocation → Prop
  | publish config => IsInt32 config.defaultPriority
  | consume config | extendLease config => IsInt32 config.visibilityTimeoutSec
  | _ => True

/-! ### The request in the daemon -/

/-- A document is read back as it was written. -/
def ReadsBack (libs : JsonLibrary) (j : Json String) : Prop :=
  ∀ text, libs.dump j = .ok text → libs.parse text = .ok j

/-- The payload of a request as the daemon keeps it. -/
def payloadText (libs : JsonLibrary) : Json String → String
  | .obj fields => (libs.dump (.obj fields)).toOption.getD "{}"
  | _ => "{}"

/-- The request that the daemon reads. -/
def received (libs : JsonLibrary) (sending : Sending) (clientId : String) (timeoutMs : Int)
    (request : ClientRequest) : MailboxRequest where
  requestId := sending.requestId
  clientId := clientId
  command := parseCommand request.command
  timestampMs := sending.now
  deadlineMs := sending.now + timeoutMs
  payloadJson := payloadText libs request.payload

section Received

variable {libs : Libraries} {sending : Sending} {clientId : String} {timeoutMs : Int}
  {request : ClientRequest}

/-- The handler takes the payload out of the request as the client put it in. -/
theorem requestPayload_requestJson (hlib : libs.Lawful) (hpayload : request.payload.WellEncoded) :
    requestPayload libs (requestJson sending clientId timeoutMs request) =
      .ok (payloadText libs.toJsonLibrary request.payload) := by
  obtain ⟨text, htext⟩ := hlib.written _ hpayload
  have hget : (requestJson sending clientId timeoutMs request).get? "payload" =
      some request.payload := rfl
  rw [requestPayload, hget]
  cases hj : request.payload with
  | obj fields =>
    rw [hj] at htext
    show libs.dump (.obj fields) = _
    rw [payloadText, htext]
    rfl
  | _ => rfl

/-- **The daemon reads the request that was written.** -/
theorem parseRequest_requestJson (hlib : libs.Lawful) (hpayload : request.payload.WellEncoded)
    {text : String}
    (hparse : libs.parse text = .ok (requestJson sending clientId timeoutMs request)) :
    parseRequest libs text =
      .ok (received libs.toJsonLibrary sending clientId timeoutMs request) := by
  have hfields : requestFields libs (requestJson sending clientId timeoutMs request)
      sending.requestId clientId request.command =
        .ok (received libs.toJsonLibrary sending clientId timeoutMs request) := by
    unfold requestFields
    rw [requestPayload_requestJson hlib hpayload]
    rfl
  have hid : (requestJson sending clientId timeoutMs request).getStr? "requestId" =
      some sending.requestId := rfl
  have hclient : (requestJson sending clientId timeoutMs request).getStr? "clientId" =
      some clientId := rfl
  have hcommand : (requestJson sending clientId timeoutMs request).getStr? "command" =
      some request.command := rfl
  rw [parseRequest, hparse]
  simp only [hid, hclient, hcommand, hfields]

/-- The daemon reads the payload that was written. -/
theorem parse_payloadText (hlib : libs.Lawful) (hpayload : request.payload.WellEncoded)
    (hreads : ReadsBack libs.toJsonLibrary request.payload)
    (hobj : request.payload.isObject = true) :
    libs.parse (payloadText libs.toJsonLibrary request.payload) = .ok request.payload := by
  obtain ⟨text, htext⟩ := hlib.written _ hpayload
  cases hj : request.payload with
  | obj fields =>
    rw [hj] at htext hreads
    show libs.parse ((libs.dump (.obj fields)).toOption.getD "{}") = _
    rw [htext]
    exact hreads text htext
  | _ =>
    rw [hj] at hobj
    cases hobj

end Received

/-! ### The handlers -/

section Handlers

variable {ctx : Context} {answers : Answers} {request : MailboxRequest} {handling : Handling}
  {purpose : Purpose}

/-- The handler serves the purpose: it does what is asked, and answers success when that is done. -/
structure Conveys (answers : Answers) (request : MailboxRequest) (handling : Handling)
    (purpose : Purpose) : Prop where
  does : purposeOf handling = purpose
  fine : Fine request answers handling
  ok : (handling.answerWith answers).ok = true ↔ Achieved answers purpose

/-- The handler of a payload with the field it needs. -/
theorem withField_eq {field value : String} {payload : Json String}
    {body : Json String → String → Except String Handling}
    (hparse : ctx.libs.parse request.payloadJson = .ok payload)
    (hfield : payload.getStr? field = some value) (hbody : body payload value = .ok handling) :
    withField ctx request field body = handling := by
  unfold withField
  rw [hparse]
  dsimp only [bind, Except.bind]
  rw [hfield]
  dsimp only
  rw [hbody]
  rfl

/-- A handler that needs a field goes on with it where the payload has it. -/
theorem withField_conveys {field value : String} {payload : Json String}
    {body : Json String → String → Except String Handling}
    (hparse : ctx.libs.parse request.payloadJson = .ok payload)
    (hfield : payload.getStr? field = some value) (hbody : body payload value = .ok handling)
    (hconveys : Conveys answers request handling purpose) :
    Conveys answers request (withField ctx request field body) purpose := by
  rw [withField_eq hparse hfield hbody]
  exact hconveys

/-- A handler that has its data tells a success. -/
theorem successWith_ok {libs : Libraries} (hlib : libs.Lawful) {data : Json String}
    (hdata : data.WellEncoded) : (successWith libs request data).ok = true := by
  obtain ⟨text, htext⟩ := hlib.written data hdata
  rw [successWith, htext]
  rfl

/-- What `handle_consume_next` answers. -/
def leaseAnswer (libs : Libraries) (request : MailboxRequest) (result : LeaseResult) :
    MailboxResponse :=
  if result.leased then successWith libs request (leaseData result)
  else
    match result.error with
    | some e => buildErrorResponse request.requestId MailboxErrorCode.internalError e
    | none => successWith libs request (.obj [("message", .null)])

/-- What `handle_list_dlq` answers. -/
def dlqAnswer (libs : Libraries) (request : MailboxRequest) (queue : String)
    (listing : List Mailbox.DlqMessageInfo × Option String) : MailboxResponse :=
  match listing.2 with
  | some e => buildErrorResponse request.requestId MailboxErrorCode.internalError e
  | none => successWith libs request (dlqData queue listing.1)

/-- A handler that makes a call and answers with its status. -/
theorem conveys_status {call : Call} {code default : String} {success : MailboxResponse}
    (hcall : ∀ queue consumerId timeout, call ≠ .leaseNext queue consumerId timeout)
    (hcode : IsUtf8 code) (hdefault : IsUtf8 default) (hsane : Sane request success)
    (hok : success.ok = true) :
    Conveys answers request (.status call (statusAnswer request code default success))
      (.call call) where
  does := rfl
  fine := fine_status hcode hdefault ⟨hsane, .inl hok⟩
  ok := by
    have hachieved : Achieved answers (.call call) ↔ answers.status = .ok () := by
      cases call with
      | leaseNext queue consumerId timeout => exact absurd rfl (hcall queue consumerId timeout)
      | _ => exact Iff.rfl
    rw [hachieved]
    show (statusAnswer request code default success answers.status).ok = true ↔ _
    rcases answers.status with e | ⟨⟩
    · exact ⟨fun h => (nomatch h), fun h => (nomatch h)⟩
    · exact ⟨fun _ => rfl, fun _ => hok⟩

/-- A handler that answers a call about a lease. -/
theorem conveys_settled {call : Call} (default : String)
    (hcall : ∀ queue consumerId timeout, call ≠ .leaseNext queue consumerId timeout)
    (hdefault : IsUtf8 default) :
    Conveys answers request (.status call (statusAnswer request MailboxErrorCode.internalError
      default (buildSuccessResponse request.requestId "{}"))) (.call call) :=
  conveys_status hcall (by decide) hdefault (sane_success _) rfl

/-- An answer that is a report, or the error of one. -/
theorem report_ok_iff {α : Type} {answer : α × Option String → MailboxResponse}
    (herror : ∀ a e, answer (a, some e) =
      buildErrorResponse request.requestId MailboxErrorCode.internalError e)
    (result : α × Option String) (hok : (answer (result.1, none)).ok = true) :
    (answer result).ok = true ↔ result.2 = none := by
  obtain ⟨a, _ | e⟩ := result
  · exact ⟨fun _ => rfl, fun _ => hok⟩
  · rw [herror]
    exact ⟨fun h => (nomatch h), fun h => (nomatch h)⟩

/-- A request for metrics conveys them where both outcomes answer as they should. -/
theorem conveys_metrics {queue : String} {answer : QueueMetrics × Option String → MailboxResponse}
    (herror : ∀ a e, answer (a, some e) =
      buildErrorResponse request.requestId MailboxErrorCode.internalError e)
    (hnone : ∀ a, Sane request (answer (a, none)) ∧ Speaks (answer (a, none)))
    (hok : (answer (answers.metrics.1, none)).ok = true) :
    Conveys answers request (.metrics queue answer) (.metrics queue) :=
  ⟨rfl, fine_metrics herror hnone, report_ok_iff herror answers.metrics hok⟩

/-- So does a request for the dead letters. -/
theorem conveys_listDlq {queue : String} {limit : Int}
    {answer : List Mailbox.DlqMessageInfo × Option String → MailboxResponse}
    (herror : ∀ a e, answer (a, some e) =
      buildErrorResponse request.requestId MailboxErrorCode.internalError e)
    (hnone : ∀ a, Sane request (answer (a, none)) ∧ Speaks (answer (a, none)))
    (hok : (answer (answers.listDlq.1, none)).ok = true) :
    Conveys answers request (.listDlq queue limit answer) (.listDlq queue limit) :=
  ⟨rfl, fine_listDlq herror hnone, report_ok_iff herror answers.listDlq hok⟩

/-- The handler of a lease. -/
theorem conveys_lease {queue consumerId : String} {timeout : Int}
    {answer : LeaseResult → MailboxResponse} (hfine : Fine request answers
      (.lease queue consumerId timeout answer))
    (hleased : answers.lease.leased = true → (answer answers.lease).ok = true)
    (herror : ∀ e, answers.lease.leased = false → answers.lease.error = some e →
      answer answers.lease = buildErrorResponse request.requestId MailboxErrorCode.internalError e)
    (hnone : answers.lease.leased = false → answers.lease.error = none →
      (answer answers.lease).ok = true) :
    Conveys answers request (.lease queue consumerId timeout answer)
      (.call (.leaseNext queue consumerId timeout)) where
  does := rfl
  fine := hfine
  ok := by
    show (answer answers.lease).ok = true ↔
      answers.lease.leased = true ∨ answers.lease.error = none
    cases hl : answers.lease.leased with
    | true => exact ⟨fun _ => .inl rfl, fun _ => hleased hl⟩
    | false =>
      cases he : answers.lease.error with
      | none => exact ⟨fun _ => .inr rfl, fun _ => hnone hl he⟩
      | some e =>
        rw [herror e hl he]
        constructor
        · intro h
          cases h
        · rintro (h | h)
          · cases h
          · cases h

/-- A number that fits is read as it was written. -/
theorem valueInt32_of_fits {libs : Libraries} {j : Json String} {k : String} {n d : Int}
    (hget : j.get? k = some (.int n)) (hfits : IsInt32 n) : libs.valueInt32 j k d = .ok n := by
  have hcut : (BitVec.ofInt 32 n).toInt = n := by
    obtain ⟨hlow, hhigh⟩ := hfits
    rw [BitVec.toInt_ofInt]
    exact Int.bmod_eq_of_le (by omega) (by omega)
  have hvalue : libs.valueInt j k d = .ok n := by
    rw [JsonLibrary.valueInt, Json.valueInt_of_get? d hget]
  rw [JsonLibrary.valueInt32, hget, hvalue]
  exact congrArg Except.ok hcut

/-- A number of the command line fits. -/
theorem isInt32_toInt {args : ArgumentParser} {key : String} {n : Int}
    (h : args.toInt key = some n) : IsInt32 n := by
  obtain ⟨text, -, rfl⟩ := Option.map_eq_some_iff.mp h
  constructor
  · have := @Int.le_bmod (ArgumentParser.strtol text.toList) (2 ^ 32) (by decide)
    omega
  · have := @Int.bmod_lt (ArgumentParser.strtol text.toList) (2 ^ 32) (by decide)
    omega

/-- A text in a document is read as it is. -/
theorem valueStr_of_str {libs : Libraries} {j : Json String} {k v d : String}
    (hget : j.get? k = some (.str v)) : libs.valueStr j k d = .ok v := by
  rw [JsonLibrary.valueStr, Json.valueStr_of_get? d hget]

/-- A field that is not there has its default. -/
theorem valueStr_of_none {libs : Libraries} {fields : List (String × Json String)} {k d : String}
    (hget : fields.lookup k = none) : libs.valueStr (.obj fields) k d = .ok d := by
  rw [JsonLibrary.valueStr, Json.valueStr, hget]

end Handlers

/-- The message that the daemon makes of the payload of a publication. -/
theorem publishedEnvelope_publishPayload {ctx : Context} {args : ArgumentParser}
    {config : PublisherConfigurations} {message : String}
    (hmessage : args.toString "--message" = some message)
    (hfits : IsInt32 config.defaultPriority) :
    publishedEnvelope ctx (publishPayload config message ((args.toInt "--delay").getD 0))
      config.defaultQueue = .ok (messageOf args config ctx.env) := by
  -- The daemon reads six fields; the client wrote four of them, and the others get their defaults.
  have hattributes : ctx.libs.valueStr
      (publishPayload config message ((args.toInt "--delay").getD 0)) "attributes" "{}" =
        .ok "{}" := by
    apply valueStr_of_none
    split
    · rfl
    · rfl
  have htarget : ctx.libs.valueStr
      (publishPayload config message ((args.toInt "--delay").getD 0)) "targetConsumerId" "" =
        .ok config.defaultTarget := by
    by_cases hempty : config.defaultTarget = ""
    · rw [hempty]
      apply valueStr_of_none
      rw [if_pos hempty]
      rfl
    · apply valueStr_of_str
      show List.lookup _ (_ ++ if config.defaultTarget = "" then _ else _) = _
      rw [if_neg hempty]
      rfl
  have hpriority : ctx.libs.valueInt32
      (publishPayload config message ((args.toInt "--delay").getD 0)) "priority" 0 =
        .ok config.defaultPriority := valueInt32_of_fits rfl hfits
  have hdelay : ctx.libs.valueInt
      (publishPayload config message ((args.toInt "--delay").getD 0)) "delayMs" 0 =
        .ok ((args.toInt "--delay").getD 0) := rfl
  unfold publishedEnvelope
  rw [valueStr_of_str (v := message) rfl, hattributes, hpriority, htarget, hdelay, messageOf,
    hmessage]
  rfl

/-- The token that the daemon makes of the payload about a lease. -/
theorem leaseToken_leasePayload {ctx : Context} {request : MailboxRequest}
    {args : ArgumentParser} {config : ConsumerConfigurations} {messageKey : String}
    {rest : List (String × Json String)} (hkey : args.toString "--message-key" = some messageKey)
    (hrest : rest.lookup "leaseId" = none) :
    leaseToken ctx request (leasePayload config.consumerId (args.toString "--lease-id") messageKey
      rest) messageKey = .ok (leaseOf args config) := by
  have hlease : ctx.libs.valueStr (leasePayload config.consumerId (args.toString "--lease-id")
      messageKey rest) "leaseId" "" = .ok ((args.toString "--lease-id").getD "") := by
    cases hid : args.toString "--lease-id" with
    | none =>
      apply valueStr_of_none
      exact hrest
    | some id => exact valueStr_of_str rfl
  have hconsumer : ctx.libs.valueStr (leasePayload config.consumerId (args.toString "--lease-id")
      messageKey rest) "consumerId" request.clientId = .ok config.consumerId :=
    valueStr_of_str rfl
  rw [leaseToken, hlease, hconsumer, leaseOf, hkey]
  rfl

/-- The key that the daemon reads in it. -/
theorem getStr?_leasePayload {consumerId : String} {leaseId : Option String} {messageKey : String}
    {rest : List (String × Json String)} :
    (leasePayload consumerId leaseId messageKey rest).getStr? "messageKey" = some messageKey := by
  cases leaseId with
  | none => rfl
  | some id => rfl

/-- The fields after them. -/
theorem get?_leasePayload {consumerId : String} {leaseId : Option String} {messageKey key : String}
    {rest : List (String × Json String)} (hconsumer : key ≠ "consumerId") (hlease : key ≠ "leaseId")
    (hkey : key ≠ "messageKey") :
    (leasePayload consumerId leaseId messageKey rest).get? key = rest.lookup key := by
  have hskip : ∀ (name : String) (value : Json String) fields, key ≠ name →
      List.lookup key ((name, value) :: fields) = fields.lookup key := by
    intro name value fields hne
    rw [List.lookup_cons, beq_false_of_ne hne]
  rw [leasePayload, Json.get?, hskip _ _ _ hconsumer]
  cases leaseId with
  | none => exact hskip _ _ _ hkey
  | some id =>
    show List.lookup key (("leaseId", Json.str id) :: ("messageKey", Json.str messageKey) :: rest) =
      rest.lookup key
    rw [hskip _ _ _ hlease, hskip _ _ _ hkey]

/-- What a command about a lease sends. -/
theorem leaseFields_sent {args : ArgumentParser} {config : ConsumerConfigurations}
    {command : String} {rest : List (String × Json String)} {sent : ClientRequest}
    (h : (leaseFields args config rest).map (ClientRequest.mk command) = .ok sent) :
    ∃ messageKey, args.toString "--message-key" = some messageKey ∧
      sent = ⟨command, leasePayload config.consumerId (args.toString "--lease-id") messageKey
        rest⟩ := by
  unfold leaseFields at h
  cases hkey : args.toString "--message-key" with
  | none =>
    rw [hkey] at h
    cases h
  | some messageKey =>
    rw [hkey] at h
    exact ⟨messageKey, rfl, (Except.ok.inj h).symm⟩

section Commands

variable {ctx : Context} {answers : Answers} {request : MailboxRequest} {args : ArgumentParser}
  {sent : ClientRequest} (hparse : ctx.libs.parse request.payloadJson = .ok sent.payload)

include hparse

/-- The handler of `ack` makes its call. -/
theorem handleAck_eq {config : ConsumerConfigurations} (hsent : cmdAck args config = .ok sent) :
    handleAck ctx request = .status (.ack (leaseOf args config))
      (statusAnswer request MailboxErrorCode.internalError "ack failed"
        (buildSuccessResponse request.requestId "{}")) := by
  obtain ⟨messageKey, hkey, rfl⟩ := leaseFields_sent hsent
  refine withField_eq hparse getStr?_leasePayload ?_
  rw [leaseToken_leasePayload hkey rfl]
  rfl

/-- What the client says of a lease reaches the backend as its `ack`. -/
theorem ack_conveys {config : ConsumerConfigurations} (hsent : cmdAck args config = .ok sent) :
    Conveys answers request (handleAck ctx request) (.call (.ack (leaseOf args config))) := by
  rw [handleAck_eq hparse hsent]
  exact conveys_settled "ack failed" (by simp) (by decide)

/-- So does a `nack`, with its reason and whether to requeue. -/
theorem nack_conveys {config : ConsumerConfigurations} (hsent : cmdNack args config = .ok sent) :
    Conveys answers request (handleNack ctx request) (.call (.nack (leaseOf args config)
      ((args.toString "--reason").getD "") (args.toString "--requeue").isSome)) := by
  obtain ⟨messageKey, hkey, rfl⟩ := leaseFields_sent hsent
  have hreason : ctx.libs.valueStr (leasePayload config.consumerId (args.toString "--lease-id")
      messageKey [("reason", .str ((args.toString "--reason").getD "")),
        ("requeue", .bool (args.toString "--requeue").isSome)]) "reason" "" =
      .ok ((args.toString "--reason").getD "") :=
    valueStr_of_str (get?_leasePayload (by decide) (by decide) (by decide))
  have hrequeue : ctx.libs.valueBool (leasePayload config.consumerId (args.toString "--lease-id")
      messageKey [("reason", .str ((args.toString "--reason").getD "")),
        ("requeue", .bool (args.toString "--requeue").isSome)]) "requeue" false =
      .ok (args.toString "--requeue").isSome := by
    rw [JsonLibrary.valueBool, get?_leasePayload (by decide) (by decide) (by decide)]
    rfl
  refine withField_conveys hparse getStr?_leasePayload ?_ (conveys_settled "nack failed"
    (by simp) (by decide))
  rw [leaseToken_leasePayload hkey rfl, hreason, hrequeue]
  rfl

/-- So does an `extend_lease`, with its timeout. -/
theorem extendLease_conveys {config : ConsumerConfigurations}
    (hsent : cmdExtendLease args config = .ok sent) (hfits : IsInt32 config.visibilityTimeoutSec) :
    Conveys answers request (handleExtendLease ctx request) (.call (.extendLease
      (leaseOf args config) ((args.toInt "--visibility").getD config.visibilityTimeoutSec))) := by
  obtain ⟨messageKey, hkey, rfl⟩ := leaseFields_sent hsent
  have hseconds : IsInt32 ((args.toInt "--visibility").getD config.visibilityTimeoutSec) := by
    cases hgiven : args.toInt "--visibility" with
    | none => exact hfits
    | some seconds => exact isInt32_toInt hgiven
  have htimeout : ctx.libs.valueInt32 (leasePayload config.consumerId (args.toString "--lease-id")
      messageKey [("visibilityTimeoutSec",
        .int ((args.toInt "--visibility").getD config.visibilityTimeoutSec))])
      "visibilityTimeoutSec" 30 =
      .ok ((args.toInt "--visibility").getD config.visibilityTimeoutSec) :=
    valueInt32_of_fits (get?_leasePayload (by decide) (by decide) (by decide)) hseconds
  refine withField_conveys hparse getStr?_leasePayload ?_ (conveys_settled
    "extend_lease failed" (by simp) (by decide))
  rw [leaseToken_leasePayload hkey rfl, htimeout]
  rfl

variable (hlib : ctx.libs.Lawful)

include hlib

/-- What the client publishes reaches the backend under the handler's identifier and clock. -/
theorem publish_conveys {config : PublisherConfigurations}
    (hsent : cmdPublish args config = .ok sent) (hfits : IsInt32 config.defaultPriority)
    (hqueue : IsUtf8 config.defaultQueue) (hguid : IsUtf8 ctx.env.guid)
    (hvalid : ∃ validation, publishErrors ctx (messageOf args config ctx.env) = .ok validation ∧
      validation.valid = true) :
    Conveys answers request (handlePublish ctx request)
      (.call (.enqueue (messageOf args config ctx.env))) := by
  -- The client refuses to send without a message; what it sends otherwise is read back field by
  -- field.
  unfold cmdPublish at hsent
  split at hsent
  case isTrue => cases hsent
  case isFalse =>
    cases hmessage : args.toString "--message" with
    | none =>
      rw [hmessage] at hsent
      cases hsent
    | some message =>
      rw [hmessage] at hsent
      obtain rfl := Except.ok.inj hsent
      have henvelope : publishedEnvelope ctx (publishPayload config message
          ((args.toInt "--delay").getD 0)) config.defaultQueue =
            .ok (messageOf args config ctx.env) :=
        publishedEnvelope_publishPayload hmessage hfits
      -- The message passes its schema, so the daemon goes on to the backend.
      obtain ⟨validation, hvalidation, hok⟩ := hvalid
      have hfield : (publishPayload config message ((args.toInt "--delay").getD 0)).getStr?
          "queue" = some config.defaultQueue := rfl
      have hkey : IsUtf8 (messageKey config.defaultQueue ctx.env.guid) := by
        rw [messageKey, String.append_assoc, String.append_assoc, isUtf8_append (by decide),
          isUtf8_append hqueue, isUtf8_append (by decide)]
        exact hguid
      have hdata : Json.WellEncoded (.obj [("messageId", .str ctx.env.guid),
          ("messageKey", .str (messageKey config.defaultQueue ctx.env.guid))]) := by
        simp only [Json.wellEncoded_cons, Json.wellEncoded_str, Json.wellEncoded_empty, and_true]
        exact ⟨by decide, hguid, by decide, hkey⟩
      have hconveys : Conveys answers request (.status (.enqueue (messageOf args config ctx.env))
          (statusAnswer request MailboxErrorCode.internalError "enqueue failed"
            (successWith ctx.libs request (.obj [("messageId", .str ctx.env.guid),
              ("messageKey", .str (messageKey config.defaultQueue ctx.env.guid))]))))
          (.call (.enqueue (messageOf args config ctx.env))) :=
        conveys_status (by simp) (by decide) (by decide) (successWith_speaks hlib _).1
          (successWith_ok hlib hdata)
      refine withField_conveys hparse hfield ?_ hconveys
      -- Both steps before the call succeed.
      rw [henvelope]
      show (do
        let validation ← publishErrors ctx (messageOf args config ctx.env)
        _ : Except String Handling) = _
      rw [hvalidation]
      show (if !validation.valid then _ else _) = _
      rw [hok]
      rfl

/-- A request for the status asks for the metrics of the client's queue. -/
theorem status_conveys {config : PublisherConfigurations} (hencoded : Encoded ctx answers)
    (hsent : cmdStatus config = .ok sent) (hqueue : IsUtf8 config.defaultQueue) :
    Conveys answers request (handleStatus ctx request) (.metrics config.defaultQueue) := by
  unfold cmdStatus at hsent
  split at hsent
  case isTrue => cases hsent
  case isFalse =>
    obtain rfl := Except.ok.inj hsent
    have hfield : Json.getStr? (.obj [("queue", .str config.defaultQueue)]) "queue" =
      some config.defaultQueue := rfl
    refine withField_conveys hparse hfield rfl ?_
    refine conveys_metrics (fun _ _ => rfl) (fun _ => successWith_speaks hlib _) ?_
    apply successWith_ok hlib
    unfold statusData
    cases hpolicy : ctx.policies config.defaultQueue with
    | none =>
      simp only [Option.map_none, Option.toList_none, List.append_nil, Json.wellEncoded_cons,
        Json.wellEncoded_str, Json.wellEncoded_int, Json.wellEncoded_empty, and_true, hqueue]
      decide
    | some policy =>
      have hencodedPolicy := hencoded.policies _ _ hpolicy
      simp only [Option.map_some, Option.toList_some, List.cons_append, List.nil_append,
        Json.wellEncoded_cons, Json.wellEncoded_str, Json.wellEncoded_int,
        Json.wellEncoded_empty, and_true, hqueue, hencodedPolicy]
      decide

/-- A request for the next message asks for it in the name of the client. -/
theorem consume_conveys {config : ConsumerConfigurations} (hencoded : Encoded ctx answers)
    (hsent : cmdConsume config = .ok sent) (hfits : IsInt32 config.visibilityTimeoutSec) :
    Conveys answers request (handleConsumeNext ctx request)
      (.call (.leaseNext config.defaultQueue config.consumerId config.visibilityTimeoutSec)) := by
  unfold cmdConsume at hsent
  split at hsent
  case isTrue => cases hsent
  case isFalse =>
    obtain rfl := Except.ok.inj hsent
    have hfield : Json.getStr? (.obj [("consumerId", .str config.consumerId),
        ("queue", .str config.defaultQueue),
        ("visibilityTimeoutSec", .int config.visibilityTimeoutSec)]) "queue" =
      some config.defaultQueue := rfl
    have htimeout : ctx.libs.valueInt32 (.obj [("consumerId", .str config.consumerId),
        ("queue", .str config.defaultQueue),
        ("visibilityTimeoutSec", .int config.visibilityTimeoutSec)]) "visibilityTimeoutSec" 30 =
      .ok config.visibilityTimeoutSec := valueInt32_of_fits rfl hfits
    -- The three answers of `lease_next`: a lease, an error, and no message.
    have hconveys : Conveys answers request (.lease config.defaultQueue config.consumerId
        config.visibilityTimeoutSec (leaseAnswer ctx.libs request))
        (.call (.leaseNext config.defaultQueue config.consumerId
          config.visibilityTimeoutSec)) := by
      refine conveys_lease (fine_lease ?_ ?_ ?_) ?_ ?_ ?_
      · intro r hr
        rw [leaseAnswer, if_pos hr]
        exact successWith_speaks hlib _
      · intro r e hr he
        rw [leaseAnswer, if_neg (Bool.eq_false_iff.mp hr), he]
      · intro r hr hnone
        rw [leaseAnswer, if_neg (Bool.eq_false_iff.mp hr), hnone]
        exact successWith_speaks hlib _
      · intro hr
        rw [leaseAnswer, if_pos hr]
        exact successWith_ok hlib hencoded.lease
      · intro e hr he
        rw [leaseAnswer, if_neg (Bool.eq_false_iff.mp hr), he]
      · intro hr hnone
        rw [leaseAnswer, if_neg (Bool.eq_false_iff.mp hr), hnone]
        exact successWith_ok hlib (by decide)
    refine withField_conveys hparse hfield ?_ hconveys
    rw [valueStr_of_str (v := config.consumerId) rfl, htimeout]
    rfl

/-- A request for the dead letters asks for those of the client's queue. -/
theorem listDlq_conveys {config : ConsumerConfigurations} (hencoded : Encoded ctx answers)
    (hsent : cmdListDlq args config = .ok sent) (hqueue : IsUtf8 config.defaultQueue) :
    Conveys answers request (handleListDlq ctx request)
      (.listDlq config.defaultQueue ((args.toInt "--limit").getD 100)) := by
  unfold cmdListDlq at hsent
  split at hsent
  case isTrue => cases hsent
  case isFalse =>
    obtain rfl := Except.ok.inj hsent
    have hfield : Json.getStr? (.obj [("limit", .int ((args.toInt "--limit").getD 100)),
      ("queue", .str config.defaultQueue)]) "queue" = some config.defaultQueue := rfl
    have hlimit : IsInt32 ((args.toInt "--limit").getD 100) := by
      cases hgiven : args.toInt "--limit" with
      | none => exact ⟨by decide, by decide⟩
      | some limit => exact isInt32_toInt hgiven
    have hconveys : Conveys answers request (.listDlq config.defaultQueue
        ((args.toInt "--limit").getD 100) (dlqAnswer ctx.libs request config.defaultQueue))
        (.listDlq config.defaultQueue ((args.toInt "--limit").getD 100)) :=
      conveys_listDlq (fun _ _ => rfl) (fun _ => successWith_speaks hlib _)
        (successWith_ok hlib (hencoded.listDlq _ hqueue))
    refine withField_conveys hparse hfield ?_ hconveys
    rw [valueInt32_of_fits rfl hlimit]
    rfl

/-- A request to reprocess names the key. -/
theorem reprocess_conveys (hsent : cmdReprocess args = .ok sent) (hutf : sent.payload.WellEncoded) :
    Conveys answers request (handleReprocessDlq ctx request)
      (.call (.reprocessDlqMessage ((args.toString "--message-key").getD ""))) := by
  unfold cmdReprocess at hsent
  cases hkey : args.toString "--message-key" with
  | none =>
    rw [hkey] at hsent
    cases hsent
  | some messageKey =>
    rw [hkey] at hsent
    obtain rfl := Except.ok.inj hsent
    have hfield : Json.getStr? (.obj [("messageKey", .str messageKey)]) "messageKey" =
      some messageKey := rfl
    have hmessageKey : IsUtf8 messageKey := by
      simp only [Json.wellEncoded_cons, Json.wellEncoded_str] at hutf
      exact hutf.2.1
    have hdata : Json.WellEncoded
        (.obj [("messageKey", .str messageKey), ("reprocessed", .bool true)]) := by
      simp only [Json.wellEncoded_cons, Json.wellEncoded_str, Json.wellEncoded_bool,
        Json.wellEncoded_empty, and_true, hmessageKey]
      decide
    exact withField_conveys hparse hfield rfl (conveys_status (by simp) (by decide) (by decide)
      (successWith_speaks hlib _).1 (successWith_ok hlib hdata))

end Commands

/-- A handler that answers at once. -/
theorem answer_conveys {ctx : Context} {answers : Answers} {request : MailboxRequest}
    {data : Json String} (hlib : ctx.libs.Lawful) (hdata : data.WellEncoded) :
    Conveys answers request (.respond (successWith ctx.libs request data)) .answer where
  does := rfl
  fine := fine_respond (successWith_speaks hlib data)
  ok := iff_of_true (successWith_ok hlib hdata) trivial

/-- The message of a publication passes the schema of its queue. -/
def Invocation.Accepted (ctx : Context) (args : ArgumentParser) : Invocation → Prop
  | publish config => ∃ validation,
      publishErrors ctx (messageOf args config ctx.env) = .ok validation ∧ validation.valid = true
  | _ => True

/-- The daemon can read what a command line sends, and write what comes of it. -/
structure Understood (ctx : Context) (answers : Answers) (args : ArgumentParser)
    (invocation : Invocation) (sent : ClientRequest) : Prop where
  lawful : ctx.libs.Lawful
  asked : invocation.request args = .ok sent
  fits : invocation.Fits
  accepted : invocation.Accepted ctx args
  payload : sent.payload.WellEncoded
  guid : IsUtf8 ctx.env.guid
  encoded : Encoded ctx answers

/-- The queue of a payload is well formed. -/
theorem queue_utf8 {payload : Json String} {queue : String} (hpayload : payload.WellEncoded)
    (hget : payload.get? "queue" = some (.str queue)) : IsUtf8 queue :=
  (Json.wellEncoded_str queue).mp (hpayload.get? hget)

/-- The text of a command. -/
def Invocation.commandText : Invocation → String
  | publish _ => "publish"
  | status _ => "status"
  | health _ => "health"
  | metrics _ => "metrics"
  | consume _ => "consume_next"
  | ack _ => "ack"
  | nack _ => "nack"
  | extendLease _ => "extend_lease"
  | listDlq _ => "list_dlq"
  | reprocess _ => "reprocess_dlq"

/-- The command that the daemon reads. -/
def Invocation.command : Invocation → MailboxCommand
  | publish _ => .publish
  | status _ => .status
  | health _ => .health
  | metrics _ => .metrics
  | consume _ => .consumeNext
  | ack _ => .ack
  | nack _ => .nack
  | extendLease _ => .extendLease
  | listDlq _ => .listDlq
  | reprocess _ => .reprocessDlq

/-- The command in the request is that of the invocation. -/
theorem command_sent {args : ArgumentParser} {invocation : Invocation} {sent : ClientRequest}
    (h : invocation.request args = .ok sent) : sent.command = invocation.commandText := by
  cases invocation with
  | publish config =>
    simp only [Invocation.request, cmdPublish] at h
    split at h
    · cases h
    · split at h
      · cases h
      · obtain rfl := Except.ok.inj h
        rfl
  | health config | metrics config =>
    obtain rfl := Except.ok.inj h
    rfl
  | ack config | nack config | extendLease config =>
    obtain ⟨messageKey, -, rfl⟩ := leaseFields_sent h
    rfl
  | status config | consume config | listDlq config | reprocess config =>
    simp only [Invocation.request, cmdStatus, cmdConsume, cmdListDlq, cmdReprocess] at h
    split at h
    · cases h
    · obtain rfl := Except.ok.inj h
      rfl

/-- The daemon knows the text of every command. -/
theorem parseCommand_commandText (invocation : Invocation) :
    parseCommand invocation.commandText = invocation.command := by
  cases invocation with
  | _ =>
    rw [Invocation.commandText, Invocation.command]
    decide +kernel

/-- The name of a command is UTF-8. -/
theorem commandText_utf8 (invocation : Invocation) : IsUtf8 invocation.commandText := by
  cases invocation with
  | _ =>
    rw [Invocation.commandText]
    decide

/-- The queue that a command sends. -/
def Invocation.queue? : Invocation → Option String
  | publish config | status config => some config.defaultQueue
  | consume config | listDlq config => some config.defaultQueue
  | _ => none

/-- The payload of a command is an object, when the backend is asked. -/
theorem isObject_sent {args : ArgumentParser} {invocation : Invocation} {sent : ClientRequest}
    {env : Env} (h : invocation.request args = .ok sent)
    (hasks : invocation.purpose args env ≠ .answer) : sent.payload.isObject = true := by
  cases invocation with
  | publish config =>
    simp only [Invocation.request, cmdPublish] at h
    split at h
    · cases h
    · split at h
      · cases h
      · obtain rfl := Except.ok.inj h
        rfl
  | health config | metrics config => exact absurd rfl hasks
  | ack config | nack config | extendLease config =>
    obtain ⟨messageKey, -, rfl⟩ := leaseFields_sent h
    rfl
  | status config | consume config | listDlq config | reprocess config =>
    simp only [Invocation.request, cmdStatus, cmdConsume, cmdListDlq, cmdReprocess] at h
    split at h
    · cases h
    · obtain rfl := Except.ok.inj h
      rfl

/-- The queue stands in it. -/
theorem queue_sent {args : ArgumentParser} {invocation : Invocation} {sent : ClientRequest}
    {queue : String} (h : invocation.request args = .ok sent) (hqueue : invocation.queue? = some queue) :
    sent.payload.get? "queue" = some (.str queue) := by
  cases invocation with
  | publish config =>
    obtain rfl := Option.some.inj hqueue
    simp only [Invocation.request, cmdPublish] at h
    split at h
    · cases h
    · split at h
      · cases h
      · obtain rfl := Except.ok.inj h
        rfl
  | status config | consume config | listDlq config =>
    obtain rfl := Option.some.inj hqueue
    simp only [Invocation.request, cmdStatus, cmdConsume, cmdListDlq] at h
    split at h
    · cases h
    · obtain rfl := Except.ok.inj h
      rfl
  | _ => cases hqueue

/-- `health` is answered without the backend. -/
theorem health_conveys {ctx : Context} {answers : Answers} {request : MailboxRequest}
    (hlib : ctx.libs.Lawful) :
    Conveys answers request (handleHealth ctx request) .answer := by
  refine answer_conveys hlib ?_
  simp only [Json.wellEncoded_cons, Json.wellEncoded_str, Json.wellEncoded_int,
    Json.wellEncoded_empty, and_true]
  decide

/-- So is `metrics`. -/
theorem metrics_conveys {ctx : Context} {answers : Answers} {request : MailboxRequest}
    (hlib : ctx.libs.Lawful) :
    Conveys answers request (handleMetrics ctx request) .answer := by
  refine answer_conveys hlib ?_
  -- The texts of the document do not depend on the numbers.
  have hstrings : (metricsData ctx.metrics ctx.env.now).strings =
    (metricsData {} 0).strings := rfl
  unfold Json.WellEncoded
  rw [hstrings]
  decide

/-- **The handler of a request does what the command line asks for.** -/
theorem handleRequest_conveys {ctx : Context} {answers : Answers} {args : ArgumentParser}
    {invocation : Invocation} {sent : ClientRequest} {request : MailboxRequest}
    (h : Understood ctx answers args invocation sent)
    (hcommand : request.command = parseCommand sent.command)
    (hparse : sent.payload.isObject = true →
      ctx.libs.parse request.payloadJson = .ok sent.payload) :
    Conveys answers request (handleRequest ctx request) (invocation.purpose args ctx.env) := by
  have hsent := h.asked
  have hread : invocation.purpose args ctx.env ≠ .answer →
      ctx.libs.parse request.payloadJson = .ok sent.payload :=
    fun hasks => hparse (isObject_sent hsent hasks)
  have hqueue : ∀ {queue}, invocation.queue? = some queue → IsUtf8 queue :=
    fun hnamed => queue_utf8 h.payload (queue_sent hsent hnamed)
  unfold handleRequest
  rw [hcommand, command_sent hsent, parseCommand_commandText]
  -- One lemma for each command; which of them the request has is read off its text.
  cases invocation with
  | publish config =>
    exact publish_conveys (hread Purpose.noConfusion) h.lawful hsent h.fits (hqueue rfl) h.guid
      h.accepted
  | status config =>
    exact status_conveys (hread Purpose.noConfusion) h.lawful h.encoded hsent (hqueue rfl)
  | health config => exact health_conveys h.lawful
  | metrics config => exact metrics_conveys h.lawful
  | consume config =>
    exact consume_conveys (hread Purpose.noConfusion) h.lawful h.encoded hsent h.fits
  | ack config => exact ack_conveys (hread Purpose.noConfusion) hsent
  | nack config => exact nack_conveys (hread Purpose.noConfusion) hsent
  | extendLease config => exact extendLease_conveys (hread Purpose.noConfusion) hsent h.fits
  | listDlq config =>
    exact listDlq_conveys (hread Purpose.noConfusion) h.lawful h.encoded hsent (hqueue rfl)
  | reprocess config => exact reprocess_conveys (hread Purpose.noConfusion) h.lawful hsent h.payload

end YirangMQ.Samples

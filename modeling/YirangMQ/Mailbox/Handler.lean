import YirangMQ.Mailbox.Validator

namespace YirangMQ.Mailbox

/-!
# Requests and their handlers

`parse_request` and the handlers of `MailboxHandler`.  A handler checks a request and either
answers it at once or makes one call of the backend and answers with what comes of it.

* `parseCommand`, `parseRequest` — from the text of a request file to a request;
* `Handling` — what a handler does: the call it makes, and its answer;
* `handleRequest` — the handler of each command.
-/

/-! ### Parsing -/

/-- `parse_command`: the names of a command, in capital or small letters. -/
def parseCommand (text : String) : MailboxCommand :=
  match text.map Char.toLower with
  | "publish" => .publish
  | "consume_next" | "consumenext" | "consume" => .consumeNext
  | "ack" => .ack
  | "nack" => .nack
  | "extend_lease" | "extendlease" | "extend" => .extendLease
  | "status" => .status
  | "health" => .health
  | "metrics" => .metrics
  | "list_dlq" | "listdlq" | "dlq" => .listDlq
  | "reprocess_dlq" | "reprocessdlq" | "reprocess" => .reprocessDlq
  | _ => .unknown

/-- `request.payload_json`: the payload object as a text, or an empty object. -/
def requestPayload (libs : Libraries) (j : Json String) : Except String String :=
  match j.get? "payload" with
  | some (.obj fields) => libs.dump (.obj fields)
  | _ => .ok "{}"

/-- The times and the payload of a request, with the text of the exception they may raise. -/
def requestFields (libs : Libraries) (j : Json String) (requestId clientId command : String) :
    Except String MailboxRequest := do
  return {
    requestId, clientId
    command := parseCommand command
    timestampMs := ← libs.valueInt j "timestampMs" 0
    deadlineMs := ← libs.valueInt j "deadlineMs" 0
    payloadJson := ← requestPayload libs j }

/-- `parse_request`, with the reason why a text is no request. -/
def parseRequest (libs : Libraries) (content : String) : Except String MailboxRequest :=
  match libs.parse content with
  | .error what => .error ("JSON parse error: " ++ what)
  | .ok j =>
    match j.getStr? "requestId" with
    | none => .error "missing requestId"
    | some requestId =>
      match j.getStr? "clientId" with
      | none => .error "missing clientId"
      | some clientId =>
        match j.getStr? "command" with
        | none => .error "missing command"
        | some command =>
          match requestFields libs j requestId clientId command with
          | .error what => .error ("JSON parse error: " ++ what)
          | .ok request => .ok request

/-! ### Responses -/

/-- `build_success_response`. -/
def buildSuccessResponse (requestId dataJson : String) : MailboxResponse where
  requestId := requestId
  ok := true
  dataJson := dataJson

/-- `build_error_response`. -/
def buildErrorResponse (requestId errorCode errorMessage : String) : MailboxResponse where
  requestId := requestId
  ok := false
  errorCode := errorCode
  errorMessage := errorMessage

/-- What a handler does with a request. -/
inductive Handling where
  | respond (response : MailboxResponse)
  | status (call : Call) (answer : Status → MailboxResponse)
  | lease (queue consumerId : String) (visibilityTimeoutSec : Int)
      (answer : LeaseResult → MailboxResponse)
  | metrics (queue : String) (answer : QueueMetrics × Option String → MailboxResponse)
  | listDlq (queue : String) (limit : Int)
      (answer : List DlqMessageInfo × Option String → MailboxResponse)

namespace Handling

/-- The call that may change the store. -/
def call? : Handling → Option Call
  | .status call _ => some call
  | .lease queue consumerId timeout _ => some (.leaseNext queue consumerId timeout)
  | _ => none

/-- `catch (const json::exception& e)` around a handler. -/
def caught (request : MailboxRequest) : Except String Handling → Handling
  | .ok handling => handling
  | .error what =>
    .respond (buildErrorResponse request.requestId MailboxErrorCode.parseError what)

end Handling

/-- The same around the making of a response. -/
def caughtResponse (request : MailboxRequest) : Except String MailboxResponse → MailboxResponse
  | .ok response => response
  | .error what => buildErrorResponse request.requestId MailboxErrorCode.parseError what

/-- A success whose data are written as a text. -/
def successWith (libs : Libraries) (request : MailboxRequest) (data : Json String) :
    MailboxResponse :=
  caughtResponse request do return buildSuccessResponse request.requestId (← libs.dump data)

/-- The answer to a call that succeeds or fails. -/
def statusAnswer (request : MailboxRequest) (errorCode default : String)
    (success : MailboxResponse) : Status → MailboxResponse
  | .ok () => success
  | .error e => buildErrorResponse request.requestId errorCode (e.getD default)

/-! ### Handlers -/

/-- What the handlers refer to: the validator, the policies of the queue manager, the counters,
    and what surrounds the request. -/
structure Context where
  libs : Libraries
  validator : MessageValidator
  policies : String → Option QueuePolicy
  metrics : MailboxMetrics
  env : Env

variable (ctx : Context)

/-- Read the payload of a request and a string field that must be there. -/
def withField (request : MailboxRequest) (field : String)
    (body : Json String → String → Except String Handling) : Handling :=
  .caught request do
    let payload ← ctx.libs.parse request.payloadJson
    match payload.getStr? field with
    | none =>
      return .respond (buildErrorResponse request.requestId MailboxErrorCode.invalidRequest
        ("missing " ++ field ++ " in payload"))
    | some value => body payload value

/-- The message `handle_publish` makes of a payload. -/
def publishedEnvelope (payload : Json String) (queue : String) :
    Except String MessageEnvelope := do
  let payloadJson ← ctx.libs.valueStr payload "message" "{}"
  let attributesJson ← ctx.libs.valueStr payload "attributes" "{}"
  let priority ← ctx.libs.valueInt32 payload "priority" 0
  let targetConsumerId ← ctx.libs.valueStr payload "targetConsumerId" ""
  let delayMs ← ctx.libs.valueInt payload "delayMs" 0
  return {
    key := messageKey queue ctx.env.guid
    messageId := ctx.env.guid
    queue, payloadJson, attributesJson, priority
    createdAtMs := ctx.env.now
    availableAtMs := ctx.env.now + delayMs
    targetConsumerId }

/-- The errors of a message under the schema of its queue, when it has one. -/
def publishErrors (envelope : MessageEnvelope) : Except String ValidationResult :=
  if ctx.validator.hasSchema envelope.queue then ctx.validator.validate ctx.libs envelope
  else .ok {}

/-- `handle_publish`: the payload is validated against the schema of its queue before it is
    enqueued. -/
def handlePublish (request : MailboxRequest) : Handling :=
  withField ctx request "queue" fun payload queue => do
    let envelope ← publishedEnvelope ctx payload queue
    let validation ← publishErrors ctx envelope
    if !validation.valid then
      return .respond (buildErrorResponse request.requestId MailboxErrorCode.validationFailed
        ("; ".intercalate validation.errors))
    else
      return .status (.enqueue envelope) <|
        statusAnswer request MailboxErrorCode.internalError "enqueue failed" <|
          successWith ctx.libs request
            (.obj [("messageId", .str envelope.messageId), ("messageKey", .str envelope.key)])

/-- The data of a leased message. -/
def leaseData (result : LeaseResult) : Json String :=
  let message := result.message.map fun message => ("message", Json.obj
    [("messageId", .str message.messageId), ("messageKey", .str message.key),
      ("queue", .str message.queue), ("payload", .str message.payloadJson),
      ("attributes", .str message.attributesJson), ("priority", .int message.priority),
      ("attempt", .int message.attempt), ("createdAt", .int message.createdAtMs)])
  let lease := result.lease.map fun lease => ("lease", Json.obj
    [("leaseId", .str lease.leaseId), ("messageKey", .str lease.messageKey),
      ("consumerId", .str lease.consumerId), ("leaseUntil", .int lease.leaseUntilMs)])
  match message.toList ++ lease.toList with
  | [] => .null
  | fields => .obj fields

/-- `handle_consume_next`: the visibility timeout is that of the queue's policy where the request
    has none. -/
def handleConsumeNext (request : MailboxRequest) : Handling :=
  withField ctx request "queue" fun payload queue => do
    let consumerId ← ctx.libs.valueStr payload "consumerId" request.clientId
    let timeout ← ctx.libs.valueInt32 payload "visibilityTimeoutSec" 30
    return .lease queue consumerId timeout fun result =>
      if result.leased then successWith ctx.libs request (leaseData result)
      else
        match result.error with
        | some e => buildErrorResponse request.requestId MailboxErrorCode.internalError e
        | none => successWith ctx.libs request (.obj [("message", .null)])

/-- The token of a request about a lease. -/
def leaseToken (request : MailboxRequest) (payload : Json String) (messageKey : String) :
    Except String LeaseToken := do
  let leaseId ← ctx.libs.valueStr payload "leaseId" ""
  let consumerId ← ctx.libs.valueStr payload "consumerId" request.clientId
  return ⟨leaseId, messageKey, consumerId, 0⟩

/-- `handle_ack`. -/
def handleAck (request : MailboxRequest) : Handling :=
  withField ctx request "messageKey" fun payload messageKey => do
    let lease ← leaseToken ctx request payload messageKey
    return .status (.ack lease) <|
      statusAnswer request MailboxErrorCode.internalError "ack failed"
        (buildSuccessResponse request.requestId "{}")

/-- `handle_nack`: without another delivery, unless the request asks for one. -/
def handleNack (request : MailboxRequest) : Handling :=
  withField ctx request "messageKey" fun payload messageKey => do
    let lease ← leaseToken ctx request payload messageKey
    let reason ← ctx.libs.valueStr payload "reason" ""
    let requeue ← ctx.libs.valueBool payload "requeue" false
    return .status (.nack lease reason requeue) <|
      statusAnswer request MailboxErrorCode.internalError "nack failed"
        (buildSuccessResponse request.requestId "{}")

/-- `handle_extend_lease`. -/
def handleExtendLease (request : MailboxRequest) : Handling :=
  withField ctx request "messageKey" fun payload messageKey => do
    let lease ← leaseToken ctx request payload messageKey
    let timeout ← ctx.libs.valueInt32 payload "visibilityTimeoutSec" 30
    return .status (.extendLease lease timeout) <|
      statusAnswer request MailboxErrorCode.internalError "extend_lease failed"
        (buildSuccessResponse request.requestId "{}")

/-- The data of `handle_status`. -/
def statusData (queue : String) (metrics : QueueMetrics) : Json String :=
  .obj ([("queue", .str queue),
    ("metrics", .obj [("ready", .int metrics.ready), ("inflight", .int metrics.inflight),
      ("delayed", .int metrics.delayed), ("dlq", .int metrics.dlq)])] ++
    ((ctx.policies queue).map fun policy => ("policy", policy.toJson)).toList)

/-- `handle_status`: the metrics of the queue. -/
def handleStatus (request : MailboxRequest) : Handling :=
  withField ctx request "queue" fun _ queue =>
    return .metrics queue fun (metrics, error) =>
      match error with
      | some e => buildErrorResponse request.requestId MailboxErrorCode.internalError e
      | none => successWith ctx.libs request (statusData ctx queue metrics)

/-- `handle_health`. -/
def handleHealth (request : MailboxRequest) : Handling :=
  .respond <| successWith ctx.libs request <|
    .obj [("status", .str "ok"), ("timestamp", .int ctx.env.now)]

/-- The data of `handle_metrics`. -/
def metricsData (m : MailboxMetrics) (now : Int) : Json String :=
  .obj [("timestamp", .int now), ("uptimeMs", .int (now - m.startTimeMs)),
    ("requests", .obj [("total", .int m.totalRequests), ("success", .int m.successCount),
      ("error", .int m.errorCount)]),
    ("commands", .obj [("publish", .int m.publishCount), ("consume", .int m.consumeCount),
      ("ack", .int m.ackCount), ("nack", .int m.nackCount), ("status", .int m.statusCount),
      ("health", .int m.healthCount), ("dlq", .int m.dlqCount)]),
    ("errors", .obj [("parse", .int m.parseErrors), ("validation", .int m.validationErrors),
      ("timeout", .int m.timeoutErrors), ("internal", .int m.internalErrors)]),
    ("timing", .obj [("totalProcessingMs", .int m.totalProcessingTimeMs),
      ("avgProcessingMs", .real (m.totalProcessingTimeMs / m.totalRequests)),
      ("lastRequestMs", .int m.lastRequestTimeMs)])]

/-- `handle_metrics`: the counters of the handler, and the metrics of a queue where one is named. -/
def handleMetrics (request : MailboxRequest) : Handling :=
  .respond <| successWith ctx.libs request (metricsData ctx.metrics ctx.env.now)

/-- The data of `handle_list_dlq`. -/
def dlqData (queue : String) (messages : List DlqMessageInfo) : Json String :=
  .obj [("queue", .str queue), ("count", .int messages.length),
    ("messages", .arr (messages.map fun message => .obj
      [("messageKey", .str message.messageKey), ("queue", .str message.queue),
        ("reason", .str message.reason), ("dlqAt", .int message.dlqAtMs),
        ("attempt", .int message.attempt)]))]

/-- `handle_list_dlq`. -/
def handleListDlq (request : MailboxRequest) : Handling :=
  withField ctx request "queue" fun payload queue => do
    let limit ← ctx.libs.valueInt32 payload "limit" 100
    return .listDlq queue limit fun (messages, error) =>
      match error with
      | some e => buildErrorResponse request.requestId MailboxErrorCode.internalError e
      | none => successWith ctx.libs request (dlqData queue messages)

/-- `handle_reprocess_dlq`. -/
def handleReprocessDlq (request : MailboxRequest) : Handling :=
  withField ctx request "messageKey" fun _ messageKey =>
    return .status (.reprocessDlqMessage messageKey) <|
      statusAnswer request MailboxErrorCode.dlqNotFound "failed to reprocess DLQ message" <|
        successWith ctx.libs request
          (.obj [("messageKey", .str messageKey), ("reprocessed", .bool true)])

/-- `handle_request`: the handler of the command. -/
def handleRequest (request : MailboxRequest) : Handling :=
  match request.command with
  | .publish => handlePublish ctx request
  | .consumeNext => handleConsumeNext ctx request
  | .ack => handleAck ctx request
  | .nack => handleNack ctx request
  | .extendLease => handleExtendLease ctx request
  | .status => handleStatus ctx request
  | .health => handleHealth ctx request
  | .metrics => handleMetrics ctx request
  | .listDlq => handleListDlq ctx request
  | .reprocessDlq => handleReprocessDlq ctx request
  | .unknown =>
    .respond (buildErrorResponse request.requestId MailboxErrorCode.unknownCommand
      "unknown command")

end YirangMQ.Mailbox

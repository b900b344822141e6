import YirangMQ.Configurations.CommandLine
import YirangMQ.Mailbox.Worker

namespace YirangMQ.Samples

open Mailbox

/-!
# The clients

`yirangmq-cli-publisher` and `yirangmq-cli-consumer`: what each command makes of the command line
and the configuration, how a request is written, and what is made of its response.  The fields of a
document are listed in the order of their names, as the library keeps them.

* `Invocation`, `request` — a command of a client, and the `cmd_…` functions up to their request;
* `submit`, `collect`, `timedOut` — `send_request`, up to its wait, in it and after it;
* `exitCode` — what a `cmd_…` function returns.
-/

/-- The configuration of the publisher, as loaded. -/
structure PublisherConfigurations where
  defaultQueue : String := ""
  defaultTarget : String := ""
  defaultPriority : Int := 0
  clientId : String
  timeoutMs : Int := 30000

/-- The configuration of the consumer, as loaded. -/
structure ConsumerConfigurations where
  defaultQueue : String := ""
  consumerId : String
  visibilityTimeoutSec : Int := 30
  timeoutMs : Int := 30000

namespace PublisherConfigurations

/-- `Configurations::parse` -/
def parse (args : ArgumentParser) (config : PublisherConfigurations) : PublisherConfigurations where
  defaultQueue := (args.toString "--queue").getD config.defaultQueue
  defaultTarget := (args.toString "--target").getD config.defaultTarget
  defaultPriority := (args.toInt "--priority").getD config.defaultPriority
  clientId := (args.toString "--client-id").getD config.clientId
  timeoutMs := (args.toInt "--timeout").getD config.timeoutMs

end PublisherConfigurations

namespace ConsumerConfigurations

/-- `Configurations::parse` -/
def parse (args : ArgumentParser) (config : ConsumerConfigurations) : ConsumerConfigurations where
  defaultQueue := (args.toString "--queue").getD config.defaultQueue
  consumerId := (args.toString "--consumer-id").getD config.consumerId
  visibilityTimeoutSec := (args.toInt "--visibility").getD config.visibilityTimeoutSec
  timeoutMs := (args.toInt "--timeout").getD config.timeoutMs

end ConsumerConfigurations

/-! ### Commands -/

/-- The command and the payload of a request. -/
structure ClientRequest where
  command : String
  payload : Json String

/-- The payload of a message, whose target is left out when it is empty. -/
def publishPayload (config : PublisherConfigurations) (message : String) (delayMs : Int) :
    Json String :=
  .obj ([("delayMs", .int delayMs), ("message", .str message),
    ("priority", .int config.defaultPriority), ("queue", .str config.defaultQueue)] ++
    if config.defaultTarget = "" then [] else [("targetConsumerId", .str config.defaultTarget)])

/-- `cmd_publish`: the message is an argument, or is not sent. -/
def cmdPublish (args : ArgumentParser) (config : PublisherConfigurations) :
    Except String ClientRequest :=
  if config.defaultQueue = "" then .error "--queue is required (or set in config)"
  else
    match args.toString "--message" with
    | none => .error "--message is required"
    | some message =>
      .ok ⟨"publish", publishPayload config message ((args.toInt "--delay").getD 0)⟩

/-- `cmd_status`: about the queue that is configured. -/
def cmdStatus (config : PublisherConfigurations) : Except String ClientRequest :=
  if config.defaultQueue = "" then .error "--queue is required (or set in config)"
  else .ok ⟨"status", .obj [("queue", .str config.defaultQueue)]⟩

/-- `cmd_health`. -/
def cmdHealth : Except String ClientRequest := .ok ⟨"health", .null⟩

/-- `cmd_metrics`. -/
def cmdMetrics : Except String ClientRequest := .ok ⟨"metrics", .null⟩

/-- `cmd_consume`: the next message of the queue that is configured. -/
def cmdConsume (config : ConsumerConfigurations) : Except String ClientRequest :=
  if config.defaultQueue = "" then .error "--queue is required (or set in config)"
  else .ok ⟨"consume_next", .obj [("consumerId", .str config.consumerId),
    ("queue", .str config.defaultQueue),
    ("visibilityTimeoutSec", .int config.visibilityTimeoutSec)]⟩

/-- The payload about a lease, whose identifier may be left out; `rest` are the fields after
    these. -/
def leasePayload (consumerId : String) (leaseId : Option String) (messageKey : String)
    (rest : List (String × Json String)) : Json String :=
  .obj (("consumerId", .str consumerId) ::
    ((leaseId.map fun id => ("leaseId", Json.str id)).toList ++
      ("messageKey", .str messageKey) :: rest))

/-- The same as the command line names it. -/
def leaseFields (args : ArgumentParser) (config : ConsumerConfigurations)
    (rest : List (String × Json String)) : Except String (Json String) :=
  match args.toString "--message-key" with
  | none => .error "--message-key is required"
  | some messageKey =>
    .ok (leasePayload config.consumerId (args.toString "--lease-id") messageKey rest)

/-- `cmd_ack`. -/
def cmdAck (args : ArgumentParser) (config : ConsumerConfigurations) :
    Except String ClientRequest :=
  (leaseFields args config []).map (⟨"ack", ·⟩)

/-- `cmd_nack`: `--requeue` needs a value to be heard. -/
def cmdNack (args : ArgumentParser) (config : ConsumerConfigurations) :
    Except String ClientRequest :=
  (leaseFields args config [("reason", .str ((args.toString "--reason").getD "")),
    ("requeue", .bool (args.toString "--requeue").isSome)]).map (⟨"nack", ·⟩)

/-- `cmd_extend_lease`. -/
def cmdExtendLease (args : ArgumentParser) (config : ConsumerConfigurations) :
    Except String ClientRequest :=
  (leaseFields args config [("visibilityTimeoutSec",
    .int ((args.toInt "--visibility").getD config.visibilityTimeoutSec))]).map (⟨"extend_lease", ·⟩)

/-- `cmd_list_dlq`. -/
def cmdListDlq (args : ArgumentParser) (config : ConsumerConfigurations) :
    Except String ClientRequest :=
  if config.defaultQueue = "" then .error "--queue is required (or set in config)"
  else .ok ⟨"list_dlq", .obj [("limit", .int ((args.toInt "--limit").getD 100)),
    ("queue", .str config.defaultQueue)]⟩

/-- `cmd_reprocess`. -/
def cmdReprocess (args : ArgumentParser) : Except String ClientRequest :=
  match args.toString "--message-key" with
  | none => .error "--message-key is required"
  | some messageKey => .ok ⟨"reprocess_dlq", .obj [("messageKey", .str messageKey)]⟩

/-- A command of one of the clients, with its configuration. -/
inductive Invocation where
  | publish (config : PublisherConfigurations)
  | status (config : PublisherConfigurations)
  | health (config : PublisherConfigurations)
  | metrics (config : PublisherConfigurations)
  | consume (config : ConsumerConfigurations)
  | ack (config : ConsumerConfigurations)
  | nack (config : ConsumerConfigurations)
  | extendLease (config : ConsumerConfigurations)
  | listDlq (config : ConsumerConfigurations)
  | reprocess (config : ConsumerConfigurations)

namespace Invocation

/-- The name of the client that the command is given in. -/
def clientId : Invocation → String
  | publish config | status config | health config | metrics config => config.clientId
  | consume config | ack config | nack config | extendLease config | listDlq config
  | reprocess config => config.consumerId

/-- How long the client waits for the answer. -/
def timeoutMs : Invocation → Int
  | publish config | status config | health config | metrics config => config.timeoutMs
  | consume config | ack config | nack config | extendLease config | listDlq config
  | reprocess config => config.timeoutMs

/-- The request of the command, or the error it ends with before it has sent one. -/
def request (args : ArgumentParser) : Invocation → Except String ClientRequest
  | publish config => cmdPublish args config
  | status config => cmdStatus config
  | health _ => cmdHealth
  | metrics _ => cmdMetrics
  | consume config => cmdConsume config
  | ack config => cmdAck args config
  | nack config => cmdNack args config
  | extendLease config => cmdExtendLease args config
  | listDlq config => cmdListDlq args config
  | reprocess _ => cmdReprocess args

end Invocation

/-! ### Sending -/

/-- What surrounds a request: the identifier generated for it, the time, and whether its file can
    be written. -/
structure Sending where
  requestId : String
  now : Int
  writable : Bool := true

/-- The document of a request. -/
def requestJson (sending : Sending) (clientId : String) (timeoutMs : Int) (request : ClientRequest) :
    Json String :=
  .obj [("clientId", .str clientId), ("command", .str request.command),
    ("deadlineMs", .int (sending.now + timeoutMs)), ("payload", request.payload),
    ("requestId", .str sending.requestId), ("timestampMs", .int sending.now)]

/-- The file of a request. -/
def requestPath (requestId : String) : Directory := (requestId ++ ".json") :: requestsDir

/-- The document that stands for an answer that did not come. -/
def failedResponse (error : String) : Bool × Json String := (false, .obj [("error", .str error)])

/-- `send_request` up to its wait: the mail with the request file, or the answer that it could not
    be written.  The exception of the document escapes. -/
def submit (libs : JsonLibrary) (sending : Sending) (clientId : String) (timeoutMs : Int)
    (request : ClientRequest) (mail : Mail) : Except String (Except (Bool × Json String) Mail) :=
  match libs.dump (requestJson sending clientId timeoutMs request) with
  | .error what => .error what
  | .ok text =>
    if sending.writable then
      let target := requestPath sending.requestId
      let file : MailFile := ⟨text, sending.now, none⟩
      .ok (.ok (Files.renamed (tempPath target) target file (mail.insert (tempPath target) file)))
    else .ok (.error (failedResponse "failed to write request"))

/-- A look of `send_request` for the response, which is removed when it is there. -/
def collect (libs : JsonLibrary) (clientId requestId : String) (mail : Mail) :
    Option ((Bool × Json String) × Mail) :=
  let path := responsePath clientId requestId
  (mail.lookup path).map fun file =>
    match libs.parse file.content with
    | .ok response => ((true, response), mail.erase path)
    | .error what => (failedResponse ("response parse error: " ++ what), mail.erase path)

/-- `send_request` when its time is over. -/
def timedOut : Bool × Json String := failedResponse "timeout waiting for response"

/-- What a command returns: 0 when `response.value("ok", false)`. -/
def exitCode : Bool × Json String → Nat
  | (ok, response) => if ok && response.get? "ok" matches some (.bool true) then 0 else 1

end YirangMQ.Samples

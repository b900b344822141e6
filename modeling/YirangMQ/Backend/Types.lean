import YirangMQ.Library.Json

namespace YirangMQ

/-!
# The types of the backend interface

The values a backend adapter takes and returns.  Times are milliseconds since the epoch.
-/

/-- `BackendType`. -/
inductive BackendType where
  | fileSystem
  | sqlite
  | hybrid
  deriving DecidableEq, Repr

/-- `MessageState`: where in its life a message is. -/
inductive MessageState where
  | ready
  | inflight
  | delayed
  | dlq
  | archived
  deriving DecidableEq, Repr

/-- `RetryPolicy`, with its defaults. -/
structure RetryPolicy where
  limit : Int := 0
  backoff : String := ""
  initialDelaySec : Int := 0
  maxDelaySec : Int := 0
  deriving DecidableEq, Repr

/-- `DlqPolicy`, with its defaults. -/
structure DlqPolicy where
  enabled : Bool := false
  queue : String := ""
  retentionDays : Int := 0
  deriving DecidableEq, Repr

/-- `QueuePolicy`, with its defaults. -/
structure QueuePolicy where
  visibilityTimeoutSec : Int := 0
  retry : RetryPolicy := {}
  dlq : DlqPolicy := {}
  deriving DecidableEq, Repr

/-- A message.  An empty `targetConsumerId` addresses any consumer. -/
structure MessageEnvelope where
  key : String
  messageId : String
  queue : String
  payloadJson : String
  attributesJson : String
  priority : Int := 0
  attempt : Int := 0
  createdAtMs : Int := 0
  availableAtMs : Int := 0
  targetConsumerId : String := ""
  deriving DecidableEq, Repr

/-- `LeaseToken`: what a consumer is given and has to show again. -/
structure LeaseToken where
  leaseId : String
  messageKey : String
  consumerId : String
  leaseUntilMs : Int := 0
  deriving DecidableEq, Repr

/-- `LeaseResult`: without a message and without an error there was none to lease. -/
structure LeaseResult where
  leased : Bool := false
  message : Option MessageEnvelope := none
  lease : Option LeaseToken := none
  error : Option String := none
  deriving DecidableEq, Repr

/-- `QueueMetrics`: the messages of a queue by their states. -/
structure QueueMetrics where
  ready : Nat := 0
  inflight : Nat := 0
  delayed : Nat := 0
  dlq : Nat := 0
  deriving DecidableEq, Repr

/-- `ExpiredLeaseInfo`: a message whose lease has ended. -/
structure ExpiredLeaseInfo where
  messageKey : String
  queue : String
  attempt : Int
  deriving DecidableEq, Repr

/-- What `list_dlq_messages` tells of a dead letter. -/
structure DlqMessageInfo where
  messageKey : String
  queue : String
  reason : String
  dlqAtMs : Int := 0
  attempt : Int := 0
  deriving DecidableEq, Repr

/-- `is_valid_queue_name`: the check of the configured queues. -/
def isValidQueueName (name : String) : Bool :=
  name ≠ "" && name.length ≤ 256 &&
    name.toList.all fun c => c.isAlphanum || c = '-' || c = '_'

/-- The key `handle_publish` gives to message `id` of a queue. -/
def messageKey (queue id : String) : String := "msg:" ++ queue ++ ":" ++ id

/-- A stored text as `json::parse` reads it: `none` is a text that does not parse. -/
abbrev JsonText := Option (Json String)

/-- The document `save_policy` stores. -/
def QueuePolicy.toJson (policy : QueuePolicy) : Json String :=
  .obj [("visibilityTimeoutSec", .int policy.visibilityTimeoutSec),
    ("retry", .obj [("limit", .int policy.retry.limit), ("backoff", .str policy.retry.backoff),
      ("initialDelaySec", .int policy.retry.initialDelaySec),
      ("maxDelaySec", .int policy.retry.maxDelaySec)]),
    ("dlq", .obj [("enabled", .bool policy.dlq.enabled), ("queue", .str policy.dlq.queue),
      ("retentionDays", .int policy.dlq.retentionDays)])]

end YirangMQ

import YirangMQ.Backend.Adapter
import YirangMQ.Library.JsonText

namespace YirangMQ.Mailbox

/-!
# The types of the mailbox

Requests and responses of `MailboxHandler`.  A text is a string of bytes, with one character for
each byte.
-/

/-- `MailboxCommand`: what a request may ask for; `unknown` is what any other name is read as. -/
inductive MailboxCommand where
  | unknown
  | publish
  | consumeNext
  | ack
  | nack
  | extendLease
  | status
  | health
  | metrics
  | listDlq
  | reprocessDlq
  deriving DecidableEq, Repr

/-- `MailboxRequest`: a request as it is parsed. The payload is the text of a document. -/
structure MailboxRequest where
  requestId : String
  clientId : String
  command : MailboxCommand := .unknown
  timestampMs : Int := 0
  deadlineMs : Int := 0
  payloadJson : String
  deriving DecidableEq, Repr

/-- `MailboxResponse`: what is written for a client. -/
structure MailboxResponse where
  requestId : String
  ok : Bool := false
  dataJson : String := ""
  errorCode : String := ""
  errorMessage : String := ""
  deriving DecidableEq, Repr

namespace MailboxErrorCode

/-- A request that lacks a field it needs. -/
def invalidRequest : String := "ERR_INVALID_REQUEST"
/-- A command that the handler does not know. -/
def unknownCommand : String := "ERR_UNKNOWN_COMMAND"
/-- The backend refused, or threw. -/
def internalError : String := "ERR_INTERNAL_ERROR"
/-- The deadline of the request is over. -/
def timeout : String := "ERR_TIMEOUT"
/-- The request file cannot be read as a request. -/
def parseError : String := "ERR_PARSE_ERROR"
/-- The payload breaks a rule of its queue. -/
def validationFailed : String := "ERR_VALIDATION_FAILED"
/-- The backend refused to reprocess a dead letter. -/
def dlqNotFound : String := "ERR_DLQ_NOT_FOUND"

end MailboxErrorCode

/-- A message of the DLQ as `list_dlq_messages` gives it. -/
structure DlqMessageInfo where
  messageKey : String
  queue : String
  reason : String
  dlqAtMs : Int
  attempt : Int
  deriving DecidableEq, Repr

/-- The counters that `handle_metrics` tells beside those of a queue. -/
structure MailboxMetrics where
  totalRequests : Nat := 0
  successCount : Nat := 0
  errorCount : Nat := 0
  publishCount : Nat := 0
  consumeCount : Nat := 0
  ackCount : Nat := 0
  nackCount : Nat := 0
  statusCount : Nat := 0
  healthCount : Nat := 0
  dlqCount : Nat := 0
  parseErrors : Nat := 0
  validationErrors : Nat := 0
  timeoutErrors : Nat := 0
  internalErrors : Nat := 0
  totalProcessingTimeMs : Nat := 0
  lastRequestTimeMs : Nat := 0
  startTimeMs : Int := 0
  deriving DecidableEq, Repr

/-- What the mailbox takes from its libraries. -/
structure Libraries extends JsonLibrary where
  /-- `std::regex_match` of a pattern and a text; `none` is a `std::regex_error`.  It is taken to
      return, with any text: the library recurses along the text and could exhaust the stack. -/
  regexMatch : String → String → Option Bool
  /-- The `double` of an integer. -/
  toDouble : Int → ℚ
  /-- `std::format` of a `double`. -/
  formatDouble : ℚ → String

/-- Libraries that read the texts of a table, match no pattern, and compute with integers
    exactly. -/
def Libraries.ofTable (table : List (String × Json String)) : Libraries where
  toJsonLibrary := .ofTable table
  regexMatch _ _ := some false
  toDouble n := n
  formatDouble q := toString q

end YirangMQ.Mailbox

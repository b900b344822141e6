import YirangMQ.Backend.Adapter
import YirangMQ.Sql.Tables

namespace YirangMQ.SQLite

open Program Abortable

/-!
# The SQLite adapter

`SQLiteAdapter`, one definition for each of its functions, over a connection to the two
tables.  The adapter is open throughout, so the `is_open` checks are left out.  An operation
that reads the clock more than once reads one time here.
-/

/-- A connection of the adapter, which keeps no files beside its database. -/
abbrev Store := SqlConn Unit

/-- The document `enqueue` stores. -/
def envelopeJson (message : MessageEnvelope) (now : Int) : Json String :=
  .obj [("messageId", .str message.messageId), ("queue", .str message.queue),
    ("payload", .str message.payloadJson), ("attributes", .str message.attributesJson),
    ("priority", .int message.priority), ("attempt", .int message.attempt),
    ("createdAt", .int (if 0 < message.createdAtMs then message.createdAtMs else now))]

/-- `message.available_at_ms > 0 ? message.available_at_ms : now` -/
def availableFrom (message : MessageEnvelope) (now : Int) : Int :=
  if 0 < message.availableAtMs then message.availableAtMs else now

/-- The `msg_index` row `enqueue` stores. -/
def newRow (message : MessageEnvelope) (now : Int) : IndexRow where
  queue := message.queue
  state := if now < availableFrom message now then .delayed else .ready
  priority := message.priority
  availableAt := availableFrom message now
  attempt := message.attempt
  targetConsumerId := message.targetConsumerId
  messageKey := message.key

/-- `enqueue`: the two rows of the message, in one transaction. -/
def enqueue (schema : SchemaFile) (env : Env) (message : MessageEnvelope) :
    Program Store Status :=
  transaction do
    prepared (some "failed to insert into kv table") <| Tables.insertKv
      ⟨message.key, some (envelopeJson message env.now), "message", env.now, env.now⟩
    prepared (some "failed to insert into msg_index table") <|
      Tables.insertIndex schema (newRow message env.now)

/-- The message `lease_next` reads from the row before the update and the value in `kv`. -/
def leasedMessage (queue : String) (row : IndexRow) (value : JsonText) :
    Option MessageEnvelope := do
  let envelope ← value
  return {
    key := row.messageKey
    messageId := ← envelope.valueStr "messageId" ""
    queue := ← envelope.valueStr "queue" queue
    payloadJson := ← envelope.valueStr "payload" ""
    attributesJson := ← envelope.valueStr "attributes" ""
    priority := row.priority
    attempt := row.attempt + 1
    createdAtMs := ← envelope.valueInt "createdAt" 0 }

/-- The statements of `lease_next`; without a ready row it aborts without an error text.  The key
    is read up to its first NUL character, and the statements after the first are about the message
    of that key. -/
def leaseRow (schema : SchemaFile) (queue consumerId : String) (now leaseUntil : Int) :
    Abortable Store (IndexRow × JsonText) := do
  let row ← prepared none <| selecting (Tables.nextRow? schema queue consumerId now)
  prepared (some "failed to update message state") <| always <| Tables.updateIndex
    (fun r => r.messageKey = row.messageKey)
    (fun r =>
      { r with state := .inflight, leaseUntil := some leaseUntil, attempt := row.attempt + 1 })
  let value ← prepared (some "message not found in kv table") <|
    selecting (Tables.value? · row.messageKey)
  return (row, value)

/-- The text of the library's own exception after "failed to parse message" is left out. -/
def leaseNext (schema : SchemaFile) (env : Env) (queue consumerId : String)
    (visibilityTimeoutSec : Int) : Program Store LeaseResult := do
  let leaseUntil := env.now + visibilityTimeoutSec * 1000
  match ← transaction (leaseRow schema queue consumerId env.now leaseUntil) with
  | .error e => return { error := e }
  | .ok (row, value) =>
    match leasedMessage queue row value with
    | none => return { error := some "failed to parse message" }
    | some message =>
      return {
        leased := true
        message := some message
        lease := some ⟨env.guid, row.messageKey, consumerId, leaseUntil⟩ }

/-- `ack`: the row goes if the message is inflight, the value goes in any case, and with it whatever
    row there is. Neither the consumer nor the lease is compared. -/
def ack (lease : LeaseToken) : Program Store Status :=
  transaction do
    prepared (some "failed to delete from msg_index") <| always <| Tables.deleteIndex
      fun r => r.messageKey = lease.messageKey ∧ r.state = .inflight
    prepared (some "failed to delete from kv table") <| always <|
      Tables.deleteKv lease.messageKey

/-- `envelope["dlqReason"] = reason; envelope["dlqAt"] = now;` -/
def withDlqFields (reason : String) (now : Int) (envelope : Json String) : Option (Json String) :=
  (envelope.set "dlqReason" (.str reason)).bind (·.set "dlqAt" (.int now))

/-- `envelope.erase("dlqReason"); envelope.erase("dlqAt"); envelope["attempt"] = 0;` -/
def withoutDlqFields (envelope : Json String) : Option (Json String) := do
  let envelope ← envelope.erase "dlqReason"
  let envelope ← envelope.erase "dlqAt"
  envelope.set "attempt" (.int 0)

/-- Step the prepared query for a key's value, and store what `edit` makes of it. -/
def editValue (key : String) (now : Int) (edit : Json String → Option (Json String)) :
    Abortable Store Unit := do
  let value ← step none <| selecting (Tables.value? · key)
  match value.bind edit with
  | none => pure ()
  | some envelope => prepared none <| always <| Tables.updateKvValue key (some envelope) now

/-- `nack`: the row is set if the message is inflight; nobody looks whether it was, or whose it
    is. -/
def nack (env : Env) (lease : LeaseToken) (reason : String) (requeue : Bool) :
    Program Store Status :=
  if requeue then
    transaction do
      prepared (some "failed to requeue message") <| always <| Tables.updateIndex
        (fun r => r.messageKey = lease.messageKey ∧ r.state = .inflight)
        (fun r => { r with state := .ready, leaseUntil := none, availableAt := env.now })
  else
    transaction do
      prepared (some "failed to move message to dlq") <| always <| Tables.updateIndex
        (fun r => r.messageKey = lease.messageKey ∧ r.state = .inflight)
        (fun r => { r with state := .dlq, leaseUntil := none })
      prepare
      -- errors from here on are ignored, the message still moves to the DLQ
      orDefault (editValue lease.messageKey env.now (withDlqFields reason env.now)) ()

/-- `extend_lease`: the end of a running lease is set; nobody looks whether there is one. -/
def extendLease (env : Env) (lease : LeaseToken) (visibilityTimeoutSec : Int) :
    Program Store Status :=
  transaction do
    prepared (some "failed to extend lease") <| always <| Tables.updateIndex
      (fun r => r.messageKey = lease.messageKey ∧ r.state = .inflight ∧
        r.leaseUntil.any (env.now < ·))
      (fun r => { r with leaseUntil := some (env.now + visibilityTimeoutSec * 1000) })

/-- `save_policy`: the policy replaces the one that is stored. -/
def savePolicy (env : Env) (queue : String) (policy : QueuePolicy) : Program Store Status :=
  ExceptT.run <| prepared (some "failed to save policy") <| always <| Tables.replaceKv
    ⟨"policy:" ++ queue, some policy.toJson, "policy", env.now, env.now⟩

/-- An update followed by `SELECT changes();`, whose failing step counts as none. -/
def updateCounting (error : String) (p : IndexRow → Bool) (f : IndexRow → IndexRow) :
    Abortable Store Nat := do
  let changes ← prepared (some error) fun t =>
    .ok ((t.index.filter p).length, t.updateIndex p f)
  prepare
  orDefault (step none fun t => .ok (changes, t)) 0

/-- `recover_expired_leases`: every expired lease is ended by one update. -/
def recoverExpiredLeases (env : Env) : Program Store (Except (Option String) Nat) :=
  transaction <| updateCounting "failed to recover expired leases" (Tables.isExpired env.now)
    fun r => { r with state := .ready, leaseUntil := none }

/-- `process_delayed_messages`: every message whose time has come is made ready by one update. -/
def processDelayedMessages (env : Env) : Program Store (Except (Option String) Nat) :=
  transaction <| updateCounting "failed to process delayed messages"
    (fun r => r.state = .delayed ∧ r.availableAt ≤ env.now) fun r => { r with state := .ready }

/-- `get_expired_inflight_messages`: the expired leases, those that ended first coming first. -/
def getExpiredInflightMessages (env : Env) :
    Program Store (Except String (List ExpiredLeaseInfo)) := do
  match ← prim (Conn.reading id) with
  | .error e => return .error e
  | .ok t => return .ok (← fetch (t.expiredRows env.now))

/-- `delay_message`: the row is set in whatever state it is. -/
def delayMessage (env : Env) (messageKey : String) (delayMs : Int) : Program Store Status :=
  transaction do
    prepared (some "failed to delay message") <| always <| Tables.updateIndex
      (fun r => r.messageKey = messageKey)
      (fun r =>
        { r with state := .delayed, leaseUntil := none, availableAt := env.now + delayMs })

/-- `move_to_dlq`: the row is set in whatever state it is, with the reason in its columns. -/
def moveToDlq (env : Env) (messageKey reason : String) : Program Store Status :=
  transaction do
    prepared (some "failed to move message to dlq") <| always <| Tables.updateIndex
      (fun r => r.messageKey = messageKey)
      (fun r =>
        { r with
          state := .dlq, leaseUntil := none, dlqReason := some reason, dlqAt := some env.now })
    orDefault (do
      prepare
      editValue messageKey env.now (withDlqFields reason env.now)) ()

/-- `reprocess_dlq_message`: the row is set if the message is a dead letter, and the value is
    unmarked in any case. It succeeds even where there is none. -/
def reprocessDlqMessage (env : Env) (messageKey : String) : Program Store Status :=
  transaction do
    prepared (some "failed to reprocess DLQ message") <| always <| Tables.updateIndex
      (fun r => r.messageKey = messageKey ∧ r.state = .dlq)
      (fun r =>
        { r with
          state := .ready, leaseUntil := none, availableAt := env.now, attempt := 0
          dlqReason := none, dlqAt := none })
    orDefault (do
      prepare
      editValue messageKey env.now withoutDlqFields) ()

/-- The groups of `SELECT state, COUNT(*) FROM msg_index WHERE queue = ? GROUP BY state`. -/
def stateCounts (queue : String) (t : Tables) : List (MessageState × Nat) :=
  [.archived, .delayed, .dlq, .inflight, .ready].map fun state =>
    (state, t.index.countP fun r => r.queue = queue ∧ r.state = state)

/-- `metrics`: the rows of the queue, counted by their states. -/
def metrics (queue : String) : Program Store (QueueMetrics × Option String) := do
  match ← prim (Conn.reading id) with
  | .error e => return ({}, some e)
  | .ok t =>
    let groups ← fetch ((stateCounts queue t).filter (0 < ·.2))
    let count (state : MessageState) := (groups.lookup state).getD 0
    return (⟨count .ready, count .inflight, count .delayed, count .dlq⟩, none)

/-- `list_dlq_messages`: the dead letters of the queue, the latest first. -/
def listDlqMessages (queue : String) (limit : Int) :
    Program Store (List DlqMessageInfo × Option String) := do
  match ← prim (Conn.reading id) with
  | .error e => return ([], some e)
  | .ok t => return ((← fetch (t.deadRows queue limit)).map Tables.dlqInfo, none)

/-- The operation that a call runs. -/
def program (schema : SchemaFile) (env : Env) : Call → Program Store Reply
  | .enqueue message => return .status (← enqueue schema env message)
  | .leaseNext queue consumerId timeout =>
    return .lease (← leaseNext schema env queue consumerId timeout)
  | .ack lease => return .status (← ack lease)
  | .nack lease reason requeue => return .status (← nack env lease reason requeue)
  | .extendLease lease timeout => return .status (← extendLease env lease timeout)
  | .savePolicy queue policy => return .status (← savePolicy env queue policy)
  | .recoverExpiredLeases => return .ofCount (← recoverExpiredLeases env)
  | .processDelayedMessages => return .ofCount (← processDelayedMessages env)
  | .delayMessage messageKey delayMs => return .status (← delayMessage env messageKey delayMs)
  | .moveToDlq messageKey reason => return .status (← moveToDlq env messageKey reason)
  | .reprocessDlqMessage messageKey => return .status (← reprocessDlqMessage env messageKey)

/-- The adapter over a database created by one of the schema files. -/
def adapter (schema : SchemaFile) : Adapter Store where
  start := ⟨.empty, none, ()⟩
  perform env call := (program schema env call).run env.faults
  expired env s := ((getExpiredInflightMessages env).run env.faults s).1

end YirangMQ.SQLite

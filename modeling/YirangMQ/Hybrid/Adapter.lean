import YirangMQ.Backend.Adapter
import YirangMQ.Library.Files
import YirangMQ.Sql.Tables

namespace YirangMQ.Hybrid

open Program Abortable

/-!
# The Hybrid adapter

`HybridAdapter`, one definition for each of its functions, over a connection to the two tables
and the payload files beside them.  The adapter formats its arguments into the statements; the
statements are those of arguments without apostrophes and NUL characters, `Call.Plain`.  A
connection enforces foreign keys only where the schema file turns them on.
-/

/-- The payload files: paths, and contents as `json::parse` reads them. -/
abbrev Payloads := Files String JsonText

/-- A connection of the adapter, with its payload files. -/
abbrev Store := SqlConn Payloads

/-! ### Statements and files -/

/-- `SQLite::execute`, with what the caller makes of its error text. -/
def execute {α : Type} (describe : String → String) (f : Tables → Except String (α × Tables)) :
    Abortable Store α :=
  ExceptT.mk do
    match ← prim (Conn.onData f) with
    | .ok a => return .ok a
    | .error text => return .error (some (describe text))

/-- A query that must have a row; the caller reports a fixed error. -/
def query {α : Type} (error : Option String) (g : Tables → Option α) : Abortable Store α :=
  step error (selecting g)

/-- `DELETE FROM kv WHERE key = …`; it cascades where foreign keys are on. -/
def deleteKv (schema : SchemaFile) (key : String) (t : Tables) : Tables :=
  match schema with
  | .backendAdapter => t.deleteKv key
  | .mainMq => { t with kv := Table.delete (fun r => r.key = key) t.kv }

/-- `build_payload_path`: where the payload of a live message lies. -/
def buildPayloadPath (queue messageId : String) : String :=
  "./data/payloads/" ++ queue ++ "/active/" ++ messageId ++ ".json"

/-- `build_archive_path`: where the payload of an acknowledged message lies. -/
def buildArchivePath (queue messageId : String) : String :=
  "./data/payloads/" ++ queue ++ "/archive/" ++ messageId ++ ".json"

/-- `build_dlq_path`: where the payload of a dead letter lies. -/
def buildDlqPath (queue messageId : String) : String :=
  "./data/payloads/" ++ queue ++ "/dlq/" ++ messageId ++ ".json"

/-- The part of the key after its last colon, or the whole key. -/
def extractMessageIdFromKey (messageKey : String) : String :=
  String.ofList (messageKey.toList.reverse.takeWhile (· ≠ ':')).reverse

/-- `std::filesystem::remove`, with its outcome. -/
def removeFile (path : String) : Program Store (Except String Unit) :=
  prim (Conn.onFiles (Files.remove path))

/-- Write a temporary file and rename it to its target.  Where the rename fails, the removal of the
    temporary file puts its own outcome into the error code that is told.  The path has no NUL
    character, at which both names would end. -/
def atomicWrite (targetPath : String) (content : JsonText) :
    Program Store (Except String Unit) := do
  let tempPath := targetPath ++ ".tmp"
  match ← prim (Conn.onFiles (Files.create tempPath content)) with
  | .error _ => return .error ("cannot create temp file: " ++ tempPath)
  | .ok () =>
    match ← prim (Conn.onFiles (Files.rename tempPath targetPath)) with
    | .error _ =>
      let removed ← removeFile tempPath
      return .error ("rename failed: " ++ Files.errorMessage removed)
    | .ok () => return .ok ()

/-- Move a payload file, whatever comes of it. -/
def movePayload (src dest : String) : Program Store Unit := do
  let _ ← prim (Conn.onFiles (Files.rename src dest))
  return ()

/-- `json_set(value, '$.field', v)`, which leaves what is no object as it is. -/
def jsonSet (field : String) (v : Json String) (j : Json String) : Json String :=
  match j with
  | .obj fields => .obj ((field, v) :: fields.filter (fun f => f.1 ≠ field))
  | j => j

/-- `json_remove(value, '$.field')` -/
def jsonRemove (field : String) (j : Json String) : Json String :=
  match j with
  | .obj fields => .obj (fields.filter (fun f => f.1 ≠ field))
  | j => j

/-- `UPDATE kv SET value = edit(value), updated_at = now WHERE key = …`; it fails where a value
    to be edited does not parse. -/
def editKv (key : String) (now : Int) (edit : Json String → Json String) (t : Tables) :
    Except String (Unit × Tables) :=
  match t.value? key with
  | none => .ok ((), t)
  | some none => .error "malformed JSON"
  | some (some j) => .ok ((), t.updateKvValue key (some (edit j)) now)

/-! ### Operations -/

/-- The document of a payload file. -/
def payloadJson (message : MessageEnvelope) : Json String :=
  .obj [("payload", .str message.payloadJson), ("attributes", .str message.attributesJson)]

/-- The document `enqueue` stores in `kv`. -/
def envelopeJson (message : MessageEnvelope) : Json String :=
  .obj [("messageId", .str message.messageId), ("queue", .str message.queue),
    ("payloadPath", .str (buildPayloadPath message.queue message.messageId)),
    ("priority", .int message.priority), ("attempt", .int message.attempt),
    ("createdAt", .int message.createdAtMs)]

/-- The `msg_index` row `enqueue` stores. -/
def newRow (message : MessageEnvelope) (now : Int) : IndexRow where
  queue := message.queue
  state := if now < message.availableAtMs then .delayed else .ready
  priority := message.priority
  availableAt := message.availableAtMs
  attempt := message.attempt
  targetConsumerId := message.targetConsumerId
  messageKey := message.key

/-- The two inserts of `enqueue`.  The key has been inserted when the index row refers to it,
    so it makes no difference whether the foreign key is enforced. -/
def insertMessage (schema : SchemaFile) (env : Env) (message : MessageEnvelope) :
    Abortable Store Unit := do
  execute ("kv insert failed: " ++ ·) <| Tables.insertKv
    ⟨message.key, some (envelopeJson message), "message", env.now, env.now⟩
  execute ("index insert failed: " ++ ·) <|
    Tables.insertIndex schema (newRow message env.now)

/-- What `enqueue` does after a statement that has failed.  It calls the `std::filesystem::remove`
    that throws where it fails. -/
def undoEnqueue (payloadPath : String) (error : Option String) : Program Store Reply := do
  rollback
  match ← removeFile payloadPath with
  | .error what => return .thrown what
  | .ok () => return .status (.error error)

/-- `enqueue`: the payload is written first and the rows are inserted in a transaction. When that
    fails the payload is removed, by a removal that throws where it fails itself. -/
def enqueue (schema : SchemaFile) (env : Env) (message : MessageEnvelope) :
    Program Store Reply := do
  match ← prim (Conn.onFiles fun files => .ok ((), files)) with -- ensure_payload_directories
  | .error e => return .status (.error (some e))
  | .ok () =>
    match ← beginTransaction with
    | .error e => return .status (.error (some e))
    | .ok () =>
      let payloadPath := buildPayloadPath message.queue message.messageId
      match ← atomicWrite payloadPath (some (payloadJson message)) with
      | .error e =>
        rollback
        return .status (.error (some e))
      | .ok () =>
        match ← (insertMessage schema env message).run with
        | .error e => undoEnqueue payloadPath e
        | .ok () =>
          match ← commit with
          | .error e => undoEnqueue payloadPath (some e)
          | .ok () => return .status (.ok ())

/-- The message as `lease_next` reads it from the row before the update and the value in `kv`,
    without its payload. -/
def leasedEnvelope (row : IndexRow) (value : JsonText) : Option MessageEnvelope := do
  let envelope ← value
  return {
    key := row.messageKey
    messageId := ← envelope.valueStr "messageId" ""
    queue := ← envelope.valueStr "queue" ""
    payloadJson := ""
    attributesJson := ""
    priority := ← envelope.valueInt "priority" 0
    attempt := row.attempt + 1
    createdAtMs := ← envelope.valueInt "createdAt" 0 }

/-- The message with the payload of its file; a file that cannot be opened leaves it empty. -/
def withPayload (message : MessageEnvelope) (content : Except String JsonText) :
    Option MessageEnvelope :=
  match content with
  | .error _ => some message
  | .ok text => do
    let payload ← text
    return { message with
      payloadJson := ← payload.valueStr "payload" "{}"
      attributesJson := ← payload.valueStr "attributes" "{}" }

/-- The statements of `lease_next`; without a ready row it aborts without an error text. -/
def leaseRow (schema : SchemaFile) (queue consumerId : String) (now leaseUntil : Int) :
    Abortable Store (IndexRow × JsonText) := do
  let row ← query none (Tables.readyRow? schema queue consumerId now)
  execute id <| always <| Tables.updateIndex
    (fun r => r.messageKey = row.messageKey)
    (fun r =>
      { r with state := .inflight, leaseUntil := some leaseUntil, attempt := row.attempt + 1 })
  let value ← query (some "envelope not found") (Tables.value? · row.messageKey)
  return (row, value)

/-- `read_payload`: the payload of a live message. -/
def readPayload (queue messageId : String) : Program Store (Except String JsonText) :=
  prim (Conn.onFiles (Files.read (buildPayloadPath queue messageId)))

/-- The leased message, as far as its value and its payload file parse. -/
def readMessage (row : IndexRow) (value : JsonText) : Program Store (Option MessageEnvelope) := do
  match leasedEnvelope row value with
  | none => return none
  | some envelope =>
    return withPayload envelope (← readPayload envelope.queue envelope.messageId)

/-- The text of the library's own exception after "envelope parse error" is left out. -/
def leaseNext (schema : SchemaFile) (env : Env) (queue consumerId : String)
    (visibilityTimeoutSec : Int) : Program Store LeaseResult := do
  let leaseUntil := env.now + visibilityTimeoutSec * 1000
  match ← transaction (leaseRow schema queue consumerId env.now leaseUntil) with
  | .error e => return { error := e }
  | .ok (row, value) =>
    match ← readMessage row value with
    | none => return { error := some "envelope parse error" }
    | some message =>
      return {
        leased := true
        message := some message
        lease := some ⟨env.guid, row.messageKey, consumerId, leaseUntil⟩ }

/-- `SELECT queue FROM msg_index WHERE message_key = … AND state = …` -/
def queueInState (key : String) (state : MessageState) (t : Tables) : Option String :=
  (t.index.find? fun r => r.messageKey = key ∧ r.state = state).map IndexRow.queue

/-- `ack`: the rows are deleted in a transaction and the payload is archived after it, whatever
    comes of that. Neither the consumer nor the lease is compared. -/
def ack (schema : SchemaFile) (lease : LeaseToken) : Program Store Status := do
  let key := lease.messageKey
  match ← transaction (do
    let queue ← query (some "message not found or not inflight") (queueInState key .inflight)
    execute id <| always <| Tables.deleteIndex fun r => r.messageKey = key
    execute id <| always <| deleteKv schema key
    return queue) with
  | .error e => return .error e
  | .ok queue =>
    let messageId := extractMessageIdFromKey key
    movePayload (buildPayloadPath queue messageId) (buildArchivePath queue messageId)
    return .ok ()

/-- `json_set(value, '$.dlqReason', …, '$.dlqAt', …)` -/
def withDlqFields (reason : String) (now : Int) (envelope : Json String) : Json String :=
  jsonSet "dlqAt" (.int now) (jsonSet "dlqReason" (.str reason) envelope)

/-- `json_remove(json_set(value, '$.attempt', 0), '$.dlqReason', '$.dlqAt')` -/
def withoutDlqFields (envelope : Json String) : Json String :=
  jsonRemove "dlqAt" (jsonRemove "dlqReason" (jsonSet "attempt" (.int 0) envelope))

/-- `nack`: for another delivery only the row is set back; otherwise the row and the value are
    marked, and the payload is moved to the DLQ before the transaction ends. -/
def nack (env : Env) (lease : LeaseToken) (reason : String) (requeue : Bool) :
    Program Store Status :=
  let key := lease.messageKey
  transaction do
    let queue ← query (some "message not found or not inflight") (queueInState key .inflight)
    if requeue then
      execute id <| always <| Tables.updateIndex (fun r => r.messageKey = key)
        fun r => { r with state := .ready, leaseUntil := none, availableAt := env.now }
    else
      execute id <| always <| Tables.updateIndex (fun r => r.messageKey = key)
        fun r => { r with state := .dlq, leaseUntil := none }
      orDefault (execute id (editKv key env.now (withDlqFields reason env.now))) ()
      let messageId := extractMessageIdFromKey key
      ExceptT.lift (movePayload (buildPayloadPath queue messageId) (buildDlqPath queue messageId))

/-- `extend_lease`: one statement on the row of the key, if its lease is running. Nobody looks
    whether there was one, or whose the lease is. -/
def extendLease (env : Env) (lease : LeaseToken) (visibilityTimeoutSec : Int) :
    Program Store Status :=
  ExceptT.run <| execute id <| always <| Tables.updateIndex
    (fun r => r.messageKey = lease.messageKey ∧ r.state = .inflight ∧
      r.leaseUntil.any (env.now < ·))
    (fun r => { r with leaseUntil := some (env.now + visibilityTimeoutSec * 1000) })

/-- `save_policy`: the policy replaces the one that is stored. -/
def savePolicy (env : Env) (queue : String) (policy : QueuePolicy) : Program Store Status := do
  let _ ← prim (Conn.onFiles fun files => .ok ((), files)) -- ensure_payload_directories
  ExceptT.run <| execute id <| always <| Tables.upsertKv
    ⟨"policy:" ++ queue, some policy.toJson, "policy", env.now, env.now⟩

/-- An update preceded by a query that counts its rows; the update is left out when there are
    none or the query fails. -/
def updateCounting (p : IndexRow → Bool) (f : IndexRow → IndexRow) :
    Program Store (Except (Option String) Nat) := do
  match ← prim (Conn.reading fun t => (t.index.filter p).length) with
  | .error _ | .ok 0 => return .ok 0
  | .ok count =>
    match ← (execute id <| always <| Tables.updateIndex p f).run with
    | .error e => return .error e
    | .ok () => return .ok count

/-- `recover_expired_leases`: every expired lease is ended in one statement. -/
def recoverExpiredLeases (env : Env) : Program Store (Except (Option String) Nat) :=
  updateCounting (Tables.isExpired env.now) fun r =>
    { r with state := .ready, leaseUntil := none, availableAt := env.now }

/-- `process_delayed_messages`: every message whose time has come is made ready in one
    statement. -/
def processDelayedMessages (env : Env) : Program Store (Except (Option String) Nat) :=
  updateCounting (fun r => r.state = .delayed ∧ r.availableAt ≤ env.now) fun r =>
    { r with state := .ready }

/-- `get_expired_inflight_messages`: the expired leases as the index tells them. -/
def getExpiredInflightMessages (env : Env) :
    Program Store (Except String (List ExpiredLeaseInfo)) :=
  prim (Conn.reading (Tables.expiredRows env.now))

/-- `delay_message`: one statement, on the row of the key in whatever state it is. -/
def delayMessage (env : Env) (messageKey : String) (delayMs : Int) : Program Store Status :=
  ExceptT.run <| execute id <| always <| Tables.updateIndex
    (fun r => r.messageKey = messageKey)
    (fun r =>
      { r with
        state := if 0 < delayMs then .delayed else .ready
        leaseUntil := none, availableAt := env.now + delayMs })

/-- `move_to_dlq`: the row and the value are marked in a transaction and the payload is moved after
    it. -/
def moveToDlq (env : Env) (messageKey reason : String) : Program Store Status := do
  match ← transaction (do
    -- a failing query leaves the queue empty, as a missing row does
    let queue ← orDefault (query none fun t => (t.row? messageKey).map IndexRow.queue) ""
    execute id <| always <| Tables.updateIndex (fun r => r.messageKey = messageKey)
      fun r => { r with state := .dlq, leaseUntil := none }
    orDefault (execute id (editKv messageKey env.now (withDlqFields reason env.now))) ()
    return queue) with
  | .error e => return .error e
  | .ok queue =>
    if queue ≠ "" then
      let messageId := extractMessageIdFromKey messageKey
      movePayload (buildPayloadPath queue messageId) (buildDlqPath queue messageId)
    return .ok ()

/-- `reprocess_dlq_message`: the row and the value are unmarked in a transaction and the payload is
    moved back after it. -/
def reprocessDlqMessage (env : Env) (messageKey : String) : Program Store Status := do
  match ← transaction (do
    let queue ← query (some "DLQ message not found") (queueInState messageKey .dlq)
    execute id <| always <| Tables.updateIndex (fun r => r.messageKey = messageKey)
      fun r =>
        { r with
          state := .ready, leaseUntil := none, availableAt := env.now, attempt := 0
          dlqReason := none, dlqAt := none }
    orDefault (execute id (editKv messageKey env.now withoutDlqFields)) ()
    return queue) with
  | .error e => return .error e
  | .ok queue =>
    if queue ≠ "" then
      let messageId := extractMessageIdFromKey messageKey
      movePayload (buildDlqPath queue messageId) (buildPayloadPath queue messageId)
    return .ok ()

/-- `list_dlq_messages`: the dead letters of the queue, the latest first. -/
def listDlqMessages (queue : String) (limit : Int) :
    Program Store (List DlqMessageInfo × Option String) := do
  match ← prim (Conn.reading (Tables.deadRows queue limit)) with
  | .error e => return ([], some e)
  | .ok rows => return (rows.map Tables.dlqInfo, none)

/-- The operation that a call runs. -/
def program (schema : SchemaFile) (env : Env) : Call → Program Store Reply
  | .enqueue message => enqueue schema env message
  | .leaseNext queue consumerId timeout =>
    return .lease (← leaseNext schema env queue consumerId timeout)
  | .ack lease => return .status (← ack schema lease)
  | .nack lease reason requeue => return .status (← nack env lease reason requeue)
  | .extendLease lease timeout => return .status (← extendLease env lease timeout)
  | .savePolicy queue policy => return .status (← savePolicy env queue policy)
  | .recoverExpiredLeases => return .ofCount (← recoverExpiredLeases env)
  | .processDelayedMessages => return .ofCount (← processDelayedMessages env)
  | .delayMessage messageKey delayMs => return .status (← delayMessage env messageKey delayMs)
  | .moveToDlq messageKey reason => return .status (← moveToDlq env messageKey reason)
  | .reprocessDlqMessage messageKey => return .status (← reprocessDlqMessage env messageKey)

/-- The adapter over a database created by one of the schema files. -/
def adapter (schema : SchemaFile) : Adapter Store where
  start := ⟨.empty, none, ∅⟩
  perform env call := (program schema env call).run env.faults
  expired env s := ((getExpiredInflightMessages env).run env.faults s).1

end YirangMQ.Hybrid

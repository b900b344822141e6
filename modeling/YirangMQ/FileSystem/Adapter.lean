import YirangMQ.Backend.Adapter
import YirangMQ.FileSystem.Paths
import YirangMQ.Library.Program
import Mathlib.Data.List.Sort

namespace YirangMQ.FileSystem

open Program

/-!
# The FileSystem adapter

`FileSystemAdapter`, one definition for each of its functions, as programs over the files
under its root.  The primitive steps are the writing of a temporary file, a rename, a
removal, the reading of a file and the listing of a directory; each is atomic and may fail.

The directories of a queue are there once a message has been enqueued, so a rename fails only
where its source is missing.  A directory is listed in the order of the disk.
-/

variable {α : Type}

/-! ### Files -/

/-- `read_file`: the whole content of a file. -/
def readFile (path : Path) : Program Disk (Except String JsonText) := do
  match ← prim (Files.read path) with
  | .error _ => return .error ("cannot open file: " ++ path.text)
  | .ok content => return .ok content

/-- `std::filesystem::rename`, with the text `move_file` makes of its error. -/
def moveFile (src dest : Path) : Program Disk (Except String Unit) := do
  match ← prim (Files.rename src dest) with
  | .error e => return .error ("move failed: " ++ e)
  | .ok () => return .ok ()

/-- Remove a file, whatever comes of it. -/
def deleteFile (path : Path) : Program Disk Unit := do
  let _ ← prim (Files.remove path)
  return ()

/-- Write a temporary file and rename it to its target.  Where the rename fails, the removal of the
    temporary file puts its own outcome into the error code that is told.  The path has no NUL
    character, at which both names would end. -/
def atomicWrite (target : Path) (content : JsonText) : Program Disk (Except String Unit) := do
  match ← prim (Files.create (.temp target) content) with
  | .error _ => return .error ("cannot create temp file: " ++ (Path.temp target).text)
  | .ok () =>
    match ← prim (Files.rename (.temp target) target) with
    | .error _ =>
      let removed ← prim (Files.remove (.temp target))
      return .error ("rename failed: " ++ Files.errorMessage removed)
    | .ok () => return .ok ()

/-- A directory as `directory_iterator` gives it; one that cannot be read is empty. -/
def listDirectory (entries : Disk → List α) : Program Disk (List α) := do
  match ← prim (fun disk => .ok (entries disk, disk)) with
  | .error _ => return []
  | .ok l => return l

/-- The identifiers of the files `<id>.json` in a directory of a queue.  A file named `.json`
    has no extension. -/
def Disk.ids (disk : Disk) (location : Directory) (dir : SubDir) : List String :=
  disk.keys.filterMap fun path =>
    match path with
    | .message l d id => if l = location ∧ d = dir ∧ id ≠ "" then some id else none
    | _ => none

/-- `list_json_files` on a directory of a queue, in the order of the file names. -/
def listJsonFiles (queue : String) (dir : SubDir) : Program Disk (List String) := do
  let ids ← listDirectory (Disk.ids · (resolve [] queue) dir)
  return ids.insertionSort fun a b => a ++ ".json" ≤ b ++ ".json"

/-- The files under `<meta>/leases`, temporary ones included. -/
def Disk.leasePaths (disk : Disk) : List Path :=
  disk.keys.filter fun path =>
    match path with
    | .leaseMeta _ | .temp (.leaseMeta _) => true
    | _ => false

/-- The entries of the root that `process_delayed_messages` visits. -/
def Disk.queues (disk : Disk) : List String :=
  (disk.keys.filterMap fun path =>
    match path with
    | .message [name] _ _ =>
      if name ≠ metaDir ∧ name ≠ ".." ∧ name ≠ "/" then some name else none
    | _ => none).dedup

/-! ### Documents -/

/-- `serialize_envelope`: the document of a message file. The payload and the attributes are strings
    in it. -/
def serializeEnvelope (envelope : MessageEnvelope) : Json String :=
  .obj [("key", .str envelope.key), ("messageId", .str envelope.messageId),
    ("queue", .str envelope.queue), ("payload", .str envelope.payloadJson),
    ("attributes", .str envelope.attributesJson), ("priority", .int envelope.priority),
    ("attempt", .int envelope.attempt), ("createdAt", .int envelope.createdAtMs),
    ("availableAt", .int envelope.availableAtMs),
    ("targetConsumerId", .str envelope.targetConsumerId)]

/-- `deserialize_envelope`: a missing field takes its default, one of another type fails. -/
def deserializeEnvelope (content : JsonText) : Option MessageEnvelope := do
  let j ← content
  return {
    key := ← j.valueStr "key" ""
    messageId := ← j.valueStr "messageId" ""
    queue := ← j.valueStr "queue" ""
    payloadJson := ← j.valueStr "payload" "{}"
    attributesJson := ← j.valueStr "attributes" "{}"
    priority := ← j.valueInt "priority" 0
    attempt := ← j.valueInt "attempt" 0
    createdAtMs := ← j.valueInt "createdAt" 0
    availableAtMs := ← j.valueInt "availableAt" 0
    targetConsumerId := ← j.valueStr "targetConsumerId" "" }

/-- A lease as `write_lease_meta` is given it; the key of the message stands beside it. -/
structure LeaseMeta where
  consumerId : String
  leaseId : String
  leaseUntilMs : Int
  attempt : Int
  queue : String
  deriving DecidableEq, Repr

/-- The document that `write_lease_meta` writes. -/
def LeaseMeta.toJson (lease : LeaseMeta) (key : String) : Json String :=
  .obj [("messageKey", .str key), ("consumerId", .str lease.consumerId),
    ("leaseId", .str lease.leaseId), ("leaseUntil", .int lease.leaseUntilMs),
    ("attempt", .int lease.attempt), ("queue", .str lease.queue)]

/-- The lease that `read_lease_meta` makes of a document. The `messageKey` in it is not looked
    at. -/
def LeaseMeta.ofJson (content : JsonText) : Option LeaseMeta := do
  let j ← content
  return {
    consumerId := ← j.valueStr "consumerId" ""
    leaseId := ← j.valueStr "leaseId" ""
    leaseUntilMs := ← j.valueInt "leaseUntil" 0
    attempt := ← j.valueInt "attempt" 0
    queue := ← j.valueStr "queue" "" }

/-- What `write_delayed_meta` notes of a message that waits. -/
structure DelayedMeta where
  messageKey : String
  queue : String
  availableAtMs : Int
  attempt : Int
  deriving DecidableEq, Repr

/-- The document that `write_delayed_meta` writes. -/
def DelayedMeta.toJson (delayed : DelayedMeta) : Json String :=
  .obj [("messageKey", .str delayed.messageKey), ("queue", .str delayed.queue),
    ("availableAt", .int delayed.availableAtMs), ("attempt", .int delayed.attempt)]

/-- `envelope["dlqReason"] = reason; envelope["dlqAt"] = now` -/
def withDlqFields (reason : String) (now : Int) (envelope : Json String) : Option (Json String) := do
  (← envelope.set "dlqReason" (.str reason)).set "dlqAt" (.int now)

/-- `envelope["availableAt"] = time` -/
def withAvailableAt (time : Int) (envelope : Json String) : Option (Json String) :=
  envelope.set "availableAt" (.int time)

/-- The envelope as `reprocess_dlq_message` puts it back. -/
def reprocessed (now : Int) (envelope : Json String) : Option (Json String) := do
  let envelope ← (← envelope.erase "dlqReason").erase "dlqAt"
  (← envelope.set "attempt" (.int 0)).set "availableAt" (.int now)

/-! ### Lease and delay files -/

/-- Write the file of a name in a directory.  A name with a slash leads to a directory that is
    not there; only a queue string with slashes, such as `meta/leases/msg_x`, could have made it. -/
def writeNamed (name : String) (path : Path) (content : JsonText) :
    Program Disk (Except String Unit) :=
  if '/' ∈ name.toList then
    return .error ("cannot create temp file: " ++ (Path.temp path).text)
  else atomicWrite path content

/-- `write_lease_meta`: the lease file is named after the key with its separators replaced. -/
def writeLeaseMeta (key : String) (lease : LeaseMeta) : Program Disk (Except String Unit) :=
  writeNamed key (.leaseMeta (safeKey key)) (some (lease.toJson key))

/-- The text of the library's own exception after "lease meta parse error" is left out. -/
def readLeaseMeta (key : String) : Program Disk (Except String LeaseMeta) := do
  match ← readFile (.leaseMeta (safeKey key)) with
  | .error e => return .error e
  | .ok content =>
    match LeaseMeta.ofJson content with
    | none => return .error "lease meta parse error"
    | some lease => return .ok lease

/-- `delete_lease_meta`, whose outcome no caller looks at. -/
def deleteLeaseMeta (key : String) : Program Disk Unit := deleteFile (.leaseMeta (safeKey key))

/-- `write_delayed_meta`, whose outcome no caller looks at. -/
def writeDelayedMeta (delayed : DelayedMeta) : Program Disk Unit := do
  let _ ← writeNamed delayed.messageKey (.delayedMeta (safeKey delayed.messageKey))
    (some delayed.toJson)
  return ()

/-! ### Operations -/

/-- `enqueue`: a message that is not yet available is noted and goes to `delayed/`, any other one to
    `inbox/`. Neither the key nor the identifier is checked against what is stored. -/
def enqueue (env : Env) (message : MessageEnvelope) : Program Disk Status := do
  match ← prim (fun disk => .ok ((), disk)) with -- ensure_queue_directories
  | .error e => return .error (some e)
  | .ok () =>
    let dir ← if env.now < message.availableAtMs then do
        writeDelayedMeta ⟨message.key, message.queue, message.availableAtMs, message.attempt⟩
        pure SubDir.delayed
      else pure SubDir.inbox
    match ← atomicWrite (queuePath message.queue dir message.messageId)
        (some (serializeEnvelope message)) with
    | .error e => return .error (some e)
    | .ok () => return .ok ()

/-- The first of the listed inbox files whose message may go to the consumer. -/
def findMatch (queue consumerId : String) :
    List String → Program Disk (Option (String × MessageEnvelope))
  | [] => return none
  | id :: ids => do
    match ← readFile (queuePath queue .inbox id) with
    | .error _ => findMatch queue consumerId ids
    | .ok content =>
      match deserializeEnvelope content with
      | none => findMatch queue consumerId ids
      | some envelope =>
        if envelope.targetConsumerId = "" ∨ envelope.targetConsumerId = consumerId then
          return some (id, envelope)
        else findMatch queue consumerId ids

/-- `lease_next`: the first fitting file of `inbox/` moves to `processing/`, and only then its lease
    is written. Where that fails the file is moved back; where the envelope cannot be rewritten the
    lease is given all the same. -/
def leaseNext (env : Env) (queue consumerId : String) (visibilityTimeoutSec : Int) :
    Program Disk LeaseResult := do
  match ← findMatch queue consumerId (← listJsonFiles queue .inbox) with
  | none => return {}
  | some (id, envelope) =>
    match ← moveFile (queuePath queue .inbox id) (queuePath queue .processing id) with
    | .error e => return { error := some e }
    | .ok () =>
      let leaseUntil := env.now + visibilityTimeoutSec * 1000
      let attempt := envelope.attempt + 1
      match ← writeLeaseMeta envelope.key ⟨consumerId, env.guid, leaseUntil, attempt, queue⟩ with
      | .error e =>
        let _ ← moveFile (queuePath queue .processing id) (queuePath queue .inbox id)
        return { error := some e }
      | .ok () =>
        let _ ← atomicWrite (queuePath queue .processing id)
          (some (serializeEnvelope { envelope with attempt }))
        return {
          leased := true
          message := some { envelope with attempt }
          lease := some ⟨env.guid, envelope.key, consumerId, leaseUntil⟩ }

/-- Move a file out of `processing/` and delete the lease file of the key. -/
def leaveProcessing (key : String) (src dest : Path) : Program Disk Status := do
  match ← moveFile src dest with
  | .error e => return .error (some e)
  | .ok () =>
    deleteLeaseMeta key
    return .ok ()

/-- Rewrite a file with an edited document, if it can be read and edited. -/
def editFile (path : Path) (edit : Json String → Option (Json String)) : Program Disk Unit := do
  match ← readFile path with
  | .error _ => return ()
  | .ok content =>
    match content.bind edit with
    | none => return ()
    | some envelope =>
      let _ ← atomicWrite path (some envelope)
      return ()

/-- `ack`: a running lease of the consumer lets the file go from `processing/` to `archive/`. The
    lease identifier is not compared. -/
def ack (env : Env) (lease : LeaseToken) : Program Disk Status := do
  match ← readLeaseMeta lease.messageKey with
  | .error e => return .error (some ("lease not found: " ++ e))
  | .ok stored =>
    if stored.leaseUntilMs < env.now then return .error (some "lease expired")
    else if stored.consumerId ≠ lease.consumerId then
      return .error (some "consumer_id mismatch")
    else
      match messageIdOf lease.messageKey with
      | none => return .error (some "invalid message key format")
      | some id =>
        leaveProcessing lease.messageKey (queuePath stored.queue .processing id)
          (queuePath stored.queue .archive id)

/-- `nack`: neither the consumer nor the end of the lease is looked at. Back to `inbox/` the file
    goes as it is, to `dlq/` with the reason in it. -/
def nack (env : Env) (lease : LeaseToken) (reason : String) (requeue : Bool) :
    Program Disk Status := do
  match ← readLeaseMeta lease.messageKey with
  | .error e => return .error (some ("lease not found: " ++ e))
  | .ok stored =>
    match messageIdOf lease.messageKey with
    | none => return .error (some "invalid message key format")
    | some id =>
      let processing := queuePath stored.queue .processing id
      if requeue then
        leaveProcessing lease.messageKey processing (queuePath stored.queue .inbox id)
      else
        editFile processing (withDlqFields reason env.now)
        leaveProcessing lease.messageKey processing (queuePath stored.queue .dlq id)

/-- `extend_lease`: the lease file is written anew with another end, counted from now. -/
def extendLease (env : Env) (lease : LeaseToken) (visibilityTimeoutSec : Int) :
    Program Disk Status := do
  match ← readLeaseMeta lease.messageKey with
  | .error e => return .error (some ("lease not found: " ++ e))
  | .ok stored =>
    if stored.consumerId ≠ lease.consumerId then return .error (some "consumer_id mismatch")
    else if stored.leaseUntilMs < env.now then return .error (some "lease expired")
    else
      let extended := { stored with leaseUntilMs := env.now + visibilityTimeoutSec * 1000 }
      match ← writeLeaseMeta lease.messageKey extended with
      | .error e => return .error (some e)
      | .ok () => return .ok ()

/-- `save_policy`, without the cache that it fills first. -/
def savePolicy (queue : String) (policy : QueuePolicy) : Program Disk Status := do
  let _ ← prim (fun disk => .ok ((), disk)) -- ensure_queue_directories
  match ← writeNamed queue (.policy queue) (some policy.toJson) with
  | .error e => return .error (some e)
  | .ok () => return .ok ()

/-- The expired lease that `recover_expired_leases` finds in a lease file: the queue and the
    identifier of its message. -/
def expiredLease (now : Int) (content : JsonText) : Option (String × String) := do
  let j ← content
  if (← j.valueInt "leaseUntil" 0) < now then
    let key ← j.valueStr "messageKey" ""
    let queue ← j.valueStr "queue" ""
    if key = "" ∨ queue = "" then none
    else
      let id ← messageIdOf key
      return (queue, id)
  else none

/-- One round of `recover_expired_leases`.  A rename fails where the file does not exist. -/
def recoverLease (env : Env) (path : Path) : Program Disk Nat := do
  match ← readFile path with
  | .error _ => return 0
  | .ok content =>
    match expiredLease env.now content with
    | none => return 0
    | some (queue, id) =>
      let moved ← prim (Files.rename (queuePath queue .processing id) (queuePath queue .inbox id))
      deleteFile path
      match moved with
      | .error _ => return 0
      | .ok () => return 1

/-- `recover_expired_leases`: one round for each file under `leases/`. -/
def recoverExpiredLeases (env : Env) : Program Disk Nat := do
  sumList (recoverLease env) (← listDirectory Disk.leasePaths)

/-- One round of `process_delayed_messages`. -/
def processDelayed (env : Env) (queue id : String) : Program Disk Nat := do
  match ← readFile (queuePath queue .delayed id) with
  | .error _ => return 0
  | .ok content =>
    match content.bind fun j => (j.valueInt "availableAt" 0).map fun time => (j, time) with
    | none => return 0
    | some (j, availableAt) =>
      if availableAt ≤ env.now then
        match ← prim (Files.rename (queuePath queue .delayed id) (queuePath queue .inbox id)) with
        | .error _ => return 0
        | .ok () =>
          match j.valueStr "key" "" with
          | none => return 1
          | some key =>
            if key ≠ "" then deleteFile (.delayedMeta (safeKey key))
            return 1
      else return 0

/-- `process_delayed_messages`: one round for each file in `delayed/` of every queue directory. -/
def processDelayedMessages (env : Env) : Program Disk Nat := do
  sumList (fun queue => do sumList (processDelayed env queue) (← listJsonFiles queue .delayed))
    (← listDirectory Disk.queues)

/-- What `get_expired_inflight_messages` reads off a lease file. -/
def expiredInfo (now : Int) (content : JsonText) : Option ExpiredLeaseInfo := do
  let j ← content
  if (← j.valueInt "leaseUntil" 0) < now then
    return ⟨← j.valueStr "messageKey" "", ← j.valueStr "queue" "", ← j.valueInt "attempt" 0⟩
  else none

/-- The contents of the files that can be read. -/
def readFiles : List Path → Program Disk (List JsonText)
  | [] => return []
  | path :: paths => do
    match ← readFile path with
    | .error _ => readFiles paths
    | .ok content => return content :: (← readFiles paths)

/-- `get_expired_inflight_messages`: the expired leases as their files tell them. -/
def getExpiredInflightMessages (env : Env) : Program Disk (List ExpiredLeaseInfo) := do
  return (← readFiles (← listDirectory Disk.leasePaths)).filterMap (expiredInfo env.now)

/-- `delay_message`: an inflight message goes to `delayed/` with its new time, or straight to
    `inbox/` where the delay is not positive. -/
def delayMessage (env : Env) (messageKey : String) (delayMs : Int) : Program Disk Status := do
  match ← readLeaseMeta messageKey with
  | .error e => return .error (some e)
  | .ok stored =>
    match messageIdOf messageKey with
    | none => return .error (some "invalid message key format")
    | some id =>
      let processing := queuePath stored.queue .processing id
      if delayMs ≤ 0 then
        leaveProcessing messageKey processing (queuePath stored.queue .inbox id)
      else
        editFile processing (withAvailableAt (env.now + delayMs))
        match ← moveFile processing (queuePath stored.queue .delayed id) with
        | .error e => return .error (some e)
        | .ok () =>
          writeDelayedMeta ⟨messageKey, stored.queue, env.now + delayMs, stored.attempt⟩
          deleteLeaseMeta messageKey
          return .ok ()

/-- `move_to_dlq`: an inflight message goes to `dlq/` with the reason in it. -/
def moveToDlq (env : Env) (messageKey reason : String) : Program Disk Status := do
  match ← readLeaseMeta messageKey with
  | .error e => return .error (some e)
  | .ok stored =>
    match messageIdOf messageKey with
    | none => return .error (some "invalid message key format")
    | some id =>
      editFile (queuePath stored.queue .processing id) (withDlqFields reason env.now)
      leaveProcessing messageKey (queuePath stored.queue .processing id)
        (queuePath stored.queue .dlq id)

/-- The text of the library's own exception after "failed to parse DLQ message" is left out. -/
def reprocessDlqMessage (env : Env) (messageKey : String) : Program Disk Status := do
  if extractQueueFromKey messageKey = "" then return .error (some "invalid message key format")
  else
    match messageIdOf messageKey with
    | none => return .error (some "invalid message key format")
    | some id =>
      let queue := extractQueueFromKey messageKey
      match ← readFile (queuePath queue .dlq id) with
      | .error e => return .error (some ("DLQ message not found: " ++ e))
      | .ok content =>
        match content.bind (reprocessed env.now) with
        | none => return .error (some "failed to parse DLQ message")
        | some envelope =>
          match ← atomicWrite (queuePath queue .dlq id) (some envelope) with
          | .error e => return .error (some e)
          | .ok () =>
            match ← moveFile (queuePath queue .dlq id) (queuePath queue .inbox id) with
            | .error e => return .error (some e)
            | .ok () => return .ok ()

/-- What `list_dlq_messages` reads off a file of the DLQ. -/
def dlqInfo (queue : String) (content : JsonText) : Option DlqMessageInfo := do
  let j ← content
  return {
    messageKey := ← j.valueStr "key" ""
    queue := ← j.valueStr "queue" queue
    reason := ← j.valueStr "dlqReason" ""
    dlqAtMs := ← j.valueInt "dlqAt" 0
    attempt := ← j.valueInt "attempt" 0 }

/-- The entries of the files, until there are as many as the limit. -/
def readDlqFiles (queue : String) : Int → List String → Program Disk (List DlqMessageInfo)
  | _, [] => return []
  | limit, id :: ids => do
    if limit ≤ 0 then return []
    else
      match ← readFile (queuePath queue .dlq id) with
      | .error _ => readDlqFiles queue limit ids
      | .ok content =>
        match dlqInfo queue content with
        | none => readDlqFiles queue limit ids
        | some info => return info :: (← readDlqFiles queue (limit - 1) ids)

/-- `list_dlq_messages`: in the order of the file names. It never reports an error. -/
def listDlqMessages (queue : String) (limit : Int) :
    Program Disk (List DlqMessageInfo × Option String) := do
  let ids ← listJsonFiles queue .dlq
  return (← readDlqFiles queue limit ids, none)

/-- `metrics`: the files in the directories of the queue, whatever they hold. -/
def metrics (queue : String) : Program Disk QueueMetrics := do
  let ready ← listJsonFiles queue .inbox
  let inflight ← listJsonFiles queue .processing
  let delayed ← listJsonFiles queue .delayed
  let dlq ← listJsonFiles queue .dlq
  return ⟨ready.length, inflight.length, delayed.length, dlq.length⟩

/-- The operation that a call runs. -/
def program (env : Env) : Call → Program Disk Reply
  | .enqueue message => return .status (← enqueue env message)
  | .leaseNext queue consumerId timeout => return .lease (← leaseNext env queue consumerId timeout)
  | .ack lease => return .status (← ack env lease)
  | .nack lease reason requeue => return .status (← nack env lease reason requeue)
  | .extendLease lease timeout => return .status (← extendLease env lease timeout)
  | .savePolicy queue policy => return .status (← savePolicy queue policy)
  | .recoverExpiredLeases => return .count (← recoverExpiredLeases env) none
  | .processDelayedMessages => return .count (← processDelayedMessages env) none
  | .delayMessage messageKey delayMs => return .status (← delayMessage env messageKey delayMs)
  | .moveToDlq messageKey reason => return .status (← moveToDlq env messageKey reason)
  | .reprocessDlqMessage messageKey => return .status (← reprocessDlqMessage env messageKey)

/-- The adapter over an empty root directory. -/
def adapter : Adapter Disk where
  start := ∅
  perform env call := (program env call).run env.faults
  expired env disk := .ok ((getExpiredInflightMessages env).run env.faults disk).1

end YirangMQ.FileSystem

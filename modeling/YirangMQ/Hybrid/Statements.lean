import YirangMQ.Hybrid.Lifecycle
import YirangMQ.Library.JsonWriter

namespace YirangMQ

open SqlText

/-- An issue `check_consistency` reports, as far as `repair_consistency` reads it. -/
inductive ConsistencyIssueType where
  | orphanPayload
  | missingPayload
  | invalidState
  | staleArchive
  deriving DecidableEq, Repr

/-- `ConsistencyIssue`, without its description. -/
structure ConsistencyIssue where
  type : ConsistencyIssueType
  queue : String
  messageKey : String
  payloadPath : String
  deriving DecidableEq, Repr

namespace Hybrid

/-!
# The texts of the Hybrid adapter's statements

`HybridAdapter` formats its arguments into the texts of its statements, strings between
apostrophes, and `SQLite::execute` and `SQLite::query` hand the text to `sqlite3_exec`.

* `SqliteConfig` and the statements, one definition for each text of the source;
* `Operation` — the operations, each with what its queries find;
* `Operation.statements` — the statements it executes;
* `Operation.Plain` — none of its strings contains an apostrophe or a NUL character;
* `Operation.meansBound_iff` — **exactly then its statements are the bound ones.**
-/

/-- The names of the two tables, as the configuration has them. -/
structure SqliteConfig where
  kvTable : Word
  messageIndexTable : Word

/-! ### The statements -/

/-- The statements, each with what is spliced into it. -/
inductive Statement where
  -- `enqueue`
  | insertKv (key envelope : String) (now : Int)
  | insertIdx (message : MessageEnvelope) (state : String)
  -- `lease_next` and `load_policy`
  | selectReady (queue : String) (now : Int) (consumerId : String)
  | updateInflight (leaseUntil attempt : Int) (messageKey : String)
  | selectValue (key : String)
  -- `ack`, `nack`, `extend_lease`, `delay_message`, `move_to_dlq` and `reprocess_dlq_message`
  | selectQueue (messageKey : String)
  | selectQueueInflight (messageKey : String)
  | selectQueueDlq (messageKey : String)
  | deleteIdx (messageKey : String)
  | deleteKv (messageKey : String)
  | updateReady (now : Int) (messageKey : String)
  | updateDlq (messageKey : String)
  | updateDlqFields (reason : String) (now : Int) (messageKey : String)
  | updateLease (leaseUntil : Int) (messageKey : String) (now : Int)
  | updateDelay (newState : String) (availableAt : Int) (messageKey : String)
  | updateReprocessed (now : Int) (messageKey : String)
  | removeDlqFields (now : Int) (messageKey : String)
  -- `save_policy`, `metrics` and `list_dlq_messages`
  | upsertPolicy (policyKey policy : String) (now : Int)
  | countStates (queue : String)
  | selectDlq (queue : String) (limit : Int)
  -- `recover_expired_leases`, `process_delayed_messages` and `get_expired_inflight_messages`
  | countExpired (now : Int)
  | updateExpired (now : Int)
  | countDelayed (now : Int)
  | updateDelayed (now : Int)
  | selectExpired (now : Int)
  -- `check_consistency` and `repair_consistency`
  | selectQueues
  | selectKeys (queue : String)
  | selectActiveKeys (queue : String)
  | selectDlqKeys (queue : String)
  | insertRepairedKv (messageKey envelope : String) (now : Int)
  | insertRepairedIdx (queue : String) (now : Int) (messageKey : String)
  | updateMissing (now : Int) (messageKey : String)
  | updateInvalid (now : Int) (messageKey : String)

/-- The text of a statement. -/
def Statement.template (config : SqliteConfig) : Statement → Template
  -- `enqueue`
  | .insertKv key envelope now =>
    [.sql "INSERT INTO ", .name config.kvTable,
      .sql " (key, value, value_type, created_at, updated_at) VALUES (", .string key, .sql ", ",
      .string envelope, .sql ", 'message', ", .int now, .sql ", ", .int now, .sql ")"]
  | .insertIdx message state =>
    [.sql "INSERT INTO ", .name config.messageIndexTable,
      .sql " (queue, state, priority, available_at, lease_until, attempt, target_consumer_id, ",
      .sql "message_key) VALUES (", .string message.queue, .sql ", ", .string state, .sql ", ",
      .int message.priority, .sql ", ", .int message.availableAtMs, .sql ", NULL, ",
      .int message.attempt, .sql ", ", .string message.targetConsumerId, .sql ", ",
      .string message.key, .sql ")"]
  -- `lease_next` and `load_policy`
  | .selectReady queue now consumerId =>
    [.sql "SELECT message_key, attempt FROM ", .name config.messageIndexTable,
      .sql " WHERE queue = ", .string queue, .sql " AND state = 'ready' AND available_at <= ",
      .int now, .sql " AND (target_consumer_id = '' OR target_consumer_id = ", .string consumerId,
      .sql ") ORDER BY priority DESC, available_at ASC LIMIT 1"]
  | .updateInflight leaseUntil attempt messageKey =>
    [.sql "UPDATE ", .name config.messageIndexTable, .sql " SET state = 'inflight', lease_until = ",
      .int leaseUntil, .sql ", attempt = ", .int attempt, .sql " WHERE message_key = ",
      .string messageKey]
  | .selectValue key =>
    [.sql "SELECT value FROM ", .name config.kvTable, .sql " WHERE key = ", .string key]
  -- `ack`, `nack`, `extend_lease`, `delay_message`, `move_to_dlq` and `reprocess_dlq_message`
  | .selectQueue messageKey =>
    [.sql "SELECT queue FROM ", .name config.messageIndexTable, .sql " WHERE message_key = ",
      .string messageKey]
  | .selectQueueInflight messageKey =>
    [.sql "SELECT queue FROM ", .name config.messageIndexTable, .sql " WHERE message_key = ",
      .string messageKey, .sql " AND state = 'inflight'"]
  | .selectQueueDlq messageKey =>
    [.sql "SELECT queue FROM ", .name config.messageIndexTable, .sql " WHERE message_key = ",
      .string messageKey, .sql " AND state = 'dlq'"]
  | .deleteIdx messageKey =>
    [.sql "DELETE FROM ", .name config.messageIndexTable, .sql " WHERE message_key = ",
      .string messageKey]
  | .deleteKv messageKey =>
    [.sql "DELETE FROM ", .name config.kvTable, .sql " WHERE key = ", .string messageKey]
  | .updateReady now messageKey =>
    [.sql "UPDATE ", .name config.messageIndexTable,
      .sql " SET state = 'ready', lease_until = NULL, available_at = ", .int now,
      .sql " WHERE message_key = ", .string messageKey]
  | .updateDlq messageKey =>
    [.sql "UPDATE ", .name config.messageIndexTable,
      .sql " SET state = 'dlq', lease_until = NULL WHERE message_key = ", .string messageKey]
  | .updateDlqFields reason now messageKey =>
    [.sql "UPDATE ", .name config.kvTable, .sql " SET value = json_set(value, '$.dlqReason', ",
      .string reason, .sql ", '$.dlqAt', ", .int now, .sql "), updated_at = ", .int now,
      .sql " WHERE key = ", .string messageKey]
  | .updateLease leaseUntil messageKey now =>
    [.sql "UPDATE ", .name config.messageIndexTable, .sql " SET lease_until = ", .int leaseUntil,
      .sql " WHERE message_key = ", .string messageKey,
      .sql " AND state = 'inflight' AND lease_until > ", .int now]
  | .updateDelay newState availableAt messageKey =>
    [.sql "UPDATE ", .name config.messageIndexTable, .sql " SET state = ", .string newState,
      .sql ", lease_until = NULL, available_at = ", .int availableAt, .sql " WHERE message_key = ",
      .string messageKey]
  | .updateReprocessed now messageKey =>
    [.sql "UPDATE ", .name config.messageIndexTable,
      .sql " SET state = 'ready', lease_until = NULL, available_at = ", .int now,
      .sql ", attempt = 0, dlq_reason = NULL, dlq_at = NULL WHERE message_key = ",
      .string messageKey]
  | .removeDlqFields now messageKey =>
    [.sql "UPDATE ", .name config.kvTable,
      .sql " SET value = json_remove(json_set(value, '$.attempt', 0), '$.dlqReason', '$.dlqAt'), ",
      .sql "updated_at = ", .int now, .sql " WHERE key = ", .string messageKey]
  -- `save_policy`, `metrics` and `list_dlq_messages`
  | .upsertPolicy policyKey policy now =>
    [.sql "INSERT INTO ", .name config.kvTable,
      .sql " (key, value, value_type, created_at, updated_at) VALUES (", .string policyKey,
      .sql ", ", .string policy, .sql ", 'policy', ", .int now, .sql ", ", .int now,
      .sql ") ON CONFLICT(key) DO UPDATE SET value = ", .string policy, .sql ", updated_at = ",
      .int now]
  | .countStates queue =>
    [.sql "SELECT state, COUNT(*) as cnt FROM ", .name config.messageIndexTable,
      .sql " WHERE queue = ", .string queue, .sql " GROUP BY state"]
  | .selectDlq queue limit =>
    [.sql "SELECT message_key, queue, dlq_reason, dlq_at, attempt FROM ",
      .name config.messageIndexTable, .sql " WHERE queue = ", .string queue,
      .sql " AND state = 'dlq' ORDER BY dlq_at DESC LIMIT ", .int limit]
  -- `recover_expired_leases`, `process_delayed_messages` and `get_expired_inflight_messages`
  | .countExpired now =>
    [.sql "SELECT COUNT(*) FROM ", .name config.messageIndexTable,
      .sql " WHERE state = 'inflight' AND lease_until < ", .int now]
  | .updateExpired now =>
    [.sql "UPDATE ", .name config.messageIndexTable,
      .sql " SET state = 'ready', lease_until = NULL, available_at = ", .int now,
      .sql " WHERE state = 'inflight' AND lease_until < ", .int now]
  | .countDelayed now =>
    [.sql "SELECT COUNT(*) FROM ", .name config.messageIndexTable,
      .sql " WHERE state = 'delayed' AND available_at <= ", .int now]
  | .updateDelayed now =>
    [.sql "UPDATE ", .name config.messageIndexTable,
      .sql " SET state = 'ready' WHERE state = 'delayed' AND available_at <= ", .int now]
  | .selectExpired now =>
    [.sql "SELECT message_key, queue, attempt FROM ", .name config.messageIndexTable,
      .sql " WHERE state = 'inflight' AND lease_until < ", .int now]
  -- `check_consistency` and `repair_consistency`
  | .selectQueues =>
    [.sql "SELECT DISTINCT queue FROM ", .name config.messageIndexTable]
  | .selectKeys queue =>
    [.sql "SELECT message_key FROM ", .name config.messageIndexTable, .sql " WHERE queue = ",
      .string queue]
  | .selectActiveKeys queue =>
    [.sql "SELECT message_key FROM ", .name config.messageIndexTable, .sql " WHERE queue = ",
      .string queue, .sql " AND state IN ('ready', 'inflight', 'delayed')"]
  | .selectDlqKeys queue =>
    [.sql "SELECT message_key FROM ", .name config.messageIndexTable, .sql " WHERE queue = ",
      .string queue, .sql " AND state = 'dlq'"]
  | .insertRepairedKv messageKey envelope now =>
    [.sql "INSERT OR IGNORE INTO ", .name config.kvTable,
      .sql " (key, value, value_type, created_at, updated_at) VALUES (", .string messageKey,
      .sql ", ", .string envelope, .sql ", 'message', ", .int now, .sql ", ", .int now, .sql ")"]
  | .insertRepairedIdx queue now messageKey =>
    [.sql "INSERT OR IGNORE INTO ", .name config.messageIndexTable,
      .sql " (queue, state, priority, available_at, attempt, message_key) VALUES (",
      .string queue, .sql ", 'ready', 0, ", .int now, .sql ", 0, ", .string messageKey, .sql ")"]
  | .updateMissing now messageKey =>
    [.sql "UPDATE ", .name config.messageIndexTable,
      .sql " SET state = 'dlq', dlq_reason = 'missing_payload', dlq_at = ", .int now,
      .sql " WHERE message_key = ", .string messageKey]
  | .updateInvalid now messageKey =>
    [.sql "UPDATE ", .name config.messageIndexTable, .sql " SET state = 'ready', available_at = ",
      .int now, .sql " WHERE message_key = ", .string messageKey]

/-! ### The operations -/

/-- The operations of the adapter, each with what its queries find: the row of `lease_next`,
    whether the check found a row, how many rows there are to update, the queues of
    `get_all_queues`, and whether the payload file of an issue is read.  `repair_consistency`
    repairs one issue after another. -/
inductive Operation where
  | enqueue (message : MessageEnvelope)
  | leaseNext (queue consumerId : String) (visibilityTimeoutSec : Int)
      (row : Option (String × Int))
  | ack (lease : LeaseToken) (found : Bool)
  | nack (lease : LeaseToken) (reason : String) (requeue : Bool) (found : Bool)
  | extendLease (lease : LeaseToken) (visibilityTimeoutSec : Int)
  | loadPolicy (queue : String)
  | savePolicy (queue : String) (policy : QueuePolicy)
  | metrics (queue : String)
  | recoverExpiredLeases (count : ℕ)
  | processDelayedMessages (count : ℕ)
  | getExpiredInflightMessages
  | delayMessage (messageKey : String) (delayMs : Int)
  | moveToDlq (messageKey reason : String)
  | listDlqMessages (queue : String) (limit : Int)
  | reprocessDlqMessage (messageKey : String) (found : Bool)
  | checkConsistency (queue : String) (queues : List String)
  | repairIssue (issue : ConsistencyIssue) (readable : Bool)

namespace Operation

/-- The envelope of a payload file without one. -/
def repairedEnvelopeJson (issue : ConsistencyIssue) (now : Int) : Json String :=
  .obj [("messageId", .str (extractMessageIdFromKey issue.messageKey)), ("queue", .str issue.queue),
    ("payloadPath", .str issue.payloadPath), ("priority", .int 0), ("attempt", .int 0),
    ("createdAt", .int now), ("repairedAt", .int now)]

/-- The document whose text the operation splices into a statement. -/
def document? (now : Int) : Operation → Option (Json String)
  | .enqueue message => some (envelopeJson message)
  | .savePolicy _ policy => some policy.toJson
  | .repairIssue issue readable =>
    if issue.type = .orphanPayload ∧ readable then some (repairedEnvelopeJson issue now) else none
  | _ => none

/-- The three queries of a queue. -/
def checkQueue (queue : String) : List Statement :=
  [.selectKeys queue, .selectActiveKeys queue, .selectDlqKeys queue]

/-- The statements an operation executes, in their order, as long as none fails.  `text` is the
    text of its document. -/
def statementsWith (now : Int) (text : String) : Operation → List Statement
  | .enqueue message =>
    [.insertKv message.key text now,
      .insertIdx message (if now < message.availableAtMs then "delayed" else "ready")]
  | .leaseNext queue consumerId visibilityTimeoutSec row =>
    .selectReady queue now consumerId ::
      match row with
      | none => []
      | some (messageKey, attempt) =>
        [.updateInflight (now + visibilityTimeoutSec * 1000) (attempt + 1) messageKey,
          .selectValue messageKey]
  | .ack lease found =>
    .selectQueueInflight lease.messageKey ::
      if found then [.deleteIdx lease.messageKey, .deleteKv lease.messageKey] else []
  | .nack lease reason requeue found =>
    .selectQueueInflight lease.messageKey ::
      if ¬ found then []
      else if requeue then [.updateReady now lease.messageKey]
      else [.updateDlq lease.messageKey, .updateDlqFields reason now lease.messageKey]
  | .extendLease lease visibilityTimeoutSec =>
    [.updateLease (now + visibilityTimeoutSec * 1000) lease.messageKey now]
  | .loadPolicy queue => [.selectValue ("policy:" ++ queue)]
  | .savePolicy queue _ => [.upsertPolicy ("policy:" ++ queue) text now]
  | .metrics queue => [.countStates queue]
  | .recoverExpiredLeases count =>
    .countExpired now :: if count = 0 then [] else [.updateExpired now]
  | .processDelayedMessages count =>
    .countDelayed now :: if count = 0 then [] else [.updateDelayed now]
  | .getExpiredInflightMessages => [.selectExpired now]
  | .delayMessage messageKey delayMs =>
    [.updateDelay (if 0 < delayMs then "delayed" else "ready") (now + delayMs) messageKey]
  | .moveToDlq messageKey reason =>
    [.selectQueue messageKey, .updateDlq messageKey, .updateDlqFields reason now messageKey]
  | .listDlqMessages queue limit => [.selectDlq queue limit]
  | .reprocessDlqMessage messageKey found =>
    .selectQueueDlq messageKey ::
      if found then [.updateReprocessed now messageKey, .removeDlqFields now messageKey] else []
  | .checkConsistency queue queues =>
    if queue = "" then .selectQueues :: queues.flatMap checkQueue else checkQueue queue
  | .repairIssue issue readable =>
    match issue.type with
    | .orphanPayload =>
      if readable then
        [.insertRepairedKv issue.messageKey text now,
          .insertRepairedIdx issue.queue now issue.messageKey]
      else []
    | .missingPayload => [.updateMissing now issue.messageKey]
    | .staleArchive => []
    | .invalidState => [.updateInvalid now issue.messageKey]

/-- The statements of an operation; a document that cannot be written is an exception, and
    nothing is executed. -/
def statements (lib : JsonLibrary) (now : Int) (op : Operation) : List Statement :=
  match op.document? now with
  | none => op.statementsWith now ""
  | some j =>
    match lib.dump j with
    | .ok text => op.statementsWith now text
    | .error _ => []

/-- The strings the operation splices into its statements, apart from the text of a document. -/
def strings : Operation → List String
  | .enqueue message => [message.key, message.queue, message.targetConsumerId]
  | .leaseNext queue consumerId _ row => queue :: consumerId :: row.toList.map Prod.fst
  | .ack lease _ | .extendLease lease _ => [lease.messageKey]
  | .nack lease reason requeue found =>
    if found ∧ ¬ requeue then [lease.messageKey, reason] else [lease.messageKey]
  | .loadPolicy queue | .metrics queue | .listDlqMessages queue _ | .savePolicy queue _ => [queue]
  | .recoverExpiredLeases _ | .processDelayedMessages _ | .getExpiredInflightMessages => []
  | .delayMessage messageKey _ | .reprocessDlqMessage messageKey _ => [messageKey]
  | .moveToDlq messageKey reason => [messageKey, reason]
  | .checkConsistency queue queues => if queue = "" then queues else [queue]
  | .repairIssue issue readable =>
    match issue.type with
    | .orphanPayload => if readable then [issue.messageKey, issue.queue] else []
    | .missingPayload | .invalidState => [issue.messageKey]
    | .staleArchive => []

/-- None of the operation's strings contains an apostrophe or a NUL character, and no string of a
    document it stores an apostrophe; where the document cannot be written, nothing is executed. -/
def Plain (now : Int) (op : Operation) : Prop :=
  (∀ j ∈ op.document? now, j.WellEncoded) →
    (∀ v ∈ op.strings, SqlText.Plain v) ∧
    ∀ j ∈ op.document? now, ∀ v ∈ j.strings, '\'' ∉ v.toList

/-- What is executed for the texts of the operation's statements are the statements with the
    strings bound to parameters. -/
def MeansBound (config : SqliteConfig) (lib : JsonLibrary) (now : Int) (op : Operation) : Prop :=
  ∀ statement ∈ op.statements lib now,
    executed (statement.template config).text = [(statement.template config).bound]

end Operation

/-! ### What the texts mean -/

variable {config : SqliteConfig} {lib : JsonLibrary} {now : Int} {text : String} {op : Operation}

/-- Every template is one statement, whatever the names of the tables. -/
theorem Statement.isStatement (statement : Statement) :
    (statement.template config).isStatement = true := by
  cases statement
  all_goals
    simp only [template, Template.isStatement, Template.wellFormed, Template.separated]
    repeat rw [String.toList_ofList]
    rfl

/-- **A statement's text means the bound statement exactly when its strings are plain.** -/
theorem Statement.executed_iff (statement : Statement) :
    executed (statement.template config).text = [(statement.template config).bound] ↔
      ∀ v ∈ (statement.template config).arguments, SqlText.Plain v :=
  executed_text_iff statement.isStatement

/-- The strings of a statement. -/
def Statement.strings : Statement → List String
  | .insertKv key envelope _ => [key, envelope]
  | .insertIdx message state => [message.queue, state, message.targetConsumerId, message.key]
  | .selectReady queue _ consumerId => [queue, consumerId]
  | .updateDlqFields reason _ messageKey => [reason, messageKey]
  | .updateDelay newState _ messageKey => [newState, messageKey]
  | .upsertPolicy policyKey policy _ => [policyKey, policy, policy]
  | .insertRepairedKv messageKey envelope _ => [messageKey, envelope]
  | .insertRepairedIdx queue _ messageKey => [queue, messageKey]
  | .updateInflight _ _ messageKey | .updateReady _ messageKey | .updateDlq messageKey
  | .updateLease _ messageKey _ | .updateReprocessed _ messageKey | .removeDlqFields _ messageKey
  | .updateMissing _ messageKey | .updateInvalid _ messageKey | .selectQueue messageKey
  | .selectQueueInflight messageKey | .selectQueueDlq messageKey | .deleteIdx messageKey
  | .deleteKv messageKey => [messageKey]
  | .selectValue key => [key]
  | .countStates queue | .selectDlq queue _ | .selectKeys queue | .selectActiveKeys queue
  | .selectDlqKeys queue => [queue]
  | .countExpired _ | .updateExpired _ | .countDelayed _ | .updateDelayed _ | .selectExpired _
  | .selectQueues => []

/-- The arguments of a statement are the strings in its template. -/
theorem Statement.arguments_template (statement : Statement) :
    (statement.template config).arguments = statement.strings := by
  cases statement <;> rfl

/-- The key of a policy is as plain as its queue. -/
theorem plain_policyKey {queue : String} :
    SqlText.Plain ("policy:" ++ queue) ↔ SqlText.Plain queue := by
  have hpolicy : SqlText.Plain "policy:" := by decide
  simp only [SqlText.Plain, String.toList_append, List.mem_append, not_or] at hpolicy ⊢
  tauto

/-- The texts of the states are plain. -/
theorem plain_stateText (p : Prop) [Decidable p] :
    SqlText.Plain (if p then "delayed" else "ready") := by
  split <;> decide

/-- The strings of a check are the queues it asks about. -/
theorem Operation.mem_checkQueues {queues : List String} {v : String} :
    v ∈ (queues.flatMap checkQueue).flatMap Statement.strings ↔ v ∈ queues := by
  have hstrings : ∀ q, (checkQueue q).flatMap Statement.strings = [q, q, q] := fun _ => rfl
  rw [List.flatMap_assoc]
  simp [hstrings]

/-- The strings of the operation's statements are those of the operation and the text of its
    document. -/
theorem Operation.plain_statementsWith :
    (∀ v ∈ (op.statementsWith now text).flatMap Statement.strings, SqlText.Plain v) ↔
    (∀ v ∈ op.strings, SqlText.Plain v) ∧ (op.document? now ≠ none → SqlText.Plain text) := by
  cases op with
  | enqueue message =>
    simp [statementsWith, strings, document?, Statement.strings, plain_stateText]
    tauto
  | leaseNext queue consumerId timeout row =>
    cases row <;> simp [statementsWith, strings, document?, Statement.strings]
  | ack lease found | reprocessDlqMessage messageKey found =>
    cases found <;> simp [statementsWith, strings, document?, Statement.strings]
  | nack lease reason requeue found =>
    cases found <;> cases requeue <;> simp [statementsWith, strings, document?, Statement.strings]
    tauto
  | moveToDlq messageKey reason =>
    simp [statementsWith, strings, document?, Statement.strings]
    tauto
  | checkConsistency queue queues =>
    by_cases hqueue : queue = ""
    · have hmem : ∀ v, v ∈ (queues.flatMap checkQueue).flatMap Statement.strings ↔ v ∈ queues :=
        fun _ => mem_checkQueues
      simp only [statementsWith, strings, document?, hqueue, if_true, List.flatMap_cons,
        Statement.strings, List.nil_append, hmem]
      simp
    · simp [hqueue, statementsWith, strings, document?, checkQueue, Statement.strings]
  | repairIssue issue readable =>
    cases htype : issue.type <;> cases readable <;>
      simp [htype, statementsWith, strings, document?, Statement.strings]
    tauto
  | recoverExpiredLeases count | processDelayedMessages count =>
    by_cases hcount : count = 0 <;>
      simp [hcount, statementsWith, strings, document?, Statement.strings]
  | delayMessage messageKey delayMs =>
    simp [statementsWith, strings, document?, Statement.strings, plain_stateText]
  | loadPolicy queue | savePolicy queue policy =>
    simp [statementsWith, strings, document?, Statement.strings, plain_policyKey]
  | extendLease | metrics | getExpiredInflightMessages | listDlqMessages =>
    simp [statementsWith, strings, document?, Statement.strings]

/-- The statements of a list mean the bound ones exactly when all their strings are plain. -/
theorem executed_all_iff (l : List Statement) :
    (∀ statement ∈ l,
      executed (statement.template config).text = [(statement.template config).bound]) ↔
    ∀ v ∈ l.flatMap Statement.strings, SqlText.Plain v := by
  constructor
  · intro h v hv
    obtain ⟨statement, hmem, hv⟩ := List.mem_flatMap.mp hv
    have hstatement := statement.executed_iff.mp (h statement hmem)
    exact hstatement v (statement.arguments_template ▸ hv)
  · intro h statement hmem
    refine statement.executed_iff.mpr ?_
    rw [statement.arguments_template]
    exact fun v hv => h v (List.mem_flatMap.mpr ⟨statement, hmem, hv⟩)

/-- The strings of the statements an operation executes are plain exactly when its own are. -/
theorem Operation.plain_statements (hlib : lib.Lawful) (hescapes : lib.Escapes) :
    (∀ v ∈ (op.statements lib now).flatMap Statement.strings, SqlText.Plain v) ↔ op.Plain now := by
  rw [statements, Operation.Plain]
  cases hdoc : op.document? now with
  | none =>
    have hplain := @plain_statementsWith now "" op
    rw [hplain]
    simp [hdoc]
  | some j =>
    simp only [Option.mem_def, Option.some.injEq, forall_eq']
    by_cases hj : j.WellEncoded
    · obtain ⟨text, htext⟩ := hlib.written j hj
      have hplain := @plain_statementsWith now text op
      simp only [htext, hplain, hdoc, hescapes.plain_iff htext]
      simp [hj]
    · obtain ⟨text, htext, -⟩ := hlib.refused j hj
      simp [htext, hj]

/-! ### The calls of the adapter -/

/-- The operation of a call; `found`, `row` and `count` are what its queries find. -/
def Operation.ofCall (found : Bool) (row : Option (String × Int)) (count : ℕ) : Call → Operation
  | .enqueue message => .enqueue message
  | .leaseNext queue consumerId timeout => .leaseNext queue consumerId timeout row
  | .ack lease => .ack lease found
  | .nack lease reason requeue => .nack lease reason requeue found
  | .extendLease lease timeout => .extendLease lease timeout
  | .savePolicy queue policy => .savePolicy queue policy
  | .recoverExpiredLeases => .recoverExpiredLeases count
  | .processDelayedMessages => .processDelayedMessages count
  | .delayMessage messageKey delayMs => .delayMessage messageKey delayMs
  | .moveToDlq messageKey reason => .moveToDlq messageKey reason
  | .reprocessDlqMessage messageKey => .reprocessDlqMessage messageKey found

/-- The plain texts of the life cycle are those of the statements. -/
theorem isPlain_iff {v : String} : IsPlain v ↔ SqlText.Plain v := by
  have hchar : ∀ c : Char, isPlainChar c = true ↔ c ≠ '\x00' ∧ c ≠ '\'' := by
    intro c
    simp only [isPlainChar, decide_eq_true_eq, ne_eq, ← Char.toNat_inj]
    rfl
  simp only [IsPlain, hchar, SqlText.Plain]
  constructor
  · intro h
    exact ⟨fun hmem => (h _ hmem).1 rfl, fun hmem => (h _ hmem).2 rfl⟩
  · rintro ⟨hnul, happos⟩ c hc
    exact ⟨fun he => hnul (he ▸ hc), fun he => happos (he ▸ hc)⟩

/-- The strings of a call's operation are among its texts, but for the key of the row found. -/
theorem Operation.strings_ofCall {call : Call} {found : Bool} {row : Option (String × Int)}
    {count : ℕ} {v : String} (hv : v ∈ (ofCall found row count call).strings) :
    v ∈ call.texts ∨ ∃ r ∈ row, r.1 = v := by
  cases call with
  | leaseNext queue consumerId timeout =>
    cases row <;> simp [ofCall, strings, Call.texts] at hv ⊢
    · exact hv
    · tauto
  | nack lease reason requeue =>
    refine .inl ?_
    simp only [ofCall, strings] at hv
    split at hv
    case isTrue => exact hv
    case isFalse => exact List.mem_cons.mpr (.inl (List.mem_singleton.mp hv))
  | enqueue message =>
    simp [ofCall, strings, Call.texts] at hv ⊢
    tauto
  | savePolicy queue policy =>
    exact .inl (List.mem_cons.mpr (.inl (List.mem_singleton.mp hv)))
  | _ => exact .inl hv

/-- The strings of a document have only the apostrophes of the call's texts. -/
theorem Operation.document_ofCall {call : Call} (hplain : call.Plain) {found : Bool}
    {row : Option (String × Int)} {count : ℕ} {j : Json String}
    (hj : j ∈ (ofCall found row count call).document? now) :
    ∀ v ∈ j.strings, '\'' ∉ v.toList := by
  cases call with
  | enqueue message =>
    have hid : IsPlain message.messageId := hplain _ (by simp [Call.texts])
    have hqueue : IsPlain message.queue := hplain _ (by simp [Call.texts])
    have hpath : IsPlain (buildPayloadPath message.queue message.messageId) :=
      ((((IsPlain.append (by decide) hqueue).append (by decide)).append hid).append (by decide))
    obtain rfl : envelopeJson message = j := Option.some.inj hj
    simp only [envelopeJson, Json.strings, Json.stringsOfFields, List.cons_append, List.nil_append,
      List.forall_mem_cons]
    refine ⟨by decide, (isPlain_iff.mp hid).2, by decide, (isPlain_iff.mp hqueue).2, by decide,
      (isPlain_iff.mp hpath).2, by decide, by decide, by decide, by simp⟩
  | savePolicy queue policy =>
    have hbackoff : IsPlain policy.retry.backoff := hplain _ (by simp [Call.texts])
    have hdlq : IsPlain policy.dlq.queue := hplain _ (by simp [Call.texts])
    obtain rfl : policy.toJson = j := Option.some.inj hj
    simp only [QueuePolicy.toJson, Json.strings, Json.stringsOfFields, List.cons_append,
      List.nil_append, List.append_nil, List.forall_mem_cons]
    refine ⟨by decide, by decide, by decide, by decide, (isPlain_iff.mp hbackoff).2, by decide,
      by decide, by decide, by decide, by decide, (isPlain_iff.mp hdlq).2, by decide, by simp⟩
  | _ => cases hj

/-- **The statements of a plain call are those the adapter's model executes.** -/
theorem Operation.meansBound_ofCall (hlib : lib.Lawful) (hescapes : lib.Escapes) {call : Call}
    (hplain : call.Plain) {found : Bool} {row : Option (String × Int)} {count : ℕ}
    (hrow : ∀ r ∈ row, IsPlain r.1) :
    (ofCall found row count call).MeansBound config lib now := by
  refine (executed_all_iff _).mpr ((plain_statements hlib hescapes).mpr fun _ => ⟨?_, ?_⟩)
  · intro v hv
    rcases strings_ofCall hv with htext | ⟨r, hr, rfl⟩
    · exact isPlain_iff.mp (hplain v htext)
    · exact isPlain_iff.mp (hrow r hr)
  · exact fun j hj => document_ofCall hplain hj

/-! ### Every operation -/

/-- **What is executed for the texts of an operation are its statements with the strings bound to
    parameters, exactly when none of the strings contains an apostrophe or a NUL character.** -/
theorem means_bound_iff (hlib : lib.Lawful) (hescapes : lib.Escapes) :
    op.MeansBound config lib now ↔ op.Plain now :=
  (executed_all_iff _).trans (Operation.plain_statements hlib hescapes)

/-- The tables of the default configuration. -/
def defaultConfig : SqliteConfig where
  kvTable := ⟨"kv", by decide, by decide⟩
  messageIndexTable := ⟨"msg_index", by decide, by decide⟩

/-- A call to `nack` with an ordinary reason. -/
theorem means_bound_iff_nack :
    (Operation.nack ⟨"l", "msg:q:a", "c", 0⟩ "no such file" false true).MeansBound defaultConfig
      .writer 1000 :=
  (means_bound_iff JsonLibrary.lawful_writer JsonLibrary.escapes_writer).mpr
    fun _ => ⟨by decide, fun j hj => by cases hj⟩

/-- A consumer whose name ends the literal is given the message of any other: the condition of
    `lease_next` is true of every row. -/
theorem consumer_id_executed :
    let op := Operation.leaseNext "q" "x' OR '1'='1" 30 none
    (op.statements .writer 1000).map
        (fun statement => executed (statement.template defaultConfig).text) =
      [[[.word "SELECT", .word "message_key", .symbol ",", .word "attempt", .word "FROM",
        .word "msg_index", .word "WHERE", .word "queue", .symbol "=", .literal "q", .word "AND",
        .word "state", .symbol "=", .literal "ready", .word "AND", .word "available_at",
        .symbol "<=", .word "1000", .word "AND", .symbol "(", .word "target_consumer_id",
        .symbol "=", .literal "", .word "OR", .word "target_consumer_id", .symbol "=",
        .literal "x", .word "OR", .literal "1", .symbol "=", .literal "1", .symbol ")",
        .word "ORDER", .word "BY", .word "priority", .word "DESC", .symbol ",",
        .word "available_at", .word "ASC", .word "LIMIT", .word "1"]]] ∧
    ¬ op.MeansBound defaultConfig .writer 1000 := by
  constructor
  · simp only [Operation.statements, Operation.document?, Operation.statementsWith, List.map_cons,
      List.map_nil, Statement.template, defaultConfig, Template.text, List.flatMap_cons,
      Piece.render, quoted, List.flatMap_nil]
    repeat rw [String.toList_ofList]
    rfl
  · intro h
    have hplain := (Operation.plain_statements JsonLibrary.lawful_writer
      JsonLibrary.escapes_writer).mp ((executed_all_iff _).mp h)
    have hconsumer := (hplain fun j hj => by cases hj).1 "x' OR '1'='1" (by decide)
    exact absurd hconsumer (by decide)

end Hybrid

end YirangMQ

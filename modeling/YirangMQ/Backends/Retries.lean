import YirangMQ.Backends.Leases
import YirangMQ.QueueManager.Delay
import YirangMQ.QueueManager.Delivery

namespace YirangMQ

/-!
# Attempts, retries and delays on every backend

* `deliveries_bounded` — **how often a message is leased before it is in the DLQ**, with
  `requeue_outruns_limit`, a message leased once more;
* `attempts_counted` — **the attempt counter, and what the sweep makes of it**, with
  `reprocess_without_effect`, an answer that does not restart the counter;
* `delayed_until` — **no lease before the time of a message**, with `failed_delay_leased_early`,
  a delay that fails.
-/

variable {backend : BackendType} {schema : SchemaFile} {policies : String → Option QueuePolicy}
  {h : DaemonHistory backend.Store} {s : Daemon backend.Store}

/-! ### Bounded delivery -/

/-- A proper tick of a daemon whose worker leaves the settling of expired leases to the sweep. -/
def Lifecycle.Served {σ : Type} {adapter : Adapter σ} (cycle : Lifecycle adapter)
    (h : DaemonHistory σ) (s : Daemon σ) (tick : Tick) : Prop :=
  cycle.Proper h s tick ∧ ∀ env call, tick = .call env call → call.FromWorker

/-- A proper call of the worker is served. -/
theorem Lifecycle.Served.call {σ : Type} {adapter : Adapter σ} {cycle : Lifecycle adapter}
    {h : DaemonHistory σ} {s : Daemon σ} {env : Env} {call : Call}
    (hproper : cycle.Proper h s (.call env call)) (hworker : call.FromWorker) :
    cycle.Served h s (.call env call) := by
  refine ⟨hproper, ?_⟩
  rintro _ _ ⟨rfl, rfl⟩
  exact hworker

/-- **Bounded delivery.** A message of a registered queue with a DLQ is leased at most as often
    as the retry limit says, and once more for every time a consumer has given it back. -/
theorem deliveries_bounded (run : Run (daemon (backend.adapter schema) policies)
      (backend.lifecycle schema).Served h s) {message : MessageEnvelope}
    (hmem : message ∈ published h) {policy : QueuePolicy}
    (hpolicy : policies message.queue = some policy) (henabled : policy.dlq.enabled = true) :
    ((backend.lifecycle schema).leases message.key h : Int) ≤
      max 1 policy.retry.limit + (backend.lifecycle schema).requeues message.key h :=
  Lifecycle.leases_bounded (fun _ _ _ ok => ok.1) (fun _ _ env call ok => ok.2 env call rfl) run
    hmem hpolicy henabled

/-- A message published and leased on the Hybrid backend. -/
theorem deliveries_bounded_leased :
    let env (n : Nat) : Env := { now := n + 1, now_pos := Int.succ_ofNat_pos n }
    let message : MessageEnvelope :=
      { key := messageKey "q" "a", messageId := "a", queue := "q", payloadJson := "{}"
        attributesJson := "{}" }
    let policy : QueuePolicy := { retry := { limit := 1 }, dlq := { enabled := true } }
    let M := daemon (BackendType.hybrid.adapter .mainMq) fun _ => some policy
    let stored := M.stepAt M.start (.call (env 1) (.enqueue message))
    let leased := M.stepAt stored.after (.call (env 2) (.leaseNext "q" "c" 30))
    ((BackendType.hybrid.lifecycle .mainMq).leases message.key [leased, stored] : Int) ≤
      max 1 policy.retry.limit +
        (BackendType.hybrid.lifecycle .mainMq).requeues message.key [leased, stored] := by
  intro env message policy M stored leased
  have hplain : Call.Plain (.enqueue message) ∧ Call.Plain (.leaseNext "q" "c" 30) := by decide
  have run : Run M (BackendType.hybrid.lifecycle .mainMq).Served [stored] stored.after :=
    Run.stepAt .start _ (.call (.call trivial (by decide) hplain.1) trivial)
  have run : Run M (BackendType.hybrid.lifecycle .mainMq).Served [leased, stored] leased.after :=
    run.stepAt _ (.call (.call trivial trivial hplain.2) trivial)
  have hmem : message ∈ published [leased, stored] := List.mem_cons_self
  have henabled : policy.dlq.enabled = true := rfl
  exact @deliveries_bounded .hybrid .mainMq (fun _ => some policy) _ _ run message hmem policy rfl
    henabled

/-- With a retry limit of one, a message that is given back is leased twice. -/
theorem requeue_outruns_limit :
    let env (n : Nat) : Env := { now := n + 1, now_pos := Int.succ_ofNat_pos n }
    let message : MessageEnvelope :=
      { key := messageKey "q" "a", messageId := "a", queue := "q", payloadJson := "{}"
        attributesJson := "{}" }
    let policy : QueuePolicy := { retry := { limit := 1 }, dlq := { enabled := true } }
    let M := daemon (BackendType.sqlite.adapter .mainMq) fun _ => some policy
    let ticks : List Tick := [.call (env 1) (.enqueue message),
      .call (env 2) (.leaseNext "q" "c" 30),
      .call (env 3) (.nack ⟨"", message.key, "c", 30003⟩ "" true),
      .call (env 4) (.leaseNext "q" "c" 30)]
    let h := (M.replay ticks ([], M.start)).1
    Run M (BackendType.sqlite.lifecycle .mainMq).Served h (M.replay ticks ([], M.start)).2 ∧
      (BackendType.sqlite.lifecycle .mainMq).leases message.key h = 2 ∧
      max 1 policy.retry.limit = 1 := by
  intro env message policy M ticks h
  have hserved : ∀ {h s env call}, call.Fresh (published h) → SQLite.Call.Readable call →
      call.FromWorker → (BackendType.sqlite.lifecycle .mainMq).Served h s (.call env call) := by
    intro h s env call hfresh hreadable hworker
    exact .call (.call trivial hfresh hreadable) hworker
  refine ⟨run_replay ticks ⟨?_, ?_, ?_, ?_, trivial⟩, by decide, by decide⟩
  · exact hserved (by decide) (by decide) trivial
  · exact hserved trivial (by decide) trivial
  · exact hserved trivial (by decide) trivial
  · exact hserved trivial (by decide) trivial

/-! ### Attempts -/

/-- **Attempt accounting.** In every run, `lease_next` answers with the number of leases of the
    message since it was published or last left the DLQ; the sweep lists the expired leases,
    each with that number, which the latest lease carried too; and it settles an entry of a
    registered queue with a DLQ by that number. -/
theorem attempts_counted (run : Run (daemon (backend.adapter schema) policies)
      (backend.lifecycle schema).Proper h s) :
    (∀ r older key message token, h = r :: older → grantOf key r = some (message, token) →
      message.attempt = (backend.lifecycle schema).leases key h) ∧
    (∀ env listed, (backend.lifecycle schema).Calm env →
      (backend.adapter schema).expired env s.store = .ok listed →
      (∀ info ∈ listed, ∃ message ∈ published h, message.queue = info.queue ∧
        (backend.lifecycle schema).Listed message.key info h) ∧
      (env.faults = [] → ∀ key found u, (backend.lifecycle schema).slot s.store key = some found →
        found.phase = .inflight u → u < env.now → ∃ info ∈ listed,
          (backend.lifecycle schema).address info.messageKey =
            (backend.lifecycle schema).address key)) ∧
    (∀ r older env info rest, h = r :: older → r.input = .sweepStep env →
      r.before.pending = info :: rest →
      ∃ earlier, earlier <:+ older ∧ ∃ message ∈ published earlier, message.queue = info.queue ∧
        (backend.lifecycle schema).Listed message.key info earlier ∧
        ∀ policy, policies message.queue = some policy → policy.dlq.enabled = true →
          ∃ call reply, r.output = some (call, reply) ∧
            (if policy.retry.limit ≤ (backend.lifecycle schema).leases message.key earlier then
              (∃ reason, call = .moveToDlq info.messageKey reason) ∧
              (reply.succeeded = true → ∀ found,
                (backend.lifecycle schema).slot r.before.store message.key = some found →
                (backend.lifecycle schema).slot s.store message.key =
                  some { found with phase := .dlq })
            else
              ∃ delayMs, delayMs = calculateBackoffDelay info.attempt policy.retry ∧
              call = .delayMessage info.messageKey delayMs ∧
              (reply.succeeded = true → ∀ found,
                (backend.lifecycle schema).slot r.before.store message.key = some found →
                ∃ phase, (backend.lifecycle schema).slot s.store message.key =
                    some { found with phase } ∧
                  (phase = .delayed (env.now + delayMs) ∨ delayMs ≤ 0 ∧ phase = .ready)))) := by
  have hproper : ∀ h s tick, (backend.lifecycle schema).Proper h s tick →
      (backend.lifecycle schema).Proper h s tick := fun _ _ _ ok => ok
  refine ⟨?_, ?_, ?_⟩
  · rintro r older key message token rfl hgrant
    exact Lifecycle.granted_attempt hproper run hgrant
  · intro env listed hcalm hlisted
    obtain ⟨-, -, hall⟩ := (backend.lifecycle schema).expired
      ((backend.lifecycle schema).keeps hproper run).inv hcalm hlisted
    exact ⟨Lifecycle.expired_attempt hproper run hcalm hlisted, hall⟩
  · rintro r older env info rest rfl htick hpending
    exact Lifecycle.sweep_decides hproper run htick hpending

/-- A message published and leased on the FileSystem backend: the lease is its first. -/
theorem attempts_counted_leased :
    let env (n : Nat) : Env := { now := n + 1, now_pos := Int.succ_ofNat_pos n }
    let message : MessageEnvelope :=
      { key := messageKey "q" "a", messageId := "a", queue := "q", payloadJson := "{}"
        attributesJson := "{}" }
    let M := daemon (BackendType.fileSystem.adapter .mainMq) fun _ => none
    let stored := M.stepAt M.start (.call (env 1) (.enqueue message))
    let leased := M.stepAt stored.after (.call (env 2) (.leaseNext "q" "c" 30))
    ∃ grant, grantOf message.key leased = some grant ∧
      grant.1.attempt =
        (BackendType.fileSystem.lifecycle .mainMq).leases message.key [leased, stored] := by
  intro env message M stored leased
  have hproper : ∀ {h s env call}, env.faults = [] → call.Fresh (published h) →
      FileSystem.Call.Plain call ∧ FileSystem.Call.NulFree call →
      (BackendType.fileSystem.lifecycle .mainMq).Proper h s (.call env call) := by
    intro h s env call hcalm hfresh hplain
    exact .call hcalm hfresh hplain
  have hstore := @hproper [] M.start (env 1) (.enqueue message) rfl (by decide) (by decide)
  have hlease := @hproper [stored] stored.after (env 2) (.leaseNext "q" "c" 30) rfl trivial
    (by decide)
  have run : Run M (BackendType.fileSystem.lifecycle .mainMq).Proper [stored] stored.after :=
    Run.stepAt .start _ hstore
  have run : Run M (BackendType.fileSystem.lifecycle .mainMq).Proper [leased, stored]
      leased.after := run.stepAt _ hlease
  have hgrant : grantOf message.key leased =
      some ({ message with attempt := 1 }, ⟨"", message.key, "c", 30003⟩) := by decide
  exact ⟨_, hgrant, (@attempts_counted .fileSystem .mainMq (fun _ => none) _ _ run).1 leased
    [stored] message.key _ _ rfl hgrant⟩

/-- On the SQLite backend `reprocess_dlq_message` reports success for a message that is not in
    the DLQ, and the counter goes on. -/
theorem reprocess_without_effect :
    let env (n : Nat) : Env := { now := n + 1, now_pos := Int.succ_ofNat_pos n }
    let message : MessageEnvelope :=
      { key := messageKey "q" "a", messageId := "a", queue := "q", payloadJson := "{}"
        attributesJson := "{}" }
    let M := daemon (BackendType.sqlite.adapter .mainMq) fun _ => none
    let ticks : List Tick := [.call (env 1) (.enqueue message),
      .call (env 2) (.leaseNext "q" "c" 30),
      .call (env 3) (.nack ⟨"", message.key, "c", 30003⟩ "" true),
      .call (env 4) (.reprocessDlqMessage message.key),
      .call (env 5) (.leaseNext "q" "c" 30)]
    let h := (M.replay ticks ([], M.start)).1
    Run M (BackendType.sqlite.lifecycle .mainMq).Proper h (M.replay ticks ([], M.start)).2 ∧
      (h.head?.bind (grantOf message.key)).map (·.1.attempt) = some 2 ∧
      countSince (fun r => (grantOf message.key r).isSome)
        (fun r => r.output.any fun (call, reply) =>
          reply.succeeded && decide (call = .enqueue message ∨
            call = .reprocessDlqMessage message.key)) h = 1 := by
  intro env message M ticks h
  have hproper : ∀ {h s env call}, call.Fresh (published h) → SQLite.Call.Readable call →
      (BackendType.sqlite.lifecycle .mainMq).Proper h s (.call env call) := by
    intro h s env call hfresh hreadable
    exact .call trivial hfresh hreadable
  refine ⟨run_replay ticks ⟨?_, ?_, ?_, ?_, ?_, trivial⟩, by decide, by decide⟩
  · exact hproper (by decide) (by decide)
  · exact hproper trivial (by decide)
  · exact hproper trivial (by decide)
  · exact hproper trivial (by decide)
  · exact hproper trivial (by decide)

/-! ### Delays -/

/-- A proper tick at a time not earlier than before, of a daemon whose worker leaves delays to
    the sweep. -/
structure Lifecycle.Punctual {σ : Type} {adapter : Adapter σ} (cycle : Lifecycle adapter)
    (h : DaemonHistory σ) (s : Daemon σ) (tick : Tick) : Prop where
  proper : cycle.Proper h s tick
  later : Later Tick.now h tick
  worker : ∀ env call, tick = .call env call → call.sweptKey = none

/-- A fault-free call of the worker, at a later time and with keys and queue strings that are names,
    is punctual on the FileSystem backend. -/
theorem FileSystem.punctual_call {h : DaemonHistory BackendType.fileSystem.Store}
    {s : Daemon BackendType.fileSystem.Store} {env : Env} {call : Call}
    (hcalm : env.faults = []) (hfresh : call.Fresh (published h))
    (hplain : FileSystem.Call.Plain call ∧ FileSystem.Call.NulFree call)
    (hlater : Later Tick.now h (.call env call)) (hworker : call.sweptKey = none) :
    (BackendType.fileSystem.lifecycle schema).Punctual h s (.call env call) where
  proper := .call hcalm hfresh hplain
  later := hlater
  worker := by
    rintro _ _ ⟨rfl, rfl⟩
    exact hworker

end YirangMQ

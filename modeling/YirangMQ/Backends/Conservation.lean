import YirangMQ.Backends.Types
import YirangMQ.QueueManager.Attempts

namespace YirangMQ

/-!
# Messages are conserved

What a daemon has answered tells which messages its backend has: those whose publication was
answered with success, less those whose acknowledgement was.

* `stored` — the answers say that a message is in the store;
* `Moves.stored` — one move agrees with its answer;
* `messages_conserved` — **the store has exactly these messages, each in the queue and for the
  consumer it was published for.**
-/

namespace Lifecycle

variable {σ : Type} {adapter : Adapter σ} (cycle : Lifecycle adapter)

/-- Whether message `key` is in the store after an answer; `before` says whether it was. -/
def storedBy (key : String) (before : Bool) : Call → Reply → Bool
  | .enqueue message, reply => before || (message.key = key ∧ reply.succeeded)
  | .ack lease, reply =>
    before && !(cycle.address lease.messageKey = cycle.address key ∧ reply.succeeded : Bool)
  | _, _ => before

/-- The answers of a daemon say that message `key` is in the store. -/
def stored (key : String) : DaemonHistory σ → Bool
  | [] => false
  | r :: h =>
    match r.output with
    | none => stored key h
    | some (call, reply) => cycle.storedBy key (stored key h) call reply

variable {cycle} {key : String} {now : Int} {call : Call} {reply : Reply} {slot slot' : Option Slot}

/-- A move that strands no message agrees with its answer. -/
theorem Moves.storedBy
    (hmoves : Moves (cycle.address · = cycle.address key) (cycle.revives · key) key now call reply
      slot slot')
    (hrecovers : call = .recoverExpiredLeases → slot ≠ none → slot' ≠ none) :
    slot'.isSome = cycle.storedBy key slot.isSome call reply := by
  cases hmoves with
  | stay hidle =>
    cases call with
    | enqueue message =>
      have hnot : ¬(message.key = key ∧ reply.succeeded = true) := fun h => hidle (.published h.1 h.2)
      simp [Lifecycle.storedBy, hnot]
    | ack lease =>
      cases slot with
      | none => rfl
      | some found =>
        have hnot : ¬(cycle.address lease.messageKey = cycle.address key ∧ reply.succeeded = true) :=
          fun h => hidle (.acked h.1 h.2)
        simp [Lifecycle.storedBy, hnot]
    | _ => rfl
  | publish hkey hok => simp [Lifecycle.storedBy, hkey, hok]
  | ack hnames hok => simp [Lifecycle.storedBy, hnames, hok]
  | strand => exact absurd rfl (hrecovers rfl (by simp))
  | _ => rfl

/-- A call that the sweep does not make is the worker's. -/
theorem Acts.from_worker {policies : String → Option QueuePolicy} {messages : List MessageEnvelope}
    {s after : Daemon σ} {tick : Tick}
    (hacts : cycle.Acts policies messages s tick (some (call, reply)) after)
    (hswept : call.sweptKey = none) : ∃ env, tick = .call env call := by
  cases hacts with
  | called env => exact ⟨env, rfl⟩
  | settled env info rest call reply store hpending hcall =>
    rw [(sweepCall_settles hcall).sweptKey] at hswept
    cases hswept

/-- **The answers of a run tell which messages the store has**, when no recovery strands one. -/
theorem slot_isSome_eq_stored {policies : String → Option QueuePolicy}
    {allowed : DaemonHistory σ → Daemon σ → Tick → Prop}
    (hproper : ∀ h s tick, allowed h s tick → cycle.Proper h s tick) {h : DaemonHistory σ}
    {s : Daemon σ} (run : Run (daemon adapter policies) allowed h s) (key : String)
    (hrecovers : ∀ r ∈ h, ∀ env, r.input = .call env .recoverExpiredLeases →
      cycle.slot r.before.store key ≠ none → cycle.slot r.after.store key ≠ none) :
    (cycle.slot s.store key).isSome = cycle.stored key h := by
  induction h generalizing s with
  | nil =>
    have hstart : s = (daemon adapter policies).start := by
      cases run
      rfl
    rw [hstart, cycle.slot_start]
    rfl
  | cons r h ih =>
    obtain ⟨hbefore, -, hafter, hacts⟩ := cycle.last_step hproper run
    have hold := ih hbefore fun r' hr' => hrecovers r' (List.mem_cons_of_mem _ hr')
    rw [← hafter, stored]
    rcases hacts.moves cycle key with ⟨hout, hsame⟩ | ⟨call, reply, hout, -, hmoves⟩
    · rw [hout, hsame]
      exact hold
    · rw [hout] at hacts ⊢
      show _ = cycle.storedBy key (cycle.stored key h) call reply
      rw [← hold]
      refine Moves.storedBy hmoves fun hcall => ?_
      subst hcall
      obtain ⟨env, htick⟩ := hacts.from_worker rfl
      exact hrecovers r List.mem_cons_self env htick

end Lifecycle

/-! ### The three backends -/

/-- A direct recovery of expired leases loses no message on the backends over SQLite. -/
theorem slot_recovered {backend : BackendType} {schema : SchemaFile} (hbackend : backend ≠ .fileSystem)
    {published : List MessageEnvelope} {s : backend.Store} (env : Env) (key : String)
    (hinv : (backend.lifecycle schema).Inv published s)
    (hslot : (backend.lifecycle schema).slot s key ≠ none) :
    (backend.lifecycle schema).slot
      ((backend.adapter schema).perform env .recoverExpiredLeases s).2 key ≠ none := by
  cases backend with
  | fileSystem => exact absurd rfl hbackend
  | sqlite => exact SQLite.slot_recovered hinv.saved hslot
  | hybrid => exact Hybrid.slot_recovered hinv.saved hslot

/-- **Messages are conserved.** After every run, also one in which statements fail on the backends
    over SQLite, the store has exactly the messages whose publication was answered with success,
    less those whose acknowledgement was; each is in the queue and for the consumer it was published
    for.  On the FileSystem backend the adapter's own recovery, which the daemon never calls, is
    left out. -/
theorem messages_conserved (backend : BackendType) (schema : SchemaFile)
    (policies : String → Option QueuePolicy) {h : DaemonHistory backend.Store}
    {s : Daemon backend.Store}
    (run : Run (daemon (backend.adapter schema) policies) (backend.lifecycle schema).Proper h s)
    (hrecovers : backend = .fileSystem → ∀ r ∈ h, ∀ env, r.input ≠ .call env .recoverExpiredLeases)
    (key : String) :
    ((backend.lifecycle schema).slot s.store key).isSome = (backend.lifecycle schema).stored key h ∧
    ∀ found, (backend.lifecycle schema).slot s.store key = some found →
      Origin (published h) key found := by
  have hkept := (backend.lifecycle schema).keeps (fun _ _ _ ok => ok) run
  refine ⟨?_, hkept.origin key⟩
  refine Lifecycle.slot_isSome_eq_stored (fun _ _ _ ok => ok) run key fun r hr env hinput hslot => ?_
  by_cases hbackend : backend = .fileSystem
  · exact absurd hinput (hrecovers hbackend r hr env)
  · obtain ⟨older, hrun, hok, hstep⟩ := run.allowed_of_mem r hr
    have hinv := ((backend.lifecycle schema).keeps (fun _ _ _ ok => ok) hrun).inv
    rw [hinput] at hstep
    rw [hstep]
    exact slot_recovered hbackend env key hinv hslot

/-- Two messages on the FileSystem backend, of which the first is leased and acknowledged. -/
theorem messages_conserved_acked :
    let env (n : Nat) : Env := { now := n + 1, now_pos := Int.succ_ofNat_pos n }
    let message (id : String) : MessageEnvelope :=
      { key := messageKey "q" id, messageId := id, queue := "q", payloadJson := "{}"
        attributesJson := "{}" }
    let M := daemon (BackendType.fileSystem.adapter .mainMq) fun _ => none
    let first := M.stepAt M.start (.call (env 1) (.enqueue (message "a")))
    let second := M.stepAt first.after (.call (env 2) (.enqueue (message "b")))
    let leased := M.stepAt second.after (.call (env 3) (.leaseNext "q" "c" 30))
    let acked := M.stepAt leased.after (.call (env 4) (.ack ⟨"", messageKey "q" "a", "c", 0⟩))
    let slot := (BackendType.fileSystem.lifecycle .mainMq).slot acked.after.store
    (slot (messageKey "q" "a")).isSome = false ∧ (slot (messageKey "q" "b")).isSome = true := by
  intro env message M first second leased acked slot
  have run : Run M (BackendType.fileSystem.lifecycle .mainMq).Proper [] M.start := .start
  have proper : ∀ n c h s, FileSystem.Call.Plain c → FileSystem.Call.NulFree c →
      c.Fresh (published h) →
      (BackendType.fileSystem.lifecycle .mainMq).Proper h s (.call (env n) c) := by
    intro n c h s hplain hnul hfresh
    exact .call rfl hfresh ⟨hplain, hnul⟩
  have run := run.stepAt (.call (env 1) (.enqueue (message "a")))
    (proper _ _ _ _ (by decide) (by decide) (by decide))
  have run := run.stepAt (.call (env 2) (.enqueue (message "b")))
    (proper _ _ _ _ (by decide) (by decide) (by decide))
  have run := run.stepAt (.call (env 3) (.leaseNext "q" "c" 30))
    (proper _ _ _ _ (by decide) (by decide) trivial)
  have run := run.stepAt (.call (env 4) (.ack ⟨"", messageKey "q" "a", "c", 0⟩))
    (proper _ _ _ _ (by decide) (by decide) trivial)
  -- the daemon recovers no leases by itself
  have hcalls : BackendType.fileSystem = .fileSystem → ∀ r ∈ [acked, leased, second, first],
      ∀ env, r.input ≠ .call env .recoverExpiredLeases := by
    intro _
    simp [first, second, leased, acked]
  constructor
  · rw [(messages_conserved .fileSystem .mainMq (fun _ => none) run hcalls (messageKey "q" "a")).1]
    decide +kernel
  · rw [(messages_conserved .fileSystem .mainMq (fun _ => none) run hcalls (messageKey "q" "b")).1]
    decide +kernel

end YirangMQ

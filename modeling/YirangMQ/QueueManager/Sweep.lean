import YirangMQ.Backend.Lifecycle
import Mathlib.Data.Rat.Defs
import Mathlib.Algebra.Order.Ring.Rat

namespace YirangMQ

/-!
# The queue manager and its sweep

`QueueManager` and the mailbox worker use one backend from different threads.  The sweep lists
the expired leases in one call and settles the listed messages in later calls, so calls of the
worker, and time, may come between any two of its steps.

* `calculateBackoffDelay`, `applyRetryOrDlq`, `sweepCall` — what the sweep does with an entry;
* `Daemon`, `daemon` — the machine: calls of the worker, the listing, and one sweep step;
* `Does`, `daemon_does` — what a tick of the daemon can be.
-/

/-- `std::pow(2.0, n)`, exact in the range of the delays. -/
def powerOfTwo (n : Int) : ℚ := if 0 ≤ n then 2 ^ n.toNat else 1 / 2 ^ (-n).toNat

/-- The delay before the next attempt, in milliseconds.  The `int32_t` product of the linear
    backoff is taken modulo 2 ^ 32. -/
def calculateBackoffDelay (attempt : Int) (policy : RetryPolicy) : Int :=
  if policy.backoff = "exponential" then
    let delaySec := min (policy.initialDelaySec * powerOfTwo (attempt - 1)) policy.maxDelaySec
    (delaySec * 1000).num.tdiv (delaySec * 1000).den
  else if policy.backoff = "linear" then
    min ((policy.initialDelaySec * attempt).bmod (2 ^ 32)) policy.maxDelaySec * 1000
  else policy.initialDelaySec * 1000

/-- The call that settles a message whose lease expired; a message over the limit stays as it
    is when the DLQ is disabled. -/
def applyRetryOrDlq (messageKey : String) (attempt : Int) (policy : QueuePolicy) : Option Call :=
  if policy.retry.limit ≤ attempt then
    if policy.dlq.enabled then
      some (.moveToDlq messageKey s!"retry limit exceeded (attempt {attempt})")
    else none
  else some (.delayMessage messageKey (calculateBackoffDelay attempt policy.retry))

/-- The call `recover_expired_leases` makes for one entry of its list. -/
def sweepCall (policies : String → Option QueuePolicy) (info : ExpiredLeaseInfo) : Option Call :=
  match policies info.queue with
  | none => some (.delayMessage info.messageKey 0)
  | some policy => applyRetryOrDlq info.messageKey info.attempt policy

/-- The message key of a call that only the sweep makes. -/
def Call.sweptKey : Call → Option String
  | .delayMessage messageKey _ | .moveToDlq messageKey _ => some messageKey
  | _ => none

/-- The store, and the entries the running sweep has still to settle. -/
structure Daemon (σ : Type) where
  store : σ
  pending : List ExpiredLeaseInfo

/-- What happens next: a call of the worker, the listing that starts a sweep, or one step of
    the running sweep. -/
inductive Tick where
  | call (env : Env) (call : Call)
  | sweepRead (env : Env)
  | sweepStep (env : Env)

def Tick.env : Tick → Env
  | .call env _ | .sweepRead env | .sweepStep env => env

/-- The time of a tick. -/
def Tick.now (tick : Tick) : Int := tick.env.now

section Daemon

variable {σ : Type} (adapter : Adapter σ) (policies : String → Option QueuePolicy)

/-- One tick.  It answers with the call it makes and the backend's reply. -/
def Daemon.step (s : Daemon σ) : Tick → Option (Call × Reply) × Daemon σ
  | .call env call =>
    let (reply, store) := adapter.perform env call s.store
    (some (call, reply), { s with store })
  | .sweepRead env =>
    match s.pending, adapter.expired env s.store with
    | [], .ok listed => (none, { s with pending := listed })
    | _, _ => (none, s)
  | .sweepStep env =>
    match s.pending with
    | [] => (none, s)
    | info :: rest =>
      match sweepCall policies info with
      | none => (none, { s with pending := rest })
      | some call =>
        let (reply, store) := adapter.perform env call s.store
        (some (call, reply), ⟨store, rest⟩)

/-- The daemon over an adapter. -/
def daemon : Machine (Daemon σ) Tick (Option (Call × Reply)) where
  start := ⟨adapter.start, []⟩
  step := Daemon.step adapter policies

/-- What a tick can be: the answer and the next state, case by case. -/
inductive Does (s : Daemon σ) : Tick → Option (Call × Reply) → Daemon σ → Prop
  | called (env : Env) (call : Call) :
      Does s (.call env call) (some (call, (adapter.perform env call s.store).1))
        ⟨(adapter.perform env call s.store).2, s.pending⟩
  | listed (env : Env) (listed : List ExpiredLeaseInfo) (hpending : s.pending = [])
      (hlisted : adapter.expired env s.store = .ok listed) :
      Does s (.sweepRead env) none ⟨s.store, listed⟩
  | settled (env : Env) (info : ExpiredLeaseInfo) (rest : List ExpiredLeaseInfo) (call : Call)
      (hpending : s.pending = info :: rest) (hcall : sweepCall policies info = some call) :
      Does s (.sweepStep env) (some (call, (adapter.perform env call s.store).1))
        ⟨(adapter.perform env call s.store).2, rest⟩
  | dropped (env : Env) (info : ExpiredLeaseInfo) (rest : List ExpiredLeaseInfo)
      (hpending : s.pending = info :: rest) (hcall : sweepCall policies info = none) :
      Does s (.sweepStep env) none ⟨s.store, rest⟩
  | unlisted (env : Env) : Does s (.sweepRead env) none s
  | done (env : Env) (hpending : s.pending = []) : Does s (.sweepStep env) none s

theorem daemon_does (s : Daemon σ) (tick : Tick) :
    Does adapter policies s tick ((daemon adapter policies).step s tick).1
      ((daemon adapter policies).step s tick).2 := by
  cases tick with
  | call env call => exact .called env call
  | sweepRead env =>
    simp only [daemon, Daemon.step]
    split
    case h_1 listed hpending hlisted => exact .listed env listed hpending hlisted
    case h_2 => exact .unlisted env
  | sweepStep env =>
    simp only [daemon, Daemon.step]
    split
    case h_1 hpending => exact .done env hpending
    case h_2 info rest hpending =>
      split
      case h_1 hcall => exact .dropped env info rest hpending hcall
      case h_2 call hcall => exact .settled env info rest call hpending hcall

end Daemon

/-! ### Runs of a daemon whose adapter has the life cycle -/

/-- The steps of a run of the daemon, newest first. -/
abbrev DaemonHistory (σ : Type) := History (Daemon σ) Tick (Option (Call × Reply))

/-- The messages published before and by a tick.  Only the worker publishes. -/
def Tick.publishing (messages : List MessageEnvelope) : Tick → List MessageEnvelope
  | .call _ c => c.publishing messages
  | .sweepRead _ | .sweepStep _ => messages

/-- The messages published so far. -/
def published {σ : Type} (h : DaemonHistory σ) : List MessageEnvelope :=
  h.foldr (fun r messages => r.input.publishing messages) []

section Runs

variable {σ : Type} {adapter : Adapter σ} {policies : String → Option QueuePolicy}

@[simp] theorem published_cons (r : Step (Daemon σ) Tick (Option (Call × Reply)))
    (h : DaemonHistory σ) : published (r :: h) = r.input.publishing (published h) := rfl

/-- The sweep settles an entry by delaying its message or moving it to the DLQ. -/
theorem sweepCall_settles {info : ExpiredLeaseInfo} {call : Call}
    (hcall : sweepCall policies info = some call) : SettlesWith info call := by
  unfold sweepCall applyRetryOrDlq at hcall
  split at hcall
  case h_1 =>
    obtain rfl := Option.some.inj hcall
    exact .delay 0
  case h_2 =>
    split at hcall
    case isTrue =>
      split at hcall
      case isTrue =>
        obtain rfl := Option.some.inj hcall
        exact .dead
      case isFalse => cases hcall
    case isFalse =>
      obtain rfl := Option.some.inj hcall
      exact .delay _

theorem SettlesWith.sweptKey {info : ExpiredLeaseInfo} {call : Call}
    (h : SettlesWith info call) : call.sweptKey = some info.messageKey := by
  cases h with
  | delay => rfl
  | dead => rfl

/-- The sweep publishes nothing. -/
theorem SettlesWith.fresh {info : ExpiredLeaseInfo} {call : Call} (h : SettlesWith info call)
    (messages : List MessageEnvelope) :
    call.Fresh messages ∧ call.publishing messages = messages := by
  cases h with
  | delay => exact ⟨trivial, rfl⟩
  | dead => exact ⟨trivial, rfl⟩

namespace Lifecycle

variable (cycle : Lifecycle adapter)

/-- The ticks a daemon over an adapter with the life cycle can take: as calm as the adapter
    asks, with arguments it admits, and publishing as `handle_publish` does. -/
def Proper (h : DaemonHistory σ) (_ : Daemon σ) (tick : Tick) : Prop :=
  cycle.Calm tick.env ∧
  ∀ env call, tick = .call env call → call.Fresh (published h) ∧ cycle.Admits call

variable {cycle} in
/-- A calm call with admitted arguments is proper if what it publishes is fresh. -/
theorem Proper.call {h : DaemonHistory σ} {s : Daemon σ} {env : Env} {call : Call}
    (hcalm : cycle.Calm env) (hfresh : call.Fresh (published h)) (hadmits : cycle.Admits call) :
    cycle.Proper h s (.call env call) := by
  refine ⟨hcalm, ?_⟩
  rintro _ _ ⟨rfl, rfl⟩
  exact ⟨hfresh, hadmits⟩

variable {cycle} in
/-- A calm tick of the sweep is proper. -/
theorem Proper.sweep {h : DaemonHistory σ} {s : Daemon σ} {tick : Tick}
    (hcalm : cycle.Calm tick.env) (hsweep : ∀ env call, tick ≠ .call env call) :
    cycle.Proper h s tick :=
  ⟨hcalm, fun env call htick => absurd htick (hsweep env call)⟩

/-- A call moves every message as the life cycle says. -/
abbrev MovesAll (now : Int) (call : Call) (reply : Reply) (store store' : σ) : Prop :=
  ∀ key, Moves (cycle.address · = cycle.address key) (cycle.revives · key) key now call reply
    (cycle.slot store key) (cycle.slot store' key)

/-- What a tick of such a daemon does, told about its messages. -/
inductive Acts (policies : String → Option QueuePolicy) (messages : List MessageEnvelope)
    (s : Daemon σ) : Tick → Option (Call × Reply) → Daemon σ → Prop
  | called (env : Env) (call : Call) (reply : Reply) (store : σ)
      (hfresh : call.Fresh messages)
      (hmoves : cycle.MovesAll env.now call reply s.store store) :
      Acts policies messages s (.call env call) (some (call, reply)) ⟨store, s.pending⟩
  | listed (env : Env) (listed : List ExpiredLeaseInfo) (hpending : s.pending = [])
      (hlisted : ∀ info ∈ listed, ∃ key target u,
        cycle.address info.messageKey = cycle.address key ∧ u < env.now ∧
        cycle.slot s.store key = some ⟨info.queue, target, info.attempt, .inflight u⟩) :
      Acts policies messages s (.sweepRead env) none ⟨s.store, listed⟩
  | settled (env : Env) (info : ExpiredLeaseInfo) (rest : List ExpiredLeaseInfo) (call : Call)
      (reply : Reply) (store : σ) (hpending : s.pending = info :: rest)
      (hcall : sweepCall policies info = some call)
      (hmoves : cycle.MovesAll env.now call reply s.store store) :
      Acts policies messages s (.sweepStep env) (some (call, reply)) ⟨store, rest⟩
  | dropped (env : Env) (info : ExpiredLeaseInfo) (rest : List ExpiredLeaseInfo)
      (hpending : s.pending = info :: rest) (hcall : sweepCall policies info = none) :
      Acts policies messages s (.sweepStep env) none ⟨s.store, rest⟩
  | unlisted (env : Env) : Acts policies messages s (.sweepRead env) none s
  | done (env : Env) (hpending : s.pending = []) :
      Acts policies messages s (.sweepStep env) none s

/-- What every run of such a daemon keeps: the store is as its adapter keeps it, its messages
    have the queue and target they were published with, and the entries still to settle
    address distinct published messages. -/
structure Kept (messages : List MessageEnvelope) (s : Daemon σ) : Prop where
  inv : cycle.Inv messages s.store
  well : WellPublished messages
  origin : ∀ key found, cycle.slot s.store key = some found → Origin messages key found
  distinct : (s.pending.map (cycle.address ·.messageKey)).Nodup
  addressed : ∀ info ∈ s.pending, ∃ key ∈ messages.map MessageEnvelope.key,
    cycle.address info.messageKey = cycle.address key

/-- A fresh installation has no messages. -/
theorem slot_start (key : String) : cycle.slot (daemon adapter policies).start.store key = none := by
  by_contra hne
  have hknown := cycle.known cycle.start hne
  simp at hknown

/-- A proper tick acts on the messages, and keeps what is kept. -/
theorem acts {h : DaemonHistory σ} {s : Daemon σ} {tick : Tick}
    (hkept : cycle.Kept (published h) s) (hproper : cycle.Proper h s tick) :
    cycle.Acts policies (published h) s tick ((daemon adapter policies).step s tick).1
      ((daemon adapter policies).step s tick).2 ∧
    cycle.Kept (tick.publishing (published h)) ((daemon adapter policies).step s tick).2 := by
  obtain ⟨hcalm, hcalled⟩ := hproper
  obtain ⟨hinv, hwell, horigin, hdistinct, haddressed⟩ := hkept
  -- The step is one of six, and each keeps what is known of the store and of the pending entries.
  have hdoes := daemon_does adapter policies s tick
  generalize ((daemon adapter policies).step s tick).1 = out at hdoes
  generalize ((daemon adapter policies).step s tick).2 = after at hdoes
  cases hdoes with
  | called env call =>
    obtain ⟨hfresh, hadmits⟩ := hcalled env call rfl
    obtain ⟨hafter, hmoves⟩ := cycle.perform hinv hcalm hadmits hfresh
    refine ⟨.called env call _ _ hfresh hmoves, hafter, hwell.publishing hfresh,
      fun key => (hmoves key).origin (horigin key), hdistinct, ?_⟩
    intro info hinfo
    obtain ⟨key, hkey, haddress⟩ := haddressed info hinfo
    exact ⟨key, call.mem_publishing hkey, haddress⟩
  | listed env listed hpending hlisted =>
    obtain ⟨hnodup, hslots, -⟩ := cycle.expired hinv hcalm hlisted
    refine ⟨.listed env listed hpending hslots, hinv, hwell, horigin, hnodup, ?_⟩
    intro info hinfo
    obtain ⟨key, target, u, haddress, -, hslot⟩ := hslots info hinfo
    exact ⟨key, cycle.known hinv (by simp [hslot]), haddress⟩
  | settled env info rest call hpending hcall =>
    rw [hpending] at hdistinct haddressed
    obtain ⟨key, hkey, haddress⟩ := haddressed info List.mem_cons_self
    have hsettles : SettlesWith info call := sweepCall_settles hcall
    have hadmits : cycle.Admits call := cycle.admits_sweep hinv hkey haddress hsettles
    -- A call of the sweep publishes nothing.
    obtain ⟨hfresh, hsame⟩ := hsettles.fresh (published h)
    obtain ⟨hafter, hmoves⟩ := cycle.perform hinv hcalm hadmits hfresh
    have horigin' := fun k => (hmoves k).origin (horigin k)
    rw [hsame] at hafter horigin'
    exact ⟨.settled env info rest call _ _ hpending hcall hmoves, hafter, hwell, horigin',
      (List.nodup_cons.mp hdistinct).2, fun i hi => haddressed i (List.mem_cons_of_mem _ hi)⟩
  | dropped env info rest hpending hcall =>
    rw [hpending] at hdistinct haddressed
    exact ⟨.dropped env info rest hpending hcall, hinv, hwell, horigin,
      (List.nodup_cons.mp hdistinct).2, fun i hi => haddressed i (List.mem_cons_of_mem _ hi)⟩
  | unlisted env => exact ⟨.unlisted env, hinv, hwell, horigin, hdistinct, haddressed⟩
  | done env hpending => exact ⟨.done env hpending, hinv, hwell, horigin, hdistinct, haddressed⟩

/-- What is kept, in every run. -/
theorem keeps {allowed : DaemonHistory σ → Daemon σ → Tick → Prop}
    (hproper : ∀ h s tick, allowed h s tick → cycle.Proper h s tick) {h : DaemonHistory σ}
    {s : Daemon σ} (run : Run (daemon adapter policies) allowed h s) :
    cycle.Kept (published h) s := by
  induction run with
  | start =>
    refine ⟨cycle.start, trivial, fun key found hfound => ?_, List.nodup_nil, by simp [daemon]⟩
    rw [cycle.slot_start] at hfound
    cases hfound
  | step run ok ih => exact (cycle.acts ih (hproper _ _ _ ok)).2

/-- The last step of a run. -/
theorem last_step {allowed : DaemonHistory σ → Daemon σ → Tick → Prop}
    (hproper : ∀ h s tick, allowed h s tick → cycle.Proper h s tick)
    {r : Step (Daemon σ) Tick (Option (Call × Reply))} {h : DaemonHistory σ} {s : Daemon σ}
    (run : Run (daemon adapter policies) allowed (r :: h) s) :
    Run (daemon adapter policies) allowed h r.before ∧ allowed h r.before r.input ∧
      r.after = s ∧ cycle.Acts policies (published h) r.before r.input r.output r.after := by
  obtain ⟨hbefore, ok, hstep, rfl⟩ := run.last
  refine ⟨hbefore, ok, rfl, ?_⟩
  rw [hstep]
  exact (cycle.acts (cycle.keeps hproper hbefore) (hproper _ _ _ ok)).1

/-- **The induction rule for runs of the daemon.** What holds at the start and after every
    acting tick holds in every state a run reaches. -/
theorem run_rule {allowed : DaemonHistory σ → Daemon σ → Tick → Prop}
    (hproper : ∀ h s tick, allowed h s tick → cycle.Proper h s tick)
    (P : DaemonHistory σ → Daemon σ → Prop) (start : P [] (daemon adapter policies).start)
    (step : ∀ h s tick out after, cycle.Kept (published h) s →
      cycle.Kept (tick.publishing (published h)) after → P h s → allowed h s tick →
      cycle.Acts policies (published h) s tick out after → P (⟨tick, s, out, after⟩ :: h) after)
    {h : DaemonHistory σ} {s : Daemon σ} (run : Run (daemon adapter policies) allowed h s) :
    P h s := by
  induction run with
  | start => exact start
  | @step h s tick run ok ih =>
    have hkept := cycle.keeps hproper run
    obtain ⟨hacts, hafter⟩ := cycle.acts hkept (hproper _ _ _ ok)
    exact step h s tick _ _ hkept hafter ih ok hacts

end Lifecycle

end Runs

end YirangMQ

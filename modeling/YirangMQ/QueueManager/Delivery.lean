import YirangMQ.QueueManager.Attempts

namespace YirangMQ

/-!
# Bounded delivery

How often a message of a registered queue with a DLQ is leased before it is in the DLQ.  The
sweep counts leases that expire, but no call looks at the retry limit when a consumer gives a
message back, so each requeue buys one more lease.

* `requeues` — how often a message has been given back since it was published or last left the
  DLQ;
* `Room` — there is room for the leases there have been, and for one more while the message
  waits;
* `Moves.room` — every move but a delay keeps the room below a limit;
* `Bounded`, `bounded` — the invariant of the daemon, which a delay keeps because the sweep
  delays only below the limit;
* `leases_bounded` — the bound on the leases of every published message.
-/

/-- The calls of the mailbox worker and of `process_delayed_messages`.  The others are made by
    the sweep alone, and nothing calls `recover_expired_leases` of an adapter. -/
def Call.FromWorker : Call → Prop
  | .recoverExpiredLeases | .delayMessage _ _ | .moveToDlq _ _ => False
  | _ => True

/-- The message waits to be leased, now or later. -/
def Slot.Waits (found : Slot) : Prop :=
  found.phase = .ready ∨ ∃ availableAt, found.phase = .delayed availableAt

/-- Below the limit, there is room for the leases there have been, and for one more while the
    message waits.  Every requeue makes room. -/
def Room (limit : Int) (leases requeues : Nat) (slot : Option Slot) : Prop :=
  leases ≤ limit + requeues ∧
  ∀ found, slot = some found → found.Waits → leases + 1 ≤ limit + requeues

/-- The call gave the message back that `names` addresses. -/
def requeuing (names : String → Prop) [DecidablePred names] (call : Call) (reply : Reply) :
    Bool :=
  match call with
  | .nack lease _ requeue => requeue && names lease.messageKey && reply.succeeded
  | _ => false

section Move

variable {names revives : String → Prop} {key : String} {now limit : Int} {call : Call} {reply : Reply}
  {slot slot' : Option Slot} {leases requeues : Nat}

/-- More requeues make more room. -/
theorem Room.more (h : Room limit leases requeues slot) {requeues' : Nat}
    (hle : requeues ≤ requeues') : Room limit leases requeues' slot :=
  ⟨by have := h.1; omega, fun found hfound hwaits => by have := h.2 found hfound hwaits; omega⟩

/-- The room of a message that does not wait. -/
theorem Room.of_busy (h : leases ≤ limit + requeues)
    (hbusy : ∀ found, slot = some found → ¬found.Waits) : Room limit leases requeues slot :=
  ⟨h, fun found hfound hwaits => absurd hwaits (hbusy found hfound)⟩

/-- **A move keeps the room below a limit**, unless it delays the message.  The numbers after
    the move are those `Course` tells. -/
theorem Moves.room [DecidablePred names]
    (hmoves : Moves names revives key now call reply slot slot')
    (hrecover : call ≠ .recoverExpiredLeases)
    (hdelay : ∀ K delayMs, call = .delayMessage K delayMs → names K → slot = none)
    (hlimit : 1 ≤ limit) (h : Room limit leases requeues slot) {leases' requeues' : Nat}
    (hstarts : restarting key call reply slot slot' = true → leases' = 0)
    (hleases : restarting key call reply slot slot' = false →
      leases' = leases + (granting key reply).toNat ∧
      requeues' = requeues + (requeuing names call reply).toNat) :
    Room limit leases' requeues' slot' := by
  -- A step that neither starts the count again nor grants a lease only adds requeues.
  have hgoes : restarting key call reply slot slot' = false → granting key reply = false →
      leases' = leases ∧ requeues ≤ requeues' := by
    intro hrestarts hgranting
    obtain ⟨hn, hz⟩ := hleases hrestarts
    rw [hgranting] at hn
    exact ⟨by simpa using hn, by omega⟩
  cases hmoves with
  | stay hidle =>
    obtain ⟨hrestarts, hgranting⟩ := course_stay hidle
    obtain ⟨rfl, hle⟩ := hgoes hrestarts hgranting
    exact h.more hle
  | publish hkey hok =>
    have hzero := hstarts (by simp [restarting, hkey, hok])
    refine ⟨by omega, fun _ _ _ => by omega⟩
  -- A lease is granted while there is room, and takes it.
  | lease hgranted hkey hattempt htoken hconsumer huntil hqueue htarget hphase =>
    obtain ⟨hn, hz⟩ := hleases rfl
    have hroom := h.2 _ rfl (.inl hphase)
    have hgranting : granting key reply = true := by simp [granting, hgranted, hkey]
    rw [hgranting] at hn
    exact .of_busy (by simp at hn; omega) (by rintro found ⟨rfl⟩; simp [Slot.Waits])
  | ack hnames hok =>
    obtain ⟨rfl, hle⟩ := hgoes rfl (granting_of_succeeded hok)
    exact .of_busy (by have := h.1; omega) (by simp)
  -- A requeue makes room again, and is counted.
  | requeue hnames hok hphase =>
    obtain ⟨hn, hz⟩ := hleases rfl
    rw [granting_of_succeeded hok] at hn
    have hrequeuing : requeues' = requeues + 1 := by simpa [requeuing, hnames, hok] using hz
    have hroom := h.1
    exact ⟨by simp at hn; omega, fun _ _ _ => by simp at hn; omega⟩
  | bury hnames hok hphase =>
    obtain ⟨rfl, hle⟩ := hgoes rfl (granting_of_succeeded hok)
    exact .of_busy (by have := h.1; omega) (by rintro found ⟨rfl⟩; simp [Slot.Waits])
  | extend hnames hok hphase =>
    obtain ⟨rfl, hle⟩ := hgoes rfl (granting_of_succeeded hok)
    exact .of_busy (by have := h.1; omega) (by rintro found ⟨rfl⟩; simp [Slot.Waits])
  -- The daemon does not recover leases by itself.
  | recover | strand => exact absurd rfl hrecover
  | promote hgranted hphase =>
    obtain ⟨rfl, hle⟩ := hgoes rfl (granting_of_none hgranted)
    have hroom := h.2 _ rfl (.inr ⟨_, hphase⟩)
    exact ⟨by omega, fun _ _ _ => by omega⟩
  | delay hnames => cases hdelay _ _ rfl hnames
  | dead hnames hok =>
    obtain ⟨rfl, hle⟩ := hgoes rfl (granting_of_succeeded hok)
    exact .of_busy (by have := h.1; omega) (by rintro found ⟨rfl⟩; simp [Slot.Waits])
  | revive hrevives hok hphase =>
    have hzero := hstarts (by simp [restarting, hok, hphase])
    exact ⟨by omega, fun _ _ _ => by omega⟩

/-- A delay ordered below a limit keeps the room below that limit. -/
theorem Moves.room_delay {messageKey : String} {delayMs attempt : Int}
    (hmoves : Moves names revives key now (.delayMessage messageKey delayMs) reply slot slot')
    (hattempt : attempt + 1 ≤ limit) (h : Room attempt leases requeues slot) {leases' : Nat}
    (hleases : leases' = leases + (granting key reply).toNat) :
    Room limit leases' requeues slot' := by
  have hroom := h.1
  cases hmoves with
  | stay hidle =>
    rw [(course_stay hidle).2] at hleases
    obtain rfl : leases' = leases := by simpa using hleases
    exact ⟨by omega, fun found hfound hwaits => by have := h.2 found hfound hwaits; omega⟩
  | delay hnames hok =>
    rw [granting_of_succeeded hok] at hleases
    obtain rfl : leases' = leases := by simpa using hleases
    exact ⟨by omega, fun _ _ _ => by omega⟩

end Move

/-! ### The bound over a run -/

section Runs

variable {σ : Type} {adapter : Adapter σ} {policies : String → Option QueuePolicy}

namespace Lifecycle

variable (cycle : Lifecycle adapter)

/-- How often message `key` has been given back since it was published or last left the DLQ. -/
def requeues (key : String) (h : DaemonHistory σ) : Nat :=
  countSince
    (fun r => r.output.any fun (call, reply) =>
      requeuing (cycle.address · = cycle.address key) call reply)
    (cycle.restarts key) h

/-- There is room below the retry limit, and below the attempt of the entry that the running
    sweep has for the message. -/
structure Bounded (key queue : String) (policy : QueuePolicy) (h : DaemonHistory σ)
    (s : Daemon σ) : Prop where
  room : Room (max 1 policy.retry.limit) (cycle.leases key h) (cycle.requeues key h)
    (cycle.slot s.store key)
  entries : key ∈ (published h).map MessageEnvelope.key → ∀ info ∈ s.pending,
    cycle.address info.messageKey = cycle.address key →
    info.queue = queue ∧ 1 ≤ info.attempt ∧
      Room info.attempt (cycle.leases key h) (cycle.requeues key h) (cycle.slot s.store key)

variable {cycle}

/-- What a step does to the two counts. -/
theorem counts_history {key : String} {h : DaemonHistory σ} {s after : Daemon σ} {tick : Tick}
    {call : Call} {reply : Reply} :
    let step : Step (Daemon σ) Tick (Option (Call × Reply)) :=
      ⟨tick, s, some (call, reply), after⟩
    let restarts := restarting key call reply (cycle.slot s.store key) (cycle.slot after.store key)
    (restarts = true → cycle.leases key (step :: h) = 0) ∧
    (restarts = false →
      cycle.leases key (step :: h) = cycle.leases key h + (granting key reply).toNat ∧
      cycle.requeues key (step :: h) = cycle.requeues key h +
        (requeuing (cycle.address · = cycle.address key) call reply).toNat) := by
  intro step restarts
  refine ⟨restarts_history _ _, fun hrestarts => ⟨?_, ?_⟩⟩
  · cases hgranting : granting key reply with
    | true =>
      have hgrant : (grantOf key step).isSome = true := (isSome_grantOf _ _ _ _ _ _).trans hgranting
      simp [leases, countSince, Lifecycle.restarts, step, restarts] at hrestarts hgrant ⊢
      simp [hrestarts, hgrant]
    | false => exact (goesOn_history _ _ hrestarts hgranting).1
  · simp only [requeues, countSince, Lifecycle.restarts, step, restarts, Option.any_some]
      at hrestarts ⊢
    rw [hrestarts]
    split
    case isTrue hfalse => cases hfalse
    case isFalse =>
      split
      case isTrue hrequeuing => simp [hrequeuing]
      case isFalse hrequeuing => simp [hrequeuing]

/-- A tick that answers nothing leaves both counts alone. -/
theorem silent_counts {key : String} {h : DaemonHistory σ} {s after : Daemon σ} {tick : Tick} :
    cycle.leases key (⟨tick, s, none, after⟩ :: h) = cycle.leases key h ∧
    cycle.requeues key (⟨tick, s, none, after⟩ :: h) = cycle.requeues key h :=
  ⟨(silent_history _ _ _ _ _).1, by simp [requeues, countSince, restarts]⟩

section Bounded

variable {key queue : String} {policy : QueuePolicy} {h : DaemonHistory σ} {s after : Daemon σ}
  {tick : Tick} {messages : List MessageEnvelope}

/-- A call of the worker keeps the bounds. -/
theorem Bounded.called {env : Env} {call : Call} {reply : Reply} {store : σ}
    (hbounded : cycle.Bounded key queue policy h s) (hworker : call.FromWorker)
    (hkept : cycle.Kept (published h) s)
    (hafter : cycle.Inv (call.publishing (published h)) store)
    (hmoves : cycle.MovesAll env.now call reply s.store store) :
    cycle.Bounded key queue policy
      (⟨.call env call, s, some (call, reply), ⟨store, s.pending⟩⟩ :: h) ⟨store, s.pending⟩ := by
  have hrecover : call ≠ .recoverExpiredLeases := by
    rintro rfl
    exact hworker
  have hdelay : ∀ K delayMs, call = .delayMessage K delayMs →
      cycle.address K = cycle.address key → cycle.slot s.store key = none := by
    rintro K delayMs rfl
    exact absurd hworker id
  obtain ⟨hstarts, hcounts⟩ := @counts_history σ adapter cycle key h s ⟨store, s.pending⟩
    (.call env call) call reply
  refine ⟨?_, fun hkey info hinfo haddress => ?_⟩
  · exact (hmoves key).room hrecover hdelay (le_max_left _ _) hbounded.room hstarts hcounts
  · have hknown : key ∈ (published h).map MessageEnvelope.key := by
      -- the entry addresses a message published before this call, so that message is this one
      obtain ⟨key', hkey', haddress'⟩ := hkept.addressed info hinfo
      have hsame : key = key' := cycle.address_inj hafter hkey (call.mem_publishing hkey')
        (haddress.symm.trans haddress')
      exact hsame ▸ hkey'
    obtain ⟨hqueue, hpos, hroom⟩ := hbounded.entries hknown info hinfo haddress
    exact ⟨hqueue, hpos, (hmoves key).room hrecover hdelay hpos hroom hstarts hcounts⟩

/-- A step of the sweep that makes a call keeps the bounds. -/
theorem Bounded.settled {env : Env} {info : ExpiredLeaseInfo} {rest : List ExpiredLeaseInfo}
    {call : Call} {reply : Reply} {store : σ} (hbounded : cycle.Bounded key queue policy h s)
    (hpolicy : policies queue = some policy) (henabled : policy.dlq.enabled = true)
    (hkept : cycle.Kept (published h) s) (hpending : s.pending = info :: rest)
    (hcall : sweepCall policies info = some call)
    (hmoves : cycle.MovesAll env.now call reply s.store store) :
    cycle.Bounded key queue policy
      (⟨.sweepStep env, s, some (call, reply), ⟨store, rest⟩⟩ :: h) ⟨store, rest⟩ := by
  obtain ⟨hstarts, hcounts⟩ := @counts_history σ adapter cycle key h s ⟨store, rest⟩
    (.sweepStep env) call reply
  have hsettles : SettlesWith info call := sweepCall_settles hcall
  have hrecover : call ≠ .recoverExpiredLeases := by
    rintro rfl
    cases hsettles
  have hdistinct := hkept.distinct
  rw [hpending, List.map_cons, List.nodup_cons] at hdistinct
  by_cases haddressed : cycle.address info.messageKey = cycle.address key
  · refine ⟨?_, fun _ i hi haddress => ?_⟩
    · by_cases hknown : key ∈ (published h).map MessageEnvelope.key
      · obtain ⟨hqueue, hpos, hroom⟩ :=
          hbounded.entries hknown info (by rw [hpending]; exact List.mem_cons_self) haddressed
        have hmove := hmoves key
        simp only [sweepCall, hqueue, hpolicy, applyRetryOrDlq, henabled, if_true] at hcall
        split at hcall
        case isTrue =>
          obtain rfl := Option.some.inj hcall
          exact hmove.room hrecover (by simp) (le_max_left _ _) hbounded.room hstarts hcounts
        case isFalse hlimit =>
          obtain rfl := Option.some.inj hcall
          refine hmove.room_delay ?_ hroom (hcounts rfl).1
          have := le_max_right 1 policy.retry.limit
          omega
      · have hnone : cycle.slot s.store key = none := by
          by_contra hne
          exact hknown (cycle.known hkept.inv hne)
        exact (hmoves key).room hrecover (fun _ _ _ _ => hnone) (le_max_left _ _) hbounded.room
          hstarts hcounts
    · -- no other entry is about the same message
      refine absurd (List.mem_map_of_mem (f := (cycle.address ·.messageKey)) hi) ?_
      rw [haddress, ← haddressed]
      exact hdistinct.1
  · have hdelay : ∀ K delayMs, call = .delayMessage K delayMs →
        cycle.address K = cycle.address key → cycle.slot s.store key = none := by
      rintro K delayMs rfl hnames
      cases hsettles
      exact absurd hnames haddressed
    refine ⟨?_, fun hkey i hi haddress => ?_⟩
    · exact (hmoves key).room hrecover hdelay (le_max_left _ _) hbounded.room hstarts hcounts
    · have hmem : i ∈ s.pending := by
        rw [hpending]
        exact List.mem_cons_of_mem _ hi
      rw [published_cons] at hkey
      obtain ⟨hqueue, hpos, hroom⟩ := hbounded.entries hkey i hmem haddress
      exact ⟨hqueue, hpos, (hmoves key).room hrecover hdelay hpos hroom hstarts hcounts⟩

/-- A tick that answers nothing keeps the bounds of the entries it keeps. -/
theorem Bounded.silent (hbounded : cycle.Bounded key queue policy h s)
    (hpublishing : tick.publishing (published h) = published h) {rest : List ExpiredLeaseInfo}
    (hsub : ∀ info ∈ rest, info ∈ s.pending) :
    cycle.Bounded key queue policy (⟨tick, s, none, ⟨s.store, rest⟩⟩ :: h) ⟨s.store, rest⟩ := by
  obtain ⟨hleases, hrequeues⟩ := @silent_counts σ adapter cycle key h s ⟨s.store, rest⟩ tick
  refine ⟨by rw [hleases, hrequeues]; exact hbounded.room, fun hkey info hinfo haddress => ?_⟩
  rw [published_cons, hpublishing] at hkey
  rw [hleases, hrequeues]
  exact hbounded.entries hkey info (hsub info hinfo) haddress

/-- The list of expired leases keeps the bounds: its entries carry the numbers of leases. -/
theorem Bounded.listed {env : Env} {listed : List ExpiredLeaseInfo}
    (hbounded : cycle.Bounded key queue policy h s) (hcounted : cycle.Counted key h s)
    (hqueue : ∀ found, cycle.slot s.store key = some found → found.queue = queue)
    (hkept : cycle.Kept (published h) s)
    (hlisted : ∀ info ∈ listed, ∃ key target u,
      cycle.address info.messageKey = cycle.address key ∧ u < env.now ∧
      cycle.slot s.store key = some ⟨info.queue, target, info.attempt, .inflight u⟩) :
    cycle.Bounded key queue policy (⟨.sweepRead env, s, none, ⟨s.store, listed⟩⟩ :: h)
      ⟨s.store, listed⟩ := by
  obtain ⟨hleases, hrequeues⟩ :=
    @silent_counts σ adapter cycle key h s ⟨s.store, listed⟩ (.sweepRead env)
  refine ⟨by rw [hleases, hrequeues]; exact hbounded.room, fun hkey info hinfo haddress => ?_⟩
  rw [hleases, hrequeues]
  obtain ⟨key', target, u, haddress', -, hslot⟩ := hlisted info hinfo
  have hknown' : key' ∈ (published h).map MessageEnvelope.key :=
    cycle.known hkept.inv (by simp [hslot])
  obtain rfl : key = key' :=
    cycle.address_inj hkept.inv hkey hknown' (haddress.symm.trans haddress')
  obtain ⟨hattempt, hinflight⟩ := hcounted _ hslot
  obtain ⟨hpos, -⟩ := hinflight u rfl
  have hattempt : info.attempt = cycle.leases key h := hattempt
  refine ⟨hqueue _ hslot, by omega, .of_busy (by omega) ?_⟩
  rintro found hfound
  rw [hslot] at hfound
  obtain rfl := Option.some.inj hfound
  simp [Slot.Waits]

end Bounded

variable {allowed : DaemonHistory σ → Daemon σ → Tick → Prop} {h : DaemonHistory σ}
  {s : Daemon σ}

/-- A slot of a formed key has the queue of the key. -/
theorem slot_queue {messages : List MessageEnvelope} {queue id : String}
    (hkept : cycle.Kept messages s) (hid : ∀ c ∈ id.toList, isGuidChar c = true) {found : Slot}
    (hfound : cycle.slot s.store (messageKey queue id) = some found) : found.queue = queue := by
  obtain ⟨message, hmem, hkey, hqueue, -⟩ := hkept.origin _ _ hfound
  obtain ⟨hformed, hid'⟩ := hkept.well.formed message hmem
  exact hqueue.symm.trans (messageKey_inj hid' hid (hformed.symm.trans hkey)).1

/-- The bounds hold in every run of the worker and the sweep. -/
theorem bounded (hproper : ∀ h s tick, allowed h s tick → cycle.Proper h s tick)
    (hworker : ∀ h s env call, allowed h s (.call env call) → call.FromWorker) {queue id : String}
    (hid : ∀ c ∈ id.toList, isGuidChar c = true) {policy : QueuePolicy}
    (hpolicy : policies queue = some policy) (henabled : policy.dlq.enabled = true)
    (run : Run (daemon adapter policies) allowed h s) :
    cycle.Bounded (messageKey queue id) queue policy h s := by
  induction run with
  | start =>
    refine ⟨⟨?_, fun found hfound => ?_⟩, by simp [daemon]⟩
    · have := le_max_left 1 policy.retry.limit
      simp only [leases, requeues, countSince]
      omega
    · rw [cycle.slot_start] at hfound
      cases hfound
  | @step h s tick run ok hbounded =>
    have hkept := cycle.keeps hproper run
    obtain ⟨hacts, hafter⟩ := cycle.acts hkept (hproper _ _ _ ok)
    unfold Machine.stepAt
    generalize ((daemon adapter policies).step s tick).1 = out at hacts
    generalize ((daemon adapter policies).step s tick).2 = after at hacts hafter
    -- The bound is about the leases made so far, and about the entries the sweep still has to
    -- settle.
    cases hacts with
    | called env call reply store hfresh hmoves =>
      exact hbounded.called (hworker _ _ _ _ ok) hkept hafter.inv hmoves
    | listed env listed hpending hlisted =>
      exact hbounded.listed (counted hproper run _) (fun _ => slot_queue hkept hid) hkept hlisted
    | settled env info rest call reply store hpending hcall hmoves =>
      exact hbounded.settled hpolicy henabled hkept hpending hcall hmoves
    | dropped env info rest hpending hcall =>
      exact hbounded.silent rfl fun i hi => hpending ▸ List.mem_cons_of_mem _ hi
    | unlisted env => exact hbounded.silent rfl fun _ hi => hi
    | done env hpending => exact hbounded.silent rfl fun _ hi => hi

/-- **Leases are bounded by the retry limit and the requeues.** -/
theorem leases_bounded (hproper : ∀ h s tick, allowed h s tick → cycle.Proper h s tick)
    (hworker : ∀ h s env call, allowed h s (.call env call) → call.FromWorker)
    (run : Run (daemon adapter policies) allowed h s) {message : MessageEnvelope}
    (hmem : message ∈ published h) {policy : QueuePolicy}
    (hpolicy : policies message.queue = some policy) (henabled : policy.dlq.enabled = true) :
    (cycle.leases message.key h : Int) ≤
      max 1 policy.retry.limit + cycle.requeues message.key h := by
  obtain ⟨hformed, hid⟩ := (cycle.keeps hproper run).well.formed message hmem
  have hbounded := bounded hproper hworker hid hpolicy henabled run
  rw [← hformed] at hbounded
  exact hbounded.room.1

end Lifecycle

end Runs

end YirangMQ

import YirangMQ.QueueManager.Sweep

namespace YirangMQ

/-!
# Attempts

The attempt counter of a message over a run of the daemon: it counts the leases since the
message was published or last left the DLQ, and the sweep reads the same number.

* `granting`, `restarting` — what a call does to the count of a message;
* `Course`, `Moves.course` — a move starts the count, is a lease, or leaves the count alone;
* `leases`, `latestGrant` — the count, and the latest lease, of a history;
* `attempt_eq_leases`, `granted_attempt`, `expired_attempt` — the counter is the count, in the
  store, in the answers of `lease_next` and in the list of the sweep.
-/

/-- The answer leases message `key`. -/
def granting (key : String) (reply : Reply) : Bool :=
  reply.granted.any (·.1.key = key)

/-- The call, with its answer and the slots around it, published message `key` or took it out
    of the DLQ. -/
def restarting (key : String) (call : Call) (reply : Reply) (slot slot' : Option Slot) : Bool :=
  match call with
  | .enqueue message => message.key = key && reply.succeeded
  | .reprocessDlqMessage _ =>
    reply.succeeded && slot.any (·.phase = .dlq) && !slot'.any (·.phase = .dlq)
  | _ => false

/-- What a move does to the count of the leases of message `key`. -/
inductive Course (key : String) (call : Call) (reply : Reply) (slot slot' : Option Slot) : Prop
  | starts (found' : Slot) (hrestarts : restarting key call reply slot slot' = true)
      (hgranting : granting key reply = false) (hslot' : slot' = some found')
      (hattempt : found'.attempt = 0)
      (hwaits : ∀ u, found'.phase ≠ .inflight u)
  | leases (found : Slot) (u : Int) (message : MessageEnvelope) (token : LeaseToken)
      (hrestarts : restarting key call reply slot slot' = false)
      (hgranted : reply.granted = some (message, token)) (hkey : message.key = key)
      (hattempt : message.attempt = found.attempt + 1)
      (hslot : slot = some found) (hready : found.phase = .ready)
      (hslot' : slot' = some { found with attempt := found.attempt + 1, phase := .inflight u })
  | goesOn (hrestarts : restarting key call reply slot slot' = false)
      (hgranting : granting key reply = false)
      (hgoes : ∀ found', slot' = some found' → ∃ found, slot = some found ∧
        found'.queue = found.queue ∧ found'.attempt = found.attempt ∧
        ∀ u', found'.phase = .inflight u' → ∃ u, found.phase = .inflight u)

theorem granting_of_succeeded {key : String} {reply : Reply} (hok : reply.succeeded = true) :
    granting key reply = false := by
  rw [Reply.succeeded_iff.mp hok]
  rfl

theorem granting_of_none {key : String} {reply : Reply} (hgranted : reply.granted = none) :
    granting key reply = false := by
  rw [granting, hgranted]
  rfl

section Course

variable {names revives : String → Prop} {key : String} {now : Int} {call : Call} {reply : Reply}
  {slot slot' : Option Slot}

/-- An answer that owes nothing neither restarts the count nor adds to it. -/
theorem course_stay (hidle : ¬Owes names revives key call reply slot) :
    restarting key call reply slot slot = false ∧ granting key reply = false := by
  constructor
  · cases call with
    | enqueue message =>
      by_contra hrestarts
      simp only [restarting, Bool.not_eq_false, Bool.and_eq_true, decide_eq_true_eq] at hrestarts
      exact hidle (.published hrestarts.1 hrestarts.2)
    | reprocessDlqMessage K =>
      by_contra hrestarts
      -- the message would have to be in the DLQ and not be in it
      simp [restarting] at hrestarts
    | _ => rfl
  · by_contra hgranting
    simp only [granting, Bool.not_eq_false, Option.any_eq_true, decide_eq_true_eq] at hgranting
    obtain ⟨⟨message, token⟩, hgranted, hkey⟩ := hgranting
    exact hidle (.leased hgranted hkey)

/-- **Every move has a course.** -/
theorem Moves.course (hmoves : Moves names revives key now call reply slot slot')
    {messages : List MessageEnvelope} (hfresh : call.Fresh messages) :
    Course key call reply slot slot' := by
  -- Publishing and reviving start the count again, a lease adds one, and everything else leaves it.
  cases hmoves with
  | stay hidle =>
    obtain ⟨hrestarts, hgranting⟩ := course_stay hidle
    exact .goesOn hrestarts hgranting fun found hfound =>
      ⟨found, hfound, rfl, rfl, fun u hu => ⟨u, hu⟩⟩
  | @publish message _ hkey hok =>
    refine .starts _ (by simp [restarting, hkey, hok]) (granting_of_succeeded hok) rfl
      hfresh.2.1 fun u => ?_
    unfold MessageEnvelope.slot
    dsimp only
    split <;> simp
  | lease hgranted hkey hattempt htoken hconsumer huntil hqueue htarget hphase =>
    exact .leases _ _ _ _ rfl hgranted hkey hattempt rfl hphase rfl
  | ack hnames hok => exact .goesOn rfl (granting_of_succeeded hok) (by simp)
  | requeue hnames hok hphase =>
    exact .goesOn rfl (granting_of_succeeded hok) (by simp)
  | bury hnames hok hphase =>
    exact .goesOn rfl (granting_of_succeeded hok) (by simp)
  | extend hnames hok hphase =>
    exact .goesOn rfl (granting_of_succeeded hok) (by simp [hphase])
  | recover hgranted | strand hgranted =>
    exact .goesOn rfl (granting_of_none hgranted) (by simp)
  | promote hgranted => exact .goesOn rfl (granting_of_none hgranted) (by simp)
  | delay hnames hok hphase =>
    refine .goesOn rfl (granting_of_succeeded hok) ?_
    rintro found' ⟨rfl⟩
    refine ⟨_, rfl, rfl, rfl, fun u hu => ?_⟩
    rcases hphase with rfl | ⟨-, rfl⟩ <;> cases hu
  | dead hnames hok => exact .goesOn rfl (granting_of_succeeded hok) (by simp)
  | revive hrevives hok hphase =>
    exact .starts _ (by simp [restarting, hok, hphase]) (granting_of_succeeded hok) rfl rfl
      (by simp)

end Course

/-! ### Counting over a run -/

section Runs

variable {σ : Type} {adapter : Adapter σ} {policies : String → Option QueuePolicy}

/-- The lease of message `key` that a step answered with. -/
def grantOf (key : String) (r : Step (Daemon σ) Tick (Option (Call × Reply))) :
    Option (MessageEnvelope × LeaseToken) :=
  (r.output.bind (·.2.granted)).filter (·.1.key = key)

/-- The latest lease of message `key`. -/
def latestGrant (key : String) (h : DaemonHistory σ) : Option (MessageEnvelope × LeaseToken) :=
  h.findSome? (grantOf key)

theorem isSome_grantOf (key : String) (tick : Tick) (s after : Daemon σ) (call : Call)
    (reply : Reply) :
    (grantOf key ⟨tick, s, some (call, reply), after⟩).isSome = granting key reply := by
  rw [grantOf, granting, Option.bind_some]
  cases reply.granted with
  | none => rfl
  | some grant => by_cases hkey : grant.1.key = key <;> simp [Option.filter, hkey]

namespace Lifecycle

variable (cycle : Lifecycle adapter)

/-- The step published message `key` or took it out of the DLQ. -/
def restarts (key : String) (r : Step (Daemon σ) Tick (Option (Call × Reply))) : Bool :=
  r.output.any fun (call, reply) => restarting key call reply (cycle.slot r.before.store key)
    (cycle.slot r.after.store key)

/-- How often message `key` has been leased since it was published or last left the DLQ. -/
def leases (key : String) (h : DaemonHistory σ) : Nat :=
  countSince (fun r => (grantOf key r).isSome) (cycle.restarts key) h

/-- A tick moves a message by the call it makes, or not at all. -/
theorem Acts.moves {messages : List MessageEnvelope} {s after : Daemon σ} {tick : Tick}
    {out : Option (Call × Reply)} (hacts : cycle.Acts policies messages s tick out after)
    (key : String) :
    (out = none ∧ after.store = s.store) ∨
    ∃ call reply, out = some (call, reply) ∧ call.Fresh messages ∧
      Moves (cycle.address · = cycle.address key) (cycle.revives · key) key tick.now call reply
        (cycle.slot s.store key) (cycle.slot after.store key) := by
  cases hacts with
  | called env call reply store hfresh hmoves => exact .inr ⟨_, _, rfl, hfresh, hmoves key⟩
  | listed env listed => exact .inl ⟨rfl, rfl⟩
  | settled env info rest call reply store hpending hcall hmoves =>
    exact .inr ⟨_, _, rfl, ((sweepCall_settles hcall).fresh messages).1, hmoves key⟩
  | dropped env info rest => exact .inl ⟨rfl, rfl⟩
  | unlisted env => exact .inl ⟨rfl, rfl⟩
  | done env => exact .inl ⟨rfl, rfl⟩

/-- The counter of message `key` in its slot is its count, and while it is inflight its latest
    lease is counted and carried the same number. -/
def Counted (key : String) (h : DaemonHistory σ) (s : Daemon σ) : Prop :=
  ∀ found, cycle.slot s.store key = some found →
    found.attempt = cycle.leases key h ∧
    ∀ u, found.phase = .inflight u → 1 ≤ cycle.leases key h ∧
      ∃ message token, latestGrant key h = some (message, token) ∧
        message.attempt = cycle.leases key h

variable {cycle}

/-- A step whose move goes on leaves the count and the latest lease alone. -/
theorem goesOn_history {key : String} (h : DaemonHistory σ) {s after : Daemon σ} (tick : Tick)
    {call : Call} {reply : Reply}
    (hrestarts : restarting key call reply (cycle.slot s.store key)
      (cycle.slot after.store key) = false)
    (hgranting : granting key reply = false) :
    cycle.leases key (⟨tick, s, some (call, reply), after⟩ :: h) = cycle.leases key h ∧
    latestGrant key (⟨tick, s, some (call, reply), after⟩ :: h) = latestGrant key h := by
  have hgrant := isSome_grantOf key tick s after call reply
  rw [hgranting] at hgrant
  have hnone : grantOf key ⟨tick, s, some (call, reply), after⟩ = none := by
    simpa using hgrant
  constructor
  · simp [leases, countSince, restarts, hrestarts, hnone]
  · rw [latestGrant, List.findSome?_cons, hnone]
    rfl

/-- A step that answers nothing leaves the count and the latest lease alone. -/
theorem silent_history (key : String) (h : DaemonHistory σ) (s after : Daemon σ) (tick : Tick) :
    cycle.leases key (⟨tick, s, none, after⟩ :: h) = cycle.leases key h ∧
    latestGrant key (⟨tick, s, none, after⟩ :: h) = latestGrant key h :=
  ⟨by simp [leases, countSince, restarts, grantOf], rfl⟩

/-- A lease is counted, and is the latest. -/
theorem leases_history {key : String} (h : DaemonHistory σ) {s after : Daemon σ} (tick : Tick)
    {call : Call} {reply : Reply} {message : MessageEnvelope} {token : LeaseToken}
    (hrestarts : restarting key call reply (cycle.slot s.store key)
      (cycle.slot after.store key) = false)
    (hgranted : reply.granted = some (message, token)) (hkey : message.key = key) :
    cycle.leases key (⟨tick, s, some (call, reply), after⟩ :: h) = cycle.leases key h + 1 ∧
    latestGrant key (⟨tick, s, some (call, reply), after⟩ :: h) = some (message, token) := by
  have hgrant : grantOf key ⟨tick, s, some (call, reply), after⟩ = some (message, token) := by
    simp [grantOf, hgranted, hkey, Option.filter]
  constructor
  · simp [leases, countSince, restarts, hrestarts, hgrant]
  · rw [latestGrant, List.findSome?_cons, hgrant]

/-- A step that restarts the count of a message. -/
theorem restarts_history {key : String} (h : DaemonHistory σ) {s after : Daemon σ} (tick : Tick)
    {call : Call} {reply : Reply}
    (hrestarts : restarting key call reply (cycle.slot s.store key)
      (cycle.slot after.store key) = true) :
    cycle.leases key (⟨tick, s, some (call, reply), after⟩ :: h) = 0 := by
  simp [leases, countSince, restarts, hrestarts]

theorem Counted.step {key : String} {h : DaemonHistory σ} {s after : Daemon σ} {tick : Tick}
    {out : Option (Call × Reply)} {messages : List MessageEnvelope}
    (hcounted : cycle.Counted key h s) (hacts : cycle.Acts policies messages s tick out after) :
    cycle.Counted key (⟨tick, s, out, after⟩ :: h) after := by
  intro found' hfound'
  -- A tick that makes no call leaves the slot and the history's counts.
  rcases hacts.moves cycle key with ⟨rfl, hsame⟩ | ⟨call, reply, rfl, hfresh, hmoves⟩
  · rw [hsame] at hfound'
    obtain ⟨hleases, hlatest⟩ := @silent_history σ adapter cycle key h s after tick
    rw [hleases, hlatest]
    exact hcounted found' hfound'
  · cases hmoves.course hfresh with
    | starts found hrestarts hgranting hslot' hattempt hwaits =>
      rw [hfound', Option.some.injEq] at hslot'
      subst hslot'
      rw [restarts_history h tick hrestarts]
      exact ⟨by simpa using hattempt, fun u hu => absurd hu (hwaits u)⟩
    | leases found u message token hrestarts hgranted hkey hattempt hslot hready hslot' =>
      rw [hfound', Option.some.injEq] at hslot'
      subst hslot'
      obtain ⟨hleases, hlatest⟩ := leases_history h tick hrestarts hgranted hkey
      obtain ⟨hfound, -⟩ := hcounted found hslot
      rw [hleases, hlatest]
      have hcount : found.attempt + 1 = ((cycle.leases key h + 1 : Nat) : Int) := by
        rw [hfound]
        rfl
      exact ⟨hcount, fun _ _ => ⟨by omega, message, token, rfl, hattempt.trans hcount⟩⟩
    | goesOn hrestarts hgranting hgoes =>
      obtain ⟨found, hslot, -, hattempt, hinflight⟩ := hgoes found' hfound'
      obtain ⟨hleases, hlatest⟩ := goesOn_history h tick hrestarts hgranting
      obtain ⟨hfound, hlater⟩ := hcounted found hslot
      rw [hleases, hlatest]
      refine ⟨hattempt.trans hfound, fun u' hu' => ?_⟩
      obtain ⟨u, hu⟩ := hinflight u' hu'
      exact hlater u hu

variable {allowed : DaemonHistory σ → Daemon σ → Tick → Prop} {h : DaemonHistory σ}
  {s : Daemon σ}

/-- **The attempt counter is the number of leases**, in every run. -/
theorem counted (hproper : ∀ h s tick, allowed h s tick → cycle.Proper h s tick)
    (run : Run (daemon adapter policies) allowed h s) (key : String) :
    cycle.Counted key h s := by
  refine cycle.run_rule hproper (cycle.Counted key) ?_ ?_ run
  · intro found hfound
    rw [cycle.slot_start] at hfound
    cases hfound
  · exact fun h s tick out after _ _ hcounted _ hacts => hcounted.step hacts

/-- **The answers of `lease_next` carry the number of leases**, their own included. -/
theorem granted_attempt (hproper : ∀ h s tick, allowed h s tick → cycle.Proper h s tick)
    {r : Step (Daemon σ) Tick (Option (Call × Reply))}
    (run : Run (daemon adapter policies) allowed (r :: h) s) {key : String}
    {message : MessageEnvelope} {token : LeaseToken}
    (hgrant : grantOf key r = some (message, token)) :
    message.attempt = cycle.leases key (r :: h) := by
  obtain ⟨run', ok, -, hacts⟩ := cycle.last_step hproper run
  obtain ⟨tick, before, out, after⟩ := r
  rcases hacts.moves cycle key with ⟨rfl, -⟩ | ⟨call, reply, rfl, hfresh, hmoves⟩
  · cases hgrant
  · have hgranting : granting key reply = true := by
      rw [← isSome_grantOf key tick before after call, hgrant]
      rfl
    cases hmoves.course hfresh with
    | starts found hrestarts hgranting' => simp [hgranting] at hgranting'
    | leases found u message' token' hrestarts hgranted hkey hattempt hslot hready hslot' =>
      obtain ⟨hleases, -⟩ := leases_history h tick hrestarts hgranted
        hkey
      have hsame : message' = message := by
        have hgrant' : grantOf key ⟨tick, before, some (call, reply), after⟩ =
            some (message', token') := by
          simp [grantOf, hgranted, hkey, Option.filter]
        rw [hgrant', Option.some.injEq, Prod.mk.injEq] at hgrant
        exact hgrant.1
      have hfound := ((cycle.counted hproper run' key) found hslot).1
      rw [hleases, ← hsame, hattempt, hfound]
      rfl
    | goesOn hrestarts hgranting' => simp [hgranting] at hgranting'

variable (cycle)

/-- The entry is about message `key`, and its attempt is the number of leases of the message at
    that time, which its latest lease carried too. -/
def Listed (key : String) (info : ExpiredLeaseInfo) (h : DaemonHistory σ) : Prop :=
  cycle.address info.messageKey = cycle.address key ∧ info.attempt = cycle.leases key h ∧
  ∃ message token, latestGrant key h = some (message, token) ∧ info.attempt = message.attempt

variable {cycle}

/-- An entry that agrees with the slot of an inflight message is about that message. -/
theorem listed_of_slot (hproper : ∀ h s tick, allowed h s tick → cycle.Proper h s tick)
    (run : Run (daemon adapter policies) allowed h s) {info : ExpiredLeaseInfo}
    {key target : String} {u : Int} (haddress : cycle.address info.messageKey = cycle.address key)
    (hslot : cycle.slot s.store key = some ⟨info.queue, target, info.attempt, .inflight u⟩) :
    ∃ message ∈ published h, message.queue = info.queue ∧ cycle.Listed message.key info h := by
  obtain ⟨message, hmem, rfl, hqueue, -⟩ := (cycle.keeps hproper run).origin key _ hslot
  obtain ⟨hattempt, hinflight⟩ := cycle.counted hproper run message.key _ hslot
  obtain ⟨-, message', token, hlatest, hattempt'⟩ := hinflight u rfl
  exact ⟨message, hmem, hqueue, haddress, hattempt, message', token, hlatest,
    hattempt.trans hattempt'.symm⟩

/-- **The list of expired leases carries the numbers of leases.** -/
theorem expired_attempt (hproper : ∀ h s tick, allowed h s tick → cycle.Proper h s tick)
    (run : Run (daemon adapter policies) allowed h s) {env : Env} (hcalm : cycle.Calm env)
    {listed : List ExpiredLeaseInfo} (hlisted : adapter.expired env s.store = .ok listed) :
    ∀ info ∈ listed, ∃ message ∈ published h, message.queue = info.queue ∧
      cycle.Listed message.key info h := by
  obtain ⟨-, hslots, -⟩ := cycle.expired (cycle.keeps hproper run).inv hcalm hlisted
  intro info hinfo
  obtain ⟨key, target, u, haddress, -, hslot⟩ := hslots info hinfo
  exact listed_of_slot hproper run haddress hslot

/-- The entries still to settle were listed earlier in the run. -/
theorem pending_listed (hproper : ∀ h s tick, allowed h s tick → cycle.Proper h s tick)
    (run : Run (daemon adapter policies) allowed h s) :
    ∀ info ∈ s.pending, ∃ earlier, earlier <:+ h ∧ ∃ message ∈ published earlier,
      message.queue = info.queue ∧ cycle.Listed message.key info earlier := by
  induction run with
  | start => simp [daemon]
  | @step h s tick run ok ih =>
    have hacts : cycle.Acts policies (published h) s tick _ _ :=
      (cycle.acts (cycle.keeps hproper run) (hproper _ _ _ ok)).1
    unfold Machine.stepAt
    generalize ((daemon adapter policies).step s tick).1 = out at hacts
    generalize ((daemon adapter policies).step s tick).2 = after at hacts
    have hlater : ∀ info ∈ s.pending, ∃ earlier, earlier <:+ ⟨tick, s, out, after⟩ :: h ∧
        ∃ message ∈ published earlier, message.queue = info.queue ∧
          cycle.Listed message.key info earlier := by
      intro info hinfo
      obtain ⟨earlier, hsuffix, hlisted⟩ := ih info hinfo
      exact ⟨earlier, hsuffix.trans (List.suffix_cons _ _), hlisted⟩
    cases hacts with
    | called => exact hlater
    | listed env listed hpending hslots =>
      intro info hinfo
      obtain ⟨key, target, u, haddress, -, hslot⟩ := hslots info hinfo
      exact ⟨h, List.suffix_cons _ _, listed_of_slot hproper run haddress hslot⟩
    | settled env info rest call reply store hpending =>
      exact fun i hi => hlater i (hpending ▸ List.mem_cons_of_mem _ hi)
    | dropped env info rest hpending =>
      exact fun i hi => hlater i (hpending ▸ List.mem_cons_of_mem _ hi)
    | unlisted => exact hlater
    | done => exact hlater

/-- **The sweep decides by the number of leases.** It settles an entry of a registered queue
    with a DLQ by moving the message to the DLQ when the message had been leased often enough
    at the time of the listing, and by delaying it otherwise; a message that is still there
    when that succeeds is then in the DLQ, or delayed. -/
theorem sweep_decides (hproper : ∀ h s tick, allowed h s tick → cycle.Proper h s tick)
    {r : Step (Daemon σ) Tick (Option (Call × Reply))}
    (run : Run (daemon adapter policies) allowed (r :: h) s) {env : Env}
    (htick : r.input = .sweepStep env) {info : ExpiredLeaseInfo} {rest : List ExpiredLeaseInfo}
    (hpending : r.before.pending = info :: rest) :
    ∃ earlier, earlier <:+ h ∧ ∃ message ∈ published earlier, message.queue = info.queue ∧
      cycle.Listed message.key info earlier ∧
      ∀ policy, policies message.queue = some policy → policy.dlq.enabled = true →
        ∃ call reply, r.output = some (call, reply) ∧
          (if policy.retry.limit ≤ cycle.leases message.key earlier then
            (∃ reason, call = .moveToDlq info.messageKey reason) ∧
            (reply.succeeded = true → ∀ found, cycle.slot r.before.store message.key = some found →
              cycle.slot s.store message.key = some { found with phase := .dlq })
          else
            ∃ delayMs, delayMs = calculateBackoffDelay info.attempt policy.retry ∧
            call = .delayMessage info.messageKey delayMs ∧
            (reply.succeeded = true → ∀ found, cycle.slot r.before.store message.key = some found →
              ∃ phase, cycle.slot s.store message.key = some { found with phase } ∧
                (phase = .delayed (env.now + delayMs) ∨ delayMs ≤ 0 ∧ phase = .ready))) := by
  obtain ⟨run', ok, rfl, hacts⟩ := cycle.last_step hproper run
  obtain ⟨earlier, hsuffix, message, hmem, hqueue, hlisted⟩ :=
    pending_listed hproper run' info (by rw [hpending]; exact List.mem_cons_self)
  refine ⟨earlier, hsuffix, message, hmem, hqueue, hlisted, fun policy hpolicy henabled => ?_⟩
  obtain ⟨haddress, hattempt, -⟩ := hlisted
  -- What the sweep does with the entry depends on the attempt in it, which counts the leases.
  have hdecides : sweepCall policies info =
      some (if policy.retry.limit ≤ cycle.leases message.key earlier then
        .moveToDlq info.messageKey s!"retry limit exceeded (attempt {info.attempt})"
      else .delayMessage info.messageKey (calculateBackoffDelay info.attempt policy.retry)) := by
    rw [hqueue] at hpolicy
    simp only [sweepCall, hpolicy, applyRetryOrDlq, henabled, if_true, hattempt]
    split <;> rfl
  obtain ⟨tick, before, out, after⟩ := r
  simp only at htick hpending ok hacts ⊢
  subst htick
  -- Of the steps the sweep can make, only the one that settles the entry agrees with it.
  cases hacts with
  | dropped env info' rest' hpending' hcall =>
    obtain ⟨rfl, -⟩ := List.cons.inj (hpending.symm.trans hpending')
    rw [hdecides] at hcall
    cases hcall
  | done env hnone =>
    rw [hnone] at hpending
    cases hpending
  | settled env info' rest' call reply store hpending' hcall hmoves =>
    obtain ⟨rfl, -⟩ := List.cons.inj (hpending.symm.trans hpending')
    rw [hdecides, Option.some.injEq] at hcall
    refine ⟨call, reply, rfl, ?_⟩
    have hmove := hmoves message.key
    split
    case isTrue hlimit =>
      rw [if_pos hlimit] at hcall
      subst hcall
      refine ⟨⟨_, rfl⟩, fun hok found hfound => ?_⟩
      rw [hfound] at hmove
      exact hmove.dead_of_ok haddress hok
    case isFalse hlimit =>
      rw [if_neg hlimit] at hcall
      subst hcall
      refine ⟨_, rfl, rfl, fun hok found hfound => ?_⟩
      rw [hfound] at hmove
      exact hmove.delay_of_ok haddress hok

end Lifecycle

end Runs

end YirangMQ

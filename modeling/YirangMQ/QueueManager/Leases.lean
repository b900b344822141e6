import YirangMQ.QueueManager.Attempts

namespace YirangMQ

/-!
# Exclusive leases

A lease is live from its grant until its end, or until its holder gives the message back.  The
sweep reads its list in one call and settles the entries in later ones without looking at the
lease again, so an entry may meet a lease granted after the listing.

* `Outstanding`, `outstandingBy`, `outstanding` — the leases of a message not given back,
  newest first, each with its end as extended;
* `Exclusive`, `Moves.exclusive` — the invariant: all leases but the newest are over, and the
  newest is the one of the slot or over too; every move keeps it that respects the leases;
* `Holds`, `Disciplined` — only the holder acknowledges, gives back or extends;
* `Timely` — a sweep step does not settle a message whose lease is live;
* `one_live_lease`, `live_lease_kept` — what follows in runs of timely sweep steps.
-/

/-- A lease that has not been given back. -/
structure Outstanding where
  consumerId : String
  leaseUntil : Int
  deriving DecidableEq, Repr

/-- The outstanding leases of message `key` after a call, by its answer and by the slot it
    leaves.  `names` are the message keys that address the message. -/
def outstandingBy (names : String → Prop) [DecidablePred names] (key : String) (call : Call)
    (reply : Reply) (slot' : Option Slot) (leases : List Outstanding) : List Outstanding :=
  match reply.granted.filter (·.1.key = key) with
  | some (_, token) => ⟨token.consumerId, token.leaseUntilMs⟩ :: leases
  | none =>
    match call with
    | .ack lease | .nack lease _ _ =>
      if names lease.messageKey ∧ reply.succeeded then leases.tail else leases
    | .extendLease lease _ =>
      match slot'.map Slot.phase, leases with
      | some (.inflight u), newest :: older =>
        if names lease.messageKey ∧ reply.succeeded then { newest with leaseUntil := u } :: older
        else leases
      | _, _ => leases
    | _ => leases

/-- The older leases are over; the newest is over or is the one in the slot. -/
structure Exclusive (ended : Outstanding → Prop) (leases : List Outstanding)
    (slot : Option Slot) : Prop where
  older : ∀ lease ∈ leases.tail, ended lease
  newest : ∀ lease, leases.head? = some lease →
    ended lease ∨ ∃ found, slot = some found ∧ found.phase = .inflight lease.leaseUntil
  current : ∀ found u, slot = some found → found.phase = .inflight u →
    ∃ lease, leases.head? = some lease ∧ lease.leaseUntil = u

section Move

variable {ended ended' : Outstanding → Prop} {leases : List Outstanding} {slot slot' : Option Slot}

/-- While the message is not leased, every lease is over. -/
theorem Exclusive.all_over (h : Exclusive ended leases slot)
    (hfree : ∀ found u, slot = some found → found.phase ≠ .inflight u) :
    ∀ lease ∈ leases, ended lease := by
  intro lease hlease
  cases leases with
  | nil => cases hlease
  | cons newest older =>
    rcases List.mem_cons.mp hlease with rfl | hlease
    · rcases h.newest lease rfl with hover | ⟨found, hslot, hphase⟩
      · exact hover
      · exact absurd hphase (hfree found _ hslot)
    · exact h.older lease hlease

/-- Once every lease is over and the message is not leased, nothing is asked. -/
theorem exclusive_of_over (hover : ∀ lease ∈ leases, ended lease)
    (hfree : ∀ found u, slot = some found → found.phase ≠ .inflight u) :
    Exclusive ended leases slot where
  older lease hlease := hover lease (List.mem_of_mem_tail hlease)
  newest lease hhead := .inl (hover lease (List.mem_of_mem_head? hhead))
  current found u hslot hphase := absurd hphase (hfree found u hslot)

/-- A lease that is over stays over. -/
theorem Exclusive.widen (h : Exclusive ended leases slot) (hover : ∀ lease, ended lease → ended' lease) :
    Exclusive ended' leases slot where
  older lease hlease := hover lease (h.older lease hlease)
  newest lease hhead := (h.newest lease hhead).imp_left (hover lease)
  current := h.current

variable {names revives : String → Prop} [DecidablePred names] {key : String} {now : Int}
  {call : Call} {reply : Reply}

/-- An answer that owes nothing keeps the leases exclusive: it changes them only when the
    message is gone. -/
theorem Exclusive.stay (h : Exclusive ended leases slot)
    (hidle : ¬Owes names revives key call reply slot)
    (hholds : ∀ lease, (call = .ack lease ∨ ∃ reason requeue, call = .nack lease reason requeue) →
      names lease.messageKey → ∀ found, slot = some found → ∃ u, found.phase = .inflight u) :
    Exclusive ended (outstandingBy names key call reply slot leases) slot := by
  have hgranted : reply.granted.filter (·.1.key = key) = none := by
    have hgranting := (course_stay hidle).2
    rw [granting] at hgranting
    cases hg : reply.granted with
    | none => rfl
    | some grant => simpa [hg, Option.filter] using hgranting
  have hgiven : ∀ lease : LeaseToken, (call = .ack lease ∨
      ∃ reason requeue, call = .nack lease reason requeue) →
      Exclusive ended (if names lease.messageKey ∧ reply.succeeded then leases.tail else leases)
        slot := by
    intro lease hcall
    split
    case isFalse => exact h
    case isTrue hgiven =>
      cases slot with
      | none => exact exclusive_of_over h.older (by simp)
      | some found =>
        -- an answer that owes nothing cannot have given an inflight message back
        obtain ⟨u, hphase⟩ := hholds lease hcall hgiven.1 found rfl
        refine absurd ?_ hidle
        rcases hcall with rfl | ⟨reason, requeue, rfl⟩
        · exact .acked hgiven.1 hgiven.2
        · exact .nacked hgiven.1 hgiven.2 hphase
  unfold outstandingBy
  rw [hgranted]
  cases call with
  | ack lease => exact hgiven lease (.inl rfl)
  | nack lease reason requeue => exact hgiven lease (.inr ⟨reason, requeue, rfl⟩)
  | extendLease lease timeout =>
    dsimp only
    split
    case h_1 u newest older hphase =>
      obtain ⟨found, hslot, hfound⟩ := Option.map_eq_some_iff.mp hphase
      obtain ⟨lease', hhead, hu⟩ := h.current found u hslot hfound
      obtain rfl := Option.some.inj hhead
      split
      · rw [← hu]
        exact h
      · exact h
    case h_2 => exact h
  | _ => exact h

/-- When no lease of the message runs past `now`, every lease is over. -/
theorem Exclusive.lapsed (h : Exclusive ended leases slot)
    (hnow : ∀ lease : Outstanding, lease.leaseUntil < now → ended lease)
    (hexpired : ∀ found u, slot = some found → found.phase = .inflight u → u < now) :
    ∀ lease ∈ leases, ended lease := by
  intro lease hlease
  cases leases with
  | nil => cases hlease
  | cons newest older =>
    rcases List.mem_cons.mp hlease with rfl | hlease
    · rcases h.newest lease rfl with hold | ⟨found, hslot, hphase⟩
      · exact hold
      · exact hnow lease (hexpired found _ hslot hphase)
    · exact h.older lease hlease

/-- A lease that is added is the one in the slot, once all others are over. -/
theorem exclusive_cons (hover : ∀ lease ∈ leases, ended lease) {lease : Outstanding}
    {found : Slot} (hphase : found.phase = .inflight lease.leaseUntil) :
    Exclusive ended (lease :: leases) (some found) where
  older := hover
  newest := by
    intro newest hhead
    obtain rfl := Option.some.inj hhead
    exact .inr ⟨found, rfl, hphase⟩
  current := by
    intro found' u hslot hu
    obtain rfl := Option.some.inj hslot
    rw [hphase] at hu
    exact ⟨lease, rfl, Phase.inflight.inj hu⟩

/-- A message of another phase is not leased. -/
theorem free_of_phase {found : Slot} (h : ∀ u, found.phase ≠ .inflight u) :
    ∀ found' u, some found = some found' → found'.phase ≠ .inflight u := by
  rintro found' u ⟨rfl⟩
  exact h u

/-- What a call that succeeds makes of the leases. -/
theorem outstandingBy_of_succeeded (hok : reply.succeeded = true) :
    outstandingBy names key call reply slot' leases =
      match call with
      | .ack lease | .nack lease _ _ => if names lease.messageKey then leases.tail else leases
      | .extendLease lease _ =>
        match slot'.map Slot.phase, leases with
        | some (.inflight u), newest :: older =>
          if names lease.messageKey then { newest with leaseUntil := u } :: older else leases
        | _, _ => leases
      | _ => leases := by
  rw [Reply.succeeded_iff.mp hok]
  cases call <;> simp [outstandingBy, Reply.succeeded]

/-- **Every move keeps the leases exclusive**, when the holder gives the message back and the
    sweep settles it only after its lease. -/
theorem Moves.exclusive (hmoves : Moves names revives key now call reply slot slot')
    (hholds : ∀ lease, (call = .ack lease ∨ ∃ reason requeue, call = .nack lease reason requeue) →
      names lease.messageKey → ∀ found, slot = some found → ∃ u, found.phase = .inflight u)
    (hsweep : ∀ K, call.sweptKey = some K → names K →
      ∀ found u, slot = some found → found.phase = .inflight u → u < now)
    (h : Exclusive ended leases slot) (hover : ∀ lease, ended lease → ended' lease)
    (hnow : ∀ lease : Outstanding, lease.leaseUntil < now → ended' lease) :
    Exclusive ended' (outstandingBy names key call reply slot' leases) slot' := by
  -- the leases that are over stay over, and the rest is about the call alone
  have hexclusive := h.widen hover
  cases hmoves with
  | stay hidle => exact hexclusive.stay hidle hholds
  | publish hkey hok =>
    rw [outstandingBy_of_succeeded hok]
    apply exclusive_of_over (hexclusive.all_over (by simp))
    apply free_of_phase
    unfold MessageEnvelope.slot
    dsimp only
    split <;> simp
  | @lease _ _ _ _ _ message token hgranted hkey hattempt htoken hconsumer huntil hqueue
      htarget hphase =>
    have hfilter : reply.granted.filter (·.1.key = key) = some (message, token) := by
      simp [hgranted, hkey, Option.filter]
    have hfree := hexclusive.all_over (free_of_phase (by simp [hphase]))
    unfold outstandingBy
    rw [hfilter]
    apply exclusive_cons hfree
    show Phase.inflight _ = Phase.inflight token.leaseUntilMs
    rw [huntil]
  | ack hnames hok =>
    rw [outstandingBy_of_succeeded hok]
    simp only [if_pos hnames]
    exact exclusive_of_over hexclusive.older (by simp)
  | requeue hnames hok hphase =>
    rw [outstandingBy_of_succeeded hok]
    simp only [if_pos hnames]
    exact exclusive_of_over hexclusive.older (free_of_phase (by simp))
  | bury hnames hok hphase =>
    rw [outstandingBy_of_succeeded hok]
    simp only [if_pos hnames]
    exact exclusive_of_over hexclusive.older (free_of_phase (by simp))
  | extend hnames hok hphase =>
    rw [outstandingBy_of_succeeded hok]
    obtain ⟨newest, hhead, -⟩ := hexclusive.current _ _ rfl hphase
    cases leases with
    | nil => cases hhead
    | cons newest older =>
      simp only [Option.map_some, if_pos hnames]
      exact exclusive_cons hexclusive.older rfl
  | recover hgranted hphase hexpired =>
    have hlapsed := hexclusive.lapsed hnow (by rintro found u ⟨rfl⟩ hu; simp_all)
    simp only [outstandingBy, hgranted, Option.filter_none]
    exact exclusive_of_over hlapsed (free_of_phase (by simp))
  | strand hgranted hphase hexpired =>
    have hlapsed := hexclusive.lapsed hnow (by rintro found u ⟨rfl⟩ hu; simp_all)
    simp only [outstandingBy, hgranted, Option.filter_none]
    exact exclusive_of_over hlapsed (by simp)
  | promote hgranted hphase =>
    have hfree := hexclusive.all_over (free_of_phase (by simp [hphase]))
    simp only [outstandingBy, hgranted, Option.filter_none]
    exact exclusive_of_over hfree (free_of_phase (by simp))
  | delay hnames hok hphase =>
    have hlapsed := hexclusive.lapsed hnow (hsweep _ rfl hnames)
    rw [outstandingBy_of_succeeded hok]
    apply exclusive_of_over hlapsed
    apply free_of_phase
    rcases hphase with rfl | ⟨-, rfl⟩ <;> simp
  | dead hnames hok =>
    have hlapsed := hexclusive.lapsed hnow (hsweep _ rfl hnames)
    rw [outstandingBy_of_succeeded hok]
    exact exclusive_of_over hlapsed (free_of_phase (by simp))
  | revive hrevives hok hphase =>
    have hfree := hexclusive.all_over (free_of_phase (by simp [hphase]))
    rw [outstandingBy_of_succeeded hok]
    exact exclusive_of_over hfree (free_of_phase (by simp))

end Move

/-! ### Leases over a run -/

section Runs

variable {σ : Type} {adapter : Adapter σ} {policies : String → Option QueuePolicy}

namespace Lifecycle

variable (cycle : Lifecycle adapter)

/-- The outstanding leases of message `key` after a step. -/
def outstandingAfter (key : String) (r : Step (Daemon σ) Tick (Option (Call × Reply)))
    (leases : List Outstanding) : List Outstanding :=
  match r.output with
  | none => leases
  | some (call, reply) =>
    outstandingBy (cycle.address · = cycle.address key) key call reply
      (cycle.slot r.after.store key) leases

/-- The outstanding leases of message `key`, newest first. -/
def outstanding (key : String) (h : DaemonHistory σ) : List Outstanding :=
  h.foldr (cycle.outstandingAfter key) []

/-- The leases of message `key` that are live at an instant. -/
def liveLeases (key : String) (h : DaemonHistory σ) (instant : Int) : List Outstanding :=
  (cycle.outstanding key h).filter (instant ≤ ·.leaseUntil)

/-- The consumer of the token holds the message that the token addresses. -/
def Holds (h : DaemonHistory σ) (s : Daemon σ) (lease : LeaseToken) : Prop :=
  ∃ key found u message token, cycle.address lease.messageKey = cycle.address key ∧
    cycle.slot s.store key = some found ∧ found.phase = .inflight u ∧
    latestGrant key h = some (message, token) ∧ token.consumerId = lease.consumerId

/-- The worker's calls on a lease are made by its holder, and only the sweep delays and
    dead-letters. -/
def Disciplined (h : DaemonHistory σ) (s : Daemon σ) : Call → Prop
  | .ack lease | .nack lease _ _ | .extendLease lease _ => cycle.Holds h s lease
  | call => call.sweptKey = none

/-- When the sweep settles an entry, the message it is about has no live lease. -/
def Timely (policies : String → Option QueuePolicy) (s : Daemon σ) (tick : Tick) : Prop :=
  ∀ env info rest, tick = .sweepStep env → s.pending = info :: rest →
    sweepCall policies info ≠ none → ∀ key found u,
    cycle.address info.messageKey = cycle.address key → cycle.slot s.store key = some found →
    found.phase = .inflight u → u < env.now

/-- The lease ended before some step of the history. -/
def Over (h : DaemonHistory σ) (lease : Outstanding) : Prop :=
  ∃ r ∈ h, lease.leaseUntil < r.input.now

variable {cycle} {allowed : DaemonHistory σ → Daemon σ → Tick → Prop} {h : DaemonHistory σ}
  {s : Daemon σ} {key : String}

theorem Over.cons {lease : Outstanding} (hover : Over h lease)
    (r : Step (Daemon σ) Tick (Option (Call × Reply))) : Over (r :: h) lease := by
  obtain ⟨r', hr', hlt⟩ := hover
  exact ⟨r', List.mem_cons_of_mem _ hr', hlt⟩

/-- A holder's message is inflight, whatever its address. -/
theorem Holds.inflight (hkept : cycle.Kept (published h) s) {lease : LeaseToken}
    (hholds : cycle.Holds h s lease)
    (haddress : cycle.address lease.messageKey = cycle.address key) :
    ∀ found, cycle.slot s.store key = some found → ∃ u, found.phase = .inflight u := by
  intro found hfound
  obtain ⟨key', found', u, message, token, haddress', hslot, hphase, -, -⟩ := hholds
  have hknown : key ∈ (published h).map MessageEnvelope.key :=
    cycle.known hkept.inv (by simp [hfound])
  have hknown' : key' ∈ (published h).map MessageEnvelope.key :=
    cycle.known hkept.inv (by simp [hslot])
  obtain rfl : key = key' :=
    cycle.address_inj hkept.inv hknown hknown' (haddress.symm.trans haddress')
  rw [hslot, Option.some.injEq] at hfound
  exact ⟨u, hfound ▸ hphase⟩

theorem Disciplined.sweptKey {call : Call} (h' : cycle.Disciplined h s call) :
    call.sweptKey = none := by
  cases call with
  | ack | nack | extendLease => rfl
  | _ => exact h'

/-- **Leases are exclusive in every run** of disciplined calls and timely sweep steps. -/
theorem exclusive (hproper : ∀ h s tick, allowed h s tick → cycle.Proper h s tick)
    (hdisciplined : ∀ h s env call, allowed h s (.call env call) → cycle.Disciplined h s call)
    (htimely : ∀ h s tick, allowed h s tick → cycle.Timely policies s tick)
    (run : Run (daemon adapter policies) allowed h s) (key : String) :
    Exclusive (Over h) (cycle.outstanding key h) (cycle.slot s.store key) := by
  refine cycle.run_rule hproper
    (fun h s => Exclusive (Over h) (cycle.outstanding key h) (cycle.slot s.store key)) ?_ ?_ run
  · rw [cycle.slot_start]
    exact ⟨by simp [outstanding], by simp [outstanding], by simp⟩
  · intro h s tick out after hkept _ hexclusive ok hacts
    -- A sweep step without a call leaves the slot as it is.
    have hsame : ∀ rest, Exclusive (Over (⟨tick, s, none, ⟨s.store, rest⟩⟩ :: h))
        (cycle.outstanding key (⟨tick, s, none, ⟨s.store, rest⟩⟩ :: h))
        (cycle.slot s.store key) := fun rest => hexclusive.widen fun _ hover => hover.cons _
    have hnow : ∀ out after (lease : Outstanding), lease.leaseUntil < tick.now →
        Over (⟨tick, s, out, after⟩ :: h) lease :=
      fun _ _ _ hlt => ⟨_, List.mem_cons_self, hlt⟩
    -- A call of the worker is made by the holder of the lease.
    cases hacts with
    | called env call reply store hfresh hmoves =>
      have hcalls := hdisciplined h s env call ok
      refine (hmoves key).exclusive ?_ ?_ hexclusive (fun _ hover => hover.cons _) (hnow _ _)
      · intro lease hcall haddress
        have hholds : cycle.Holds h s lease := by
          rcases hcall with rfl | ⟨reason, requeue, rfl⟩
          · exact hcalls
          · exact hcalls
        exact hholds.inflight hkept haddress
      · simp [hcalls.sweptKey]
    | listed env listed => exact hsame listed
    -- A call of the sweep is about a lease that has ended.
    | settled env info rest call reply store hpending hcall hmoves =>
      have hsettles : SettlesWith info call := sweepCall_settles hcall
      refine (hmoves key).exclusive ?_ ?_ hexclusive (fun _ hover => hover.cons _) (hnow _ _)
      · rintro lease (rfl | ⟨reason, requeue, rfl⟩)
        · cases hsettles
        · cases hsettles
      · rw [hsettles.sweptKey]
        rintro K ⟨rfl⟩ haddress found u hslot hphase
        exact htimely h s _ ok env info rest rfl hpending (by simp [hcall]) key found u haddress hslot
          hphase
    | dropped env info rest => exact hsame rest
    | unlisted env => exact hsame s.pending
    | done env => exact hsame s.pending

/-- **At most one lease is live** at any instant that is not before the last step. -/
theorem one_live_lease (hproper : ∀ h s tick, allowed h s tick → cycle.Proper h s tick)
    (hdisciplined : ∀ h s env call, allowed h s (.call env call) → cycle.Disciplined h s call)
    (htimely : ∀ h s tick, allowed h s tick → cycle.Timely policies s tick)
    (run : Run (daemon adapter policies) allowed h s) (key : String) {instant : Int}
    (hinstant : ∀ r ∈ h, r.input.now ≤ instant) :
    (cycle.liveLeases key h instant).length ≤ 1 := by
  have hexclusive := exclusive hproper hdisciplined htimely run key
  unfold liveLeases
  cases hleases : cycle.outstanding key h with
  | nil => simp
  | cons newest older =>
    have hover : older.filter (instant ≤ ·.leaseUntil) = [] := by
      rw [List.filter_eq_nil_iff]
      intro lease hlease
      obtain ⟨r, hr, hlt⟩ := hexclusive.older lease (by rw [hleases]; exact hlease)
      have := hinstant r hr
      simp only [decide_eq_true_eq]
      omega
    rw [List.filter_cons, hover]
    split <;> simp

/-- **A timely sweep step leaves live leases alone.** -/
theorem live_lease_kept (hproper : ∀ h s tick, allowed h s tick → cycle.Proper h s tick)
    (htimely : ∀ h s tick, allowed h s tick → cycle.Timely policies s tick)
    {r : Step (Daemon σ) Tick (Option (Call × Reply))}
    (run : Run (daemon adapter policies) allowed (r :: h) s) {env : Env}
    (htick : r.input = .sweepStep env) {found : Slot} {u : Int}
    (hslot : cycle.slot r.before.store key = some found) (hphase : found.phase = .inflight u)
    (hlive : env.now ≤ u) : cycle.slot s.store key = some found := by
  obtain ⟨-, ok, rfl, hacts⟩ := cycle.last_step hproper run
  obtain ⟨tick, before, out, after⟩ := r
  simp only at htick ok hacts hslot ⊢
  subst htick
  cases hacts with
  | dropped env info rest => exact hslot
  | done env => exact hslot
  | settled env info rest call reply store hpending hcall hmoves =>
    have hsettles : SettlesWith info call := sweepCall_settles hcall
    -- A timely step settles an entry of another message, as this lease has not ended.
    have hother : cycle.address info.messageKey ≠ cycle.address key := by
      intro haddress
      have hlate := htimely h _ _ ok env info rest rfl hpending (by simp [hcall]) key found u
        haddress hslot hphase
      omega
    have hmove := hmoves key
    rw [hslot] at hmove
    show cycle.slot store key = some found
    generalize cycle.slot store key = slot' at hmove
    cases hsettles with
    | delay delayMs =>
      cases hmove with
      | stay => rfl
      | delay hnames => exact absurd hnames hother
    | dead =>
      cases hmove with
      | stay => rfl
      | dead hnames => exact absurd hnames hother

end Lifecycle

end Runs

end YirangMQ

import YirangMQ.QueueManager.Sweep

namespace YirangMQ

/-!
# One pass of the sweep

`QueueManager::recover_expired_leases` run to its end, with no call of the worker in between.

* `recoverExpiredLeases`, `settleList` — the pass: the listing, and one entry after another;
* `SweptBackend` — a backend whose `delay_message` and `move_to_dlq` succeed and take the message
  out of `inflight`;
* `Policies.Exhausts` — a message over the limit of a queue without DLQ, which stays as it is;
* `SweptBackend.settleList_spec` — what the loop does with every message;
* `Lifecycle.sweptBackend` — an adapter with the life cycle whose settling calls succeed is such
  a backend.
-/

section Pass

variable {σ : Type} (adapter : Adapter σ) (policies : String → Option QueuePolicy)

/-- The loop over the listed entries, with the calls it makes and their answers; `envs` are the
    environments of the entries. -/
def settleList (envs : Nat → Env) : List ExpiredLeaseInfo → σ → List (Call × Reply) × σ
  | [], s => ([], s)
  | info :: rest, s =>
    match sweepCall policies info with
    | none => settleList (fun n => envs (n + 1)) rest s
    | some call =>
      let (reply, s) := adapter.perform (envs 0) call s
      let (calls, s) := settleList (fun n => envs (n + 1)) rest s
      ((call, reply) :: calls, s)

def recoverExpiredLeases (envs : Nat → Env) (s : σ) : List (Call × Reply) × σ :=
  match adapter.expired (envs 0) s with
  | .error _ => ([], s)
  | .ok listed => settleList adapter policies (fun n => envs (n + 1)) listed s

/-- What the loop does, the running sweep does in as many steps when nothing comes between. -/
theorem replay_settleList (listed : List ExpiredLeaseInfo) (envs : Nat → Env) (s : σ)
    (h : DaemonHistory σ) :
    ((daemon adapter policies).replay
      ((List.range listed.length).map fun n => .sweepStep (envs n)) (h, ⟨s, listed⟩)).2 =
      ⟨(settleList adapter policies envs listed s).2, []⟩ := by
  induction listed generalizing envs s h with
  | nil => rfl
  | cons info rest ih =>
    rw [List.length_cons, List.range_succ_eq_map, List.map_cons, List.map_map, Machine.replay]
    cases hcall : sweepCall policies info with
    | none =>
      have hstep : ((daemon adapter policies).step ⟨s, info :: rest⟩ (.sweepStep (envs 0))).2 =
          ⟨s, rest⟩ := by
        simp only [daemon, Daemon.step, hcall]
      rw [hstep, settleList, hcall]
      exact ih (fun n => envs (n + 1)) s _
    | some call =>
      have hstep : ((daemon adapter policies).step ⟨s, info :: rest⟩ (.sweepStep (envs 0))).2 =
          ⟨(adapter.perform (envs 0) call s).2, rest⟩ := by
        simp only [daemon, Daemon.step, hcall]
      rw [hstep, settleList, hcall]
      exact ih (fun n => envs (n + 1)) _ _

end Pass

/-- A message that is inflight. -/
structure Inflight where
  queue : String
  attempt : Int
  leaseUntil : Int
  deriving DecidableEq, Repr

/-- The message has used up its attempts in a queue whose DLQ is disabled. -/
def Exhausts (policies : String → Option QueuePolicy) (r : Inflight) : Prop :=
  ∃ policy, policies r.queue = some policy ∧ policy.retry.limit ≤ r.attempt ∧
    policy.dlq.enabled = false

/-- A backend whose settling calls succeed and take the message they are about, and no other,
    out of `inflight`. -/
structure SweptBackend {σ : Type} (adapter : Adapter σ) where
  /-- The stores of the backend. -/
  Inv : σ → Prop
  /-- The environments in which its calls succeed. -/
  Calm : Env → Prop
  /-- The messages that are inflight. -/
  inflight : σ → String → Option Inflight
  expired : ∀ {env s}, Inv s → Calm env → ∃ listed, adapter.expired env s = .ok listed ∧
    (listed.map ExpiredLeaseInfo.messageKey).Nodup ∧
    ∀ info, info ∈ listed ↔
      ∃ u, inflight s info.messageKey = some ⟨info.queue, info.attempt, u⟩ ∧ u < env.now
  settled : ∀ {env s info call}, Inv s → Calm env → inflight s info.messageKey ≠ none →
    SettlesWith info call →
    Inv (adapter.perform env call s).2 ∧ (adapter.perform env call s).1.succeeded = true ∧
    ∀ key, inflight (adapter.perform env call s).2 key =
      if key = info.messageKey then none else inflight s key

/-- The sweep makes a call for every entry but those of exhausted messages. -/
theorem sweepCall_eq_none {policies : String → Option QueuePolicy} {info : ExpiredLeaseInfo}
    {u : Int} :
    sweepCall policies info = none ↔ Exhausts policies ⟨info.queue, info.attempt, u⟩ := by
  unfold sweepCall applyRetryOrDlq Exhausts
  cases hpolicy : policies info.queue with
  | none => simp
  | some policy =>
    by_cases hlimit : policy.retry.limit ≤ info.attempt
    · cases henabled : policy.dlq.enabled with
      | true => simp [hlimit, henabled]
      | false => simp [hlimit, henabled]
    · simp [hlimit]

section Settling

variable {σ : Type} {adapter : Adapter σ} {policies : String → Option QueuePolicy}

namespace SweptBackend

variable (backend : SweptBackend adapter)

/-- **What the loop does with every message**: it takes the entries it makes a call for out of
    `inflight`, and leaves every other message as it is. -/
theorem settleList_spec (policies : String → Option QueuePolicy) {envs : Nat → Env}
    {listed : List ExpiredLeaseInfo} {s : σ}
    (hinv : backend.Inv s) (hcalm : ∀ n, backend.Calm (envs n))
    (hnodup : (listed.map ExpiredLeaseInfo.messageKey).Nodup)
    (hinflight : ∀ info ∈ listed, backend.inflight s info.messageKey ≠ none) :
    backend.Inv (settleList adapter policies envs listed s).2 ∧
    (∀ r ∈ (settleList adapter policies envs listed s).1, r.2.succeeded = true) ∧
    (∀ info ∈ listed, sweepCall policies info ≠ none →
      backend.inflight (settleList adapter policies envs listed s).2 info.messageKey = none) ∧
    ∀ key, (∀ info ∈ listed, info.messageKey = key → sweepCall policies info = none) →
      backend.inflight (settleList adapter policies envs listed s).2 key =
        backend.inflight s key := by
  induction listed generalizing envs s with
  | nil => exact ⟨hinv, by simp [settleList], by simp, fun _ _ => rfl⟩
  | cons info rest ih =>
    rw [List.map_cons, List.nodup_cons] at hnodup
    obtain ⟨hnew, hnodup⟩ := hnodup
    have hother : ∀ info' ∈ rest, info'.messageKey ≠ info.messageKey := by
      intro info' hinfo' heq
      exact hnew (heq ▸ List.mem_map_of_mem hinfo')
    rw [settleList]
    cases hcall : sweepCall policies info with
    | none =>
      obtain ⟨hinv', hreplies, hsettled, hkept⟩ := ih hinv (fun n => hcalm (n + 1)) hnodup
        fun info' hinfo' => hinflight info' (List.mem_cons_of_mem _ hinfo')
      refine ⟨hinv', hreplies, fun info' hinfo' hsome => ?_, fun key hnone => ?_⟩
      · rcases List.mem_cons.mp hinfo' with rfl | hinfo'
        · exact absurd hcall hsome
        · exact hsettled info' hinfo' hsome
      · exact hkept key fun info' hinfo' => hnone info' (List.mem_cons_of_mem _ hinfo')
    | some call =>
      obtain ⟨hinv₁, hok, hafter⟩ := backend.settled hinv (hcalm 0)
        (hinflight info List.mem_cons_self) (sweepCall_settles hcall)
      have hinflight₁ : ∀ info' ∈ rest, backend.inflight
          (adapter.perform (envs 0) call s).2 info'.messageKey ≠ none := by
        intro info' hinfo'
        rw [hafter, if_neg (hother info' hinfo')]
        exact hinflight info' (List.mem_cons_of_mem _ hinfo')
      obtain ⟨hinv', hreplies, hsettled, hkept⟩ :=
        ih hinv₁ (fun n => hcalm (n + 1)) hnodup hinflight₁
      refine ⟨hinv', ?_, fun info' hinfo' hsome => ?_, fun key hnone => ?_⟩
      · intro r hr
        rcases List.mem_cons.mp hr with rfl | hr
        · exact hok
        · exact hreplies r hr
      · rcases List.mem_cons.mp hinfo' with rfl | hinfo'
        · -- the entry just settled is not touched by the later ones
          show backend.inflight _ info'.messageKey = none
          rw [hkept info'.messageKey fun i hi heq => absurd heq (hother i hi), hafter, if_pos rfl]
        · exact hsettled info' hinfo' hsome
      · have hne : key ≠ info.messageKey := by
          rintro rfl
          have hnone' := hnone info List.mem_cons_self rfl
          rw [hcall] at hnone'
          cases hnone'
        show backend.inflight _ key = _
        rw [hkept key fun i hi => hnone i (List.mem_cons_of_mem _ hi), hafter, if_neg hne]

/-- A loop over exhausted messages makes no call. -/
theorem settleList_eq {envs : Nat → Env} {listed : List ExpiredLeaseInfo} {s : σ}
    (hnone : ∀ info ∈ listed, sweepCall policies info = none) :
    settleList adapter policies envs listed s = ([], s) := by
  induction listed generalizing envs with
  | nil => rfl
  | cons info rest ih =>
    rw [settleList, hnone info List.mem_cons_self]
    exact ih fun info' hinfo' => hnone info' (List.mem_cons_of_mem _ hinfo')

end SweptBackend

/-! ### Adapters with the life cycle -/

/-- The lease of a slot. -/
def Slot.inflight? (slot : Slot) : Option Inflight :=
  match slot.phase with
  | .inflight u => some ⟨slot.queue, slot.attempt, u⟩
  | _ => none

theorem Slot.inflight?_eq_some {slot : Slot} {r : Inflight} :
    slot.inflight? = some r ↔
      slot.queue = r.queue ∧ slot.attempt = r.attempt ∧ slot.phase = .inflight r.leaseUntil := by
  obtain ⟨queue, attempt, leaseUntil⟩ := r
  unfold Slot.inflight?
  cases hphase : slot.phase with
  | inflight u => simp
  | _ => simp

/-- A settled message is not inflight. -/
theorem Moves.not_inflight {key : String} {now : Int} {info : ExpiredLeaseInfo} {call : Call}
    {reply : Reply} {slot slot' : Option Slot} (hkey : info.messageKey = key)
    (hsettles : SettlesWith info call) (hok : reply.succeeded = true)
    (hmoves : Moves (· = key) (· = key) key now call reply slot slot') :
    slot'.bind Slot.inflight? = none := by
  cases hmoves with
  | stay hidle =>
    cases slot with
    | none => rfl
    | some found =>
      cases hsettles with
      | delay => exact absurd (.delayed hkey hok) hidle
      | dead => exact absurd (.dead hkey hok) hidle
  | delay hnames hok hphase =>
    rcases hphase with hphase | ⟨-, hphase⟩
    · simp [Slot.inflight?, hphase]
    · simp [Slot.inflight?, hphase]
  | dead => rfl
  | _ => cases hsettles

/-- A settling call leaves the other messages where they are. -/
theorem Moves.settled_other {key : String} {now : Int} {info : ExpiredLeaseInfo} {call : Call}
    {reply : Reply} {slot slot' : Option Slot} (hkey : info.messageKey ≠ key)
    (hsettles : SettlesWith info call)
    (hmoves : Moves (· = key) (· = key) key now call reply slot slot') : slot' = slot := by
  cases hmoves with
  | stay => rfl
  | delay hnames =>
    cases hsettles
    exact absurd hnames hkey
  | dead hnames =>
    cases hsettles
    exact absurd hnames hkey
  | _ => cases hsettles

/-- An adapter with the life cycle whose settling calls succeed while nothing fails. -/
def Lifecycle.sweptBackend (cycle : Lifecycle adapter) (haddress : ∀ key, cycle.address key = key)
    (hrevives : ∀ K k, cycle.revives K k ↔ K = k)
    (hlists : ∀ {published env s}, cycle.Inv published s → env.faults = [] →
      ∃ listed, adapter.expired env s = .ok listed)
    (hsucceeds : ∀ {published env s info call}, cycle.Inv published s → env.faults = [] →
      SettlesWith info call → (adapter.perform env call s).1.succeeded = true) :
    SweptBackend adapter where
  Inv s := ∃ published, cycle.Inv published s
  Calm env := cycle.Calm env ∧ env.faults = []
  inflight s key := (cycle.slot s key).bind Slot.inflight?
  expired := by
    rintro env s ⟨published, hinv⟩ ⟨hcalm, hfaults⟩
    obtain ⟨listed, hlisted⟩ := hlists hinv hfaults
    obtain ⟨hnodup, hslots, hall⟩ := cycle.expired hinv hcalm hlisted
    simp only [haddress] at hnodup hslots hall
    have hslot : ∀ info ∈ listed, ∃ u, u < env.now ∧
        (cycle.slot s info.messageKey).bind Slot.inflight? =
          some ⟨info.queue, info.attempt, u⟩ := by
      intro info hinfo
      obtain ⟨key, target, u, rfl, hexpired, hfound⟩ := hslots info hinfo
      exact ⟨u, hexpired, by rw [hfound]; rfl⟩
    refine ⟨listed, hlisted, hnodup, fun info => ⟨fun hinfo => ?_, ?_⟩⟩
    · obtain ⟨u, hexpired, hfound⟩ := hslot info hinfo
      exact ⟨u, hfound, hexpired⟩
    · rintro ⟨u, hfound, hexpired⟩
      obtain ⟨slot, hslot', hlease⟩ := Option.bind_eq_some_iff.mp hfound
      have hphase : slot.phase = .inflight u := (Slot.inflight?_eq_some.mp hlease).2.2
      obtain ⟨info', hinfo', hkey⟩ := hall hfaults _ slot u hslot' hphase hexpired
      -- the entry of that key is the entry of that lease
      obtain ⟨u', -, hfound'⟩ := hslot info' hinfo'
      rw [hkey, hfound, Option.some.injEq, Inflight.mk.injEq] at hfound'
      have hsame : info' = info := by
        cases info'
        cases info
        simp_all
      exact hsame ▸ hinfo'
  settled := by
    rintro env s info call ⟨published, hinv⟩ ⟨hcalm, hfaults⟩ hinflight hsettles
    have hknown : info.messageKey ∈ published.map MessageEnvelope.key := by
      refine cycle.known hinv fun hnone => hinflight ?_
      rw [hnone]
      rfl
    have hadmits : cycle.Admits call := cycle.admits_sweep hinv hknown rfl hsettles
    obtain ⟨hinv', hmoves⟩ := cycle.perform hinv hcalm hadmits (hsettles.fresh published).1
    have hok := hsucceeds hinv hfaults hsettles
    refine ⟨⟨_, hinv'⟩, hok, fun key => ?_⟩
    have hmoved := hmoves key
    simp only [haddress, hrevives] at hmoved
    split
    case isTrue heq => exact hmoved.not_inflight heq.symm hsettles hok
    case isFalse hne => rw [hmoved.settled_other (Ne.symm hne) hsettles]

end Settling

end YirangMQ

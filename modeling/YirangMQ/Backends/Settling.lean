import YirangMQ.Hybrid.Lifecycle
import YirangMQ.QueueManager.Settling
import YirangMQ.SQLite.Lifecycle

namespace YirangMQ

/-!
# What one pass of the sweep settles

* `sweep_settles` — **a pass settles every expired lease but those of exhausted messages**, which
  it leaves as they are, and a second pass makes no call;
* `exhausted_stays` — an exhausted message;
* `SQLite.swept`, `Hybrid.swept` — the two SQL backends are swept so while nothing fails.
-/

variable {schema : SchemaFile}

/-- **A pass of the sweep** takes every message whose lease has expired out of `inflight`, but a
    message over its limit in a queue whose DLQ is disabled stays as it is; with no lease newly
    expired, the next pass makes no call. -/
theorem sweep_settles {σ : Type} {adapter : Adapter σ} (backend : SweptBackend adapter)
    (policies : String → Option QueuePolicy) (envs : Nat → Env) {s : σ}
    (hinv : backend.Inv s) (hcalm : ∀ n, backend.Calm (envs n)) :
    (∀ key r, backend.inflight s key = some r → r.leaseUntil < (envs 0).now →
      (Exhausts policies r →
        backend.inflight (recoverExpiredLeases adapter policies envs s).2 key = some r) ∧
      (¬Exhausts policies r →
        backend.inflight (recoverExpiredLeases adapter policies envs s).2 key = none)) ∧
    ∀ later : Nat → Env, (∀ n, backend.Calm (later n)) →
      (∀ key r, backend.inflight (recoverExpiredLeases adapter policies envs s).2 key = some r →
        r.leaseUntil < (later 0).now → r.leaseUntil < (envs 0).now) →
      recoverExpiredLeases adapter policies later
        (recoverExpiredLeases adapter policies envs s).2 =
          ([], (recoverExpiredLeases adapter policies envs s).2) := by
  obtain ⟨listed, hlisted, hnodup, hexpired⟩ := backend.expired hinv (hcalm 0)
  have hpass : recoverExpiredLeases adapter policies envs s =
      settleList adapter policies (fun n => envs (n + 1)) listed s := by
    rw [recoverExpiredLeases, hlisted]
  have hinflight : ∀ info ∈ listed, backend.inflight s info.messageKey ≠ none := by
    intro info hinfo
    obtain ⟨u, hfound, -⟩ := (hexpired info).mp hinfo
    rw [hfound]
    exact Option.some_ne_none _
  obtain ⟨hinv', -, hsettled, hkept⟩ :=
    backend.settleList_spec policies hinv (fun n => hcalm (n + 1)) hnodup hinflight
  rw [← hpass] at hinv' hsettled hkept
  generalize (recoverExpiredLeases adapter policies envs s).2 = after at *
  -- an entry of the list is the lease of its message
  have hlease : ∀ info ∈ listed, ∀ r, backend.inflight s info.messageKey = some r →
      (sweepCall policies info = none ↔ Exhausts policies r) := by
    intro info hinfo r hr
    obtain ⟨u, hfound, -⟩ := (hexpired info).mp hinfo
    obtain rfl : r = ⟨info.queue, info.attempt, u⟩ := Option.some.inj (hr.symm.trans hfound)
    exact sweepCall_eq_none
  refine ⟨fun key r hr hpast => ⟨fun hexhausts => ?_, fun hnot => ?_⟩, ?_⟩
  · rw [hkept key, hr]
    rintro info hinfo rfl
    exact (hlease info hinfo r hr).mpr hexhausts
  · have hmem : (⟨key, r.queue, r.attempt⟩ : ExpiredLeaseInfo) ∈ listed :=
      (hexpired _).mpr ⟨r.leaseUntil, hr, hpast⟩
    exact hsettled _ hmem fun hnone => hnot ((hlease _ hmem r hr).mp hnone)
  · intro later hcalm' hnew
    obtain ⟨listed', hlisted', -, hexpired'⟩ := backend.expired hinv' (hcalm' 0)
    rw [recoverExpiredLeases, hlisted']
    refine SweptBackend.settleList_eq fun info hinfo => ?_
    obtain ⟨u, hfound, hpast⟩ := (hexpired' info).mp hinfo
    -- a lease that the first pass has seen and left is that of an exhausted message
    by_contra hcall
    have hsame : backend.inflight after info.messageKey =
        backend.inflight s info.messageKey := by
      refine hkept info.messageKey fun info' hinfo' hkey => ?_
      by_contra hcall'
      have hgone := hsettled info' hinfo' hcall'
      rw [hkey, hfound] at hgone
      cases hgone
    have hmem : info ∈ listed :=
      (hexpired info).mpr ⟨u, hsame.symm.trans hfound, hnew _ _ hfound hpast⟩
    have hgone := hsettled info hmem hcall
    rw [hfound] at hgone
    cases hgone

/-! ### The SQL backends -/

/-- While nothing fails, a settling call on the SQLite store succeeds. -/
theorem SQLite.settles {s : SQLite.Store} (hsaved : s.saved = none) {env : Env}
    (hfaults : env.faults = []) {info : ExpiredLeaseInfo} {call : Call}
    (hsettles : SettlesWith info call) :
    ((SQLite.adapter schema).perform env call s).1.succeeded = true := by
  have hperforms := (@SQLite.perform_performs False schema env s hsaved (.inr hfaults) call).2
  cases hsettles with
  | delay =>
    rcases hperforms with ⟨-, -, hwhy⟩ | heffect
    · exact (hwhy.elim id id).elim
    · rw [heffect.1]
      rfl
  | dead =>
    rcases hperforms with ⟨-, -, hwhy⟩ | heffect
    · exact (hwhy.elim id id).elim
    · rw [heffect.1]
      rfl

/-- While nothing fails, a settling call on the Hybrid store succeeds. -/
theorem Hybrid.settles {s : Hybrid.Store} (hsaved : s.saved = none) {env : Env}
    (hfaults : env.faults = []) {info : ExpiredLeaseInfo} {call : Call}
    (hsettles : SettlesWith info call) :
    ((Hybrid.adapter schema).perform env call s).1.succeeded = true := by
  have hperforms := (@Hybrid.perform_performs False schema env s hsaved (.inr hfaults) call).2
  cases hsettles with
  | delay =>
    rcases hperforms with ⟨-, -, hwhy⟩ | heffect
    · exact (hwhy.elim id id).elim
    · rw [heffect.1]
      rfl
  | dead =>
    rcases hperforms with ⟨-, -, hwhy⟩ | heffect
    · exact (hwhy.elim id id).elim
    · rw [heffect.1]
      rfl

/-- While nothing fails, the SQLite store lists its expired rows. -/
theorem SQLite.expired_ok {s : SQLite.Store} {env : Env} (hfaults : env.faults = []) :
    (SQLite.adapter schema).expired env s = .ok (s.data.expiredRows env.now) := by
  have hsat : Program.Sat False (fun _ => True) s (SQLite.getExpiredInflightMessages env)
      fun r _ => r = .ok (s.data.expiredRows env.now) := by
    refine Program.Sat.bind (Program.Sat.prim ?_ (by simp [Conn.reading]) (by simp))
    rintro t u ⟨rfl, rfl⟩
    refine ⟨trivial, Program.Sat.bind (Program.Sat.fetch _ (fun n hn => ?_) trivial)⟩
    rw [hn id, List.take_length]
    exact Program.Sat.pure rfl
  exact (hsat.run (.inr hfaults) trivial).1

/-- While nothing fails, the Hybrid store lists its expired rows. -/
theorem Hybrid.expired_ok {s : Hybrid.Store} {env : Env} (hfaults : env.faults = []) :
    (Hybrid.adapter schema).expired env s = .ok (s.data.expiredRows env.now) := by
  have hsat : Program.Sat False (fun _ => True) s (Hybrid.getExpiredInflightMessages env)
      fun r _ => r = .ok (s.data.expiredRows env.now) := by
    refine Program.Sat.prim ?_ (by simp [Conn.reading]) (by simp)
    rintro rows t ⟨rfl, rfl⟩
    exact ⟨trivial, rfl⟩
  exact (hsat.run (.inr hfaults) trivial).1

/-- The SQLite backend is swept while no statement fails. -/
def SQLite.swept (schema : SchemaFile) : SweptBackend (SQLite.adapter schema) :=
  (SQLite.lifecycle schema).sweptBackend (fun _ => rfl) (fun _ _ => .rfl)
    (fun _ hfaults => ⟨_, SQLite.expired_ok hfaults⟩)
    fun h hfaults hsettles => SQLite.settles h.saved hfaults hsettles

/-- The Hybrid backend is swept while nothing fails. -/
def Hybrid.swept (schema : SchemaFile) : SweptBackend (Hybrid.adapter schema) :=
  (Hybrid.lifecycle schema).sweptBackend (fun _ => rfl) (fun _ _ => .rfl)
    (fun _ hfaults => ⟨_, Hybrid.expired_ok hfaults⟩)
    fun h hfaults hsettles => Hybrid.settles h.saved hfaults hsettles

/-! ### Two sweeps -/

section Example

/-- A policy of one attempt without DLQ, as `Configurations` accepts it. -/
def singleAttempt : QueuePolicy where
  visibilityTimeoutSec := 1
  retry := { limit := 1, backoff := "fixed", initialDelaySec := 1, maxDelaySec := 60 }

/-- The SQLite store after the only message has been leased until `1002`. -/
def oneLeased : SQLite.Store :=
  let published := ((SQLite.adapter .mainMq).perform ⟨1, Int.one_pos, "", []⟩
    (.enqueue ⟨"msg:q:a", "a", "q", "1", "", 0, 0, 0, 0, ""⟩) (SQLite.adapter .mainMq).start).2
  ((SQLite.adapter .mainMq).perform ⟨2, by decide, "", []⟩ (.leaseNext "q" "c" 1) published).2

/-- The message has used up its only attempt.  The sweep at 2000 makes no call for it, so it stays
    inflight under its expired lease. -/
theorem exhausted_stays :
    let pass := recoverExpiredLeases (SQLite.adapter .mainMq) (fun _ => some singleAttempt)
      (fun _ => ⟨2000, by decide, "", []⟩) oneLeased
    pass.1.length = 0 ∧ pass.2.data.slot "msg:q:a" = some ⟨"q", "", 1, .inflight 1002⟩ := by
  decide

theorem keeps_oneLeased : (SQLite.swept .mainMq).Inv oneLeased := by
  have hstart : SQLite.Keeps [] (SQLite.adapter .mainMq).start := (SQLite.lifecycle .mainMq).start
  have hfresh : (Call.enqueue ⟨"msg:q:a", "a", "q", "1", "", 0, 0, 0, 0, ""⟩).Fresh [] := by decide
  have hpublished := @SQLite.Keeps.kept .mainMq ⟨1, Int.one_pos, "", []⟩ _ _ hstart _ hfresh
  exact ⟨_, @SQLite.Keeps.kept .mainMq ⟨2, by decide, "", []⟩ _ _ hpublished
    (.leaseNext "q" "c" 1) trivial⟩

/-- The sweep of the same store without policies takes the message out of `inflight`. -/
theorem sweep_settles_oneLeased :
    (SQLite.swept .mainMq).inflight (recoverExpiredLeases (SQLite.adapter .mainMq)
      (fun _ => none) (fun _ => ⟨2000, by decide, "", []⟩) oneLeased).2 "msg:q:a" = none :=
  ((sweep_settles (SQLite.swept .mainMq) (fun _ => none) (fun _ => ⟨2000, by decide, "", []⟩)
    keeps_oneLeased fun _ => ⟨trivial, rfl⟩).1 "msg:q:a"
      ⟨"q", 1, 1002⟩ (by decide) (by decide)).2 (by rintro ⟨policy, hpolicy, -⟩; cases hpolicy)

end Example

end YirangMQ

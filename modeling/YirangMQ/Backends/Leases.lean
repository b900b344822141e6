import YirangMQ.Backends.Types
import YirangMQ.QueueManager.Leases

namespace YirangMQ

/-!
# Exclusive leases on every backend

* `Orderly` — runs of a daemon whose consumers keep to their leases, under a clock that never
  goes back;
* `leases_exclusive` — **one live lease at a time, as long as sweep steps are timely.**
* `stale_entry_revokes_lease` — a sweep step that is not.
-/

/-- A proper tick of a daemon whose worker's calls on leases are made by their holders, at a
    time not earlier than before. -/
structure Lifecycle.Orderly {σ : Type} {adapter : Adapter σ} (cycle : Lifecycle adapter)
    (h : DaemonHistory σ) (s : Daemon σ) (tick : Tick) : Prop where
  proper : cycle.Proper h s tick
  later : Later Tick.now h tick
  disciplined : ∀ env call, tick = .call env call → cycle.Disciplined h s call

/-- A proper call at a later time is orderly if the lease it is about is held by its consumer. -/
theorem Lifecycle.Orderly.call {σ : Type} {adapter : Adapter σ} {cycle : Lifecycle adapter}
    {h : DaemonHistory σ} {s : Daemon σ} {env : Env} {call : Call} (hcalm : cycle.Calm env)
    (hfresh : call.Fresh (published h)) (hadmits : cycle.Admits call)
    (hlater : Later Tick.now h (.call env call)) (hdisciplined : cycle.Disciplined h s call) :
    cycle.Orderly h s (.call env call) where
  proper := .call hcalm hfresh hadmits
  later := hlater
  disciplined := by
    rintro _ _ ⟨rfl, rfl⟩
    exact hdisciplined

/-- A proper tick of the sweep at a later time is orderly. -/
theorem Lifecycle.Orderly.sweep {σ : Type} {adapter : Adapter σ} {cycle : Lifecycle adapter}
    {h : DaemonHistory σ} {s : Daemon σ} {tick : Tick} (hcalm : cycle.Calm tick.env)
    (hlater : Later Tick.now h tick) (hsweep : ∀ env call, tick ≠ .call env call) :
    cycle.Orderly h s tick where
  proper := .sweep hcalm hsweep
  later := hlater
  disciplined env call htick := absurd htick (hsweep env call)

/-- **Exclusive leases.** In a run of orderly ticks and timely sweep steps, at most one lease of
    a message is live at any instant, and a sweep step leaves a message whose lease is live as
    it is. -/
theorem leases_exclusive (backend : BackendType) (schema : SchemaFile)
    (policies : String → Option QueuePolicy) {h : DaemonHistory backend.Store}
    {s : Daemon backend.Store}
    (run : Run (daemon (backend.adapter schema) policies) (fun h s tick =>
      (backend.lifecycle schema).Orderly h s tick ∧
      (backend.lifecycle schema).Timely policies s tick) h s) (key : String) :
    (∀ instant, (∀ r ∈ h, r.input.now ≤ instant) →
      ((backend.lifecycle schema).liveLeases key h instant).length ≤ 1) ∧
    ∀ r older env found u, h = r :: older → r.input = .sweepStep env →
      (backend.lifecycle schema).slot r.before.store key = some found →
      found.phase = .inflight u → env.now ≤ u →
      (backend.lifecycle schema).slot s.store key = some found := by
  constructor
  · intro instant hinstant
    exact Lifecycle.one_live_lease (fun _ _ _ ok => ok.1.proper)
      (fun _ _ env call ok => ok.1.disciplined env call rfl) (fun _ _ _ ok => ok.2) run key hinstant
  · rintro r older env found u rfl htick hslot hphase hlive
    exact Lifecycle.live_lease_kept (fun _ _ _ ok => ok.1.proper) (fun _ _ _ ok => ok.2) run htick
      hslot hphase hlive

/-- A message published and leased on the FileSystem backend. -/
theorem leases_exclusive_leased :
    let env (n : Nat) : Env := { now := n + 1, now_pos := Int.succ_ofNat_pos n }
    let message : MessageEnvelope :=
      { key := messageKey "q" "a", messageId := "a", queue := "q", payloadJson := "{}"
        attributesJson := "{}" }
    let M := daemon (BackendType.fileSystem.adapter .mainMq) fun _ => none
    let published := M.stepAt M.start (.call (env 1) (.enqueue message))
    let leased := M.stepAt published.after (.call (env 2) (.leaseNext "q" "c" 30))
    ((BackendType.fileSystem.lifecycle .mainMq).liveLeases (messageKey "q" "a")
      [leased, published] 3).length ≤ 1 := by
  intro env message M published leased
  have hpublish : FileSystem.nulFree.Admits (.enqueue message) :=
    FileSystem.nulFree_admits (by decide) (by decide)
  have hlease : FileSystem.nulFree.Admits (.leaseNext "q" "c" 30) :=
    FileSystem.nulFree_admits (by decide) (by decide)
  have htimely : ∀ s env call, (BackendType.fileSystem.lifecycle .mainMq).Timely
      (fun _ => none) s (.call env call) := by simp [Lifecycle.Timely]
  have hlater : Later Tick.now [published] (.call (env 2) (.leaseNext "q" "c" 30)) := by
    simp [Later, published, Tick.now, Tick.env, env]
  have run : Run M (fun h s tick => (BackendType.fileSystem.lifecycle .mainMq).Orderly h s tick ∧
      (BackendType.fileSystem.lifecycle .mainMq).Timely (fun _ => none) s tick) [] M.start := .start
  have run := run.stepAt (.call (env 1) (.enqueue message))
    ⟨.call rfl (by decide) hpublish (by simp [Later]) rfl, htimely _ _ _⟩
  have run := run.stepAt (.call (env 2) (.leaseNext "q" "c" 30))
    ⟨.call rfl trivial hlease hlater rfl, htimely _ _ _⟩
  exact (leases_exclusive .fileSystem .mainMq (fun _ => none) run (messageKey "q" "a")).1 3
    (by simp [Tick.now, Tick.env, env])

/-- A lease that the sweep has listed is given back and granted anew before the sweep settles its
    entry: the new lease is revoked, and a third one granted beside it. -/
theorem stale_entry_revokes_lease :
    let env (n : Nat) : Env := { now := n + 1, now_pos := Int.succ_ofNat_pos n }
    let message : MessageEnvelope :=
      { key := messageKey "q" "a", messageId := "a", queue := "q", payloadJson := "{}"
        attributesJson := "{}", createdAtMs := 1 }
    let M := daemon (BackendType.sqlite.adapter .mainMq) fun _ => none
    let ticks : List Tick := [.call (env 1) (.enqueue message),
      .call (env 2) (.leaseNext "q" "first" 1), .sweepRead (env 2000),
      .call (env 2001) (.nack ⟨"", message.key, "first", 0⟩ "" true),
      .call (env 2002) (.leaseNext "q" "second" 60), .sweepStep (env 2003),
      .call (env 2004) .processDelayedMessages, .call (env 2005) (.leaseNext "q" "third" 60)]
    let h := (M.replay ticks ([], M.start)).1
    Run M (BackendType.sqlite.lifecycle .mainMq).Orderly h (M.replay ticks ([], M.start)).2 ∧
      (∀ r ∈ h, r.input.now ≤ 2006) ∧
      (BackendType.sqlite.lifecycle .mainMq).liveLeases message.key h 2006 =
        [⟨"third", 62006⟩, ⟨"second", 62003⟩] := by
  intro env message M ticks h
  have hreadable : '\x00' ∉ "q".toList := by decide
  refine ⟨run_replay ticks ⟨?_, ?_, ?_, ?_, ?_, ?_, ?_, ?_, trivial⟩, by decide, by decide⟩
  · exact .call trivial (by decide) trivial (by simp [Later]) rfl
  · exact .call trivial trivial hreadable (by unfold Later; decide) rfl
  · exact .sweep trivial (by unfold Later; decide) (by simp)
  · refine .call trivial trivial trivial (by unfold Later; decide) ?_
    exact ⟨message.key, ⟨"q", "", 1, .inflight 1003⟩, 1003, { message with attempt := 1 },
      ⟨"", message.key, "first", 1003⟩, rfl, by decide, rfl, by decide, rfl⟩
  · exact .call trivial trivial hreadable (by unfold Later; decide) rfl
  · exact .sweep trivial (by unfold Later; decide) (by simp)
  · exact .call trivial trivial trivial (by unfold Later; decide) rfl
  · exact .call trivial trivial hreadable (by unfold Later; decide) rfl

end YirangMQ

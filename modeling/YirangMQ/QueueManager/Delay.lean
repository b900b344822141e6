import YirangMQ.QueueManager.Attempts

namespace YirangMQ

/-!
# No early delivery

A message that is published for later, or that the sweep delays, is not leased before its
time, under a clock that never goes back.

* `Postpones` — the steps that put a message off to a time: publishing it, and a sweep step
  whose `delay_message` succeeds;
* `Postponed` — the invariant: the time has come, or the message is gone or delayed at least
  that long and the running sweep has no entry for it;
* `not_leased_early` — no lease between the step and its time.
-/

/-- The message is gone, or delayed at least to `time`. -/
def PutOff (time : Int) (slot : Option Slot) : Prop :=
  ∀ found, slot = some found →
    ∃ availableAt, found.phase = .delayed availableAt ∧ time ≤ availableAt

/-- A move before its time leaves a message put off, and leases it not. -/
theorem Moves.putOff {names revives : String → Prop} {key : String} {now time : Int}
    {call : Call} {reply : Reply} {slot slot' : Option Slot} {messages : List MessageEnvelope}
    (hmoves : Moves names revives key now call reply slot slot') (hfresh : call.Fresh messages)
    (hwell : WellPublished messages) (hknown : key ∈ messages.map MessageEnvelope.key)
    (hsweep : ∀ K, call.sweptKey = some K → ¬names K) (hearly : now < time)
    (hslot : PutOff time slot) : granting key reply = false ∧ PutOff time slot' := by
  cases hmoves with
  | stay hidle => exact ⟨(course_stay hidle).2, hslot⟩
  | publish hkey hok => exact absurd hfresh (hwell.not_fresh (hkey.symm ▸ hknown))
  | ack hnames hok => exact ⟨granting_of_succeeded hok, by simp [PutOff]⟩
  | promote hgranted hphase hdue =>
    obtain ⟨availableAt, hdelayed, hlate⟩ := hslot _ rfl
    rw [hphase, Phase.delayed.injEq] at hdelayed
    omega
  | delay hnames => exact absurd hnames (hsweep _ rfl)
  | dead hnames => exact absurd hnames (hsweep _ rfl)
  | lease _ _ _ _ _ _ _ _ hphase | requeue _ _ hphase | bury _ _ hphase | extend _ _ hphase
  | recover _ hphase | strand _ hphase | revive _ _ hphase =>
    -- only a delayed message could be there
    obtain ⟨availableAt, hdelayed, -⟩ := hslot _ rfl
    rw [hphase] at hdelayed
    cases hdelayed

section Runs

variable {σ : Type} {adapter : Adapter σ} {policies : String → Option QueuePolicy}

namespace Lifecycle

variable (cycle : Lifecycle adapter)

/-- The step puts message `key` off to `time`. -/
inductive Postpones (key : String) (time : Int) :
    Step (Daemon σ) Tick (Option (Call × Reply)) → Prop
  | publishing {env : Env} {s after : Daemon σ} {message : MessageEnvelope} {reply : Reply}
      (hkey : message.key = key) (htime : message.availableAtMs = time)
      (hok : reply.succeeded = true) :
      Postpones key time ⟨.call env (.enqueue message), s, some (.enqueue message, reply), after⟩
  | delaying {env : Env} {s after : Daemon σ} {messageKey : String} {delayMs : Int} {reply : Reply}
      (hnames : cycle.address messageKey = cycle.address key) (hpos : 0 < delayMs)
      (htime : env.now + delayMs = time) (hok : reply.succeeded = true) :
      Postpones key time
        ⟨.sweepStep env, s, some (.delayMessage messageKey delayMs, reply), after⟩

/-- The time has come, or the message is gone or delayed at least to it, and the running sweep
    has no entry for it. -/
def Postponed (key : String) (time : Int) (h : DaemonHistory σ) (s : Daemon σ) : Prop :=
  (∃ r ∈ h, time ≤ r.input.now) ∨
  PutOff time (cycle.slot s.store key) ∧
  ∀ info ∈ s.pending, cycle.address info.messageKey ≠ cycle.address key

variable {cycle} {key : String} {time : Int} {h : DaemonHistory σ} {s after : Daemon σ}
  {tick : Tick} {out : Option (Call × Reply)}

/-- A tick before its time leaves a postponed message postponed, and leases it not. -/
theorem Postponed.step (hpostponed : cycle.Postponed key time h s)
    (hacts : cycle.Acts policies (published h) s tick out after)
    (hkept : cycle.Kept (published h) s) (hknown : key ∈ (published h).map MessageEnvelope.key)
    (hlater : Later Tick.now h tick)
    (hworker : ∀ env call, tick = .call env call → call.sweptKey = none) :
    cycle.Postponed key time (⟨tick, s, out, after⟩ :: h) after ∧
      ((grantOf key ⟨tick, s, out, after⟩).isSome = true → time ≤ tick.now) := by
  -- Before its time the message stays put off and no entry of the sweep is about it.
  by_cases hearly : tick.now < time
  · obtain ⟨hslot, hpending⟩ : PutOff time (cycle.slot s.store key) ∧
        ∀ info ∈ s.pending, cycle.address info.messageKey ≠ cycle.address key := by
      rcases hpostponed with ⟨r, hr, htime⟩ | hright
      · have := hlater r hr
        omega
      · exact hright
    cases hacts with
    | called env call reply store hfresh hmoves =>
      have hsweep : ∀ K, call.sweptKey = some K → cycle.address K ≠ cycle.address key := by
        simp [hworker _ _ rfl]
      obtain ⟨hgranting, hslot'⟩ :=
        (hmoves key).putOff hfresh hkept.well hknown hsweep hearly hslot
      refine ⟨.inr ⟨hslot', hpending⟩, fun hgrant => ?_⟩
      rw [isSome_grantOf, hgranting] at hgrant
      cases hgrant
    -- An entry that is listed now is inflight, so it is not this message.
    | listed env listed hnone hlisted =>
      refine ⟨.inr ⟨hslot, fun info hinfo haddress => ?_⟩, by simp [grantOf]⟩
      obtain ⟨key', target, u, haddress', -, hslot'⟩ := hlisted info hinfo
      have hknown' : key' ∈ (published h).map MessageEnvelope.key :=
        cycle.known hkept.inv (by simp [hslot'])
      obtain rfl : key = key' :=
        cycle.address_inj hkept.inv hknown hknown' (haddress.symm.trans haddress')
      obtain ⟨availableAt, hdelayed, -⟩ := hslot _ hslot'
      cases hdelayed
    -- The entry settled is about another message.
    | settled env info rest call reply store hinfo hcall hmoves =>
      have hsettles : SettlesWith info call := sweepCall_settles hcall
      have hother : cycle.address info.messageKey ≠ cycle.address key :=
        hpending info (by rw [hinfo]; exact List.mem_cons_self)
      have hsweep : ∀ K, call.sweptKey = some K → cycle.address K ≠ cycle.address key := by
        rw [hsettles.sweptKey]
        rintro K ⟨rfl⟩
        exact hother
      obtain ⟨hgranting, hslot'⟩ := (hmoves key).putOff (hsettles.fresh (published h)).1
        hkept.well hknown hsweep hearly hslot
      refine ⟨.inr ⟨hslot', fun i hi => ?_⟩, fun hgrant => ?_⟩
      · exact hpending i (by rw [hinfo]; exact List.mem_cons_of_mem _ hi)
      · rw [isSome_grantOf, hgranting] at hgrant
        cases hgrant
    | dropped env info rest hinfo hcall =>
      refine ⟨.inr ⟨hslot, fun i hi => ?_⟩, by simp [grantOf]⟩
      exact hpending i (by rw [hinfo]; exact List.mem_cons_of_mem _ hi)
    | unlisted env => exact ⟨.inr ⟨hslot, hpending⟩, by simp [grantOf]⟩
    | done env => exact ⟨.inr ⟨hslot, hpending⟩, by simp [grantOf]⟩
  -- When its time has come there is nothing more to show.
  · exact ⟨.inl ⟨_, List.mem_cons_self, by simpa using hearly⟩, fun _ => by simpa using hearly⟩

/-- A step that puts a message off leaves it postponed. -/
theorem Postpones.postponed
    (hpostpones : cycle.Postpones key time ⟨tick, s, out, after⟩)
    (hacts : cycle.Acts policies (published h) s tick out after)
    (hkept : cycle.Kept (published h) s) (hafter : cycle.Kept (tick.publishing (published h)) after)
    (hknown : key ∈ (tick.publishing (published h)).map MessageEnvelope.key) :
    cycle.Postponed key time (⟨tick, s, out, after⟩ :: h) after := by
  cases hpostpones with
  | @publishing env s after message reply hkey htime hok =>
    cases hacts with
    | called env _ _ store hfresh hmoves =>
      by_cases hearly : env.now < time
      · refine .inr ⟨?_, fun info hinfo haddress => ?_⟩
        · have hmove := hmoves key
          generalize cycle.slot s.store key = slot at hmove
          show PutOff time (cycle.slot store key)
          generalize cycle.slot store key = slot' at hmove
          cases hmove with
          | stay hidle => exact absurd (.published hkey hok) hidle
          | publish =>
            rintro found ⟨rfl⟩
            exact ⟨time, by simp [MessageEnvelope.slot, htime, hearly], le_refl _⟩
        · -- the entry would be about a message published before
          obtain ⟨key', hkey', haddress'⟩ := hkept.addressed info hinfo
          have hsame : key = key' := cycle.address_inj hafter.inv hknown
            ((Call.enqueue message).mem_publishing hkey') (haddress.symm.trans haddress')
          exact hkept.well.not_fresh (by rw [hkey, hsame]; exact hkey') hfresh
      · exact .inl ⟨_, List.mem_cons_self, by simpa [Tick.now, Tick.env] using hearly⟩
  | @delaying env s after messageKey delayMs reply hnames hpos htime hok =>
    cases hacts with
    | settled env info rest _ _ store hpending hcall hmoves =>
      have hsettles : SettlesWith info (.delayMessage messageKey delayMs) :=
        sweepCall_settles hcall
      obtain rfl : messageKey = info.messageKey := by
        cases hsettles
        rfl
      refine .inr ⟨?_, fun i hi haddress => ?_⟩
      · have hmove := hmoves key
        generalize cycle.slot s.store key = slot at hmove
        show PutOff time (cycle.slot store key)
        generalize cycle.slot store key = slot' at hmove
        cases slot with
        | none =>
          cases hmove
          rintro found ⟨⟩
        | some found =>
          obtain ⟨phase, rfl, hdelayed | ⟨hnone, -⟩⟩ := hmove.delay_of_ok hnames hok
          · rintro found' ⟨rfl⟩
            exact ⟨time, by rw [hdelayed, htime], le_refl _⟩
          · omega
      · -- the entries of one list are about different messages
        have hdistinct := hkept.distinct
        rw [hpending, List.map_cons, List.nodup_cons] at hdistinct
        refine hdistinct.1 ?_
        rw [hnames, ← haddress]
        exact List.mem_map_of_mem hi

variable {allowed : DaemonHistory σ → Daemon σ → Tick → Prop}

/-- **No early lease.** A message that a step puts off to a time is not leased by a later step
    before that time. -/
theorem not_leased_early (hproper : ∀ h s tick, allowed h s tick → cycle.Proper h s tick)
    (hlater : ∀ h s tick, allowed h s tick → Later Tick.now h tick)
    (hworker : ∀ h s env call, allowed h s (.call env call) → call.sweptKey = none)
    (run : Run (daemon adapter policies) allowed h s) :
    ∀ newer r older, h = newer ++ r :: older → cycle.Postpones key time r →
      key ∈ (published (r :: older)).map MessageEnvelope.key →
      cycle.Postponed key time h s ∧ key ∈ (published h).map MessageEnvelope.key ∧
      ∀ r' ∈ newer, (grantOf key r').isSome = true → time ≤ r'.input.now := by
  induction run with
  | start => simp
  | @step h s tick run ok ih =>
    have hkept := cycle.keeps hproper run
    obtain ⟨hacts, hafter⟩ := cycle.acts hkept (hproper _ _ _ ok)
    unfold Machine.stepAt
    generalize ((daemon adapter policies).step s tick).1 = out at hacts
    generalize ((daemon adapter policies).step s tick).2 = after at hacts hafter
    intro newer r older hsplit hpostpones hknown
    -- By induction on the run: the postponing step is this one, or an earlier one after which it
    -- holds.
    rcases newer with _ | ⟨r', newer⟩
    · obtain ⟨rfl, rfl⟩ := List.cons.inj hsplit
      exact ⟨hpostpones.postponed hacts hkept hafter hknown, hknown, by simp⟩
    · rw [List.cons_append, List.cons.injEq] at hsplit
      obtain ⟨rfl, htail⟩ := hsplit
      obtain ⟨hpostponed, hknown', hnewer⟩ := ih newer r older htail hpostpones hknown
      obtain ⟨hstep, hgrant⟩ := hpostponed.step hacts hkept hknown' (hlater _ _ _ ok)
        fun env call htick => hworker h s env call (htick ▸ ok)
      refine ⟨hstep, ?_, fun r' hr' => ?_⟩
      · rw [published_cons]
        cases tick with
        | call env call => exact call.mem_publishing hknown'
        | sweepRead env => exact hknown'
        | sweepStep env => exact hknown'
      · rcases List.mem_cons.mp hr' with rfl | hr'
        · exact hgrant
        · exact hnewer r' hr'

end Lifecycle

end Runs

end YirangMQ

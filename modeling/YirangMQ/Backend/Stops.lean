import YirangMQ.Backend.Content

namespace YirangMQ

/-!
# Calls of a process that may stop

A process that stops within a call gives no answer.  Where the adapter finds its store as some call
with failing primitives would have left it, the life cycle goes on through stops.

* `CutMachine` — a machine of such calls;
* `CutMachine.run_of_stops` — **its runs are runs of calls in which primitives fail**;
* `Answered`, `Lifecycle.Taken` — a publication that was answered with success, and a message that
  an acknowledgement has taken away, answered or not;
* `CutMachine.durable` — **an answered publication is stored exactly until it is taken.**
-/

section Stops

variable {σ ι : Type} {adapter : Adapter σ}

/-- The machine makes calls of the adapter, each of which may be stopped: what it leaves is what the
    call would leave in some environment, and an answer is the answer of the call there. -/
structure CutMachine (cycle : Lifecycle adapter) (M : Machine σ ι (Option Reply)) (call : ι → Call) :
    Prop where
  start : M.start = adapter.start
  step : ∀ {published s} (i : ι), cycle.Inv published s → ∃ env, cycle.Calm env ∧
    (M.step s i).2 = (adapter.perform env (call i) s).2 ∧
    ∀ reply, (M.step s i).1 = some reply → reply = (adapter.perform env (call i) s).1

/-- The messages given to `enqueue`, newest first. -/
def givenBy (call : ι → Call) (h : History σ ι (Option Reply)) : List MessageEnvelope :=
  h.foldr (fun r messages => (call r.input).publishing messages) []

/-- The adapter admits the call, which publishes, if it does, as `handle_publish` does. -/
def Lifecycle.AdmitsStop (cycle : Lifecycle adapter) (call : ι → Call)
    (h : History σ ι (Option Reply)) (_ : σ) (i : ι) : Prop :=
  cycle.Admits (call i) ∧ (call i).Fresh (givenBy call h)

/-- The publication of a message was answered with success. -/
def Answered (call : ι → Call) (h : History σ ι (Option Reply)) (m : MessageEnvelope) : Prop :=
  ∃ r ∈ h, call r.input = .enqueue m ∧ r.output = some (.status (.ok ()))

/-- An acknowledgement has taken the message of the key away. -/
def Lifecycle.Taken (cycle : Lifecycle adapter) (call : ι → Call) (h : History σ ι (Option Reply))
    (key : String) : Prop :=
  ∃ r ∈ h, ∃ lease, call r.input = .ack lease ∧
    cycle.address lease.messageKey = cycle.address key ∧
    cycle.slot r.before key ≠ none ∧ cycle.slot r.after key = none

namespace CutMachine

variable {cycle : Lifecycle adapter} {M : Machine σ ι (Option Reply)} {call : ι → Call}
  {h : History σ ι (Option Reply)} {s : σ}

/-- **Runs with stops are runs of calls in which primitives fail.** -/
theorem run_of_stops (hcut : CutMachine cycle M call) (run : Run M (cycle.AdmitsStop call) h s) :
    ∃ h', Run adapter.machine cycle.Admitted h' s ∧ publishedBy h' = givenBy call h := by
  induction run with
  | start => exact ⟨[], hcut.start ▸ .start, rfl⟩
  | @step h s i run ok ih =>
    obtain ⟨h', run', hpublished⟩ := ih
    have hinv : cycle.Inv (publishedBy h') s := (cycle.inv_of_run run').1
    obtain ⟨env, hcalm, hafter, -⟩ := hcut.step i hinv
    have hfresh : (call i).Fresh (publishedBy h') := hpublished ▸ ok.2
    let r := adapter.machine.stepAt s (env, call i)
    have run'' : Run _ _ (r :: h') r.after := run'.stepAt _ ⟨hcalm, ok.1, hfresh⟩
    refine ⟨r :: h', ?_, congrArg (fun published => (call i).publishing published) hpublished⟩
    show Run _ _ _ (M.step s i).2
    rw [hafter]
    exact run''

/-- What a run with stops keeps. -/
theorem inv_of_stops (hcut : CutMachine cycle M call) (run : Run M (cycle.AdmitsStop call) h s) :
    cycle.Inv (givenBy call h) s ∧ WellPublished (givenBy call h) := by
  obtain ⟨h', run', hpublished⟩ := hcut.run_of_stops run
  exact hpublished ▸ cycle.inv_of_run run'

/-- What one step of a run with stops does with a message. -/
theorem moves (hcut : CutMachine cycle M call) {i : ι} {published : List MessageEnvelope}
    (hinv : cycle.Inv published s) (hadmits : cycle.Admits (call i))
    (hfresh : (call i).Fresh published) (key : String) :
    ∃ now reply, (∀ answer, (M.step s i).1 = some answer → answer = reply) ∧
      Moves (cycle.address · = cycle.address key) (cycle.revives · key) key now (call i) reply
        (cycle.slot s key) (cycle.slot (M.step s i).2 key) := by
  obtain ⟨env, hcalm, hafter, hanswer⟩ := hcut.step i hinv
  have hmoves := (cycle.perform hinv hcalm hadmits hfresh).2 key
  rw [← hafter] at hmoves
  exact ⟨env.now, _, hanswer, hmoves⟩

/-- A message that is given to `enqueue` is known from then on. -/
theorem mem_givenBy {r : Step σ ι (Option Reply)} {m : MessageEnvelope} (hr : r ∈ h)
    (hcall : call r.input = .enqueue m) : m ∈ givenBy call h := by
  induction h with
  | nil => cases hr
  | cons r' h ih =>
    show m ∈ (call r'.input).publishing (givenBy call h)
    rcases List.mem_cons.mp hr with rfl | hr
    · rw [hcall]
      exact List.mem_cons_self
    · exact (call r'.input).publishing_of_mem (ih hr)

/-- A message that has been taken away was given, and is never back. -/
theorem taken_gone (hcut : CutMachine cycle M call) (run : Run M (cycle.AdmitsStop call) h s)
    {key : String} (htaken : cycle.Taken call h key) :
    cycle.slot s key = none ∧ key ∈ (givenBy call h).map MessageEnvelope.key := by
  induction run with
  | start =>
    obtain ⟨r, hr, -⟩ := htaken
    cases hr
  | @step h s i run ok ih =>
    obtain ⟨r, hr, lease, hcall, hkey, hbefore, hafter⟩ := htaken
    obtain ⟨hinv, hwell⟩ := hcut.inv_of_stops run
    rcases List.mem_cons.mp hr with rfl | hr
    · exact ⟨hafter, (call i).mem_publishing (cycle.known hinv hbefore)⟩
    · obtain ⟨hgone, hknown⟩ := ih ⟨r, hr, lease, hcall, hkey, hbefore, hafter⟩
      refine ⟨?_, (call i).mem_publishing hknown⟩
      obtain ⟨now, reply, -, hmoves⟩ := hcut.moves hinv ok.1 ok.2 key
      have hfresh := ok.2
      rw [hgone] at hmoves
      generalize call i = c at hmoves hfresh
      generalize cycle.slot (M.step s i).2 key = slot at hmoves
      cases hmoves with
      | stay hidle => rfl
      | publish hsame hok => exact absurd hfresh (hwell.not_fresh (hsame ▸ hknown))

/-- A publication that has just been answered with success is stored. -/
theorem there_of_answered (hcut : CutMachine cycle M call) {i : ι} {published : List MessageEnvelope}
    {m : MessageEnvelope} (hinv : cycle.Inv published s) (hadmits : cycle.Admits (call i))
    (hfresh : (call i).Fresh published) (hcall : call i = .enqueue m)
    (hout : (M.step s i).1 = some (.status (.ok ()))) : cycle.slot (M.step s i).2 m.key ≠ none := by
  obtain ⟨now, reply, hanswer, hmoves⟩ := hcut.moves hinv hadmits hfresh m.key
  rw [hcall, ← hanswer _ hout] at hmoves
  generalize cycle.slot s m.key = slot at hmoves
  generalize cycle.slot (M.step s i).2 m.key = slot' at hmoves
  cases hmoves with
  | stay hidle => exact absurd (.published rfl rfl) hidle
  | publish hsame hok => simp

/-- **An answered publication is stored exactly until an acknowledgement takes it away**, in the
    queue and for the consumer it was published for, when no recovery strands it. -/
theorem durable (hcut : CutMachine cycle M call) (run : Run M (cycle.AdmitsStop call) h s)
    {m : MessageEnvelope}
    (hrecovers : ∀ r ∈ h, call r.input = .recoverExpiredLeases →
      cycle.slot r.before m.key ≠ none → cycle.slot r.after m.key ≠ none)
    (hanswered : Answered call h m) :
    cycle.slot s m.key ≠ none ↔ ¬cycle.Taken call h m.key := by
  refine ⟨fun hslot htaken => hslot (hcut.taken_gone run htaken).1, fun hnot => ?_⟩
  -- By induction on the run: a step takes a slot away only by an acknowledgement or a recovery.
  induction run with
  | start =>
    obtain ⟨r, hr, -⟩ := hanswered
    cases hr
  | @step h s i run ok ih =>
    obtain ⟨hinv, hwell⟩ := hcut.inv_of_stops run
    obtain ⟨now, reply, hanswer, hmoves⟩ := hcut.moves hinv ok.1 ok.2 m.key
    obtain ⟨r, hr, hcall, hout⟩ := hanswered
    rcases List.mem_cons.mp hr with rfl | hr
    · exact hcut.there_of_answered hinv ok.1 ok.2 hcall hout
    -- The publication was earlier, so the slot was there before this step.
    · have hbefore : cycle.slot s m.key ≠ none := by
        refine ih (fun r' hr' => hrecovers r' (List.mem_cons_of_mem _ hr'))
          ⟨r, hr, hcall, hout⟩ fun htaken => hnot ?_
        obtain ⟨r', hr', htaken⟩ := htaken
        exact ⟨r', List.mem_cons_of_mem _ hr', htaken⟩
      have hkept := hrecovers _ List.mem_cons_self
      intro hgone
      have hack : ∀ lease, call i = .ack lease →
          cycle.address lease.messageKey ≠ cycle.address m.key := fun lease hack hsame =>
        hnot ⟨_, List.mem_cons_self, lease, hack, hsame, hbefore, hgone⟩
      have hlost : call i ≠ .recoverExpiredLeases := fun hcall => hkept hcall hbefore hgone
      rw [hgone] at hmoves
      generalize call i = c at hmoves hack hlost
      generalize hslot : cycle.slot s m.key = slot at hmoves
      cases hmoves with
      | stay hidle => exact hbefore hslot
      | ack hnames hok => exact hack _ rfl hnames
      | strand => exact hlost rfl

end CutMachine

end Stops

end YirangMQ

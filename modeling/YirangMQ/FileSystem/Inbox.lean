import YirangMQ.FileSystem.Lifecycle

namespace YirangMQ.FileSystem

open Program

/-!
# What `lease_next` takes from an inbox

* `Keeps.inbox_of_ready` — a ready message lies in the inbox of its queue, and `Keeps.matched`
  tells the other direction;
* `leaseNext_granted` — a ready message for the consumer is enough for a lease;
* `leaseNext_first` — the leased message has the first file name of those for the consumer.
-/

variable {exact : Prop} {published : List MessageEnvelope} {d : Disk} {env : Env} {c : String}
  {timeout : Int}

/-- A ready message lies in the inbox of its queue. -/
theorem Keeps.inbox_of_ready (h : Keeps exact published d) {m : MessageEnvelope}
    (hm : m ∈ published) {found : Slot} (hslot : d.slot m.key = some found)
    (hphase : found.phase = .ready) :
    ∃ attempt available, d.envelope m.queue .inbox m.messageId =
      some { m with attempt, availableAtMs := available } := by
  obtain ⟨place, hplace⟩ := h.stands m hm
  rw [hplace.slot_eq (h.named m hm)] at hslot
  cases hplace with
  | absent | archived | stranded => cases hslot
  | leased =>
    obtain rfl := Option.some.inj hslot
    cases hphase
  | @waits dir j attempt available phase hwaiting honly henvelope =>
    obtain rfl := Option.some.inj hslot
    simp only at hphase
    subst hphase
    have hdir : dir = .inbox := by cases dir <;> simp [FileSystem.waiting] at hwaiting ⊢
    have hfile := honly .inbox
    rw [if_pos hdir.symm] at hfile
    refine ⟨attempt, available, ?_⟩
    rw [Disk.envelope, queuePath_of_name (h.named m hm).queue, hfile, Option.bind_some,
      henvelope.deserialize]

/-- The keys in an inbox have no slash. -/
theorem Keeps.inbox_names (h : Keeps exact published d) {queue : String} (hqueue : IsName queue) :
    ∀ id envelope, d.envelope queue .inbox id = some envelope → '/' ∉ envelope.key.toList := by
  intro id envelope henvelope
  obtain ⟨content, hfile, hparse⟩ := Option.bind_eq_some_iff.mp henvelope
  obtain ⟨m, hm, -, -, j, attempt, available, -, -, -, rfl, -⟩ := h.matched hqueue hfile hparse
  exact (h.named m hm).no_slash

/-- With a ready message for the consumer, `lease_next` leases a message. -/
theorem leaseNext_granted (h : Keeps exact published d) (hcalm : env.faults = [])
    {queue : String} (hqueue : IsName queue) {m : MessageEnvelope}
    (hm : m ∈ published) (hmqueue : m.queue = queue)
    (htarget : m.targetConsumerId = "" ∨ m.targetConsumerId = c) {found : Slot}
    (hslot : d.slot m.key = some found) (hphase : found.phase = .ready) :
    (adapter.perform env (.leaseNext queue c timeout) d).1.granted ≠ none := by
  subst hmqueue
  obtain ⟨attempt, available, hinbox⟩ := h.inbox_of_ready hm hslot hphase
  have hsat : Sat False (fun _ => True) d (program env (.leaseNext m.queue c timeout))
      fun reply _ => reply.granted ≠ none := by
    refine Sat.bind (Sat.weaken (R := fun r _ => (Reply.lease r).granted ≠ none) ?_
      fun _ _ hr => Sat.pure hr)
    refine leaseNext_sat trivial (h.inbox_names hqueue) ?_ ?_
    · intro id content envelope _ _ _ _ _
      exact ⟨trivial, trivial, trivial, trivial, trivial, by simp [leaseReply, Reply.granted]⟩
    · intro hall
      exact (hall m.messageId _ (h.named m hm).id hinbox htarget).elim
  exact (hsat.run (.inr hcalm) trivial).1

/-- The leased message is the one with the first file name of those for the consumer. -/
theorem leaseNext_first (h : Keeps exact published d) (hcalm : env.faults = []) {queue : String}
    (hqueue : IsName queue) {message : MessageEnvelope} {token : LeaseToken}
    (hgranted : (adapter.perform env (.leaseNext queue c timeout) d).1.granted =
      some (message, token)) :
    ∃ m ∈ published, m.queue = queue ∧ Eligible c m ∧ message.key = m.key ∧
      message.priority = m.priority ∧
      (∃ found, d.slot m.key = some found ∧ found.phase = .ready) ∧
      ∀ id envelope, id ≠ "" → d.envelope queue .inbox id = some envelope → Eligible c envelope →
        m.messageId ++ ".json" ≤ id ++ ".json" := by
  have hsat : Sat False (fun _ => True) d (program env (.leaseNext queue c timeout))
      fun reply _ => ∀ message token, reply.granted = some (message, token) →
        ∃ m ∈ published, m.queue = queue ∧ Eligible c m ∧ message.key = m.key ∧
          message.priority = m.priority ∧
          (∃ found, d.slot m.key = some found ∧ found.phase = .ready) ∧
          ∀ id envelope, id ≠ "" → d.envelope queue .inbox id = some envelope →
            Eligible c envelope → m.messageId ++ ".json" ≤ id ++ ".json" := by
    refine Sat.bind (leaseNext_sat trivial (h.inbox_names hqueue) ?_ ?_)
    · intro id content envelope _ hfile hparse heligible hfirst
      refine ⟨trivial, trivial, trivial, trivial, trivial, Sat.pure ?_⟩
      intro message token hgranted
      simp only [leaseReply, Reply.granted, Option.some.injEq, Prod.mk.injEq] at hgranted
      obtain ⟨rfl, -⟩ := hgranted
      obtain ⟨m, hm, rfl, rfl, j, attempt, available, -, -, -, rfl, -, -, hstands⟩ :=
        h.matched hqueue hfile hparse
      have hslot := hstands.slot_eq (h.named m hm)
      exact ⟨m, hm, rfl, heligible, rfl, rfl, ⟨_, hslot, rfl⟩, hfirst⟩
    · exact fun _ => Sat.pure (by simp [Reply.granted])
  exact (hsat.run (.inr hcalm) trivial).1 message token hgranted

end YirangMQ.FileSystem

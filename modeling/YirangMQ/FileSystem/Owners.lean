import YirangMQ.Backend.Content
import YirangMQ.FileSystem.Frames

namespace YirangMQ

/-!
# Whose lease a lease file tells

`lease_next` writes the consumer into the lease file, `extend_lease` copies it from there, and no
other call writes one.  `ack` and `extend_lease` compare it with the consumer of their token.

* `lastGrant` — the consumer to whom a message was last leased;
* `Owned` — each lease file has the consumer to whom its message was last leased;
* `owned_of_run` — **it does so in every run**;
* `ack_refuses`, `extendLease_refuses` — a token of another consumer is turned down, whatever
  fails.
-/

/-- The consumer to which the message of a key was last leased. -/
def lastGrant {σ : Type} (h : History σ (Env × Call) Reply) (key : String) : Option String :=
  h.findSome? fun r =>
    match r.output.granted with
    | some (message, token) => if message.key = key then some token.consumerId else none
    | none => none

/-- A call that grants nothing leaves the last grant of a key. -/
theorem lastGrant_of_none {σ : Type} {r : Step σ (Env × Call) Reply}
    {h : History σ (Env × Call) Reply} {key : String} (hnone : r.output.granted = none) :
    lastGrant (r :: h) key = lastGrant h key := by
  rw [lastGrant, List.findSome?_cons, hnone]
  rfl

/-- A call that grants a message makes it the last grant of its key. -/
theorem lastGrant_of_some {σ : Type} {r : Step σ (Env × Call) Reply}
    {h : History σ (Env × Call) Reply} {key : String} {message : MessageEnvelope}
    {token : LeaseToken} (hsome : r.output.granted = some (message, token)) :
    lastGrant (r :: h) key =
      if message.key = key then some token.consumerId else lastGrant h key := by
  rw [lastGrant, List.findSome?_cons, hsome]
  dsimp only
  by_cases hkey : message.key = key
  · rw [if_pos hkey, if_pos hkey]
  · rw [if_neg hkey, if_neg hkey]
    rfl

namespace FileSystem

open Program

variable {published : List MessageEnvelope} {d d' : Disk} {m : MessageEnvelope} {env : Env}
  {call : Call} {key : String} {h : History Disk (Env × Call) Reply}

/-- The paths of lease files. -/
def IsLease (path : Path) : Prop := ∃ text, path = .leaseMeta text

/-- No message file is a lease file. -/
theorem not_isLease_queuePath (queue : String) (dir : SubDir) (id : String) :
    ¬IsLease (queuePath queue dir id) := fun ⟨_, heq⟩ => by cases heq

/-- The lease files are apart from the notes, the policies and the message files. -/
theorem apart_isLease : Apart IsLease where
  message _ _ _ _ := fun ⟨_, heq⟩ => by cases heq
  note _ := fun ⟨_, heq⟩ => by cases heq
  policy _ := fun ⟨_, heq⟩ => by cases heq

/-- A lease was there before. -/
theorem NothingNew.lease (h : NothingNew IsLease d d') {stored : LeaseMeta}
    (hstored : d'.lease key = some stored) : d.lease key = some stored := by
  obtain ⟨content, hfile, hparse⟩ := Option.bind_eq_some_iff.mp hstored
  rw [Disk.lease, h _ ⟨_, rfl⟩ content hfile]
  exact hparse

/-- A file that is no lease file is written. -/
theorem lease_written {path : Path} (hpath : ¬IsLease path) (content : JsonText) :
    (written path content d).lease key = d.lease key := by
  have hne : Path.leaseMeta (safeKey key) ≠ path := fun heq => hpath ⟨_, heq.symm⟩
  rw [Disk.lease, lookup_written, if_neg hne]
  simp [Disk.lease]

/-- A rename of other files leaves every lease. -/
theorem lease_renamed {src dest : Path} (hsrc : ¬IsLease src) (hdest : ¬IsLease dest)
    (content : JsonText) :
    Disk.lease (Files.renamed src dest content d) key = d.lease key := by
  have hne : Path.leaseMeta (safeKey key) ≠ dest := fun heq => hdest ⟨_, heq.symm⟩
  have hne' : Path.leaseMeta (safeKey key) ≠ src := fun heq => hsrc ⟨_, heq.symm⟩
  rw [Disk.lease, Files.lookup_renamed, if_neg hne, if_neg hne', Disk.lease]

/-- A lease is written. -/
theorem lease_written_lease (stored : LeaseMeta) (K K' : String) :
    (written (.leaseMeta (safeKey K)) (some (stored.toJson K')) d).lease key =
      if safeKey key = safeKey K then some stored else d.lease key := by
  rw [Disk.lease, lookup_written]
  by_cases hsame : safeKey key = safeKey K
  · rw [if_pos hsame, if_pos (congrArg Path.leaseMeta hsame), Option.bind_some, ofJson_toJson]
  · rw [if_neg hsame, if_neg fun heq => hsame (Path.leaseMeta.inj heq)]
    simp [Disk.lease]

/-! ### What each call does to lease files -/

/-- Burying a message writes no lease. -/
theorem bury_nothingNew (h : Keeps False published d) {stored : LeaseMeta} {id reason : String}
    (hstored : d.lease key = some stored) (hid : messageIdOf key = some id) :
    Sat False (fun _ => True) d (do
      editFile (queuePath stored.queue .processing id) (withDlqFields reason env.now)
      leaveProcessing key (queuePath stored.queue .processing id) (queuePath stored.queue .dlq id))
      fun _ d' => NothingNew IsLease d d' := by
  refine rewrite_sat trivial hstored hid ?_ fun _ _ => .refl d
  intro content hreach
  obtain ⟨m, hm, -, j, rfl, hheld⟩ := h.reached hreach
  obtain ⟨available, henvelope⟩ := hheld.envelope
  obtain ⟨j', hj', -⟩ := henvelope.withDlqFields reason env.now
  refine ⟨j, j', rfl, hj', trivial, trivial, trivial, trivial, ?_⟩
  have hedited := (NothingNew.refl d).written (not_isLease_queuePath stored.queue .processing id)
    (some j')
  exact hedited.released (not_isLease_queuePath _ _ _) _

/-- The calls other than `lease_next` and `extend_lease` make no lease. -/
theorem program_makes_no_lease (h : Keeps False published d) (hplain : Call.Plain call)
    (hfresh : call.Fresh published) (hlease : ∀ queue c timeout, call ≠ .leaseNext queue c timeout)
    (hextend : ∀ lease timeout, call ≠ .extendLease lease timeout) :
    Sat False (fun _ => True) d (program env call) fun _ d' => NothingNew IsLease d d' := by
  by_cases hbystander : Call.Bystander call
  · exact program_nothingNew apart_isLease h hplain hfresh hbystander
  · cases call with
    | leaseNext queue c timeout => exact absurd rfl (hlease queue c timeout)
    | extendLease lease timeout => exact absurd rfl (hextend lease timeout)
    | nack lease reason requeue =>
      cases requeue with
      | true => exact absurd trivial hbystander
      | false =>
        refine nothingNew_answered (withLease_sat ("lease not found: " ++ ·) trivial ?_
          fun _ _ => .refl d)
        exact fun stored id hstored hid => bury_nothingNew h hstored hid
    | moveToDlq messageKey reason =>
      refine nothingNew_answered (withLease_sat id trivial ?_ fun _ _ => .refl d)
      exact fun stored id hstored hid => bury_nothingNew h hstored hid
    | _ => exact absurd trivial hbystander

/-- `extend_lease` leaves each lease with its consumer. -/
theorem extendLease_keeps_consumer {lease : LeaseToken} {timeout : Int}
    (hname : '/' ∉ lease.messageKey.toList) :
    Sat False (fun _ => True) d (extendLease env lease timeout) fun _ d' =>
      ∀ key stored', d'.lease key = some stored' →
        ∃ stored, d.lease key = some stored ∧ stored.consumerId = stored'.consumerId := by
  refine extendLease_sat trivial hname ?_ fun _ _ key stored hstored => ⟨stored, hstored, rfl⟩
  intro stored hstored _ _
  refine ⟨trivial, trivial, fun key stored' hstored' => ?_⟩
  rw [lease_written_lease] at hstored'
  split at hstored'
  case isTrue hsame =>
    obtain rfl := Option.some.inj hstored'
    exact ⟨stored, (lease_congr hsame).trans hstored, rfl⟩
  case isFalse => exact ⟨stored', hstored', rfl⟩

/-- `lease_next` leases nothing and leaves the disk alone, or writes the lease of the message that
    it hands out, and no other. -/
def LeasesOne (published : List MessageEnvelope) (d : Disk) (r : LeaseResult) (d' : Disk) : Prop :=
  (Reply.lease r).granted = none ∧ d' = d ∨
  ∃ m ∈ published, ∃ message token stored,
    (Reply.lease r).granted = some (message, token) ∧ message.key = m.key ∧
    d'.lease m.key = some stored ∧ stored.consumerId = token.consumerId ∧
    ∀ key, safeKey key ≠ safeKey m.key → d'.lease key = d.lease key

/-- `lease_next` writes the lease it grants, and no other. -/
theorem leaseNext_leases (h : Keeps False published d) {queue c : String} {timeout : Int}
    (hqueue : IsName queue) :
    Sat False (fun _ => True) d (leaseNext env queue c timeout) (LeasesOne published d) := by
  refine leaseNext_sat trivial (h.inbox_names hqueue) ?_ fun _ => .inl ⟨rfl, rfl⟩
  intro id content envelope _ hfile hparse _ _
  obtain ⟨m, hm, -, -, j, attempt, available, rfl, -, -, rfl, -⟩ := h.matched hqueue hfile hparse
  let envelope := { m with attempt, availableAtMs := available }
  refine ⟨trivial, trivial, trivial, trivial, trivial, .inr ⟨m, hm, _, _,
    leaseOf env queue c timeout envelope, rfl, rfl, ?_, rfl, ?_⟩⟩
  · rw [lease_written (not_isLease_queuePath _ _ _), lease_written_lease, if_pos rfl]
  · intro key hkey
    rw [lease_written (not_isLease_queuePath _ _ _), lease_written_lease, if_neg hkey,
      lease_renamed (not_isLease_queuePath _ _ _) (not_isLease_queuePath _ _ _)]

/-! ### Whole runs -/

/-- Each lease file of a published message has the consumer to whom it was last leased. -/
def Owned (h : History Disk (Env × Call) Reply) (d : Disk) : Prop :=
  ∀ m ∈ publishedBy h, ∀ stored, d.lease m.key = some stored →
    lastGrant h m.key = some stored.consumerId

/-- Only `lease_next` leases. -/
theorem granted_eq_none (hlease : ∀ queue c timeout, call ≠ .leaseNext queue c timeout) :
    (adapter.perform env call d).1.granted = none := by
  cases call with
  | leaseNext queue c timeout => exact absurd rfl (hlease queue c timeout)
  | _ => rfl

/-- **In every run each lease file has the consumer to whom its message was last leased.** -/
theorem owned_of_run (run : Run adapter.machine lifecycle.Admitted h d) : Owned h d := by
  induction run with
  | start =>
    intro m hm
    cases hm
  | @step h d i run ok ih =>
    obtain ⟨env, call⟩ := i
    have hkeeps : Keeps False (publishedBy h) d := (lifecycle.inv_of_run run).1
    have hkeeps' : Keeps False (publishedBy (adapter.machine.stepAt d (env, call) :: h))
        (adapter.perform env call d).2 := (lifecycle.inv_of_run (run.step ok)).1
    intro m hm stored' hstored'
    -- a lease that was there before is told by the steps before
    have hold : (adapter.perform env call d).1.granted = none →
        (∃ stored, d.lease m.key = some stored ∧ stored.consumerId = stored'.consumerId) →
        lastGrant (adapter.machine.stepAt d (env, call) :: h) m.key = some stored'.consumerId := by
      rintro hnone ⟨stored, hstored, hsame⟩
      obtain ⟨m', hm', j, hheld⟩ := hkeeps.held hstored
      obtain rfl := hkeeps'.eq_of_safeKey hm (call.publishing_of_mem hm') hheld.names
      rw [lastGrant_of_none hnone, ih m hm' stored hstored, hsame]
    by_cases hlease : ∃ queue c timeout, call = .leaseNext queue c timeout
    · obtain ⟨queue, c, timeout, rfl⟩ := hlease
      obtain ⟨hnone, hsame⟩ | ⟨m₀, hm₀, message, token, stored, hgranted, hkey, hafter, hconsumer,
          hothers⟩ := ((leaseNext_leases hkeeps ok.admits).run (.inr ok.calm) trivial).1
      · refine hold hnone ⟨stored', ?_, rfl⟩
        rw [← hsame]
        exact hstored'
      · have hlast : lastGrant (adapter.machine.stepAt d (env, .leaseNext queue c timeout) :: h)
            m.key = if message.key = m.key then some token.consumerId else lastGrant h m.key :=
          lastGrant_of_some hgranted
        rw [hlast]
        by_cases hsame : m = m₀
        · subst hsame
          have hstored : stored = stored' := Option.some.inj (hafter.symm.trans hstored')
          rw [if_pos hkey, ← hconsumer, hstored]
        · have hne : safeKey m.key ≠ safeKey m₀.key :=
            fun heq => hsame (hkeeps.eq_of_safeKey hm hm₀ heq)
          rw [if_neg fun heq => hne (by rw [← heq, hkey])]
          exact ih m hm stored' ((hothers m.key hne).symm.trans hstored')
    · have hnone : (adapter.perform env call d).1.granted = none :=
        granted_eq_none fun queue c timeout heq => hlease ⟨queue, c, timeout, heq⟩
      by_cases hextend : ∃ lease timeout, call = .extendLease lease timeout
      · obtain ⟨lease, timeout, rfl⟩ := hextend
        have hrun := ((@extendLease_keeps_consumer d env lease timeout ok.admits).run
          (.inr ok.calm) trivial).1
        exact hold hnone (hrun m.key stored' hstored')
      · have hnew := ((@program_makes_no_lease _ _ env _ hkeeps ok.admits ok.fresh
          (fun queue c timeout heq => hlease ⟨queue, c, timeout, heq⟩)
          fun lease timeout heq => hextend ⟨lease, timeout, heq⟩).run (.inr ok.calm) trivial).1
        exact hold hnone ⟨stored', hnew.lease hstored', rfl⟩

/-! ### Tokens of other consumers -/

/-- Whatever fails, `read_lease_meta` changes nothing and answers nothing else than the lease. -/
theorem readLeaseMeta_reads (key : String) :
    Sat True (fun _ => True) d (readLeaseMeta key) fun r d' =>
      d' = d ∧ ∀ stored, r = .ok stored → d.lease key = some stored := by
  have hread : Sat True (fun _ => True) d (readFile (.leaseMeta (safeKey key))) fun r d' =>
      d' = d ∧ ∀ content, r = .ok content → d.lookup (.leaseMeta (safeKey key)) = some content := by
    refine Sat.bind (Sat.prim ?_ (fun _ _ => Sat.pure (by simp)) fun _ _ => Sat.pure (by simp))
    intro content t hread
    unfold Files.read at hread
    split at hread
    case h_1 => cases hread
    case h_2 content' hcontent =>
      simp only [Except.ok.injEq, Prod.mk.injEq] at hread
      obtain ⟨rfl, rfl⟩ := hread
      refine ⟨trivial, Sat.pure ⟨rfl, fun content hok => ?_⟩⟩
      rw [hcontent, Except.ok.inj hok]
  refine Sat.bind (hread.weaken ?_)
  rintro r d' ⟨rfl, hcontent⟩
  split
  · exact Sat.pure (by simp)
  · rename_i content
    split
    · exact Sat.pure (by simp)
    · rename_i stored hparse
      refine Sat.pure ⟨rfl, fun stored' hok => ?_⟩
      rw [Disk.lease, hcontent content rfl, Option.bind_some, hparse, Except.ok.inj hok]

/-- The call refuses and leaves the disk as it is. -/
def TurnedDown (d : Disk) (r : Status) (d' : Disk) : Prop := (∃ e, r = .error e) ∧ d' = d

/-- An `ack` by another consumer is turned down. -/
theorem ack_refuses {lease : LeaseToken}
    (hother : ∀ stored, d.lease lease.messageKey = some stored →
      stored.consumerId ≠ lease.consumerId) :
    Sat True (fun _ => True) d (ack env lease) (TurnedDown d) := by
  refine Sat.bind ((readLeaseMeta_reads _).weaken ?_)
  rintro r d' ⟨rfl, hstored⟩
  split
  · exact Sat.pure ⟨⟨_, rfl⟩, rfl⟩
  · rename_i stored
    split
    · exact Sat.pure ⟨⟨_, rfl⟩, rfl⟩
    · rw [if_pos (hother stored (hstored stored rfl))]
      exact Sat.pure ⟨⟨_, rfl⟩, rfl⟩

/-- An extension by another consumer is turned down. -/
theorem extendLease_refuses {lease : LeaseToken} {timeout : Int}
    (hother : ∀ stored, d.lease lease.messageKey = some stored →
      stored.consumerId ≠ lease.consumerId) :
    Sat True (fun _ => True) d (extendLease env lease timeout) (TurnedDown d) := by
  refine Sat.bind ((readLeaseMeta_reads _).weaken ?_)
  rintro r d' ⟨rfl, hstored⟩
  split
  · exact Sat.pure ⟨⟨_, rfl⟩, rfl⟩
  · rename_i stored
    rw [if_pos (hother stored (hstored stored rfl))]
    exact Sat.pure ⟨⟨_, rfl⟩, rfl⟩

end FileSystem

end YirangMQ

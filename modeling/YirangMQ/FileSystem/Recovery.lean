import YirangMQ.FileSystem.Crash

namespace YirangMQ.FileSystem

open Program

/-!
# Cutting an operation between two primitives

Only `lease_next` goes through disks with a message in `processing/` and no lease file of it.
Every other disk that an operation goes through has its messages afloat.

* `Adrift` — the disks of `lease_next` before the lease file is there;
* `program_drifts` — **every other cut of an operation leaves the messages afloat**;
* `crashing` — the machine whose calls can be cut, and go on from what a cut has left;
* `recoverable` — **where the messages are after any number of cuts**, and
  `Afloat.swept`, how the sweep moves on those whose lease has expired.
-/

variable {published : List MessageEnvelope} {d t t' : Disk} {m : MessageEnvelope} {env : Env}
  {call : Call} {archives : MessageEnvelope → Prop} {K id : String}

/-- The calls that may move the message to the archive. -/
def Archives (call : Call) (m : MessageEnvelope) : Prop :=
  ∃ lease, call = .ack lease ∧ safeKey lease.messageKey = safeKey m.key

/-- `lease_next` has moved a message to `processing/` that has no lease file, and has not yet
    put the lease file in its place. -/
def Adrift (d : Disk) : Call → Disk → Prop
  | .leaseNext queue _ _, t =>
    ∃ id content envelope, d.lookup (queuePath queue .inbox id) = some content ∧
      deserializeEnvelope content = some envelope ∧
      d.lookup (.leaseMeta (safeKey envelope.key)) = none ∧
      let moved :=
        Files.renamed (queuePath queue .inbox id) (queuePath queue .processing id) content d
      (t = moved ∨
        ∃ lease, t = moved.insert (.temp (.leaseMeta (safeKey envelope.key))) lease)
  | _, _ => False

/-- A disk with a message adrift has the lease files of before. -/
theorem Adrift.leases (h : Adrift d call t) (name : String) :
    t.lookup (.leaseMeta name) = d.lookup (.leaseMeta name) := by
  cases call with
  | leaseNext queue c timeout =>
    obtain ⟨id, content, envelope, -, -, -, rfl | ⟨lease, rfl⟩⟩ := h
    · rw [Files.lookup_renamed, if_neg (by simp [queuePath]), if_neg (by simp [queuePath])]
    · rw [Files.lookup_insert', if_neg (by simp), Files.lookup_renamed,
        if_neg (by simp [queuePath]), if_neg (by simp [queuePath])]
  | _ => exact h.elim

/-! ### Operations -/

/-- A message leaves `processing/`. -/
theorem Drifts.release (hdrifts : Drifts published archives d t) (hcat : Catalogued published)
    (hm : m ∈ published) (hnames : safeKey K = safeKey m.key)
    (hfile : t.lookup (filePath m .processing) ≠ none) (dest : SubDir) (hdest : dest ≠ .processing)
    (harchives : dest = .archive → archives m) (content : JsonText) :
    Drifts published archives d
      (Files.renamed (filePath m .processing) (filePath m dest) content t) ∧
    Drifts published archives d
      (released K (filePath m .processing) (filePath m dest) content t) := by
  have hmoved := hdrifts.move hcat.well hm .processing dest hfile (fun heq => absurd heq hdest)
    harchives content
  refine ⟨hmoved, hmoved.drop _ fun m' hm' hname => ?_⟩
  have hsame : m.messageId = m'.messageId :=
    (hcat.named m hm).safeKey_inj (hcat.named m' hm') (hnames.symm.trans hname)
  obtain rfl := hcat.well.eq_of_id hm hm' hsame
  rw [Files.lookup_renamed]
  simp [hdest.symm]

section Operations

variable (hcat : Catalogued published) (h : Afloat published d)

include hcat h

/-- Wherever an `ack` is cut, it has archived its own file at most. -/
theorem ack_drifts (lease : LeaseToken) :
    Sat False (Drifts published (Archives (.ack lease)) d) d (ack env lease) fun r t =>
      Drifts published (Acks (.ack lease) (.status r)) d t := by
  refine ack_sat (.refl _ h) ?_ fun _ _ => .refl _ h
  intro stored id content hreach _ _
  obtain ⟨m, hm, hnames, rfl, hpath, hfile⟩ := h.reached hcat hreach
  have hthere : d.lookup (filePath m .processing) ≠ none := by simp [hfile]
  simp only [hpath]
  have hcut := (Drifts.refl (Archives (.ack lease)) h).release hcat hm hnames hthere .archive
    (by simp) (fun _ => ⟨lease, rfl, hnames⟩) content
  have hdone := (Drifts.refl (Acks (.ack lease) (.status (.ok ()))) h).release hcat hm hnames
    hthere .archive (by simp) (fun _ => ⟨lease, rfl, hnames, rfl⟩) content
  exact ⟨hcut.1, hcut.2, hdone.2⟩

/-- `nack` with requeue, and `delay_message` without delay. -/
theorem requeue_drifts {stored : LeaseMeta} (hstored : d.lease K = some stored)
    (hid : messageIdOf K = some id) :
    Sat False (Drifts published archives d) d
      (leaveProcessing K (queuePath stored.queue .processing id)
        (queuePath stored.queue .inbox id)) fun _ t => Drifts published archives d t := by
  refine release_sat hstored hid ?_ fun _ _ => .refl _ h
  intro content hreach
  obtain ⟨m, hm, hnames, rfl, hpath, hfile⟩ := h.reached hcat hreach
  simp only [hpath]
  obtain ⟨hmoved, hdone⟩ := (Drifts.refl archives h).release hcat hm hnames
    (by simp [hfile]) .inbox (by simp) (by simp) content
  exact ⟨hmoved, hdone, hdone⟩

variable (hfaithful : Faithful published d)

include hfaithful

/-- `nack` without requeue, and `move_to_dlq`. -/
theorem bury_drifts {stored : LeaseMeta} {reason : String} {now : Int}
    (hstored : d.lease K = some stored) (hid : messageIdOf K = some id) :
    Sat False (Drifts published archives d) d (do
      editFile (queuePath stored.queue .processing id) (withDlqFields reason now)
      leaveProcessing K (queuePath stored.queue .processing id)
        (queuePath stored.queue .dlq id)) fun _ t => Drifts published archives d t := by
  refine rewrite_sat (.refl _ h) hstored hid ?_ fun _ _ => .refl _ h
  intro content hreach
  obtain ⟨m, hm, hnames, rfl, hpath, hfile⟩ := h.reached hcat hreach
  obtain ⟨j, attempt, available, rfl, henvelope⟩ := hfaithful.envelope hcat hm hfile
  obtain ⟨j', hj', -⟩ := henvelope.withDlqFields reason now
  refine ⟨j, j', rfl, hj', ?_⟩
  simp only [hpath]
  have hedited : Drifts published archives d (written (filePath m .processing) (some j') d) :=
    (Drifts.refl _ h).rewritten (by simp [hfile]) _
  obtain ⟨hmoved, hdone⟩ := hedited.release hcat hm hnames (by simp [lookup_written])
    .dlq (by simp) (by simp) (some j')
  have htemp : Drifts published archives d (d.insert (.temp (filePath m .processing)) (some j')) :=
    (Drifts.refl _ h).insert _ (by trivial) _
  exact ⟨htemp, hedited, hmoved, hdone, hdone⟩

/-- Wherever a `nack` is cut, nothing is archived and no message is lost. -/
theorem nack_drifts (lease : LeaseToken) (reason : String) (requeue : Bool) :
    Sat False (Drifts published archives d) d (nack env lease reason requeue)
      fun _ t => Drifts published archives d t := by
  refine withLease_sat ("lease not found: " ++ ·) (.refl _ h) ?_ fun _ _ => .refl _ h
  intro stored id hstored hid
  dsimp only
  split
  case isTrue => exact requeue_drifts hcat h hstored hid
  case isFalse => exact bury_drifts hcat h hfaithful hstored hid

/-- So it is with `move_to_dlq`. -/
theorem moveToDlq_drifts (key reason : String) :
    Sat False (Drifts published archives d) d (moveToDlq env key reason)
      fun _ t => Drifts published archives d t := by
  refine withLease_sat id (.refl _ h) ?_ fun _ _ => .refl _ h
  intro stored id hstored hid
  exact bury_drifts hcat h hfaithful hstored hid

/-- So it is with `delay_message`. -/
theorem delayMessage_drifts {key : String} {delayMs : Int} (hname : '/' ∉ key.toList) :
    Sat False (Drifts published archives d) d (delayMessage env key delayMs)
      fun _ t => Drifts published archives d t := by
  refine withLease_sat id (.refl _ h) ?_ fun _ _ => .refl _ h
  intro stored id hstored hid
  dsimp only
  split
  case isTrue => exact requeue_drifts hcat h hstored hid
  case isFalse =>
    refine postpone_sat (.refl _ h) hname hstored hid ?_ fun _ _ => .refl _ h
    intro content hreach
    obtain ⟨m, hm, hnames, rfl, hpath, hfile⟩ := h.reached hcat hreach
    obtain ⟨j, attempt, available, rfl, henvelope⟩ := hfaithful.envelope hcat hm hfile
    obtain ⟨j', hj', -⟩ := henvelope.withAvailableAt (env.now + delayMs)
    refine ⟨j, j', rfl, hj', ?_⟩
    simp only [hpath]
    -- Each of the four writes leaves the files adrift at most as the notes allow.
    have hedited : Drifts published archives d (written (filePath m .processing) (some j') d) :=
      (Drifts.refl _ h).rewritten (by simp [hfile]) _
    have hmoved := hedited.move hcat.well hm .processing .delayed
      (by simp [lookup_written]) (by simp) (by simp) (some j')
    have hnoted := hmoved.written (.delayedMeta (safeKey key)) trivial trivial
      (some (DelayedMeta.mk key stored.queue (env.now + delayMs) stored.attempt).toJson)
    have htemp : Drifts published archives d (d.insert (.temp (filePath m .processing)) (some j')) :=
      (Drifts.refl _ h).insert _ (by trivial) _
    have htemp' := hmoved.insert (.temp (.delayedMeta (safeKey key))) trivial
      (some (DelayedMeta.mk key stored.queue (env.now + delayMs) stored.attempt).toJson)
    refine ⟨htemp, hedited, hmoved, htemp', hnoted, ?_⟩
    have hdone := hnoted.drop (safeKey key) fun m' hm' hsame => ?_
    · exact ⟨hdone, hdone⟩
    · have hid' : m.messageId = m'.messageId :=
        (hcat.named m hm).safeKey_inj (hcat.named m' hm') (hnames.symm.trans hsame)
      obtain rfl := hcat.well.eq_of_id hm hm' hid'
      simp [lookup_written, Files.lookup_renamed]

omit hfaithful

/-- So it is with `reprocess_dlq_message`. -/
theorem reprocessDlqMessage_drifts (key : String) :
    Sat False (Drifts published archives d) d (reprocessDlqMessage env key)
      fun _ t => Drifts published archives d t := by
  refine reprocessDlqMessage_sat (.refl _ h) ?_ fun _ _ => .refl _ h
  intro id content j' hid _ hfile hedit
  obtain ⟨m, hm, rfl, hpath, hfile'⟩ := h.matched hfile
  simp only [hpath]
  have hedited : Drifts published archives d (written (filePath m .dlq) (some j') d) :=
    (Drifts.refl _ h).rewritten (by simp [hfile']) _
  have hmoved := hedited.move hcat.well hm .dlq .inbox
    (by simp [lookup_written]) (by simp) (by simp) (some j')
  have htemp : Drifts published archives d (d.insert (.temp (filePath m .dlq)) (some j')) :=
    (Drifts.refl _ h).insert _ (by trivial) _
  exact ⟨htemp, hedited, hmoved, hmoved⟩

omit hcat

/-- So it is with `extend_lease`, under the exact key of a message. -/
theorem extendLease_drifts {lease : LeaseToken} {timeout : Int}
    (hname : '/' ∉ lease.messageKey.toList)
    (hexact : Call.Exact published env d (.extendLease lease timeout)) :
    Sat False (Drifts published archives d) d (extendLease env lease timeout)
      fun _ t => Drifts published archives d t := by
  refine extendLease_sat (.refl _ h) hname ?_ fun _ _ => .refl _ h
  intro stored hstored hconsumer hlive
  obtain ⟨m, hm, hnames, hqueue⟩ := h.lease hstored
  have hkey : lease.messageKey = m.key := hexact stored hstored hconsumer hlive m hm hnames
  have hlease : LeaseOf published (safeKey lease.messageKey) (some (LeaseMeta.toJson
      { stored with leaseUntilMs := env.now + timeout * 1000 } lease.messageKey)) :=
    ⟨m, hm, hnames, { stored with leaseUntilMs := env.now + timeout * 1000 }, by rw [hkey], hqueue⟩
  have hdone := (Drifts.refl archives h).lease hlease
  exact ⟨(Drifts.refl _ h).leaseTemp hlease, hdone, hdone⟩

/-- So it is with `save_policy`. -/
theorem savePolicy_drifts (queue : String) (policy : QueuePolicy) :
    Sat False (Drifts published archives d) d (savePolicy queue policy)
      fun _ t => Drifts published archives d t := by
  refine savePolicy_sat (.refl _ h) (fun _ => ?_) fun _ => .refl _ h
  have hdone := (Drifts.refl archives h).written (.policy queue) trivial
    trivial (some policy.toJson)
  have htemp : Drifts published archives d
      (d.insert (.temp (.policy queue)) (some policy.toJson)) :=
    (Drifts.refl _ h).insert _ (by trivial) _
  exact ⟨htemp, hdone, hdone⟩

end Operations

/-! ### Loops -/

/-- One round of `recover_expired_leases`. -/
theorem recoverLease_drifts (hcat : Catalogued published) (h : Drifts published archives d t)
    {path : Path}
    (hpath : ∃ name, path = .leaseMeta name ∨ path = .temp (.leaseMeta name)) :
    Sat False (Drifts published archives d) t (recoverLease env path)
      fun _ t' => Drifts published archives d t' := by
  have hlease : ∀ content, t.lookup path = some content → ∃ m ∈ published,
      (path = leasePath m ∨ path = .temp (leasePath m)) ∧
      ∃ stored : LeaseMeta, content = some (stored.toJson m.key) ∧ stored.queue = m.queue := by
    intro content hfile
    obtain ⟨name, rfl | rfl⟩ := hpath
    · obtain ⟨m, hm, rfl, hstored⟩ := h.afloat.leases name content hfile
      exact ⟨m, hm, .inl rfl, hstored⟩
    · obtain ⟨m, hm, rfl, hstored⟩ := h.afloat.temps name content hfile
      exact ⟨m, hm, .inr rfl, hstored⟩
  -- the file is deleted once its message is not in `processing/`
  have hdelete : ∀ {t' m}, m ∈ published → (path = leasePath m ∨ path = .temp (leasePath m)) →
      Drifts published archives d t' → t'.lookup (filePath m .processing) = none →
      Drifts published archives d (t'.erase path) := by
    rintro t' m hm (rfl | rfl) hdrifts hnone
    · refine hdrifts.drop _ fun m' hm' hname => ?_
      obtain rfl := hcat.well.eq_of_id hm hm' ((hcat.named m hm).safeKey_inj (hcat.named m' hm') hname)
      exact hnone
    · exact hdrifts.dropTemp _
  have hexpired : ∀ {m : MessageEnvelope} {stored : LeaseMeta} {queue id}, m ∈ published →
      stored.queue = m.queue → expiredLease env.now (some (stored.toJson m.key)) = some (queue, id) →
      ∀ dir, queuePath queue dir id = filePath m dir := by
    intro m stored queue id hm hqueue hread dir
    have hnamed := hcat.named m hm
    obtain ⟨-, rfl, hid⟩ := expiredLease_toJson hread
    rw [hnamed.key, messageIdOf_messageKey (not_mem_of_guid hnamed.guid).1] at hid
    rw [← Option.some.inj hid, hqueue, queuePath_of_name hnamed.queue]
  refine recoverLease_sat h h ?_ ?_
  · intro content queue id text hfile hread hmessage
    obtain ⟨m, hm, hpath, stored, rfl, hqueue⟩ := hlease content hfile
    have hpaths := hexpired hm hqueue hread
    rw [hpaths] at hmessage
    simp only [hpaths]
    have hmoved := h.move hcat.well hm .processing .inbox (by simp [hmessage]) (by simp) (by simp) text
    have hdone := hdelete hm hpath hmoved (by simp [Files.lookup_renamed])
    exact ⟨hmoved, hdone, hdone⟩
  · intro content queue id hfile hread hmissing
    obtain ⟨m, hm, hpath, stored, rfl, hqueue⟩ := hlease content hfile
    rw [hexpired hm hqueue hread] at hmissing
    have hdone := hdelete hm hpath h hmissing
    exact ⟨hdone, hdone⟩

/-- One round of `process_delayed_messages`. -/
theorem processDelayed_drifts (hcat : Catalogued published) (h : Drifts published archives d t)
    (queue id : String) :
    Sat False (Drifts published archives d) t (processDelayed env queue id)
      fun _ t' => Drifts published archives d t' := by
  refine processDelayed_sat h h ?_
  intro j available hfile _ _
  obtain ⟨m, hm, rfl, hpath, hfile'⟩ := h.afloat.matched hfile
  simp only [hpath]
  have hmoved := h.move hcat.well hm .delayed .inbox (by simp [hfile']) (by simp) (by simp) (some j)
  refine ⟨hmoved, ?_⟩
  split
  case h_1 => exact hmoved
  case h_2 => exact hmoved
  case h_3 key _ _ =>
    have hdone := hmoved.erase (.delayedMeta (safeKey key)) trivial
    exact ⟨hdone, hdone⟩

/-- So it is with the recovery of leases, whatever the lease files say. -/
theorem recoverExpiredLeases_drifts (hcat : Catalogued published) (h : Afloat published d) :
    Sat False (Drifts published archives d) d (recoverExpiredLeases env)
      fun _ t => Drifts published archives d t := by
  refine Sat.bind (listDirectory_sat (.refl _ h) (Sat.sumList _ _ ?_ (.refl _ h)))
  intro path hpath t ht
  exact recoverLease_drifts hcat ht (mem_leasePaths hpath)

/-- So it is with the sweep over delayed files. -/
theorem processDelayedMessages_drifts (hcat : Catalogued published) (h : Afloat published d) :
    Sat False (Drifts published archives d) d (processDelayedMessages env)
      fun _ t => Drifts published archives d t := by
  refine Sat.bind (listDirectory_sat (.refl _ h) (Sat.sumList _ _ ?_ (.refl _ h)))
  intro queue _ t ht
  refine Sat.bind (listJsonFiles_sat ht fun ids _ _ => Sat.sumList _ _ ?_ ht)
  exact fun id _ t' ht' => processDelayed_drifts hcat ht' queue id

/-! ### Leasing -/

/-- The disks with a message of the inbox in `processing/`: without a lease file, and with one. -/
theorem Afloat.taken (h : Afloat published d) (archives : MessageEnvelope → Prop)
    (hcat : Catalogued published) (hm : m ∈ published)
    {content lease : JsonText} (hfile : d.lookup (filePath m .inbox) = some content)
    (hlease : LeaseOf published (safeKey m.key) lease) :
    let moved := Files.renamed (filePath m .inbox) (filePath m .processing) content d
    (d.lookup (leasePath m) ≠ none → Drifts published archives d moved ∧
      Drifts published archives d (moved.insert (.temp (leasePath m)) lease)) ∧
    Drifts published archives d (written (leasePath m) lease moved) := by
  intro moved
  have hthere : d.lookup (filePath m .inbox) ≠ none := by simp [hfile]
  constructor
  · intro hold
    have hmoved : Drifts published archives d moved :=
      (Drifts.refl _ h).move hcat.well hm .inbox .processing hthere (fun _ => hold) (by simp) _
    exact ⟨hmoved, hmoved.leaseTemp hlease⟩
  · -- as if the lease file had been written first
    have hstart : Drifts published archives d (written (leasePath m) lease d) :=
      (Drifts.refl _ h).lease hlease
    refine hstart.settle hcat.well hm .processing content ?_ ?_ ?_ (by simp)
    · intro dir
      have hnone : dir ≠ .inbox → d.lookup (filePath m dir) = none := by
        intro hinbox
        by_contra hother
        exact hinbox (h.one m hm dir .inbox hother hthere)
      rw [lookup_written, Files.lookup_renamed]
      by_cases hdir : dir = .processing
      · simp [hdir]
      · by_cases hinbox : dir = .inbox
        · simp [hinbox]
        · simp [hdir, hinbox, hnone hinbox]
    · intro path hmessage _
      rw [lookup_written, lookup_written, Files.lookup_renamed, if_neg (hmessage _),
        if_neg (hmessage _)]
    · intro _
      simp [lookup_written]

/-- `lease_next` goes through disks with a message adrift, and leaves none. -/
theorem leaseNext_drifts (hcat : Catalogued published) (h : Afloat published d)
    (hfaithful : Faithful published d) {queue c : String} {timeout : Int} (hqueue : IsName queue) :
    Sat False
      (fun t => Drifts published archives d t ∨ Adrift d (.leaseNext queue c timeout) t) d
      (leaseNext env queue c timeout) fun _ t => Drifts published archives d t := by
  -- a file of the inbox holds its message
  have hinbox : ∀ {id content envelope}, d.lookup (queuePath queue .inbox id) = some content →
      deserializeEnvelope content = some envelope → ∃ m ∈ published, m.queue = queue ∧
        envelope.key = m.key ∧ (∀ dir, queuePath queue dir id = filePath m dir) ∧
        d.lookup (filePath m .inbox) = some content := by
    intro id content envelope hfile hparse
    obtain ⟨m, hm, rfl, hpath, hfile'⟩ := h.matched hfile
    obtain ⟨j, attempt, available, rfl, hj⟩ := hfaithful.envelope hcat hm hfile'
    rw [hj.deserialize, Option.some.injEq] at hparse
    have hname := hpath .inbox
    rw [queuePath_of_name hqueue] at hname
    exact ⟨m, hm, by simpa using hname.symm, by rw [← hparse], hpath, hfile'⟩
  refine leaseNext_sat (.inl (.refl _ h)) ?_ ?_ fun _ => .refl _ h
  · intro id envelope henvelope
    obtain ⟨content, hfile, hparse⟩ := Option.bind_eq_some_iff.mp henvelope
    obtain ⟨m, hm, -, hkey, -⟩ := hinbox hfile hparse
    exact hkey ▸ (hcat.named m hm).no_slash
  · intro id content envelope _ hfile hparse _ _
    obtain ⟨m, hm, hmqueue, hkey, hpath, hfile'⟩ := hinbox hfile hparse
    have hlease : LeaseOf published (safeKey m.key)
        (some ((leaseOf env queue c timeout envelope).toJson m.key)) :=
      ⟨m, hm, rfl, _, rfl, hmqueue.symm⟩
    obtain ⟨hold, hleased⟩ := h.taken archives hcat hm hfile' hlease
    have hadrift : d.lookup (leasePath m) = none → ∀ t,
        (t = Files.renamed (filePath m .inbox) (filePath m .processing) content d ∨ ∃ lease,
          t = (Files.renamed (filePath m .inbox) (filePath m .processing) content d).insert
            (.temp (leasePath m)) lease) → Adrift d (.leaseNext queue c timeout) t := by
      intro hnone t ht
      refine ⟨id, content, envelope, hfile, hparse, by rw [hkey]; exact hnone, ?_⟩
      simpa only [hpath, hkey] using ht
    have hnext : ∀ next, Drifts published archives d (written (filePath m .processing) next
        (written (leasePath m) (some ((leaseOf env queue c timeout envelope).toJson m.key))
          (Files.renamed (filePath m .inbox) (filePath m .processing) content d))) := fun next =>
      hleased.rewritten (by simp [lookup_written, Files.lookup_renamed]) next
    simp only [hpath, hkey]
    refine ⟨?_, ?_, .inl hleased, .inl (hleased.insert _ (by trivial) _), .inl (hnext _), hnext _⟩
    all_goals by_cases hnone : d.lookup (leasePath m) = none
    · exact .inr (hadrift hnone _ (.inl rfl))
    · exact .inl (hold hnone).1
    · exact .inr (hadrift hnone _ (.inr ⟨_, rfl⟩))
    · exact .inl (hold hnone).2

/-! ### Publishing -/

/-- A fresh message has no files, and the others are as they were. -/
theorem Afloat.publish (h : Afloat published d) (hfresh : (Call.enqueue m).Fresh published) :
    Afloat (m :: published) d ∧ ∀ dir, d.lookup (filePath m dir) = none := by
  have hnone : ∀ dir, d.lookup (filePath m dir) = none := by
    intro dir
    by_contra hfile
    obtain ⟨m', hm', -, hid⟩ := h.files _ _ _ hfile
    exact hfresh.2.2.2 (List.mem_map.mpr ⟨m', hm', hid.symm⟩)
  have hwider : ∀ {name content}, LeaseOf published name content →
      LeaseOf (m :: published) name content := by
    rintro name content ⟨m', hm', hlease⟩
    exact ⟨m', List.mem_cons_of_mem _ hm', hlease⟩
  refine ⟨⟨?_, ?_, ?_, ?_, ?_⟩, hnone⟩
  · intro location dir id hfile
    obtain ⟨m', hm', hfound⟩ := h.files location dir id hfile
    exact ⟨m', List.mem_cons_of_mem _ hm', hfound⟩
  · intro m' hm' dir dir' hdir hdir'
    rcases List.mem_cons.mp hm' with rfl | hm'
    · exact absurd (hnone dir) hdir
    · exact h.one m' hm' dir dir' hdir hdir'
  · exact fun name content hlease => hwider (h.leases name content hlease)
  · exact fun name content hlease => hwider (h.temps name content hlease)
  · intro m' hm' hfile
    rcases List.mem_cons.mp hm' with rfl | hm'
    · exact absurd (hnone _) hfile
    · exact h.held m' hm' hfile

/-- So it is with `enqueue`, of a message that is new. -/
theorem enqueue_drifts (hcat : Catalogued (m :: published)) (h : Afloat published d)
    (hfresh : (Call.enqueue m).Fresh published) :
    Sat False (Drifts (m :: published) archives d) d (enqueue env m)
      fun _ t => Drifts (m :: published) archives d t := by
  obtain ⟨hafloat, hnone⟩ := h.publish hfresh
  have hnamed := hcat.named m List.mem_cons_self
  have hpath : ∀ dir, queuePath m.queue dir m.messageId = filePath m dir := fun dir =>
    queuePath_of_name hnamed.queue dir m.messageId
  by_cases hlater : env.now < m.availableAtMs
  · refine enqueue_sat_delayed (.refl _ hafloat) hlater hnamed.no_slash ?_
    have hnoted : Drifts (m :: published) archives d
        (written (notePath m) (some (delayedOf m).toJson) d) :=
      (Drifts.refl _ hafloat).written _ (by trivial) (by trivial) _
    have hstored : Drifts (m :: published) archives d
        (written (filePath m .delayed) (some (serializeEnvelope m))
          (written (notePath m) (some (delayedOf m).toJson) d)) :=
      hnoted.store hcat.well List.mem_cons_self (fun dir => by simp [lookup_written, hnone])
        (by simp) _
    simp only [hpath]
    exact ⟨(Drifts.refl _ hafloat).insert _ (by trivial) _, hnoted, hnoted.insert _ (by trivial) _,
      hstored, hstored⟩
  · refine enqueue_sat_ready (.refl _ hafloat) hlater ?_
    simp only [hpath]
    have hstored : Drifts (m :: published) archives d
        (written (filePath m .inbox) (some (serializeEnvelope m)) d) :=
      (Drifts.refl _ hafloat).store hcat.well List.mem_cons_self hnone (by simp) _
    exact ⟨(Drifts.refl _ hafloat).insert _ (by trivial) _, hstored, hstored⟩

/-! ### All calls -/

/-- What may be archived may be more. -/
theorem Drifts.mono {archives' : MessageEnvelope → Prop} (h : Drifts published archives d t)
    (hle : ∀ m, archives m → archives' m) : Drifts published archives' d t :=
  ⟨h.afloat, fun m hm harchived => (h.archive m hm harchived).imp_right (hle m)⟩

/-- An operation that leaves nothing adrift. -/
theorem Drifts.answered {β : Type} {p : Program Disk β} {f : β → Reply}
    (h : Sat False (Drifts published (Archives call) d) d p
      fun r t => Drifts published (Acks call (f r)) d t) (hcall : ∀ t, ¬Adrift d call t) :
    Sat False (fun t => Drifts published (Archives call) d t ∨ Adrift d call t) d
      (do return f (← p)) fun reply t => Drifts published (Acks call reply) d t := by
  have hcuts : (fun t => Drifts published (Archives call) d t ∨ Adrift d call t) =
      Drifts published (Archives call) d :=
    funext fun t => propext (or_iff_left (hcall t))
  rw [hcuts]
  exact Sat.bind (h.weaken fun _ _ hr => Sat.pure hr)

/-- **Every cut of an operation leaves the messages afloat**, but those of `lease_next` before the
    lease file is there. -/
theorem program_drifts (hcat : Catalogued (call.publishing published)) (h : Afloat published d)
    (hfaithful : Faithful published d) (hfresh : call.Fresh published) (hplain : Call.Plain call)
    (hexact : ∀ lease timeout, call = .extendLease lease timeout →
      Call.Exact published env d call) :
    Sat False
      (fun t => Drifts (call.publishing published) (Archives call) d t ∨ Adrift d call t) d
      (program env call)
      fun reply t => Drifts (call.publishing published) (Acks call reply) d t := by
  -- Only `ack` archives, so what a cut of another call leaves is what its end leaves.
  have hnone : ∀ {call : Call} {reply : Reply} {t : Disk}, (∀ lease, call ≠ .ack lease) →
      Drifts published (Archives call) d t → Drifts published (Acks call reply) d t := by
    intro call reply t hcall hdrifts
    refine hdrifts.mono fun m harchives => ?_
    obtain ⟨lease, hack, -⟩ := harchives
    exact absurd hack (hcall lease)
  cases call with
  | enqueue message =>
    refine Drifts.answered ((enqueue_drifts hcat h hfresh).weaken fun _ _ hr => ?_) fun _ => id
    refine hr.mono fun m harchives => ?_
    obtain ⟨lease, hack, -⟩ := harchives
    cases hack
  | leaseNext queue c timeout =>
    refine Sat.bind ((leaseNext_drifts hcat h hfaithful hplain).weaken fun _ _ hr => Sat.pure ?_)
    exact hnone (by simp) hr
  | ack lease => exact Drifts.answered (ack_drifts hcat h lease) fun _ => id
  | nack lease reason requeue =>
    exact Drifts.answered ((nack_drifts hcat h hfaithful lease reason requeue).weaken
      fun _ _ => hnone (by simp)) fun _ => id
  | extendLease lease timeout =>
    exact Drifts.answered ((extendLease_drifts h hplain (hexact lease timeout rfl)).weaken
      fun _ _ => hnone (by simp)) fun _ => id
  | savePolicy queue policy =>
    exact Drifts.answered ((savePolicy_drifts h queue policy).weaken
      fun _ _ => hnone (by simp)) fun _ => id
  | recoverExpiredLeases =>
    have hsat : Sat False (Drifts published (Archives .recoverExpiredLeases) d) d
        (recoverExpiredLeases env) fun n t =>
          Drifts published (Acks .recoverExpiredLeases (.count n none)) d t :=
      (recoverExpiredLeases_drifts hcat h).weaken fun _ _ => hnone (by simp)
    exact Drifts.answered (f := fun n : Nat => .count n none) hsat fun _ => id
  | processDelayedMessages =>
    have hsat : Sat False (Drifts published (Archives .processDelayedMessages) d) d
        (processDelayedMessages env) fun n t =>
          Drifts published (Acks .processDelayedMessages (.count n none)) d t :=
      (processDelayedMessages_drifts hcat h).weaken fun _ _ => hnone (by simp)
    exact Drifts.answered (f := fun n : Nat => .count n none) hsat fun _ => id
  | delayMessage messageKey delayMs =>
    exact Drifts.answered ((delayMessage_drifts hcat h hfaithful hplain).weaken
      fun _ _ => hnone (by simp)) fun _ => id
  | moveToDlq messageKey reason =>
    exact Drifts.answered ((moveToDlq_drifts hcat h hfaithful messageKey reason).weaken
      fun _ _ => hnone (by simp)) fun _ => id
  | reprocessDlqMessage messageKey =>
    exact Drifts.answered ((reprocessDlqMessage_drifts hcat h messageKey).weaken
      fun _ _ => hnone (by simp)) fun _ => id

/-! ### Runs with cuts -/

/-- A call, and the number of primitives after which it is cut, if it is. -/
structure CutCall where
  env : Env
  call : Call
  cut : Option Nat

/-- The disk that a call leaves when it is cut. -/
def afterCut (d : Disk) (i : CutCall) : Disk :=
  match i.cut with
  | none => ((program i.env i.call).run i.env.faults d).2
  | some n =>
    ((program i.env i.call).passedStates i.env.faults d).getD n
      ((program i.env i.call).run i.env.faults d).2

/-- The machine that performs calls one after another, each of which may be cut; a cut call gives
    no answer, and the next call finds what it has left. -/
def crashing : Machine Disk CutCall (Option Reply) where
  start := ∅
  step d i :=
    (if i.cut = none then some ((program i.env i.call).run i.env.faults d).1 else none,
      afterCut d i)

/-- The messages given to `enqueue`, newest first. -/
def given (h : History Disk CutCall (Option Reply)) : List MessageEnvelope :=
  h.foldr (fun r messages => r.input.call.publishing messages) []

/-- `enqueue` has reported the message stored. -/
def Reported (h : History Disk CutCall (Option Reply)) (m : MessageEnvelope) : Prop :=
  ∃ r ∈ h, r.input.call = .enqueue m ∧ ∃ reply, r.output = some reply ∧ reply.succeeded = true

/-- An `ack` of the message has reported success. -/
def Acknowledged (h : History Disk CutCall (Option Reply)) (m : MessageEnvelope) : Prop :=
  ∃ r ∈ h, ∃ reply, r.output = some reply ∧ Acks r.input.call reply m

/-- An `ack` of the message has been cut. -/
def AckCut (h : History Disk CutCall (Option Reply)) (m : MessageEnvelope) : Prop :=
  ∃ r ∈ h, r.output = none ∧ Archives r.input.call m

/-- Nothing fails but for the cuts, and the keys of the calls have no NUL character.  No cut of
    `lease_next` falls between its moving a message to `processing/` and its writing the lease file,
    and no lease is renewed under another key. -/
structure Recoverable (h : History Disk CutCall (Option Reply)) (d : Disk) (i : CutCall) : Prop
    where
  calm : i.env.faults = []
  plain : Call.Plain i.call
  nul_free : Call.NulFree i.call
  fresh : i.call.Fresh (given h)
  not_adrift : ¬Adrift d i.call (afterCut d i)
  exact : ∀ lease timeout, i.call = .extendLease lease timeout →
    Call.Exact (given h) i.env d i.call

/-- What every run keeps. -/
structure Harbour (h : History Disk CutCall (Option Reply)) (d : Disk) : Prop where
  catalogued : Catalogued (given h)
  afloat : Afloat (given h) d
  faithful : Faithful (given h) d
  present : ∀ m, Reported h m → m ∈ given h ∧ Present d m
  archive : ∀ m ∈ given h, Archived d m → Acknowledged h m ∨ AckCut h m

variable {h : History Disk CutCall (Option Reply)}

/-- The disk after a cut is one the call goes through, or the last one. -/
theorem afterCut_mem (d : Disk) (i : CutCall) :
    afterCut d i = ((program i.env i.call).run i.env.faults d).2 ∨
      i.cut ≠ none ∧ afterCut d i ∈ (program i.env i.call).passedStates i.env.faults d := by
  unfold afterCut
  cases hcut : i.cut with
  | none => exact .inl rfl
  | some n =>
    dsimp only
    rw [List.getD_eq_getElem?_getD]
    cases hstate : ((program i.env i.call).passedStates i.env.faults d)[n]? with
    | none => exact .inl rfl
    | some t => exact .inr ⟨by simp, List.mem_of_getElem? hstate⟩

/-- What a message must be to be published. -/
theorem Catalogued.publishing (hcat : Catalogued published) (hfresh : call.Fresh published)
    (hplain : Call.Plain call) : Catalogued (call.publishing published) := by
  refine ⟨hcat.well.publishing hfresh, ?_⟩
  cases call with
  | enqueue message =>
    intro m hm
    rcases List.mem_cons.mp hm with rfl | hm
    · exact ⟨hfresh.1, hfresh.2.2.1, hplain.1, hplain.2⟩
    · exact hcat.named m hm
  | _ => exact hcat.named

/-- **Every call keeps the harbour, wherever it is cut.** -/
theorem Harbour.step (hh : Harbour h d) {i : CutCall} (ok : Recoverable h d i) :
    Harbour (crashing.stepAt d i :: h) (afterCut d i) := by
  obtain ⟨env, call, cut⟩ := i
  have hcat : Catalogued (call.publishing (given h)) :=
    hh.catalogued.publishing ok.fresh ok.plain
  have hafloat : Afloat (call.publishing (given h)) d := by
    cases call with
    | enqueue message => exact (hh.afloat.publish ok.fresh).1
    | _ => exact hh.afloat
  have hdrifts := (program_drifts hcat hh.afloat hh.faithful ok.fresh ok.plain ok.exact).run
    (.inr ok.calm) (.inl (.refl _ hafloat))
  -- the disk is afloat, and only an `ack` has filled the archive
  have hcut : Drifts (call.publishing (given h)) (Archives call) d (afterCut d ⟨env, call, cut⟩) := by
    rcases afterCut_mem d ⟨env, call, cut⟩ with hlast | ⟨-, hmem⟩
    · rw [hlast]
      exact hdrifts.1.mono fun m ⟨lease, hack, hnames, _⟩ => ⟨lease, hack, hnames⟩
    · exact (hdrifts.2 _ hmem).resolve_right ok.not_adrift
  have hsecure : ∀ stored, (∀ m ∈ stored, Present d m) →
      Secure (call.publishing (given h)) stored (afterCut d ⟨env, call, cut⟩) := by
    intro stored hpresent
    have hsecures : Secures (call.publishing (given h)) stored _ _ :=
      @program_secures _ _ env call (by rintro message rfl; exact List.mem_cons_self)
    obtain ⟨hlast, -, hpassed⟩ :=
      hsecures.run ⟨hh.faithful.publishing call, hpresent⟩ env.faults
    rcases afterCut_mem d ⟨env, call, cut⟩ with heq | ⟨-, hmem⟩
    · rw [heq]
      exact hlast
    · exact hpassed _ hmem
  refine ⟨hcat, hcut.afloat, (hsecure [] (by simp)).faithful, ?_, ?_⟩
  · rintro m ⟨r, hr, hcall, reply, hreply, hok⟩
    rcases List.mem_cons.mp hr with rfl | hr
    · obtain rfl : call = .enqueue m := hcall
      have hdone : cut = none := by
        by_contra hsome
        simp [crashing, hsome] at hreply
      subst hdone
      exact ⟨List.mem_cons_self,
        enqueue_present (hcat.named m List.mem_cons_self).no_slash ok.calm⟩
    · obtain ⟨hm, hpresent⟩ := hh.present m ⟨r, hr, hcall, reply, hreply, hok⟩
      exact ⟨call.publishing_of_mem hm,
        (hsecure [m] (by simpa using hpresent)).present m List.mem_cons_self⟩
  · intro m hm harchived
    have hbefore : Archived d m → Acknowledged h m ∨ AckCut h m := by
      intro harchived'
      have hknown : m ∈ given h := by
        cases call with
        | enqueue message =>
          rcases List.mem_cons.mp hm with rfl | hm
          · exact absurd ((hh.afloat.publish ok.fresh).2 .archive) harchived'
          · exact hm
        | _ => exact hm
      exact hh.archive m hknown harchived'
    have hkept : Acknowledged h m ∨ AckCut h m →
        Acknowledged (crashing.stepAt d ⟨env, call, cut⟩ :: h) m ∨
        AckCut (crashing.stepAt d ⟨env, call, cut⟩ :: h) m := by
      rintro (⟨r, hr, hacked⟩ | ⟨r, hr, hcut⟩)
      · exact .inl ⟨r, List.mem_cons_of_mem _ hr, hacked⟩
      · exact .inr ⟨r, List.mem_cons_of_mem _ hr, hcut⟩
    cases cut with
    | none =>
      rcases hdrifts.1.archive m hm harchived with hold | hacks
      · exact hkept (hbefore hold)
      · exact .inl ⟨_, List.mem_cons_self, _, rfl, hacks⟩
    | some n =>
      rcases hcut.archive m hm harchived with hold | harchives
      · exact hkept (hbefore hold)
      · exact .inr ⟨_, List.mem_cons_self, rfl, harchives⟩

/-- **After every run that can be recovered from, every message is in the harbour.** -/
theorem harbour_of_run (run : Run crashing Recoverable h d) : Harbour h d := by
  induction run with
  | start =>
    refine ⟨⟨trivial, by simp [given]⟩, ⟨?_, ?_, ?_, ?_, ?_⟩, ?_, ?_, ?_⟩
    · simp [crashing]
    · simp [given]
    · simp [crashing]
    · simp [crashing]
    · simp [given]
    · intro path content hfile
      simp [crashing] at hfile
    · simp [Reported]
    · simp [given]
  | step run ok ih => exact ih.step ok

/-! ### After a cut -/

/-- The sweep finds the message and can move it on. -/
structure Swept (d : Disk) (m : MessageEnvelope) (env : Env) : Prop where
  listed : ∃ attempt, ⟨m.key, m.queue, attempt⟩ ∈ ((getExpiredInflightMessages env).run [] d).1
  delays : ∀ delayMs, ((delayMessage env m.key delayMs).run [] d).1 = .ok ()
  buries : ∀ reason, ((moveToDlq env m.key reason).run [] d).1 = .ok ()

/-- A message in `processing/` is found once its lease has expired. -/
theorem swept (hcat : Catalogued published) (hfaithful : Faithful published d)
    (hm : m ∈ published) {content : JsonText}
    (hfile : d.lookup (filePath m .processing) = some content) {stored : LeaseMeta}
    (hlease : d.lookup (leasePath m) = some (some (stored.toJson m.key)))
    (hqueue : stored.queue = m.queue) (hexpired : stored.leaseUntilMs < env.now) :
    Swept d m env := by
  have hnamed := hcat.named m hm
  have hid : messageIdOf m.key = some m.messageId := by
    rw [hnamed.key, messageIdOf_messageKey (not_mem_of_guid hnamed.guid).1]
  have hstored : d.lease m.key = some stored := by
    rw [Disk.lease, hlease, Option.bind_some, ofJson_toJson]
  have hpath : ∀ dir, queuePath stored.queue dir m.messageId = filePath m dir := fun dir => by
    rw [hqueue, queuePath_of_name hnamed.queue]
  have hreach : Reaches d m.key stored m.messageId content := ⟨hstored, hid, by rw [hpath, hfile]⟩
  obtain ⟨j, attempt, available, rfl, henvelope⟩ := hfaithful.envelope hcat hm hfile
  refine ⟨⟨stored.attempt, ?_⟩, fun delayMs => ?_, fun reason => ?_⟩
  -- The lease file is listed, and its entry is that of the message.
  · have hsat : Sat False (fun _ => True) d (getExpiredInflightMessages env)
        fun l _ => l = (d.leasePaths.filterMap d.lookup).filterMap (expiredInfo env.now) :=
      getExpired_sat trivial rfl
    rw [(hsat.run (.inr rfl) trivial).1]
    refine List.mem_filterMap.mpr ⟨some (stored.toJson m.key),
      List.mem_filterMap.mpr ⟨leasePath m, ?_, hlease⟩, ?_⟩
    · refine List.mem_filter.mpr ⟨?_, rfl⟩
      rw [← AList.mem_keys, ← AList.lookup_isSome, hlease]
      rfl
    · rw [expiredInfo_toJson, if_pos hexpired, hqueue]
  -- `delay_message` finds the lease and the file, with or without a delay to write.
  · have hsat : Sat False (fun _ => True) d (delayMessage env m.key delayMs)
        fun r _ => r = .ok () := by
      refine withLease_sat id trivial ?_ fun hnone => absurd hreach (hnone _ _ _)
      intro stored' id' hstored' hid'
      obtain rfl := Option.some.inj (hstored.symm.trans hstored')
      obtain rfl := Option.some.inj (hid.symm.trans hid')
      dsimp only
      -- No delay: the message goes back to the inbox.
      split
      case isTrue =>
        refine release_sat hstored hid (fun _ _ => ?_) fun hnone => absurd hreach (hnone _ _ _)
        exact ⟨trivial, trivial, rfl⟩
      case isFalse =>
        refine postpone_sat trivial hnamed.no_slash hstored hid ?_
          fun hnone => absurd hreach (hnone _ _ _)
        intro content' hreach'
        obtain rfl := Option.some.inj (hreach.2.2.symm.trans hreach'.2.2)
        obtain ⟨j', hj', -⟩ := henvelope.withAvailableAt (env.now + delayMs)
        exact ⟨j, j', rfl, hj', trivial, trivial, trivial, trivial, trivial, trivial, rfl⟩
    exact (hsat.run (.inr rfl) trivial).1
  -- `move_to_dlq` finds them as well.
  · have hsat : Sat False (fun _ => True) d (moveToDlq env m.key reason)
        fun r _ => r = .ok () := by
      refine withLease_sat id trivial ?_ fun hnone => absurd hreach (hnone _ _ _)
      intro stored' id' hstored' hid'
      obtain rfl := Option.some.inj (hstored.symm.trans hstored')
      obtain rfl := Option.some.inj (hid.symm.trans hid')
      refine rewrite_sat trivial hstored hid ?_ fun hnone => absurd hreach (hnone _ _ _)
      intro content' hreach'
      obtain rfl := Option.some.inj (hreach.2.2.symm.trans hreach'.2.2)
      obtain ⟨j', hj', -⟩ := henvelope.withDlqFields reason env.now
      exact ⟨j, j', rfl, hj', trivial, trivial, trivial, trivial, rfl⟩
    exact (hsat.run (.inr rfl) trivial).1

/-- **Where the messages are after any number of cuts.** -/
theorem recoverable (run : Run crashing Recoverable h d) (hreported : Reported h m)
    (hacked : ¬Acknowledged h m) :
    ∃ dir content envelope, d.lookup (queuePath m.queue dir m.messageId) = some content ∧
      deserializeEnvelope content = some envelope ∧ SameContent m envelope ∧
      (dir = .archive → AckCut h m) ∧
      (dir = .processing → LeaseNames d m ∧
        ∃ leaseUntil, ∀ env, leaseUntil < env.now → Swept d m env) := by
  have hh : Harbour h d := harbour_of_run run
  obtain ⟨hm, dir, hfile⟩ := hh.present m hreported
  obtain ⟨content, hcontent⟩ := Option.ne_none_iff_exists'.mp hfile
  have hcontent' : d.lookup (filePath m dir) = some content := by
    rw [← hcontent, queuePath_of_name (hh.catalogued.named m hm).queue]
  obtain ⟨j, attempt, available, rfl, henvelope⟩ :=
    hh.faithful.envelope hh.catalogued hm hcontent'
  refine ⟨dir, some j, _, hcontent, henvelope.deserialize, ?_, ?_, ?_⟩
  · exact ⟨rfl, rfl, rfl, rfl, rfl, rfl, fun _ => rfl⟩
  · rintro rfl
    exact (hh.archive m hm (by simp [Archived, hcontent'])).resolve_left hacked
  · rintro rfl
    obtain ⟨lease, hlease⟩ := Option.ne_none_iff_exists'.mp
      (hh.afloat.held m hm (by simp [hcontent']))
    obtain ⟨m', hm', hnames, stored, rfl, hqueue⟩ := hh.afloat.leases _ _ hlease
    have hid : m.messageId = m'.messageId :=
      (hh.catalogued.named m hm).safeKey_inj (hh.catalogued.named m' hm') hnames
    obtain rfl := hh.catalogued.well.eq_of_id hm hm' hid
    refine ⟨⟨safeKey m.key, stored.toJson m.key, hlease, rfl, congrArg some hqueue⟩, ?_⟩
    exact ⟨stored.leaseUntilMs, fun env hexpired =>
      swept hh.catalogued hh.faithful hm hcontent' hlease hqueue hexpired⟩

/-- A `nack` that is cut after its rename leaves the message in the inbox, with its lease file. -/
theorem recoverable_nacked :
    let env (now : Int) (h : 0 < now) : Env := { now, now_pos := h, guid := "lease" }
    let m : MessageEnvelope :=
      { key := "msg:q:a1", messageId := "a1", queue := "q", payloadJson := "[1]",
        attributesJson := "[]" }
    let calls := [CutCall.mk (env 1 (Int.succ_ofNat_pos 0)) (.enqueue m) none,
      ⟨env 2 (Int.succ_ofNat_pos 1), .leaseNext "q" "c" 30, none⟩,
      ⟨env 3 (Int.succ_ofNat_pos 2), .nack ⟨"lease", "msg:q:a1", "c", 0⟩ "" true, some 2⟩]
    let h := (crashing.replay calls ([], crashing.start)).1
    let d := (crashing.replay calls ([], crashing.start)).2
    LiesIn d m .inbox ∧ d.lookup (leasePath m) ≠ none ∧
      ∃ dir content envelope, d.lookup (queuePath m.queue dir m.messageId) = some content ∧
        deserializeEnvelope content = some envelope ∧ SameContent m envelope ∧
        (dir = .archive → AckCut h m) ∧
        (dir = .processing → LeaseNames d m ∧
          ∃ leaseUntil, ∀ env, leaseUntil < env.now → Swept d m env) := by
  intro env m calls h d
  let stored := (crashing.replay (calls.take 1) ([], crashing.start)).2
  have hleased : ¬Adrift stored (.leaseNext "q" "c" 30)
      (afterCut stored ⟨env 2 (Int.succ_ofNat_pos 1), .leaseNext "q" "c" 30, none⟩) := by
    intro hadrift
    have hlease := congrArg Option.isSome (hadrift.leases "msg_q_a1")
    revert hlease
    decide
  have run : Run crashing Recoverable h d :=
    run_replay calls ⟨⟨rfl, by decide, by decide, by decide, id, by simp⟩,
      ⟨rfl, by decide, by decide, trivial, hleased, by simp⟩,
      ⟨rfl, by decide, by decide, trivial, id, by simp⟩, trivial⟩
  have hreported : Reported h m := by
    refine ⟨_, List.mem_of_mem_getLast? (l := h) rfl, rfl, _, rfl, by decide⟩
  have hacked : ¬Acknowledged h m := by
    rintro ⟨r, hr, reply, -, lease, hack, -⟩
    have hnone : ∀ r ∈ h, ∀ lease, r.input.call ≠ .ack lease := by simp [h, calls, Machine.replay]
    exact hnone r hr lease hack
  exact ⟨by decide, by decide, @recoverable d m h run hreported hacked⟩

/-- `lease_next` cut after its rename leaves a message in `processing/` that no lease file names,
    and that no sweep lists. -/
theorem cut_before_lease :
    let env (now : Int) (h : 0 < now) : Env := { now, now_pos := h, guid := "lease" }
    let m : MessageEnvelope :=
      { key := "msg:q:a1", messageId := "a1", queue := "q", payloadJson := "[1]",
        attributesJson := "[]" }
    let calls := [CutCall.mk (env 1 (Int.succ_ofNat_pos 0)) (.enqueue m) none,
      ⟨env 2 (Int.succ_ofNat_pos 1), .leaseNext "q" "c" 30, some 3⟩]
    let h := (crashing.replay calls ([], crashing.start)).1
    let d := (crashing.replay calls ([], crashing.start)).2
    Run crashing
        (fun h _ i => i.env.faults = [] ∧ Call.Plain i.call ∧ Call.NulFree i.call ∧
          i.call.Fresh (given h)) h d ∧
      Reported h m ∧ ¬Acknowledged h m ∧
      (∀ dir, LiesIn d m dir → dir = .processing) ∧ ¬LeaseNames d m ∧
      ∀ env, ((getExpiredInflightMessages env).run [] d).1 = [] := by
  intro env m calls h d
  -- The directory holds the message in `processing/` and nothing beside it.
  have hkeys : d.keys = [.message ["q"] .processing "a1"] := by decide
  have hreported : Reported h m :=
    ⟨_, List.mem_of_mem_getLast? (l := h) rfl, rfl, _, rfl, by decide⟩
  have hacked : ¬Acknowledged h m := by
    rintro ⟨r, hr, reply, -, lease, hack, -⟩
    have hnone : ∀ r ∈ h, ∀ lease, r.input.call ≠ .ack lease := by simp [h, calls, Machine.replay]
    exact hnone r hr lease hack
  refine ⟨run_replay calls (by decide), hreported, hacked, ?_, ?_, ?_⟩
  · intro dir hlies
    have hmem : queuePath "q" dir "a1" ∈ d.keys := by
      rw [← AList.mem_keys, ← AList.lookup_isSome, Option.isSome_iff_ne_none]
      exact hlies
    have hname : IsName "q" := by decide
    rw [hkeys, queuePath_of_name hname] at hmem
    simpa using hmem
  · rintro ⟨name, j, hfile, -⟩
    have hmem : Path.leaseMeta name ∈ d.keys := by
      rw [← AList.mem_keys, ← AList.lookup_isSome, hfile]
      rfl
    rw [hkeys] at hmem
    simp at hmem
  · intro env'
    have hsat : Sat False (fun _ => True) d (getExpiredInflightMessages env')
        fun l _ => l = (d.leasePaths.filterMap d.lookup).filterMap (expiredInfo env'.now) :=
      getExpired_sat trivial rfl
    rw [(hsat.run (.inr rfl) trivial).1, Disk.leasePaths, hkeys]
    rfl

end YirangMQ.FileSystem

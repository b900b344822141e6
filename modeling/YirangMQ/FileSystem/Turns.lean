import YirangMQ.FileSystem.Stands

namespace YirangMQ.FileSystem

open Program

/-!
# How the FileSystem operations move messages

* `Revives`, `MovesKey` — the moves of one message, by the file names of its key;
* `Turns` — a call keeps the disk in order, moves every message as the life cycle says, and
  archives exactly the messages it acknowledges;
* `Turns.one`, `Turns.refused` — calls on one message, and calls without effect;
* `program_turns` — **every call without failing primitives turns the disk so.**
-/

variable {exact : Prop} {d d' : Disk} {m m' : MessageEnvelope} {published : List MessageEnvelope}
  {key K id : String} {env : Env} {call : Call} {reply : Reply}

/-! ### Turns -/

/-- `reprocess_dlq_message` reads the queue and the identifier of message `key` off `K`. -/
def Revives (K key : String) : Prop :=
  ∃ queue id, locate key = some (queue, id) ∧ extractQueueFromKey K = queue ∧
    messageIdOf K = some id

/-- The moves of the message of a key. -/
abbrev MovesKey (key : String) (env : Env) (call : Call) (reply : Reply) (d d' : Disk) : Prop :=
  Moves (safeKey · = safeKey key) (Revives · key) key env.now call reply (d.slot key) (d'.slot key)

/-- The message lies in the archive. -/
def Archived (d : Disk) (m : MessageEnvelope) : Prop := d.lookup (filePath m .archive) ≠ none

/-- The call has acknowledged the message. -/
def Acks (call : Call) (reply : Reply) (m : MessageEnvelope) : Prop :=
  ∃ lease, call = .ack lease ∧ safeKey lease.messageKey = safeKey m.key ∧ reply.succeeded = true

/-- What a call does to the disk. -/
structure Turns (exact : Prop) (published : List MessageEnvelope) (env : Env) (call : Call)
    (reply : Reply) (d d' : Disk) : Prop where
  keeps : Keeps exact (call.publishing published) d'
  moves : ∀ key, MovesKey key env call reply d d'
  archive : ∀ m ∈ call.publishing published, Archived d' m ↔ Archived d m ∨ Acks call reply m

/-- The key by which a call addresses a lease file. -/
def Call.leaseKey : Call → Option String
  | .ack lease | .nack lease _ _ | .extendLease lease _ => some lease.messageKey
  | .delayMessage messageKey _ | .moveToDlq messageKey _ => some messageKey
  | _ => none

/-- The call stores no other key than the published one in a lease file or a delay file. -/
def Call.Exact (published : List MessageEnvelope) (env : Env) (d : Disk) : Call → Prop
  | .extendLease lease _ =>
    ∀ stored, d.lease lease.messageKey = some stored → stored.consumerId = lease.consumerId →
      env.now ≤ stored.leaseUntilMs →
      ∀ m ∈ published, safeKey lease.messageKey = safeKey m.key → lease.messageKey = m.key
  | .delayMessage messageKey delayMs =>
    0 < delayMs → ∀ stored id content, Reaches d messageKey stored id content →
      ∀ m ∈ published, safeKey messageKey = safeKey m.key → messageKey = m.key
  | _ => True

/-- Publishing changes the list of messages, and nothing else does. -/
theorem publishing_eq (h : ∀ message, call ≠ .enqueue message) :
    call.publishing published = published := by
  cases call with
  | enqueue message => exact absurd rfl (h message)
  | _ => rfl

/-- A call without effect. -/
theorem Turns.refused (h : Keeps exact published d) (hcall : ∀ message, call ≠ .enqueue message)
    (hfailed : reply.succeeded = false) (hgranted : reply.granted = none) :
    Turns exact published env call reply d d where
  keeps := (publishing_eq hcall).symm ▸ h
  moves _ := .stay (not_owes_of_failed hfailed hgranted _)
  archive m _ := by simp [Acks, hfailed]

/-- A call on the files of one message. -/
theorem Turns.one (h : Keeps exact (call.publishing published) d)
    (hm : m ∈ call.publishing published) (htouch : Touches m d d')
    (htemps : ∀ path, d'.lookup (.temp path) = none) {place : Place} (place' : Place)
    (hplace : Stands exact m d place) (hplace' : Stands exact m d' place')
    (hmove : Moves (safeKey · = safeKey m.key) (Revives · m.key) m.key env.now call reply
      place.slot place'.slot)
    (hidle : ∀ key, key ≠ m.key →
      ¬Owes (safeKey · = safeKey key) (Revives · key) key call reply (d.slot key))
    (harchive : Archived d' m ↔ Archived d m ∨ Acks call reply m)
    (hacks : ∀ lease, call = .ack lease → safeKey lease.messageKey = safeKey m.key) :
    Turns exact published env call reply d d' := by
  obtain ⟨hkeeps, hothers⟩ := h.touch hm htouch htemps hplace'
  have hnamed := h.named m hm
  refine ⟨hkeeps, fun key => ?_, fun m' hm' => ?_⟩
  · by_cases hkey : key = m.key
    · subst hkey
      rw [MovesKey, hplace.slot_eq hnamed, hplace'.slot_eq hnamed]
      exact hmove
    · rw [MovesKey, hothers key hkey]
      exact .stay (hidle key hkey)
  · by_cases hsame : m' = m
    · exact hsame ▸ harchive
    · have hid : m'.messageId ≠ m.messageId := fun hid => hsame (h.well.eq_of_id hm' hm hid)
      obtain ⟨hfile, -⟩ := htouch.other hnamed (h.named m' hm') hid
      have hnot : ¬Acks call reply m' := by
        rintro ⟨lease, hack, hnames, -⟩
        exact hsame (h.eq_of_safeKey hm' hm (hnames.symm.trans (hacks lease hack)))
      rw [Archived, hfile, or_iff_left hnot]
      rfl

/-- A call that addresses one message owes nothing to the others. -/
theorem idle_of_leaseKey (h : Keeps exact published d) (hm : m ∈ published)
    (hkey : Call.leaseKey call = some K) (hnames : safeKey K = safeKey m.key)
    (hgranted : reply.granted = none) :
    ∀ key, key ≠ m.key →
      ¬Owes (safeKey · = safeKey key) (Revives · key) key call reply (d.slot key) := by
  intro key hne howes
  have hsome : ∀ slot, d.slot key = some slot → safeKey K ≠ safeKey key := by
    intro slot hslot heq
    have hthere : d.slot key ≠ none := by simp [hslot]
    obtain ⟨m', hm', rfl⟩ := h.known hthere
    exact hne (by rw [h.eq_of_safeKey hm' hm (heq.symm.trans hnames)])
  generalize hslot : d.slot key = slot at howes
  cases howes with
  | published => cases hkey
  | leased hsome' =>
    rw [hgranted] at hsome'
    cases hsome'
  | acked hnames' => exact hsome _ hslot (Option.some.inj hkey ▸ hnames')
  | nacked hnames' => exact hsome _ hslot (Option.some.inj hkey ▸ hnames')
  | delayed hnames' => exact hsome _ hslot (Option.some.inj hkey ▸ hnames')
  | dead hnames' => exact hsome _ hslot (Option.some.inj hkey ▸ hnames')
  | revived => cases hkey

/-! ### Disks after an operation -/

/-- A message file that leaves `processing/` is the only one of its message afterwards. -/
theorem only_released {dir : SubDir} {j j' : Json String} (hfile : Only d m .processing j) :
    Only (released K (filePath m .processing) (filePath m dir) (some j') d) m dir j' := by
  intro dir'
  rw [lookup_released, hfile dir']
  by_cases hdest : dir' = dir
  · simp [hdest]
  · simp [hdest]

/-- A message file that is written in place is still the only one. -/
theorem only_written {dir : SubDir} {j j' : Json String} (hfile : Only d m dir j) :
    Only (written (filePath m dir) (some j') d) m dir j' := by
  intro dir'
  rw [lookup_written, hfile dir']
  by_cases hdest : dir' = dir
  · simp [hdest]
  · simp [hdest]

/-- A message file that is renamed is the only one in its new directory. -/
theorem only_renamed {src dest : SubDir} {j j' : Json String} (hfile : Only d m src j) :
    Only (Files.renamed (filePath m src) (filePath m dest) (some j') d) m dest j' := by
  intro dir'
  rw [Files.lookup_renamed, hfile dir']
  by_cases hdest : dir' = dest
  · simp [hdest]
  · simp [hdest]

/-- No temporary files are left. -/
def NoTemps (d : Disk) : Prop := ∀ path, d.lookup (.temp path) = none

/-- Writing a file leaves no temporary file behind. -/
theorem NoTemps.written (h : NoTemps d) {path : Path} (content : JsonText)
    (hpath : ∀ p, path ≠ .temp p) : NoTemps (written path content d) := by
  intro p
  rw [lookup_written, if_neg (hpath p).symm, h p]
  split <;> rfl

/-- Renaming to a file of another kind leaves no temporary file. -/
theorem NoTemps.renamed (h : NoTemps d) {src dest : Path} (content : JsonText)
    (hdest : ∀ p, dest ≠ .temp p) : NoTemps (Files.renamed src dest content d) := by
  intro p
  rw [Files.lookup_renamed, if_neg (hdest p).symm, h p]
  split <;> rfl

/-- Removing a file leaves no temporary file. -/
theorem NoTemps.erase (h : NoTemps d) (path : Path) : NoTemps (d.erase path) := by
  intro p
  rw [Files.lookup_erase', h p]
  split <;> rfl

/-- A file that leaves `processing/` leaves no temporary file. -/
theorem NoTemps.released (h : NoTemps d) {src dest : Path} (content : JsonText)
    (hdest : ∀ p, dest ≠ .temp p) : NoTemps (released K src dest content d) :=
  (h.renamed content hdest).erase _

/-- A file that leaves `processing/` touches what concerns its message only. -/
theorem touches_released {src dest : Path} (hsrc : src.concerns m) (hdest : dest.concerns m)
    (hK : safeKey K = safeKey m.key) (content : JsonText) :
    Touches m d (released K src dest content d) :=
  have hlease : Path.concerns m (.leaseMeta (safeKey K)) := hK
  (touches_renamed hsrc hdest content).trans (touches_erase hlease)

/-- The only file says whether the message is archived. -/
theorem Only.archived_iff {dir : SubDir} {j : Json String} (hfile : Only d m dir j) :
    Archived d m ↔ dir = .archive := by
  rw [Archived, hfile .archive]
  by_cases hdir : SubDir.archive = dir
  · simp [hdir]
  · simp [hdir, Ne.symm hdir]

/-! ### Messages in `processing/` -/

/-- The files of a message whose lease a key names. -/
structure Held (exact : Prop) (m : MessageEnvelope) (d : Disk) (K : String) (stored : LeaseMeta)
    (j : Json String) : Prop where
  names : safeKey K = safeKey m.key
  queue : stored.queue = m.queue
  file : Only d m .processing j
  envelope : ∃ available, IsEnvelope m j stored.attempt available
  stands : Stands exact m d (.found
    ⟨m.queue, m.targetConsumerId, stored.attempt, .inflight stored.leaseUntilMs⟩)
  note : d.lookup (notePath m) = none

/-- A key with a lease names a message in `processing/`. -/
theorem Keeps.held (h : Keeps exact published d) {stored : LeaseMeta}
    (hlease : d.lease K = some stored) :
    ∃ m ∈ published, ∃ j, Held exact m d K stored j := by
  have hne : d.lookup (.leaseMeta (safeKey K)) ≠ none := by
    intro hnone
    simp [Disk.lease, hnone] at hlease
  obtain ⟨m, hm, hnames⟩ := h.leases _ hne
  obtain ⟨place, hplace⟩ := h.stands m hm
  have hstands := hplace
  rw [hnames] at hne
  cases hplace with
  | absent _ hnone => exact absurd hnone hne
  | archived _ hnone => exact absurd hnone hne
  | stranded _ _ hnone => exact absurd hnone hne
  | waits _ _ _ hnone => exact absurd hnone hne
  | leased hfile henvelope hstored hkey hexact hqueue hnote =>
    rw [Disk.lease, hnames, hstored, Option.bind_some, ofJson_toJson, Option.some.injEq] at hlease
    subst hlease
    exact ⟨m, hm, _, hnames, hqueue, hfile, ⟨_, henvelope⟩, hstands, hnote⟩

/-- The files of a held lease are those of its message. -/
theorem Held.path (h : Held exact m d K stored j) (hm : Named m) (dir : SubDir) (id : String) :
    queuePath stored.queue dir id = .message [m.queue] dir id := by
  rw [h.queue, queuePath_of_name hm.queue]

/-- A key that reaches a file reaches that of the message it names. -/
theorem Keeps.reached (h : Keeps exact published d) {stored : LeaseMeta} {content : JsonText}
    (hreach : Reaches d K stored id content) :
    ∃ m ∈ published, id = m.messageId ∧ ∃ j, content = some j ∧ Held exact m d K stored j := by
  obtain ⟨hlease, hid, hfile⟩ := hreach
  obtain ⟨m, hm, j, hheld⟩ := h.held hlease
  have hnamed := h.named m hm
  rw [hheld.path hnamed] at hfile
  -- the file is one of a published message, so the identifier has no underscore
  obtain ⟨m', hm', -, hid'⟩ := h.files _ _ _ (by rw [hfile]; simp)
  have hguid : '_' ∉ id.toList := hid' ▸ (not_mem_of_guid (h.named m' hm').guid).2
  have hsafe := hheld.names
  rw [hnamed.key] at hsafe
  obtain rfl : id = m.messageId :=
    messageIdOf_of_safeKey (not_mem_of_guid hnamed.guid).symm hid hguid hsafe
  refine ⟨m, hm, rfl, j, ?_, hheld⟩
  have hcontent := hheld.file .processing
  rw [if_pos rfl, hfile, Option.some.injEq] at hcontent
  exact hcontent

/-! ### Leaving `processing/` -/

/-- Moving a message out of `processing/` with a document, where no note is needed. -/
theorem Keeps.leave (h : Keeps exact published d) (hm : m ∈ published) {stored : LeaseMeta}
    {j j' : Json String} (hheld : Held exact m d K stored j) {dir : SubDir}
    {d₀ : Disk} (hd₀ : d₀ = d ∨
      d₀ = written (filePath m .processing) (some j') d) (hsame : d₀ = d → j' = j)
    (hkey : Call.leaseKey call = some K) (hcall : ∀ message, call ≠ .enqueue message)
    (hgranted : reply.granted = none) (place' : Place)
    (hplace' : Only (released K (filePath m .processing) (filePath m dir) (some j') d₀) m dir j' →
      (released K (filePath m .processing) (filePath m dir) (some j') d₀).lookup (leasePath m)
        = none →
      (released K (filePath m .processing) (filePath m dir) (some j') d₀).lookup (notePath m)
        = none →
      Stands exact m (released K (filePath m .processing) (filePath m dir) (some j') d₀) place')
    (hmove : Moves (safeKey · = safeKey m.key) (Revives · m.key) m.key env.now call reply
      (some ⟨m.queue, m.targetConsumerId, stored.attempt, .inflight stored.leaseUntilMs⟩)
      place'.slot)
    (harchive : dir = .archive ↔ Acks call reply m) :
    Turns exact published env call reply d
      (released K (filePath m .processing) (filePath m dir) (some j') d₀) := by
  have hnamed := h.named m hm
  have hsrc : Path.concerns m (filePath m .processing) := ⟨rfl, rfl⟩
  have hdest : Path.concerns m (filePath m dir) := ⟨rfl, rfl⟩
  -- Before the move the file may have been edited in place, which changes no other file.
  have htouch₀ : Touches m d d₀ := by
    rcases hd₀ with rfl | rfl
    · exact .refl m d₀
    · exact touches_written hsrc _
  have hfile₀ : Only d₀ m .processing j' := by
    rcases hd₀ with rfl | rfl
    · exact hsame rfl ▸ hheld.file
    · exact only_written hheld.file
  have htemps₀ : NoTemps d₀ := by
    rcases hd₀ with rfl | rfl
    · exact h.temps
    · exact NoTemps.written h.temps _ (by simp)
  have hnote₀ : d₀.lookup (notePath m) = none := by
    rcases hd₀ with rfl | rfl
    · exact hheld.note
    · rw [lookup_written]
      simp [hheld.note]
  -- The file is moved and the lease file deleted.
  have hfile : Only (released K (filePath m .processing) (filePath m dir) (some j') d₀) m dir j' :=
    only_released hfile₀
  have hpublishing : call.publishing published = published := publishing_eq hcall
  refine Turns.one (hpublishing.symm ▸ h) (hpublishing.symm ▸ hm)
    (htouch₀.trans (touches_released hsrc hdest hheld.names _))
    (htemps₀.released _ (by simp)) place' hheld.stands (hplace' hfile ?_ ?_) hmove
    (idle_of_leaseKey h hm hkey hheld.names hgranted) ?_ ?_
  · rw [lookup_released, if_pos (by rw [hheld.names])]
  · rw [lookup_released]
    simp [hnote₀]
  · rw [hfile.archived_iff, hheld.file.archived_iff, harchive]
    simp
  · rintro lease rfl
    exact Option.some.inj hkey ▸ hheld.names

/-- A message of `processing/` that goes to another directory waits there. -/
theorem Held.waits {stored : LeaseMeta} {j' : Json String} {available : Int} {dir : SubDir}
    {phase : Phase} (henvelope : IsEnvelope m j' stored.attempt available)
    (hphase : waiting dir available = some phase) (hdir : dir ≠ .delayed)
    (hfile : Only d m dir j') (hlease : d.lookup (leasePath m) = none)
    (hnote : d.lookup (notePath m) = none) :
    Stands exact m d (.found ⟨m.queue, m.targetConsumerId, stored.attempt, phase⟩) :=
  .waits hphase hfile henvelope hlease (by rwa [Noted, if_neg hdir])

/-- An `ack` takes the message away, or turns nothing. -/
theorem ack_turns (h : Keeps exact published d) (lease : LeaseToken) :
    Sat False (fun _ => True) d (ack env lease)
      fun r d' => Turns exact published env (.ack lease) (.status r) d d' := by
  refine ack_sat trivial ?_ fun _ e => Turns.refused h (by simp) rfl rfl
  intro stored id content hreach _ _
  obtain ⟨m, hm, rfl, j, rfl, hheld⟩ := h.reached hreach
  simp only [hheld.path (h.named m hm)]
  refine ⟨trivial, trivial, ?_⟩
  refine h.leave hm hheld (.inl rfl) (fun _ => rfl) rfl (by simp) rfl .archived ?_ ?_ ?_
  · exact .archived
  · exact .ack hheld.names rfl
  · simp [Acks, hheld.names, Reply.succeeded]

/-- `nack` with requeue, and `delay_message` without delay. -/
theorem requeue_turns (h : Keeps exact published d) (hkey : Call.leaseKey call = some K)
    (hcall : ∀ message, call ≠ .enqueue message) (hack : ∀ lease, call ≠ .ack lease)
    (hmove : ∀ m ∈ published, ∀ stored : LeaseMeta, safeKey K = safeKey m.key →
      Moves (safeKey · = safeKey m.key) (Revives · m.key) m.key env.now call (.status (.ok ()))
        (some ⟨m.queue, m.targetConsumerId, stored.attempt, .inflight stored.leaseUntilMs⟩)
        (some ⟨m.queue, m.targetConsumerId, stored.attempt, .ready⟩))
    {stored : LeaseMeta} (hstored : d.lease K = some stored) (hid : messageIdOf K = some id) :
    Sat False (fun _ => True) d
      (leaveProcessing K (queuePath stored.queue .processing id) (queuePath stored.queue .inbox id))
      fun r d' => Turns exact published env call (.status r) d d' := by
  refine release_sat hstored hid ?_ fun _ e => Turns.refused h hcall rfl rfl
  intro content hreach
  obtain ⟨m, hm, rfl, j, rfl, hheld⟩ := h.reached hreach
  simp only [hheld.path (h.named m hm)]
  refine ⟨trivial, trivial, ?_⟩
  obtain ⟨available, henvelope⟩ := hheld.envelope
  refine h.leave hm hheld (.inl rfl) (fun _ => rfl) hkey hcall rfl
    (.found ⟨m.queue, m.targetConsumerId, stored.attempt, .ready⟩) ?_ ?_ ?_
  · exact Held.waits henvelope rfl (by simp)
  · exact hmove m hm stored hheld.names
  · simp [Acks, hack]

/-- `nack` without requeue, and `move_to_dlq`. -/
theorem bury_turns (h : Keeps exact published d) (hkey : Call.leaseKey call = some K)
    (hcall : ∀ message, call ≠ .enqueue message) (hack : ∀ lease, call ≠ .ack lease)
    (hmove : ∀ m ∈ published, ∀ stored : LeaseMeta, safeKey K = safeKey m.key →
      Moves (safeKey · = safeKey m.key) (Revives · m.key) m.key env.now call (.status (.ok ()))
        (some ⟨m.queue, m.targetConsumerId, stored.attempt, .inflight stored.leaseUntilMs⟩)
        (some ⟨m.queue, m.targetConsumerId, stored.attempt, .dlq⟩))
    {stored : LeaseMeta} (hstored : d.lease K = some stored) (hid : messageIdOf K = some id)
    (reason : String) :
    Sat False (fun _ => True) d (do
      editFile (queuePath stored.queue .processing id) (withDlqFields reason env.now)
      leaveProcessing K (queuePath stored.queue .processing id) (queuePath stored.queue .dlq id))
      fun r d' => Turns exact published env call (.status r) d d' := by
  refine rewrite_sat trivial hstored hid ?_ fun _ e => Turns.refused h hcall rfl rfl
  intro content hreach
  obtain ⟨m, hm, rfl, j, rfl, hheld⟩ := h.reached hreach
  obtain ⟨available, henvelope⟩ := hheld.envelope
  obtain ⟨j', hj', henvelope'⟩ := henvelope.withDlqFields reason env.now
  refine ⟨j, j', rfl, hj', ?_⟩
  simp only [hheld.path (h.named m hm)]
  refine ⟨trivial, trivial, trivial, trivial, ?_⟩
  refine h.leave hm hheld (.inr rfl) ?_ hkey hcall rfl
    (.found ⟨m.queue, m.targetConsumerId, stored.attempt, .dlq⟩) ?_ ?_ ?_
  · intro hsame
    have hlookup := congrArg (AList.lookup (filePath m .processing)) hsame
    rw [lookup_written, if_pos rfl, hheld.file, if_pos rfl, Option.some.injEq,
      Option.some.injEq] at hlookup
    exact hlookup
  · exact Held.waits henvelope' rfl (by simp)
  · exact hmove m hm stored hheld.names
  · simp [Acks, hack]

/-- A `nack` turns an inflight message to ready or to a dead letter. -/
theorem nack_turns (h : Keeps exact published d) (lease : LeaseToken) (reason : String)
    (requeue : Bool) :
    Sat False (fun _ => True) d (nack env lease reason requeue)
      fun r d' => Turns exact published env (.nack lease reason requeue) (.status r) d d' := by
  refine withLease_sat ("lease not found: " ++ ·) trivial ?_ fun _ e => Turns.refused h (by simp) rfl rfl
  intro stored id hstored hid
  cases requeue with
  | true =>
    exact requeue_turns h rfl (by simp) (by simp)
      (fun m _ stored hnames => .requeue hnames rfl rfl) hstored hid
  | false =>
    exact bury_turns h rfl (by simp) (by simp)
      (fun m _ stored hnames => .bury hnames rfl rfl) hstored hid reason

/-- `move_to_dlq` turns an inflight message to a dead letter. -/
theorem moveToDlq_turns (h : Keeps exact published d) (key reason : String) :
    Sat False (fun _ => True) d (moveToDlq env key reason)
      fun r d' => Turns exact published env (.moveToDlq key reason) (.status r) d d' := by
  refine withLease_sat id trivial ?_ fun _ e => Turns.refused h (by simp) rfl rfl
  intro stored id hstored hid
  exact bury_turns h rfl (by simp) (by simp) (fun m _ stored hnames => .dead hnames rfl) hstored hid
    reason

/-! ### Writing lease files -/

/-- A message whose lease file is written again under the same file name. -/
theorem Held.extended {stored : LeaseMeta} {j : Json String} (hheld : Held exact m d K stored j)
    (hkey : exact → K = m.key) (leaseUntil : Int) :
    Stands exact m
      (written (leasePath m) (some (LeaseMeta.toJson { stored with leaseUntilMs := leaseUntil } K)) d)
      (.found ⟨m.queue, m.targetConsumerId, stored.attempt, .inflight leaseUntil⟩) := by
  obtain ⟨available, henvelope⟩ := hheld.envelope
  let next : LeaseMeta := { stored with leaseUntilMs := leaseUntil }
  have hnext : IsEnvelope m j next.attempt available := henvelope
  refine .leased ?_ hnext ?_ hheld.names hkey hheld.queue ?_
  · intro dir
    rw [lookup_written, hheld.file dir]
    simp
  · rw [lookup_written, if_pos rfl]
  · rw [lookup_written]
    simp [hheld.note]

/-- `extend_lease` turns the end of a running lease. -/
theorem extendLease_turns (h : Keeps exact published d) {lease : LeaseToken} {timeout : Int}
    (hname : '/' ∉ lease.messageKey.toList)
    (hexact : exact → Call.Exact published env d (.extendLease lease timeout)) :
    Sat False (fun _ => True) d (extendLease env lease timeout)
      fun r d' => Turns exact published env (.extendLease lease timeout) (.status r) d d' := by
  refine extendLease_sat trivial hname ?_ fun _ e => Turns.refused h (by simp) rfl rfl
  intro stored hstored hconsumer hlive
  obtain ⟨m, hm, j, hheld⟩ := h.held hstored
  have hkey : exact → lease.messageKey = m.key := fun hx =>
    hexact hx stored hstored hconsumer hlive m hm hheld.names
  refine ⟨trivial, trivial, ?_⟩
  have hpath : Path.leaseMeta (safeKey lease.messageKey) = leasePath m := by rw [hheld.names]
  rw [hpath]
  have hconcerns : Path.concerns m (leasePath m) := rfl
  refine Turns.one h hm (touches_written hconcerns _) (NoTemps.written h.temps _ (by simp))
    (.found ⟨m.queue, m.targetConsumerId, stored.attempt, .inflight (env.now + timeout * 1000)⟩)
    hheld.stands (hheld.extended hkey _) ?_ (idle_of_leaseKey h hm rfl hheld.names rfl) ?_ (by simp)
  · exact .extend hheld.names rfl rfl
  · have hsame : ∀ content, Archived (written (leasePath m) content d) m ↔ Archived d m := by
      intro content
      rw [Archived, Archived, lookup_written]
      simp
    simp [Acks, hsame]

/-- The message of a file that waits in a directory of its queue. -/
theorem Keeps.waiting (h : Keeps exact published d) {location : Directory} {dir : SubDir}
    {content : JsonText} (hdir : dir ≠ .processing ∧ dir ≠ .archive)
    (hfile : d.lookup (.message location dir id) = some content) :
    ∃ m ∈ published, location = [m.queue] ∧ id = m.messageId ∧ ∃ j attempt available phase,
      content = some j ∧ waiting dir available = some phase ∧ Only d m dir j ∧
      IsEnvelope m j attempt available ∧ d.lookup (leasePath m) = none ∧ Noted exact d m dir ∧
      Stands exact m d (.found ⟨m.queue, m.targetConsumerId, attempt, phase⟩) := by
  obtain ⟨m, hm, rfl, rfl⟩ := h.files _ _ _ (by rw [hfile]; simp)
  obtain ⟨place, hplace⟩ := h.stands m hm
  have hstands := hplace
  have honly : ∀ {dir' j}, Only d m dir' j → dir = dir' ∧ content = some j := by
    intro dir' j honly
    have hthis := honly dir
    rw [hfile] at hthis
    by_cases hsame : dir = dir'
    · rw [if_pos hsame, Option.some.injEq] at hthis
      exact ⟨hsame, hthis⟩
    · rw [if_neg hsame] at hthis
      cases hthis
  cases hplace with
  | absent hnone => exact absurd (hnone dir) (by rw [hfile]; simp)
  | archived honly' => exact absurd (honly honly').1 hdir.2
  | stranded _ honly' => exact absurd (honly honly').1 hdir.1
  | leased honly' => exact absurd (honly honly').1 hdir.1
  | waits hphase honly' henvelope hlease hnote =>
    obtain ⟨rfl, rfl⟩ := honly honly'
    exact ⟨m, hm, rfl, rfl, _, _, _, _, rfl, hphase, honly', henvelope, hlease, hnote, hstands⟩

/-- The inbox file that a match was found in. -/
theorem Keeps.matched (h : Keeps exact published d) {queue : String} (hqueue : IsName queue)
    {content : JsonText} {envelope : MessageEnvelope}
    (hfile : d.lookup (queuePath queue .inbox id) = some content)
    (hparse : deserializeEnvelope content = some envelope) :
    ∃ m ∈ published, queue = m.queue ∧ id = m.messageId ∧ ∃ j attempt available,
      content = some j ∧ Only d m .inbox j ∧ IsEnvelope m j attempt available ∧
      envelope = { m with attempt, availableAtMs := available } ∧
      d.lookup (leasePath m) = none ∧ d.lookup (notePath m) = none ∧
      Stands exact m d (.found ⟨m.queue, m.targetConsumerId, attempt, .ready⟩) := by
  rw [queuePath_of_name hqueue] at hfile
  obtain ⟨m, hm, hlocation, rfl, j, attempt, available, phase, rfl, hphase, honly, henvelope,
    hlease, hnote, hstands⟩ := h.waiting (by simp) hfile
  obtain rfl : queue = m.queue := by simpa using hlocation
  obtain rfl := Option.some.inj hphase
  rw [henvelope.deserialize, Option.some.injEq] at hparse
  rw [Noted, if_neg (by simp)] at hnote
  exact ⟨m, hm, rfl, rfl, j, attempt, available, rfl, honly, henvelope, hparse.symm, hlease, hnote,
    hstands⟩

/-- `lease_next` turns a ready message to inflight. -/
theorem leaseNext_turns (h : Keeps exact published d) {queue c : String} {timeout : Int}
    (hqueue : IsName queue) :
    Sat False (fun _ => True) d (leaseNext env queue c timeout)
      fun r d' => Turns exact published env (.leaseNext queue c timeout) (.lease r) d d' := by
  -- A name read from the inbox is that of a published message, and so is its key.
  refine leaseNext_sat trivial ?_ ?_ fun _ => Turns.refused h (by simp) rfl rfl
  · intro id envelope henvelope
    obtain ⟨content, hfile, hparse⟩ := Option.bind_eq_some_iff.mp henvelope
    obtain ⟨m, hm, -, -, j, attempt, available, -, -, -, rfl, -⟩ := h.matched hqueue hfile hparse
    exact (h.named m hm).no_slash
  · intro id content envelope _ hfile hparse heligible _
    obtain ⟨m, hm, rfl, rfl, j, attempt, available, rfl, honly, henvelope, rfl, hlease, hnote,
      hstands⟩ := h.matched hqueue hfile hparse
    simp only [queuePath_of_name hqueue]
    refine ⟨trivial, trivial, trivial, trivial, trivial, ?_⟩
    have hsrc : Path.concerns m (filePath m .inbox) := ⟨rfl, rfl⟩
    have hdest : Path.concerns m (filePath m .processing) := ⟨rfl, rfl⟩
    have hmoved : Only (Files.renamed (filePath m .inbox) (filePath m .processing) (some j) d) m
        .processing j := only_renamed honly
    -- The message was ready and is held by the consumer now: three writes, all about this message.
    have hleasePath : Path.concerns m (leasePath m) := rfl
    refine Turns.one h hm (((touches_renamed hsrc hdest _).trans
      (touches_written hleasePath _)).trans (touches_written hdest _))
      (NoTemps.written (NoTemps.written (NoTemps.renamed h.temps _ (by simp)) _ (by simp)) _
        (by simp))
      (.found ⟨m.queue, m.targetConsumerId, attempt + 1, .inflight (env.now + timeout * 1000)⟩)
      hstands ?_ ?_ ?_ ?_ (by simp)
    -- The lease written is that of the message leased, with one attempt more.
    · let next : LeaseMeta := ⟨c, env.guid, env.now + timeout * 1000, attempt + 1, m.queue⟩
      have hnext : IsEnvelope m (serializeEnvelope { m with
          attempt := attempt + 1, availableAtMs := available }) next.attempt available :=
        IsEnvelope.serialize m (attempt + 1) available
      refine .leased (K := m.key) ?_ hnext ?_ rfl (fun _ => rfl) rfl ?_
      · intro dir
        rw [lookup_written, lookup_written, hmoved dir]
        by_cases hdir : dir = .processing
        · simp [hdir]
        · simp [hdir]
      · rw [lookup_written, lookup_written]
        simp [leaseOf, next]
      · rw [lookup_written, lookup_written, Files.lookup_renamed]
        simp [hnote]
    · have hgranted : (Reply.lease (leaseReply env c timeout
          { m with attempt, availableAtMs := available })).granted =
          some ({ m with attempt := attempt + 1, availableAtMs := available },
            ⟨env.guid, m.key, c, env.now + timeout * 1000⟩) := rfl
      exact .lease hgranted rfl rfl rfl rfl rfl rfl heligible rfl
    · intro key hne howes
      cases howes with
      | leased hgranted hkey =>
        simp only [leaseReply, Reply.granted, Option.some.injEq, Prod.mk.injEq] at hgranted
        obtain ⟨rfl, -⟩ := hgranted
        exact hne hkey.symm
    -- The message was in the inbox and is in `processing/`, so it is in the archive neither before
    -- nor after.
    · have hnot : ∀ d', Only d' m .processing
          (serializeEnvelope { m with attempt := attempt + 1, availableAtMs := available }) →
          ¬Archived d' m := by
        intro d' hd'
        rw [hd'.archived_iff]
        simp
      rw [honly.archived_iff]
      simp only [reduceCtorEq, Acks, false_and, exists_false, or_self, iff_false]
      refine hnot _ fun dir => ?_
      rw [lookup_written, lookup_written, hmoved dir]
      by_cases hdir : dir = .processing
      · simp [hdir]
      · simp [hdir]

/-! ### Delays -/

/-- `delay_message` turns an inflight message to delayed, or to ready. -/
theorem delayMessage_turns (h : Keeps exact published d) {delayMs : Int}
    (hname : '/' ∉ K.toList)
    (hexact : exact → Call.Exact published env d (.delayMessage K delayMs)) :
    Sat False (fun _ => True) d (delayMessage env K delayMs)
      fun r d' => Turns exact published env (.delayMessage K delayMs) (.status r) d d' := by
  refine withLease_sat id trivial ?_ fun _ e => Turns.refused h (by simp) rfl rfl
  intro stored id hstored hid
  dsimp only
  split
  -- No delay: the message is requeued at once.
  case isTrue hnow =>
    exact requeue_turns h rfl (by simp) (by simp)
      (fun m _ stored hnames => .delay hnames rfl (.inr ⟨hnow, rfl⟩)) hstored hid
  case isFalse hlater =>
    refine postpone_sat trivial hname hstored hid ?_ fun _ e => Turns.refused h (by simp) rfl rfl
    intro content hreach
    obtain ⟨m, hm, rfl, j, rfl, hheld⟩ := h.reached hreach
    -- The note names the message itself where the call is exact.
    have hkey : exact → K = m.key := fun hx =>
      hexact hx (Int.not_le.mp hlater) stored _ _ hreach m hm hheld.names
    obtain ⟨available, henvelope⟩ := hheld.envelope
    obtain ⟨j', hj', henvelope'⟩ := henvelope.withAvailableAt (env.now + delayMs)
    refine ⟨j, j', rfl, hj', ?_⟩
    simp only [hheld.path (h.named m hm)]
    refine ⟨trivial, trivial, trivial, trivial, trivial, trivial, ?_⟩
    -- The edit, the move, the note and the deletion of the lease, all about this message.
    have hsrc : Path.concerns m (filePath m .processing) := ⟨rfl, rfl⟩
    have hdest : Path.concerns m (filePath m .delayed) := ⟨rfl, rfl⟩
    have hnote : Path.concerns m (.delayedMeta (safeKey K)) := hheld.names
    have hlease : Path.concerns m (.leaseMeta (safeKey K)) := hheld.names
    have hmoved : Only (Files.renamed (filePath m .processing) (filePath m .delayed) (some j')
        (written (filePath m .processing) (some j') d)) m .delayed j' :=
      only_renamed (only_written hheld.file)
    have htemps : NoTemps (Files.renamed (filePath m .processing) (filePath m .delayed) (some j')
        (written (filePath m .processing) (some j') d)) :=
      (NoTemps.written h.temps _ (by simp)).renamed _ (by simp)
    have hfile : Only ((written (.delayedMeta (safeKey K))
        (some (DelayedMeta.mk K stored.queue (env.now + delayMs) stored.attempt).toJson)
        (Files.renamed (filePath m .processing) (filePath m .delayed) (some j')
          (written (filePath m .processing) (some j') d))).erase (.leaseMeta (safeKey K)))
        m .delayed j' := by
      intro dir
      rw [Files.lookup_erase', lookup_written, hmoved dir]
      simp
    refine Turns.one h hm ((((touches_written hsrc _).trans (touches_renamed hsrc hdest _)).trans
      (touches_written hnote _)).trans (touches_erase hlease))
      ((htemps.written _ (by simp)).erase _)
      (.found ⟨m.queue, m.targetConsumerId, stored.attempt, .delayed (env.now + delayMs)⟩)
      hheld.stands ?_ ?_ (idle_of_leaseKey h hm rfl hheld.names rfl) ?_ (by simp)
    · refine .waits rfl hfile henvelope' ?_ ?_
      · rw [Files.lookup_erase', if_pos (by rw [hheld.names])]
      · rw [Noted, if_pos rfl]
        refine ⟨⟨K, stored.queue, env.now + delayMs, stored.attempt⟩, ?_, hheld.queue, hkey⟩
        rw [Files.lookup_erase', lookup_written]
        simp [hheld.names]
    · exact .delay hheld.names rfl (.inl rfl)
    · rw [hfile.archived_iff, hheld.file.archived_iff]
      simp [Acks]

/-! ### Publishing -/

/-- A message that stands nowhere has no files. -/
theorem Stands.no_files (h : Stands exact m d .absent) :
    (∀ dir, d.lookup (filePath m dir) = none) ∧ d.lookup (leasePath m) = none ∧
    d.lookup (notePath m) = none := by
  cases h with
  | absent hfile hlease hnote => exact ⟨hfile, hlease, hnote⟩

/-- A fresh message has no files. -/
theorem Keeps.publish (h : Keeps exact published d) (hfresh : (Call.enqueue m).Fresh published)
    (hqueue : IsName m.queue) (hid : m.messageId ≠ "") :
    Keeps exact (m :: published) d ∧ Stands exact m d .absent := by
  have hnamed : Named m := ⟨hfresh.1, hfresh.2.2.1, hqueue, hid⟩
  have hnew : ∀ m' ∈ published, m.messageId ≠ m'.messageId := by
    intro m' hm' heq
    exact hfresh.2.2.2 (List.mem_map.mpr ⟨m', hm', heq.symm⟩)
  -- An identifier that was never published is in no path.
  have hstands : Stands exact m d .absent := by
    refine .absent (fun dir => ?_) ?_ ?_
    · by_contra hfile
      obtain ⟨m', hm', -, hsame⟩ := h.files _ _ _ hfile
      exact hnew m' hm' hsame
    · by_contra hlease
      obtain ⟨m', hm', hsame⟩ := h.leases _ hlease
      exact hnew m' hm' (hnamed.safeKey_inj (h.named m' hm') hsame)
    · by_contra hnote
      obtain ⟨m', hm', hsame⟩ := h.notes _ hnote
      exact hnew m' hm' (hnamed.safeKey_inj (h.named m' hm') hsame)
  refine ⟨⟨⟨hfresh, h.well⟩, ?_, ?_, ?_, ?_, ?_, h.temps⟩, hstands⟩
  · intro m' hm'
    rcases List.mem_cons.mp hm' with rfl | hm'
    · exact hnamed
    · exact h.named m' hm'
  · intro m' hm'
    rcases List.mem_cons.mp hm' with rfl | hm'
    · exact ⟨_, hstands⟩
    · exact h.stands m' hm'
  · intro location dir id hfile
    obtain ⟨m', hm', hsame⟩ := h.files location dir id hfile
    exact ⟨m', List.mem_cons_of_mem _ hm', hsame⟩
  · intro name hlease
    obtain ⟨m', hm', hsame⟩ := h.leases name hlease
    exact ⟨m', List.mem_cons_of_mem _ hm', hsame⟩
  · intro name hnote
    obtain ⟨m', hm', hsame⟩ := h.notes name hnote
    exact ⟨m', List.mem_cons_of_mem _ hm', hsame⟩

/-- `enqueue` turns a new message to ready or delayed. -/
theorem enqueue_turns (h : Keeps exact published d) (hfresh : (Call.enqueue m).Fresh published)
    (hqueue : IsName m.queue) (hid : m.messageId ≠ "") :
    Sat False (fun _ => True) d (enqueue env m)
      fun r d' => Turns exact published env (.enqueue m) (.status r) d d' := by
  obtain ⟨hkeeps, hstands⟩ := h.publish hfresh hqueue hid
  have hnamed : Named m := hkeeps.named m List.mem_cons_self
  -- A fresh key owes nothing, and every other key keeps its slot.
  have hidle : ∀ key, key ≠ m.key → ¬Owes (safeKey · = safeKey key) (Revives · key) key
      (.enqueue m) (.status (.ok ())) (d.slot key) := by
    intro key hne howes
    cases howes with
    | published hkey => exact hne hkey.symm
    | leased hgranted => cases hgranted
  have hmove : Moves (safeKey · = safeKey m.key) (Revives · m.key) m.key env.now (.enqueue m)
      (.status (.ok ())) none (some (m.slot env.now)) := .publish rfl rfl
  obtain ⟨hnone, hlease, hnote⟩ := hstands.no_files
  have habsent : ¬Archived d m := fun harchived => harchived (hnone .archive)
  have henvelope : IsEnvelope m (serializeEnvelope m) m.attempt m.availableAtMs :=
    IsEnvelope.serialize m m.attempt m.availableAtMs
  have hnotePath : Path.concerns m (notePath m) := rfl
  -- A later time puts the message into `delayed/`, with a note.
  by_cases hlater : env.now < m.availableAtMs
  · refine enqueue_sat_delayed trivial hlater hnamed.no_slash ?_
    simp only [queuePath_of_name hqueue]
    refine ⟨trivial, trivial, trivial, trivial, ?_⟩
    have hpath : Path.concerns m (filePath m .delayed) := ⟨rfl, rfl⟩
    have hfile : Only (written (filePath m .delayed) (some (serializeEnvelope m))
        (written (notePath m) (some (delayedOf m).toJson) d)) m .delayed (serializeEnvelope m) := by
      intro dir
      rw [lookup_written, lookup_written, hnone dir]
      by_cases hdir : dir = .delayed
      · simp [hdir]
      · simp [hdir]
    refine Turns.one hkeeps List.mem_cons_self ((touches_written hnotePath _).trans
      (touches_written hpath _)) ((NoTemps.written h.temps _ (by simp)).written _ (by simp))
      (.found ⟨m.queue, m.targetConsumerId, m.attempt, .delayed m.availableAtMs⟩) hstands ?_ ?_
      hidle ?_ (by simp)
    · refine .waits rfl hfile henvelope ?_ ?_
      · rw [lookup_written, lookup_written]
        simp [hlease]
      · rw [Noted, if_pos rfl]
        refine ⟨delayedOf m, ?_, rfl, fun _ => rfl⟩
        rw [lookup_written, lookup_written]
        simp
    · rwa [MessageEnvelope.slot, if_pos hlater] at hmove
    · rw [hfile.archived_iff]
      simp [Acks, habsent]
  -- Otherwise it lies in the inbox.
  · refine enqueue_sat_ready trivial hlater ?_
    simp only [queuePath_of_name hqueue]
    refine ⟨trivial, trivial, ?_⟩
    have hpath : Path.concerns m (filePath m .inbox) := ⟨rfl, rfl⟩
    have hfile : Only (written (filePath m .inbox) (some (serializeEnvelope m)) d) m .inbox
        (serializeEnvelope m) := by
      intro dir
      rw [lookup_written, hnone dir]
      by_cases hdir : dir = .inbox
      · simp [hdir]
      · simp [hdir]
    refine Turns.one hkeeps List.mem_cons_self (touches_written hpath _)
      (NoTemps.written h.temps _ (by simp))
      (.found ⟨m.queue, m.targetConsumerId, m.attempt, .ready⟩) hstands ?_ ?_ hidle ?_ (by simp)
    · refine .waits rfl hfile henvelope ?_ ?_
      · rw [lookup_written]
        simp [hlease]
      · rw [Noted, if_neg (by simp), lookup_written]
        simp [hnote]
    · rwa [MessageEnvelope.slot, if_neg hlater] at hmove
    · rw [hfile.archived_iff]
      simp [Acks, habsent]

/-! ### Leaving the DLQ -/

/-- The queue read off a key is a name. -/
theorem resolve_extracted {queue : String} (hname : '/' ∉ K.toList) (hqueue : IsName queue)
    (h : resolve [] (extractQueueFromKey K) = [queue]) : extractQueueFromKey K = queue := by
  have hmem : ∀ c ∈ (extractQueueFromKey K).toList, c ∈ K.toList := by
    intro c hc
    unfold extractQueueFromKey at hc
    dsimp only at hc
    split at hc
    case isFalse => simp at hc
    case isTrue =>
      rw [String.toList_ofList] at hc
      exact (List.dropWhile_sublist _).subset
        (List.mem_of_mem_tail ((List.takeWhile_sublist _).subset hc))
  have hslash : ∀ c ∈ (extractQueueFromKey K).toList, c ≠ '/' := by
    rintro c hc rfl
    exact hname (hmem _ hc)
  rw [resolve, pathNames_of_name hslash, isAbsolute_of_name hslash] at h
  simp only [Bool.false_eq_true, if_false, List.foldl_cons, List.foldl_nil, follow] at h
  split at h
  case isTrue => cases h
  case isFalse =>
    split at h
    case isTrue =>
      -- the directory above the root has no name of a queue
      obtain ⟨rfl, -⟩ := List.cons.inj h
      exact absurd rfl hqueue.2.2.1
    case isFalse => exact (List.cons.inj h).1

/-- `reprocess_dlq_message` turns a dead letter to ready. -/
theorem reprocessDlqMessage_turns (h : Keeps exact published d) (hname : '/' ∉ K.toList) :
    Sat False (fun _ => True) d (reprocessDlqMessage env K)
      fun r d' => Turns exact published env (.reprocessDlqMessage K) (.status r) d d' := by
  refine reprocessDlqMessage_sat trivial ?_ fun _ e => Turns.refused h (by simp) rfl rfl
  intro id content j' hid _ hfile hedit
  refine ⟨trivial, trivial, trivial, ?_⟩
  obtain ⟨m, hm, hlocation, rfl, j, attempt, available, phase, rfl, hphase, honly, henvelope,
    hlease, hnote, hstands⟩ := h.waiting (by simp) hfile
  obtain rfl := Option.some.inj hphase
  have hnamed := h.named m hm
  have hextract : extractQueueFromKey K = m.queue := resolve_extracted hname hnamed.queue hlocation
  have hrevives : Revives K m.key := by
    refine ⟨m.queue, m.messageId, ?_, hextract, hid⟩
    rw [hnamed.key, locate_messageKey (not_mem_of_guid hnamed.guid).1]
  obtain ⟨j₁, hj₁, henvelope'⟩ := henvelope.reprocessed env.now
  rw [Option.bind_some, hj₁, Option.some.injEq] at hedit
  subst hedit
  simp only [hextract, queuePath_of_name hnamed.queue]
  have hsrc : Path.concerns m (filePath m .dlq) := ⟨rfl, rfl⟩
  have hdest : Path.concerns m (filePath m .inbox) := ⟨rfl, rfl⟩
  have hfile' : Only (Files.renamed (filePath m .dlq) (filePath m .inbox) (some j₁)
      (written (filePath m .dlq) (some j₁) d)) m .inbox j₁ := only_renamed (only_written honly)
  refine Turns.one h hm ((touches_written hsrc _).trans (touches_renamed hsrc hdest _))
    ((NoTemps.written h.temps _ (by simp)).renamed _ (by simp))
    (.found ⟨m.queue, m.targetConsumerId, 0, .ready⟩) hstands ?_ ?_ ?_ ?_ (by simp)
  · refine .waits rfl hfile' henvelope' ?_ ?_
    · rw [Files.lookup_renamed, lookup_written]
      simp [hlease]
    · rw [Noted, if_neg (by simp)] at hnote ⊢
      rw [Files.lookup_renamed, lookup_written]
      simp [hnote]
  · exact .revive hrevives rfl rfl
  · intro key hne howes
    generalize d.slot key = slot at howes
    cases howes with
    | leased hgranted => cases hgranted
    | revived hrevives' =>
      -- two keys read off `K` alike are one
      obtain ⟨queue, id, hlocate, hqueue, hid'⟩ := hrevives'
      obtain rfl : queue = m.queue := hqueue.symm.trans hextract
      rw [hid, Option.some.injEq] at hid'
      subst hid'
      exact hne ((locate_some hlocate).trans hnamed.key.symm)
  · rw [hfile'.archived_iff, honly.archived_iff]
    simp [Acks]

/-! ### Policies -/

/-- Policy files say nothing of messages. -/
theorem Keeps.policy (h : Keeps exact published d)
    (hsame : ∀ path, (∀ queue, path ≠ .policy queue) → d'.lookup path = d.lookup path) :
    Keeps exact published d' ∧ (∀ key, d'.slot key = d.slot key) ∧
    ∀ m, Archived d' m ↔ Archived d m := by
  have hfile : ∀ location dir id, d'.lookup (.message location dir id) =
      d.lookup (.message location dir id) := fun _ _ _ => hsame _ (by simp)
  have hlease : ∀ name, d'.lookup (.leaseMeta name) = d.lookup (.leaseMeta name) :=
    fun _ => hsame _ (by simp)
  have hnote : ∀ name, d'.lookup (.delayedMeta name) = d.lookup (.delayedMeta name) :=
    fun _ => hsame _ (by simp)
  refine ⟨⟨h.well, h.named, fun m hm => ?_, ?_, ?_, ?_, ?_⟩, fun key => ?_, fun m => ?_⟩
  · obtain ⟨place, hplace⟩ := h.stands m hm
    exact ⟨place, hplace.congr (fun _ => hfile _ _ _) (hlease _) (hnote _)⟩
  · exact fun location dir id hne => h.files location dir id (hfile location dir id ▸ hne)
  · exact fun name hne => h.leases name (hlease name ▸ hne)
  · exact fun name hne => h.notes name (hnote name ▸ hne)
  · exact fun path => (hsame _ (by simp)).trans (h.temps path)
  · simp only [Disk.slot, Disk.lease, hfile, hlease]
  · rw [Archived, Archived, hfile]

/-- `save_policy` turns nothing. -/
theorem savePolicy_turns (h : Keeps exact published d) (queue : String) (policy : QueuePolicy) :
    Sat False (fun _ => True) d (savePolicy queue policy)
      fun r d' => Turns exact published env (.savePolicy queue policy) (.status r) d d' := by
  refine savePolicy_sat trivial ?_ fun e => Turns.refused h (by simp) rfl rfl
  intro _
  refine ⟨trivial, trivial, ?_⟩
  have hsame : ∀ path, (∀ queue, path ≠ .policy queue) →
      (written (.policy queue) (some policy.toJson) d).lookup path = d.lookup path := by
    intro path hpath
    rw [lookup_written, if_neg (hpath queue)]
    by_cases htemp : path = .temp (.policy queue)
    · rw [if_pos htemp, htemp, h.temps]
    · rw [if_neg htemp]
  obtain ⟨hkeeps, hslot, harchived⟩ := h.policy hsame
  refine ⟨hkeeps, fun key => ?_, fun m _ => ?_⟩
  · rw [MovesKey, hslot]
    have hquiet : (Call.savePolicy queue policy).Quiet := trivial
    exact .stay (not_owes_quiet hquiet rfl _)
  · simp [harchived m, Acks]

/-! ### Sweeping the disk -/

/-- Two rounds of a quiet call are one. -/
theorem Turns.trans {d'' : Disk} (hcall : call = .recoverExpiredLeases ∨
      call = .processDelayedMessages)
    (h : Turns exact published env call reply d d')
    (h' : Turns exact published env call reply d' d'') :
    Turns exact published env call reply d d'' := by
  refine ⟨h'.keeps, fun key => ?_, fun m hm => ?_⟩
  · have hfirst := h.moves key
    have hsecond := h'.moves key
    unfold MovesKey at hfirst hsecond ⊢
    generalize d.slot key = slot at hfirst ⊢
    generalize d'.slot key = slot' at hfirst hsecond
    generalize d''.slot key = slot'' at hsecond ⊢
    -- a message that has moved is ready or stranded, and does not move again
    rcases hcall with rfl | rfl
    · cases hfirst with
      | stay => exact hsecond
      | recover hgranted hphase hexpired =>
        cases hsecond with
        | stay => exact .recover hgranted hphase hexpired
        | recover _ hphase' => cases hphase'
        | strand _ hphase' => cases hphase'
      | strand hgranted hphase hexpired =>
        cases hsecond with
        | stay => exact .strand hgranted hphase hexpired
    · cases hfirst with
      | stay => exact hsecond
      | promote hgranted hphase hdue =>
        cases hsecond with
        | stay => exact .promote hgranted hphase hdue
        | promote _ hphase' => cases hphase'
  · rw [h'.archive m hm, h.archive m hm]
    rcases hcall with rfl | rfl
    · simp [Acks]
    · simp [Acks]

/-- A sweep that has done nothing yet. -/
theorem Turns.still (h : Keeps exact published d)
    (hcall : call = .recoverExpiredLeases ∨ call = .processDelayedMessages)
    (hgranted : reply.granted = none) : Turns exact published env call reply d d := by
  have hquiet : call.Quiet := by
    rcases hcall with rfl | rfl
    · trivial
    · trivial
  refine ⟨?_, fun key => .stay (not_owes_quiet hquiet hgranted _), fun m _ => ?_⟩
  · rcases hcall with rfl | rfl
    · exact h
    · exact h
  · rcases hcall with rfl | rfl
    · simp [Acks]
    · simp [Acks]

/-- An expired lease is that of the key it was written under. -/
theorem expiredLease_toJson {stored : LeaseMeta} {queue : String} {now : Int}
    (h : expiredLease now (some (stored.toJson K)) = some (queue, id)) :
    stored.leaseUntilMs < now ∧ queue = stored.queue ∧ messageIdOf K = some id := by
  have hvalue : ∀ j, j = stored.toJson K → j.valueInt "leaseUntil" 0 = some stored.leaseUntilMs ∧
      j.valueStr "messageKey" "" = some K ∧ j.valueStr "queue" "" = some stored.queue := by
    rintro j rfl
    exact ⟨rfl, rfl, rfl⟩
  obtain ⟨huntil, hkey, hqueue⟩ := hvalue _ rfl
  simp only [expiredLease, Option.bind_eq_bind, Option.bind_some, huntil, hkey, hqueue] at h
  split at h
  case isFalse => cases h
  case isTrue hexpired =>
    split at h
    case isTrue => cases h
    case isFalse =>
      obtain ⟨id', hid, hpair⟩ := Option.bind_eq_some_iff.mp h
      simp only [Option.pure_def, Option.some.injEq, Prod.mk.injEq] at hpair
      exact ⟨hexpired, hpair.1.symm, hpair.2 ▸ hid⟩

/-- The files under `leases/` are lease files and their temporary files. -/
theorem mem_leasePaths {path : Path} (h : path ∈ d.leasePaths) :
    ∃ name, path = .leaseMeta name ∨ path = .temp (.leaseMeta name) := by
  have hfilter := (List.mem_filter.mp h).2
  split at hfilter
  case h_1 name => exact ⟨name, .inl rfl⟩
  case h_2 name => exact ⟨name, .inr rfl⟩
  case h_3 => cases hfilter

/-- The message of a lease file. -/
theorem Keeps.leaseFile (h : Keeps exact published d) {path : Path}
    (hpath : ∃ name, path = .leaseMeta name ∨ path = .temp (.leaseMeta name)) {content : JsonText}
    (hfile : d.lookup path = some content) :
    ∃ m ∈ published, path = leasePath m ∧ ∃ K stored j, content = some (stored.toJson K) ∧
      Held exact m d K stored j ∧ (exact → K = m.key) := by
  obtain ⟨name, rfl | rfl⟩ := hpath
  · obtain ⟨m, hm, rfl⟩ := h.leases name (by rw [hfile]; simp)
    obtain ⟨place, hplace⟩ := h.stands m hm
    have hstands := hplace
    have hsome : d.lookup (leasePath m) = some content := hfile
    refine ⟨m, hm, rfl, ?_⟩
    cases hplace with
    | absent _ hnone | archived _ hnone | stranded _ _ hnone | waits _ _ _ hnone =>
      rw [hnone] at hsome
      cases hsome
    | leased honly henvelope hstored hkey hexact hqueue hnote =>
      rw [hstored, Option.some.injEq] at hsome
      exact ⟨_, _, _, hsome.symm, ⟨hkey, hqueue, honly, ⟨_, henvelope⟩, hstands, hnote⟩, hexact⟩
  · rw [h.temps] at hfile
    cases hfile

/-- One round over a lease file turns its message from inflight to ready, if it turns any. -/
theorem recoverLease_turns (h : Keeps exact published d) {path : Path}
    (hpath : ∃ name, path = .leaseMeta name ∨ path = .temp (.leaseMeta name)) :
    Sat False (fun _ => True) d (recoverLease env path)
      fun _ d' => ∀ n, Turns exact published env .recoverExpiredLeases (.count n none) d d' := by
  have hquiet : Call.recoverExpiredLeases.Quiet := trivial
  refine recoverLease_sat trivial (fun n => Turns.still h (.inl rfl) rfl) ?_ ?_
  · intro content queue id text hfile hexpired htext
    obtain ⟨m, hm, rfl, K, stored, j, rfl, hheld, hexact⟩ := h.leaseFile hpath hfile
    obtain ⟨hdue, rfl, hid⟩ := expiredLease_toJson hexpired
    have hreach : Reaches d K stored id text := by
      refine ⟨?_, hid, htext⟩
      rw [Disk.lease, hheld.names, hfile, Option.bind_some, ofJson_toJson]
    obtain ⟨m', hm', rfl, j', rfl, hheld'⟩ := h.reached hreach
    obtain rfl := h.eq_of_safeKey hm hm' (hheld.names.symm.trans hheld'.names)
    have hlease : leasePath m = .leaseMeta (safeKey K) := by rw [hheld.names]
    simp only [hheld.path (h.named m hm), hlease]
    refine ⟨trivial, trivial, fun n => ?_⟩
    obtain ⟨available, henvelope⟩ := hheld'.envelope
    have hsrc : Path.concerns m (filePath m .processing) := ⟨rfl, rfl⟩
    have hdest : Path.concerns m (filePath m .inbox) := ⟨rfl, rfl⟩
    have honly : Only (released K (filePath m .processing) (filePath m .inbox) (some j') d) m
        .inbox j' := only_released hheld'.file
    show Turns exact published env .recoverExpiredLeases (.count n none) d
      (released K (filePath m .processing) (filePath m .inbox) (some j') d)
    refine Turns.one h hm (touches_released hsrc hdest hheld.names _)
      (NoTemps.released h.temps _ (by simp))
      (.found ⟨m.queue, m.targetConsumerId, stored.attempt, .ready⟩) hheld.stands ?_ ?_ ?_ ?_
      (by simp)
    · refine Held.waits henvelope rfl (by simp) honly ?_ ?_
      · rw [lookup_released, if_pos (by rw [hheld.names])]
      · rw [lookup_released]
        simp [hheld.note]
    · exact .recover rfl rfl hdue
    · exact fun key _ => not_owes_quiet hquiet rfl _
    · rw [honly.archived_iff, hheld.file.archived_iff]
      simp [Acks]
  · intro content queue id hfile hexpired hmissing
    obtain ⟨m, hm, rfl, K, stored, j, rfl, hheld, hexact⟩ := h.leaseFile hpath hfile
    obtain ⟨hdue, rfl, hid⟩ := expiredLease_toJson hexpired
    have hnamed := h.named m hm
    rw [hheld.path hnamed] at hmissing
    -- the file of the message is there, so the key in the lease file is another one
    have hloose : ¬exact := by
      intro hx
      rw [hexact hx, hnamed.key, messageIdOf_messageKey (not_mem_of_guid hnamed.guid).1,
        Option.some.injEq] at hid
      have hthere := hheld.file .processing
      subst hid
      rw [if_pos rfl, hmissing] at hthere
      cases hthere
    refine ⟨trivial, fun n => ?_⟩
    have honly : Only (d.erase (leasePath m)) m .processing j := by
      intro dir
      rw [Files.lookup_erase', hheld.file dir]
      simp
    have hlease : Path.concerns m (leasePath m) := rfl
    refine Turns.one h hm (touches_erase hlease) (NoTemps.erase h.temps _)
      .stranded hheld.stands ?_ ?_ ?_ ?_ (by simp)
    · refine .stranded hloose honly ?_ ?_
      · rw [Files.lookup_erase', if_pos rfl]
      · rw [Files.lookup_erase']
        simp [hheld.note]
    · exact .strand rfl rfl hdue
    · exact fun key _ => not_owes_quiet hquiet rfl _
    · rw [honly.archived_iff, hheld.file.archived_iff]
      simp [Acks]

/-- A loop each round of which turns the disk. -/
theorem sumList_turns {α : Type} {f : α → Program Disk Nat} {items : List α}
    (h : Keeps exact published d) (hcall : call = .recoverExpiredLeases ∨
      call = .processDelayedMessages)
    (hround : ∀ item ∈ items, ∀ d', Keeps exact published d' → Sat False (fun _ => True) d' (f item)
      fun _ d'' => ∀ n, Turns exact published env call (.count n none) d' d'') :
    Sat False (fun _ => True) d (sumList f items)
      fun _ d' => ∀ n, Turns exact published env call (.count n none) d d' := by
  have hpublishing : call.publishing published = published := by
    rcases hcall with rfl | rfl <;> rfl
  refine Sat.sumList (fun d' => ∀ n, Turns exact published env call (.count n none) d d') items ?_
    fun n => Turns.still h hcall rfl
  intro item hitem d' hturns
  have hkeeps : Keeps exact published d' := hpublishing ▸ (hturns 0).keeps
  exact (hround item hitem d' hkeeps).weaken fun _ _ hnext n =>
    (hturns n).trans hcall (hnext n)

/-- So do all rounds together. -/
theorem recoverExpiredLeases_turns (h : Keeps exact published d) :
    Sat False (fun _ => True) d (recoverExpiredLeases env)
      fun _ d' => ∀ n, Turns exact published env .recoverExpiredLeases (.count n none) d d' :=
  Sat.bind <| listDirectory_sat trivial <| sumList_turns h (.inl rfl) fun _ hpath _ h' =>
    recoverLease_turns h' (mem_leasePaths hpath)

/-- One round over a delayed file turns its message from delayed to ready, if it turns any. -/
theorem processDelayed_turns (h : Keeps exact published d) {queue : String} :
    Sat False (fun _ => True) d (processDelayed env queue id)
      fun _ d' => ∀ n, Turns exact published env .processDelayedMessages (.count n none) d d' := by
  have hquiet : Call.processDelayedMessages.Quiet := trivial
  refine processDelayed_sat trivial (fun n => Turns.still h (.inr rfl) rfl) ?_
  intro j available hfile havailable hdue
  -- The document read belongs to a published message that waits.
  obtain ⟨m, hm, hlocation, rfl, j', attempt, available', phase, hj, hphase, honly, henvelope,
    hlease, hnote, hstands⟩ := h.waiting (by simp) hfile
  obtain rfl := Option.some.inj hj
  obtain rfl := Option.some.inj hphase
  rw [henvelope.availableAt, Option.some.injEq] at havailable
  subst havailable
  have hnamed := h.named m hm
  have hnonempty : m.key ≠ "" := by
    rw [hnamed.key]
    simp [messageKey]
  have hpath : ∀ dir, queuePath queue dir m.messageId = filePath m dir := fun dir => by
    rw [queuePath, hlocation]
  rw [hpath, hpath, henvelope.key]
  refine ⟨trivial, ?_⟩
  -- Its key is not empty, so the delay file is deleted too.
  split
  case h_1 hnone => cases hnone
  case h_2 hempty => exact absurd (Option.some.inj hempty) hnonempty
  case h_3 key _ hkey =>
    obtain rfl := Option.some.inj hkey
    refine ⟨trivial, fun n => ?_⟩
    have hsrc : Path.concerns m (filePath m .delayed) := ⟨rfl, rfl⟩
    have hdest : Path.concerns m (filePath m .inbox) := ⟨rfl, rfl⟩
    have honly' : Only ((Files.renamed (filePath m .delayed) (filePath m .inbox) (some j) d).erase
        (notePath m)) m .inbox j := by
      intro dir
      rw [Files.lookup_erase', only_renamed honly dir]
      simp
    have hnotePath : Path.concerns m (notePath m) := rfl
    refine Turns.one h hm ((touches_renamed hsrc hdest _).trans (touches_erase hnotePath))
      ((NoTemps.renamed h.temps _ (by simp)).erase _)
      (.found ⟨m.queue, m.targetConsumerId, attempt, .ready⟩) hstands ?_ ?_ ?_ ?_ (by simp)
    · refine .waits rfl honly' henvelope ?_ ?_
      · rw [Files.lookup_erase', Files.lookup_renamed]
        simp [hlease]
      · rw [Noted, if_neg (by simp), Files.lookup_erase', if_pos rfl]
    · exact .promote rfl rfl hdue
    · exact fun key _ => not_owes_quiet hquiet rfl _
    · rw [honly'.archived_iff, honly.archived_iff]
      simp [Acks]

/-- So do all rounds together. -/
theorem processDelayedMessages_turns (h : Keeps exact published d) :
    Sat False (fun _ => True) d (processDelayedMessages env)
      fun _ d' => ∀ n, Turns exact published env .processDelayedMessages (.count n none) d d' := by
  refine Sat.bind (listDirectory_sat trivial (sumList_turns h (.inr rfl) fun queue _ d' h' => ?_))
  refine Sat.bind (listJsonFiles_sat trivial fun ids _ _ => ?_)
  exact sumList_turns h' (.inr rfl) fun id _ d'' h'' => processDelayed_turns h''

/-! ### All calls -/

/-- The message key a call is given. -/
def Call.givenKey : Call → Option String
  | .reprocessDlqMessage messageKey => some messageKey
  | call => Call.leaseKey call

/-- The texts of the call are ones the adapter is modelled for: queues are names, and message
    keys have no slash. -/
def Call.Plain : Call → Prop
  | .enqueue message => IsName message.queue ∧ message.messageId ≠ ""
  | .leaseNext queue _ _ => IsName queue
  | .ack lease | .nack lease _ _ | .extendLease lease _ => '/' ∉ lease.messageKey.toList
  | .delayMessage messageKey _ | .moveToDlq messageKey _ | .reprocessDlqMessage messageKey =>
    '/' ∉ messageKey.toList
  | _ => True

/-- Whether a call is plain can be computed. -/
instance : (call : Call) → Decidable (Call.Plain call)
  | .enqueue _ => inferInstanceAs (Decidable (_ ∧ _))
  | .leaseNext queue _ _ => inferInstanceAs (Decidable (IsName queue))
  | .ack _ | .nack _ _ _ | .extendLease _ _ | .delayMessage _ _ | .moveToDlq _ _
  | .reprocessDlqMessage _ => inferInstanceAs (Decidable (_ ∉ _))
  | .savePolicy _ _ | .recoverExpiredLeases | .processDelayedMessages =>
    inferInstanceAs (Decidable True)

/-- **Every call without failing primitives turns the disk.** -/
theorem program_turns (h : Keeps exact published d) (hfresh : call.Fresh published)
    (hplain : Call.Plain call) (hexact : exact → Call.Exact published env d call) :
    Sat False (fun _ => True) d (program env call)
      fun reply d' => Turns exact published env call reply d d' := by
  cases call with
  | enqueue m =>
    exact Sat.bind ((enqueue_turns h hfresh hplain.1 hplain.2).weaken fun _ _ => Sat.pure)
  | leaseNext queue c timeout =>
    exact Sat.bind ((leaseNext_turns h hplain).weaken fun _ _ => Sat.pure)
  | ack lease => exact Sat.bind ((ack_turns h lease).weaken fun _ _ => Sat.pure)
  | nack lease reason requeue =>
    exact Sat.bind ((nack_turns h lease reason requeue).weaken fun _ _ => Sat.pure)
  | extendLease lease timeout =>
    exact Sat.bind ((extendLease_turns h hplain hexact).weaken fun _ _ => Sat.pure)
  | savePolicy queue policy =>
    exact Sat.bind ((savePolicy_turns h queue policy).weaken fun _ _ => Sat.pure)
  | recoverExpiredLeases =>
    exact Sat.bind ((recoverExpiredLeases_turns h).weaken fun _ _ ht => Sat.pure (ht _))
  | processDelayedMessages =>
    exact Sat.bind ((processDelayedMessages_turns h).weaken fun _ _ ht => Sat.pure (ht _))
  | delayMessage messageKey delayMs =>
    exact Sat.bind ((delayMessage_turns h hplain hexact).weaken fun _ _ => Sat.pure)
  | moveToDlq messageKey reason =>
    exact Sat.bind ((moveToDlq_turns h messageKey reason).weaken fun _ _ => Sat.pure)
  | reprocessDlqMessage messageKey =>
    exact Sat.bind ((reprocessDlqMessage_turns h hplain).weaken fun _ _ => Sat.pure)

end YirangMQ.FileSystem

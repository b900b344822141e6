import YirangMQ.FileSystem.Effects

namespace YirangMQ.FileSystem

/-!
# Where a message stands on the disk

The state of a message is not a field but the directory of its file together with its lease
file and its delay file.  `exact` says whether the keys inside lease and delay files are
known to be the published ones: a token may name a lease by another key of the same file
name, and `extend_lease` then stores that key.

* `IsEnvelope` — the document is the published message, up to its attempt and its time;
* `Place`, `Stands` — where a message stands, and the files that say so;
* `Disk.slot`, `Stands.slot_eq` — the slot of a message, read off the disk;
* `Keeps` — every published message stands somewhere, and there are no other files;
* `Keeps.touch` — changing the files of one message keeps the others.
-/

variable {exact : Prop} {d d' : Disk} {m m' : MessageEnvelope} {published : List MessageEnvelope}
  {key : String}

/-! ### Envelopes -/

/-- The document is the envelope of `m` with this attempt and time. -/
structure IsEnvelope (m : MessageEnvelope) (j : Json String) (attempt available : Int) :
    Prop where
  object : j.isObject = true
  key : j.valueStr "key" "" = some m.key
  messageId : j.valueStr "messageId" "" = some m.messageId
  queue : j.valueStr "queue" "" = some m.queue
  payload : j.valueStr "payload" "{}" = some m.payloadJson
  attributes : j.valueStr "attributes" "{}" = some m.attributesJson
  priority : j.valueInt "priority" 0 = some m.priority
  attempt : j.valueInt "attempt" 0 = some attempt
  createdAt : j.valueInt "createdAt" 0 = some m.createdAtMs
  availableAt : j.valueInt "availableAt" 0 = some available
  target : j.valueStr "targetConsumerId" "" = some m.targetConsumerId

namespace IsEnvelope

variable {j j' : Json String} {attempt available : Int}

/-- The adapter reads the message back, with this attempt and time. -/
theorem deserialize (h : IsEnvelope m j attempt available) :
    deserializeEnvelope (some j) = some { m with attempt, availableAtMs := available } := by
  simp [deserializeEnvelope, h.key, h.messageId, h.queue, h.payload, h.attributes, h.priority,
    h.attempt, h.createdAt, h.availableAt, h.target]

/-- What is written for a message is its envelope. -/
theorem serialize (e : MessageEnvelope) (attempt available : Int) :
    IsEnvelope e (serializeEnvelope { e with attempt, availableAtMs := available }) attempt
      available := by
  constructor <;> rfl

/-- What keeps the fields of a message keeps it, with the attempt and the time it then has. -/
theorem of_get? (h : IsEnvelope m j attempt available) (hobj : j'.isObject = true)
    (hget : ∀ k ∈ ["key", "messageId", "queue", "payload", "attributes", "priority", "createdAt",
      "targetConsumerId"], j'.get? k = j.get? k) {attempt' available' : Int}
    (hattempt : j'.valueInt "attempt" 0 = some attempt')
    (havailable : j'.valueInt "availableAt" 0 = some available') :
    IsEnvelope m j' attempt' available' where
  object := hobj
  key := (Json.valueStr_congr h.object hobj (hget _ (by simp))).trans h.key
  messageId := (Json.valueStr_congr h.object hobj (hget _ (by simp))).trans h.messageId
  queue := (Json.valueStr_congr h.object hobj (hget _ (by simp))).trans h.queue
  payload := (Json.valueStr_congr h.object hobj (hget _ (by simp))).trans h.payload
  attributes := (Json.valueStr_congr h.object hobj (hget _ (by simp))).trans h.attributes
  priority := (Json.valueInt_congr h.object hobj (hget _ (by simp))).trans h.priority
  attempt := hattempt
  createdAt := (Json.valueInt_congr h.object hobj (hget _ (by simp))).trans h.createdAt
  availableAt := havailable
  target := (Json.valueStr_congr h.object hobj (hget _ (by simp))).trans h.target

/-- Marking a dead letter keeps an envelope an envelope. -/
theorem withDlqFields (h : IsEnvelope m j attempt available) (reason : String) (now : Int) :
    ∃ j', FileSystem.withDlqFields reason now j = some j' ∧ IsEnvelope m j' attempt available := by
  obtain ⟨j₁, hj₁, hobj₁⟩ := Json.set_of_isObject h.object "dlqReason" (.str reason)
  obtain ⟨j₂, hj₂, hobj₂⟩ := Json.set_of_isObject hobj₁ "dlqAt" (.int now)
  have hget : ∀ k, k ≠ "dlqAt" → k ≠ "dlqReason" → j₂.get? k = j.get? k := by
    intro k hat hreason
    rw [Json.get?_set hj₂, Json.get?_set hj₁, if_neg hat, if_neg hreason]
  refine ⟨j₂, by simp [FileSystem.withDlqFields, hj₁, hj₂], h.of_get? hobj₂ ?_ ?_ ?_⟩
  · intro k hk
    refine hget k ?_ ?_ <;> rintro rfl <;> simp at hk
  · exact (Json.valueInt_congr h.object hobj₂ (hget _ (by decide) (by decide))).trans h.attempt
  · exact (Json.valueInt_congr h.object hobj₂ (hget _ (by decide) (by decide))).trans
      h.availableAt

/-- Setting the time keeps it an envelope, with that time. -/
theorem withAvailableAt (h : IsEnvelope m j attempt available) (time : Int) :
    ∃ j', FileSystem.withAvailableAt time j = some j' ∧ IsEnvelope m j' attempt time := by
  obtain ⟨j₁, hj₁, hobj₁⟩ := Json.set_of_isObject h.object "availableAt" (.int time)
  refine ⟨j₁, hj₁, h.of_get? hobj₁ ?_ ?_ ?_⟩
  · intro k hk
    rw [Json.get?_set hj₁, if_neg (by rintro rfl; simp at hk)]
  · exact (Json.valueInt_congr h.object hobj₁
      (by rw [Json.get?_set hj₁, if_neg (by decide)])).trans h.attempt
  · exact Json.valueInt_of_get? 0 (by rw [Json.get?_set hj₁, if_pos rfl])

/-- Reprocessing keeps it an envelope, without attempts. -/
theorem reprocessed (h : IsEnvelope m j attempt available) (now : Int) :
    ∃ j', FileSystem.reprocessed now j = some j' ∧ IsEnvelope m j' 0 now := by
  obtain ⟨j₁, hj₁, hobj₁⟩ := Json.erase_of_isObject h.object "dlqReason"
  obtain ⟨j₂, hj₂, hobj₂⟩ := Json.erase_of_isObject hobj₁ "dlqAt"
  obtain ⟨j₃, hj₃, hobj₃⟩ := Json.set_of_isObject hobj₂ "attempt" (.int 0)
  obtain ⟨j₄, hj₄, hobj₄⟩ := Json.set_of_isObject hobj₃ "availableAt" (.int now)
  refine ⟨j₄, by simp [FileSystem.reprocessed, hj₁, hj₂, hj₃, hj₄], h.of_get? hobj₄ ?_ ?_ ?_⟩
  · intro k hk
    have hne : k ≠ "availableAt" ∧ k ≠ "attempt" ∧ k ≠ "dlqAt" ∧ k ≠ "dlqReason" := by
      refine ⟨?_, ?_, ?_, ?_⟩ <;> rintro rfl <;> simp at hk
    rw [Json.get?_set hj₄, Json.get?_set hj₃, Json.get?_erase hj₂, Json.get?_erase hj₁,
      if_neg hne.1, if_neg hne.2.1, if_neg hne.2.2.1, if_neg hne.2.2.2]
  · refine Json.valueInt_of_get? 0 ?_
    rw [Json.get?_set hj₄, if_neg (by decide), Json.get?_set hj₃, if_pos rfl]
  · exact Json.valueInt_of_get? 0 (by rw [Json.get?_set hj₄, if_pos rfl])

end IsEnvelope

/-! ### Places -/

/-- The files of a message. -/
abbrev filePath (m : MessageEnvelope) (dir : SubDir) : Path := .message [m.queue] dir m.messageId
/-- Where the lease of a message lies. -/
abbrev leasePath (m : MessageEnvelope) : Path := .leaseMeta (safeKey m.key)
/-- Where the note of a message lies. -/
abbrev notePath (m : MessageEnvelope) : Path := .delayedMeta (safeKey m.key)

/-- The only file of the message is in this directory, with this document. -/
def Only (d : Disk) (m : MessageEnvelope) (dir : SubDir) (j : Json String) : Prop :=
  ∀ dir', d.lookup (filePath m dir') = if dir' = dir then some (some j) else none

/-- The phase of a message that waits in a directory. -/
def waiting : SubDir → Int → Option Phase
  | .inbox, _ => some .ready
  | .delayed, available => some (.delayed available)
  | .dlq, _ => some .dlq
  | .processing, _ | .archive, _ => none

/-- The delay file of a message is there exactly when it is delayed. -/
def Noted (exact : Prop) (d : Disk) (m : MessageEnvelope) (dir : SubDir) : Prop :=
  if dir = .delayed then
    ∃ note : DelayedMeta, d.lookup (notePath m) = some (some note.toJson) ∧
      note.queue = m.queue ∧ (exact → note.messageKey = m.key)
  else d.lookup (notePath m) = none

/-- Where a message is; one that is `stranded` lies in `processing/` without a lease. -/
inductive Place where
  | absent
  | archived
  | stranded
  | found (slot : Slot)

/-- The slot that a place stands for. -/
def Place.slot : Place → Option Slot
  | .found slot => some slot
  | _ => none

/-- The files of message `m` say that it is at a place. -/
inductive Stands (exact : Prop) (m : MessageEnvelope) (d : Disk) : Place → Prop
  | absent (hfile : ∀ dir, d.lookup (filePath m dir) = none)
      (hlease : d.lookup (leasePath m) = none) (hnote : d.lookup (notePath m) = none) :
      Stands exact m d .absent
  | archived {j : Json String} (hfile : Only d m .archive j)
      (hlease : d.lookup (leasePath m) = none) (hnote : d.lookup (notePath m) = none) :
      Stands exact m d .archived
  | stranded {j : Json String} (hloose : ¬exact) (hfile : Only d m .processing j)
      (hlease : d.lookup (leasePath m) = none) (hnote : d.lookup (notePath m) = none) :
      Stands exact m d .stranded
  | waits {dir : SubDir} {j : Json String} {attempt available : Int} {phase : Phase}
      (hphase : waiting dir available = some phase) (hfile : Only d m dir j)
      (henvelope : IsEnvelope m j attempt available) (hlease : d.lookup (leasePath m) = none)
      (hnote : Noted exact d m dir) :
      Stands exact m d (.found ⟨m.queue, m.targetConsumerId, attempt, phase⟩)
  | leased {j : Json String} {available : Int} {stored : LeaseMeta} {K : String}
      (hfile : Only d m .processing j) (henvelope : IsEnvelope m j stored.attempt available)
      (hlease : d.lookup (leasePath m) = some (some (stored.toJson K)))
      (hkey : safeKey K = safeKey m.key) (hexact : exact → K = m.key)
      (hqueue : stored.queue = m.queue) (hnote : d.lookup (notePath m) = none) :
      Stands exact m d
        (.found ⟨m.queue, m.targetConsumerId, stored.attempt, .inflight stored.leaseUntilMs⟩)

/-! ### Slots -/

/-- Where the message of a key is, as its files say. -/
def Disk.slot (d : Disk) (key : String) : Option Slot :=
  (locate key).bind fun (queue, id) =>
    let envelope := fun dir => (d.lookup (.message [queue] dir id)).bind deserializeEnvelope
    let slot := fun (e : MessageEnvelope) phase => Slot.mk queue e.targetConsumerId e.attempt phase
    ((envelope .inbox).map fun e => slot e .ready) <|>
    ((envelope .processing).bind fun e =>
      (d.lease key).map fun lease => slot e (.inflight lease.leaseUntilMs)) <|>
    ((envelope .delayed).map fun e => slot e (.delayed e.availableAtMs)) <|>
    ((envelope .dlq).map fun e => slot e .dlq)

/-- The message is published as `handle_publish` does, in a queue whose string is a name. -/
structure Named (m : MessageEnvelope) : Prop where
  key : m.key = messageKey m.queue m.messageId
  guid : ∀ c ∈ m.messageId.toList, isGuidChar c = true
  queue : IsName m.queue
  id : m.messageId ≠ ""

/-- A lease that is written is read again. -/
theorem ofJson_toJson (stored : LeaseMeta) (K : String) :
    LeaseMeta.ofJson (some (stored.toJson K)) = some stored := rfl

/-- **The slot of a message is that of its place.** -/
theorem Stands.slot_eq {place : Place} (h : Stands exact m d place) (hm : Named m) :
    d.slot m.key = place.slot := by
  have hlocate : locate m.key = some (m.queue, m.messageId) := by
    rw [hm.key, locate_messageKey (not_mem_of_guid hm.guid).1]
  have honly : ∀ {dir j}, Only d m dir j → ∀ dir',
      d.lookup (.message [m.queue] dir' m.messageId) = if dir' = dir then some (some j) else none :=
    fun hfile dir' => hfile dir'
  unfold Disk.slot
  rw [hlocate, Option.bind_some]
  cases h with
  | absent hfile =>
    have hnone : ∀ dir, d.lookup (.message [m.queue] dir m.messageId) = none := hfile
    simp [hnone, Place.slot]
  | archived hfile => simp [honly hfile, Place.slot]
  | stranded hloose hfile hlease =>
    simp [honly hfile, Place.slot, Disk.lease, hlease]
  | @waits dir j attempt available phase hphase hfile henvelope hlease =>
    cases dir <;> simp only [waiting, Option.some.injEq, reduceCtorEq] at hphase <;> subst hphase
    · simp [honly hfile, henvelope.deserialize, Place.slot]
    · simp [honly hfile, henvelope.deserialize, Place.slot]
    · simp [honly hfile, henvelope.deserialize, Place.slot]
  | leased hfile henvelope hlease =>
    simp [honly hfile, henvelope.deserialize, Place.slot, Disk.lease, hlease, ofJson_toJson]

/-! ### The whole disk -/

/-- Every published message stands somewhere, there are no other files in the queues, no other
    lease and delay files, and no temporary files. -/
structure Keeps (exact : Prop) (published : List MessageEnvelope) (d : Disk) : Prop where
  well : WellPublished published
  named : ∀ m ∈ published, Named m
  stands : ∀ m ∈ published, ∃ place, Stands exact m d place
  files : ∀ location dir id, d.lookup (.message location dir id) ≠ none →
    ∃ m ∈ published, location = [m.queue] ∧ id = m.messageId
  leases : ∀ name, d.lookup (.leaseMeta name) ≠ none → ∃ m ∈ published, name = safeKey m.key
  notes : ∀ name, d.lookup (.delayedMeta name) ≠ none → ∃ m ∈ published, name = safeKey m.key
  temps : ∀ path, d.lookup (.temp path) = none

/-- The names of lease files tell messages apart. -/
theorem Named.safeKey_inj (hm : Named m) (hm' : Named m')
    (h : safeKey m.key = safeKey m'.key) : m.messageId = m'.messageId := by
  rw [hm.key, hm'.key] at h
  exact FileSystem.safeKey_inj (not_mem_of_guid hm.guid).symm (not_mem_of_guid hm'.guid).symm h

/-- Messages are told apart by the names of their lease files. -/
theorem Keeps.eq_of_safeKey (h : Keeps exact published d) (hm : m ∈ published)
    (hm' : m' ∈ published) (hsafe : safeKey m.key = safeKey m'.key) : m = m' :=
  h.well.eq_of_id hm hm' ((h.named m hm).safeKey_inj (h.named m' hm') hsafe)

/-- A published key has no slash. -/
theorem Named.no_slash (hm : Named m) : '/' ∉ m.key.toList := by
  rw [hm.key, toList_messageKey]
  have hqueue : '/' ∉ m.queue.toList := fun hmem => (hm.queue.2.2.2 _ hmem).1 rfl
  have hid : '/' ∉ m.messageId.toList := fun hmem => (isGuidChar_ne (hm.guid _ hmem)).2.2 rfl
  simp [hqueue, hid]

/-- A message that is somewhere has been published. -/
theorem Keeps.known (h : Keeps exact published d) (hslot : d.slot key ≠ none) :
    ∃ m ∈ published, m.key = key := by
  cases hlocate : locate key with
  | none => simp [Disk.slot, hlocate] at hslot
  | some parts =>
    obtain ⟨queue, id⟩ := parts
    have hfile : ∃ dir, d.lookup (.message [queue] dir id) ≠ none := by
      by_contra hnone
      push Not at hnone
      simp [Disk.slot, hlocate, hnone] at hslot
    obtain ⟨dir, hdir⟩ := hfile
    obtain ⟨m, hm, hqueue, rfl⟩ := h.files _ _ _ hdir
    obtain rfl : queue = m.queue := by simpa using hqueue
    exact ⟨m, hm, (h.named m hm).key.trans (locate_some hlocate).symm⟩

/-! ### Changing the files of one message -/

/-- The path is one of message `m`. -/
def Path.concerns (m : MessageEnvelope) : Path → Prop
  | .message location _ id => location = [m.queue] ∧ id = m.messageId
  | .leaseMeta name | .delayedMeta name => name = safeKey m.key
  | .policy _ => False
  | .temp path => path.concerns m

/-- Nothing but files of message `m` has changed. -/
def Touches (m : MessageEnvelope) (d d' : Disk) : Prop :=
  ∀ path : Path, ¬path.concerns m → d'.lookup path = d.lookup path

/-- Nothing is touched from a disk to itself. -/
theorem Touches.refl (m : MessageEnvelope) (d : Disk) : Touches m d d := fun _ _ => rfl

/-- What two steps touch, they touch together. -/
theorem Touches.trans {d'' : Disk} (h : Touches m d d') (h' : Touches m d' d'') :
    Touches m d d'' := fun path hpath => (h' path hpath).trans (h path hpath)

/-- A rename between files of a message touches them only. -/
theorem touches_renamed {src dest : Path} (hsrc : src.concerns m) (hdest : dest.concerns m)
    (content : JsonText) : Touches m d (Files.renamed src dest content d) := by
  intro path hpath
  rw [Files.lookup_renamed, if_neg (by rintro rfl; exact hpath hdest),
    if_neg (by rintro rfl; exact hpath hsrc)]

/-- Writing a file of a message touches its files only. -/
theorem touches_written {path : Path} (hpath : path.concerns m) (content : JsonText) :
    Touches m d (written path content d) := by
  intro path' hpath'
  rw [lookup_written, if_neg (by rintro rfl; exact hpath' hpath),
    if_neg (by rintro rfl; exact hpath' hpath)]

/-- So does removing one. -/
theorem touches_erase {path : Path} (hpath : path.concerns m) : Touches m d (d.erase path) := by
  intro path' hpath'
  rw [Files.lookup_erase', if_neg (by rintro rfl; exact hpath' hpath)]

/-- The files of another message are as they were. -/
theorem Touches.other (h : Touches m d d') (hm : Named m) (hm' : Named m')
    (hne : m'.messageId ≠ m.messageId) :
    (∀ dir, d'.lookup (filePath m' dir) = d.lookup (filePath m' dir)) ∧
    d'.lookup (leasePath m') = d.lookup (leasePath m') ∧
    d'.lookup (notePath m') = d.lookup (notePath m') := by
  have hsafe : safeKey m'.key ≠ safeKey m.key := fun heq => hne (hm'.safeKey_inj hm heq)
  exact ⟨fun dir => h _ fun hc => hne hc.2, h _ hsafe, h _ hsafe⟩

/-- A message stands where it stood when its files are as they were. -/
theorem Stands.congr {place : Place} (h : Stands exact m d place)
    (hfile : ∀ dir, d'.lookup (filePath m dir) = d.lookup (filePath m dir))
    (hlease : d'.lookup (leasePath m) = d.lookup (leasePath m))
    (hnote : d'.lookup (notePath m) = d.lookup (notePath m)) : Stands exact m d' place := by
  have honly : ∀ {dir j}, Only d m dir j → Only d' m dir j :=
    fun hdir dir' => (hfile dir').trans (hdir dir')
  cases h with
  | absent hfiles hl hn =>
    exact .absent (fun dir => (hfile dir).trans (hfiles dir)) (hlease.trans hl) (hnote.trans hn)
  | archived hfiles hl hn => exact .archived (honly hfiles) (hlease.trans hl) (hnote.trans hn)
  | stranded hloose hfiles hl hn =>
    exact .stranded hloose (honly hfiles) (hlease.trans hl) (hnote.trans hn)
  | waits hphase hfiles henvelope hl hn =>
    refine .waits hphase (honly hfiles) henvelope (hlease.trans hl) ?_
    unfold Noted at hn ⊢
    rwa [hnote]
  | leased hfiles henvelope hl hkey hexact hqueue hn =>
    exact .leased (honly hfiles) henvelope (hlease.trans hl) hkey hexact hqueue (hnote.trans hn)

/-- **Changing the files of one message keeps the others.** -/
theorem Keeps.touch (h : Keeps exact published d) (hm : m ∈ published) (htouch : Touches m d d')
    (htemps : ∀ path, d'.lookup (.temp path) = none) {place : Place}
    (hstands : Stands exact m d' place) :
    Keeps exact published d' ∧ ∀ key, key ≠ m.key → d'.slot key = d.slot key := by
  -- Identifiers differ, so files, leases and notes of the other messages are not touched.
  have hothers : ∀ m' ∈ published, m' ≠ m →
      (∀ dir, d'.lookup (filePath m' dir) = d.lookup (filePath m' dir)) ∧
      d'.lookup (leasePath m') = d.lookup (leasePath m') ∧
      d'.lookup (notePath m') = d.lookup (notePath m') := by
    intro m' hm' hne
    refine htouch.other (h.named m hm) (h.named m' hm') fun hid => ?_
    exact hne (h.well.eq_of_id hm' hm hid)
  have hkept : Keeps exact published d' := by
    -- Each file, lease and note concerns the message touched, or was there before.
    refine ⟨h.well, h.named, fun m' hm' => ?_, fun location dir id hfile => ?_,
      fun name hlease => ?_, fun name hnote => ?_, htemps⟩
    · by_cases hsame : m' = m
      · exact ⟨place, hsame ▸ hstands⟩
      · obtain ⟨place', hplace'⟩ := h.stands m' hm'
        obtain ⟨hfile, hlease, hnote⟩ := hothers m' hm' hsame
        exact ⟨place', hplace'.congr hfile hlease hnote⟩
    · by_cases hconcerns : Path.concerns m (.message location dir id)
      · exact ⟨m, hm, hconcerns⟩
      · exact h.files location dir id (htouch _ hconcerns ▸ hfile)
    · by_cases hconcerns : Path.concerns m (.leaseMeta name)
      · exact ⟨m, hm, hconcerns⟩
      · exact h.leases name (htouch _ hconcerns ▸ hlease)
    · by_cases hconcerns : Path.concerns m (.delayedMeta name)
      · exact ⟨m, hm, hconcerns⟩
      · exact h.notes name (htouch _ hconcerns ▸ hnote)
  -- The slot of a key is that of its message, and no unpublished key has one.
  refine ⟨hkept, fun key hkey => ?_⟩
  by_cases hpublished : ∃ m' ∈ published, m'.key = key
  · obtain ⟨m', hm', rfl⟩ := hpublished
    obtain ⟨place', hplace'⟩ := h.stands m' hm'
    obtain ⟨hfile, hlease, hnote⟩ := hothers m' hm' fun heq => hkey (by rw [heq])
    rw [hplace'.slot_eq (h.named m' hm'),
      (hplace'.congr hfile hlease hnote).slot_eq (h.named m' hm')]
  · have hnone : ∀ {d}, Keeps exact published d → d.slot key = none := by
      intro d hkeeps
      by_contra hne
      exact hpublished (hkeeps.known hne)
    rw [hnone h, hnone hkept]

end YirangMQ.FileSystem

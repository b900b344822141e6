import YirangMQ.FileSystem.Representation

namespace YirangMQ.FileSystem

open Program

/-!
# What a crash leaves on the disk

A call can be cut after any of its primitives.  The files it has left are those the next
installation finds: messages in one directory each, lease files that may be out of date, and
temporary files.

* `Afloat` — messages are in one directory, and those in `processing/` have a lease file;
* `Drifts` — what an operation leaves behind, with one lemma for each kind of change;
* `Afloat.reached`, `Afloat.matched` — the message a key leads to, or a file is of.
-/

variable {published : List MessageEnvelope} {d t t' : Disk} {m : MessageEnvelope} {env : Env}
  {call : Call} {archives : MessageEnvelope → Prop} {K id : String}

/-! ### Disks -/

/-- The contents that may be in a lease file: the lease of a published message, with its own key
    and queue. -/
def LeaseOf (published : List MessageEnvelope) (name : String) (content : JsonText) : Prop :=
  ∃ m ∈ published, name = safeKey m.key ∧
    ∃ stored : LeaseMeta, content = some (stored.toJson m.key) ∧ stored.queue = m.queue

/-- Every message file is that of a published message, which has no other one, and has a lease
    file when it lies in `processing/`. -/
structure Afloat (published : List MessageEnvelope) (d : Disk) : Prop where
  files : ∀ location dir id, d.lookup (.message location dir id) ≠ none →
    ∃ m ∈ published, location = [m.queue] ∧ id = m.messageId
  one : ∀ m ∈ published, ∀ dir dir', d.lookup (filePath m dir) ≠ none →
    d.lookup (filePath m dir') ≠ none → dir = dir'
  leases : ∀ name content, d.lookup (.leaseMeta name) = some content →
    LeaseOf published name content
  temps : ∀ name content, d.lookup (.temp (.leaseMeta name)) = some content →
    LeaseOf published name content
  held : ∀ m ∈ published, d.lookup (filePath m .processing) ≠ none →
    d.lookup (leasePath m) ≠ none

/-- From the disk `d` an operation has come to the disk `t`: messages are afloat, and those it
    `archives` may have come to the archive. -/
structure Drifts (published : List MessageEnvelope) (archives : MessageEnvelope → Prop)
    (d t : Disk) : Prop where
  afloat : Afloat published t
  archive : ∀ m ∈ published, Archived t m → Archived d m ∨ archives m

theorem Drifts.refl (archives : MessageEnvelope → Prop) (h : Afloat published d) :
    Drifts published archives d d :=
  ⟨h, fun _ _ harchived => .inl harchived⟩

/-- The same message files, up to their contents, and lease files that are old or as they should
    be; those of the messages in `processing/` are there. -/
theorem Drifts.changed (h : Drifts published archives d t)
    (hfiles : ∀ location dir id, t'.lookup (.message location dir id) = none ↔
      t.lookup (.message location dir id) = none)
    (hleases : ∀ name content, t'.lookup (.leaseMeta name) = some content →
      t.lookup (.leaseMeta name) = some content ∨ LeaseOf published name content)
    (htemps : ∀ name content, t'.lookup (.temp (.leaseMeta name)) = some content →
      t.lookup (.temp (.leaseMeta name)) = some content ∨ LeaseOf published name content)
    (hheld : ∀ m ∈ published, t.lookup (filePath m .processing) ≠ none →
      t.lookup (leasePath m) ≠ none → t'.lookup (leasePath m) ≠ none) :
    Drifts published archives d t' where
  afloat :=
    { files := fun location dir id hfile =>
        h.afloat.files location dir id (mt (hfiles _ _ _).mpr hfile)
      one := fun m hm dir dir' hdir hdir' =>
        h.afloat.one m hm dir dir' (mt (hfiles _ _ _).mpr hdir) (mt (hfiles _ _ _).mpr hdir')
      leases := fun name content hlease =>
        (hleases name content hlease).elim (h.afloat.leases name content) id
      temps := fun name content hlease =>
        (htemps name content hlease).elim (h.afloat.temps name content) id
      held := fun m hm hfile =>
        have hthere : t.lookup (filePath m .processing) ≠ none := mt (hfiles _ _ _).mpr hfile
        hheld m hm hthere (h.afloat.held m hm hthere) }
  archive := fun m hm harchived => h.archive m hm (mt (hfiles _ _ _).mpr harchived)

/-- A path of neither a message nor a lease. -/
def Path.Loose : Path → Prop
  | .message _ _ _ | .leaseMeta _ | .temp (.leaseMeta _) => False
  | _ => True

theorem Drifts.insert (h : Drifts published archives d t) (path : Path) (hloose : path.Loose)
    (content : JsonText) : Drifts published archives d (t.insert path content) := by
  have hsame : ∀ path', ¬path'.Loose → (t.insert path content).lookup path' = t.lookup path' := by
    intro path' htight
    rw [Files.lookup_insert', if_neg]
    rintro rfl
    exact htight hloose
  refine h.changed (fun _ _ _ => ?_) (fun _ _ => ?_) (fun _ _ => ?_) fun _ _ _ => ?_
  all_goals rw [hsame _ (by simp [Path.Loose])]
  · exact .inl
  · exact .inl
  · exact id

theorem Drifts.erase (h : Drifts published archives d t) (path : Path) (hloose : path.Loose) :
    Drifts published archives d (t.erase path) := by
  have hsame : ∀ path', ¬path'.Loose → (t.erase path).lookup path' = t.lookup path' := by
    intro path' htight
    rw [Files.lookup_erase', if_neg]
    rintro rfl
    exact htight hloose
  refine h.changed (fun _ _ _ => ?_) (fun _ _ => ?_) (fun _ _ => ?_) fun _ _ _ => ?_
  all_goals rw [hsame _ (by simp [Path.Loose])]
  · exact .inl
  · exact .inl
  · exact id

/-- Writing a file that is no message and no lease. -/
theorem Drifts.written (h : Drifts published archives d t) (path : Path) (hloose : path.Loose)
    (htemp : (Path.temp path).Loose) (content : JsonText) :
    Drifts published archives d (written path content t) :=
  ((h.insert _ htemp content).erase _ htemp).insert _ hloose content

/-- Rewriting a message file that is there. -/
theorem Drifts.rewritten (h : Drifts published archives d t) {location : Directory} {dir : SubDir}
    (hfile : t.lookup (.message location dir id) ≠ none) (content : JsonText) :
    Drifts published archives d (FileSystem.written (.message location dir id) content t) := by
  refine h.changed ?_ ?_ ?_ ?_
  · intro location' dir' id'
    rw [lookup_written]
    by_cases heq : Path.message location' dir' id' = .message location dir id
    · rw [if_pos heq, heq]
      exact iff_of_false (by simp) hfile
    · simp [heq]
  · intro name content' hlease
    exact .inl (by simpa [lookup_written] using hlease)
  · intro name content' hlease
    exact .inl (by simpa [lookup_written] using hlease)
  · intro m _ _ hlease
    simpa [lookup_written] using hlease

/-- Putting the only file of a message into a directory: into `processing/` only when there is a
    lease file. -/
theorem Drifts.settle (h : Drifts published archives d t) (hwell : WellPublished published)
    (hm : m ∈ published) (dest : SubDir) (content : JsonText)
    (hmine : ∀ dir, t'.lookup (filePath m dir) = if dir = dest then some content else none)
    (hothers : ∀ path, (∀ dir, path ≠ filePath m dir) → (∀ dir, path ≠ .temp (filePath m dir)) →
      t'.lookup path = t.lookup path)
    (hdest : dest = .processing → t.lookup (leasePath m) ≠ none)
    (harchives : dest = .archive → archives m) : Drifts published archives d t' := by
  -- Files of other messages stay where they are.
  have hfiles : ∀ location dir id, ¬(location = [m.queue] ∧ id = m.messageId) →
      t'.lookup (.message location dir id) = t.lookup (.message location dir id) := by
    intro location dir id hother
    refine hothers _ (fun dir' heq => ?_) (by simp)
    simp only [Path.message.injEq] at heq
    exact hother ⟨heq.1, heq.2.2⟩
  have hother : ∀ m' ∈ published, m' ≠ m → ¬([m'.queue] = [m.queue] ∧ m'.messageId = m.messageId) :=
    fun m' hm' hne hsame => hne (hwell.eq_of_id hm' hm hsame.2)
  -- The message has no file but the one at its destination.
  have hthere : ∀ dir, t'.lookup (filePath m dir) ≠ none → dir = dest := by
    intro dir hdir
    by_contra hne
    rw [hmine, if_neg hne] at hdir
    exact hdir rfl
  -- Files of messages only, one for each, the leases, their temporary files, what is held, and the
  -- archive.
  refine ⟨⟨?_, ?_, ?_, ?_, ?_⟩, ?_⟩
  · intro location dir id hfile
    by_cases hsame : location = [m.queue] ∧ id = m.messageId
    · exact ⟨m, hm, hsame⟩
    · rw [hfiles _ _ _ hsame] at hfile
      exact h.afloat.files location dir id hfile
  · intro m' hm' dir dir' hdir hdir'
    by_cases hsame : m' = m
    · subst hsame
      rw [hthere dir hdir, hthere dir' hdir']
    · rw [hfiles _ _ _ (hother m' hm' hsame)] at hdir hdir'
      exact h.afloat.one m' hm' dir dir' hdir hdir'
  · intro name stored hlease
    rw [hothers _ (by simp) (by simp)] at hlease
    exact h.afloat.leases name stored hlease
  · intro name stored hlease
    rw [hothers _ (by simp) (by simp)] at hlease
    exact h.afloat.temps name stored hlease
  · intro m' hm' hfile
    rw [hothers _ (by simp) (by simp)]
    by_cases hsame : m' = m
    · subst hsame
      exact hdest (hthere _ hfile).symm
    · rw [hfiles _ _ _ (hother m' hm' hsame)] at hfile
      exact h.afloat.held m' hm' hfile
  · intro m' hm' harchived
    by_cases hsame : m' = m
    · subst hsame
      exact .inr (harchives (hthere _ harchived).symm)
    · rw [Archived, hfiles _ _ _ (hother m' hm' hsame)] at harchived
      exact h.archive m' hm' harchived

/-- Moving a message out of a directory. -/
theorem Drifts.move (h : Drifts published archives d t) (hwell : WellPublished published)
    (hm : m ∈ published) (src dest : SubDir) (hfile : t.lookup (filePath m src) ≠ none)
    (hdest : dest = .processing → t.lookup (leasePath m) ≠ none)
    (harchives : dest = .archive → archives m) (content : JsonText) :
    Drifts published archives d (Files.renamed (filePath m src) (filePath m dest) content t) := by
  refine h.settle hwell hm dest content ?_ ?_ hdest harchives
  · intro dir
    rw [Files.lookup_renamed]
    by_cases hdir : dir = dest
    · rw [hdir, if_pos rfl, if_pos rfl]
    · have hnone : dir ≠ src → t.lookup (filePath m dir) = none := by
        intro hsrc
        by_contra hthere
        exact hsrc (h.afloat.one m hm dir src hthere hfile)
      by_cases hsrc : dir = src
      · subst hsrc
        simp [hdir]
      · simp [hdir, hsrc, hnone hsrc]
  · intro path hpath _
    rw [Files.lookup_renamed, if_neg (hpath dest), if_neg (hpath src)]

/-- Storing a published message that has no file. -/
theorem Drifts.store (h : Drifts published archives d t) (hwell : WellPublished published)
    (hm : m ∈ published) (hnone : ∀ dir, t.lookup (filePath m dir) = none) {dir : SubDir}
    (hdir : dir ≠ .processing ∧ dir ≠ .archive) (content : JsonText) :
    Drifts published archives d (FileSystem.written (filePath m dir) content t) := by
  refine h.settle hwell hm dir content ?_ ?_
    (fun heq => absurd heq hdir.1) fun heq => absurd heq hdir.2
  · intro dir'
    rw [lookup_written, hnone dir']
    by_cases hsame : dir' = dir
    · simp [hsame]
    · simp [hsame]
  · intro path hpath htemp
    rw [lookup_written, if_neg (hpath dir), if_neg (htemp dir)]

/-- Writing the lease file of a message, by way of its temporary file. -/
theorem Drifts.leaseTemp (h : Drifts published archives d t) {name : String} {content : JsonText}
    (hlease : LeaseOf published name content) :
    Drifts published archives d (t.insert (.temp (.leaseMeta name)) content) := by
  refine h.changed ?_ ?_ ?_ ?_
  · intro location dir id
    simp
  · intro name' content' hfile
    exact .inl (by simpa [Files.lookup_insert'] using hfile)
  · intro name' content' hfile
    rw [Files.lookup_insert'] at hfile
    split at hfile
    case isTrue heq =>
      simp only [Path.temp.injEq, Path.leaseMeta.injEq, Option.some.injEq] at heq hfile
      exact .inr (heq ▸ hfile ▸ hlease)
    case isFalse => exact .inl hfile
  · intro m _ _ hthere
    simpa [Files.lookup_insert'] using hthere

theorem Drifts.lease (h : Drifts published archives d t) {name : String} {content : JsonText}
    (hlease : LeaseOf published name content) :
    Drifts published archives d (FileSystem.written (.leaseMeta name) content t) := by
  refine h.changed ?_ ?_ ?_ ?_
  · intro location dir id
    simp [lookup_written]
  · intro name' content' hfile
    rw [lookup_written] at hfile
    split at hfile
    case isTrue heq =>
      simp only [Path.leaseMeta.injEq, Option.some.injEq] at heq hfile
      exact .inr (heq ▸ hfile ▸ hlease)
    case isFalse => exact .inl (by simpa using hfile)
  · intro name' content' hfile
    rw [lookup_written, if_neg (by simp)] at hfile
    split at hfile
    case isTrue => cases hfile
    case isFalse => exact .inl hfile
  · intro m _ _ hthere
    rw [lookup_written]
    split
    case isTrue => simp
    case isFalse => simpa using hthere

/-- Deleting a lease file that no message in `processing/` needs. -/
theorem Drifts.drop (h : Drifts published archives d t) (name : String)
    (hfree : ∀ m ∈ published, name = safeKey m.key → t.lookup (filePath m .processing) = none) :
    Drifts published archives d (t.erase (.leaseMeta name)) := by
  refine h.changed ?_ ?_ ?_ ?_
  · intro location dir id
    simp
  · intro name' content hfile
    rw [Files.lookup_erase'] at hfile
    split at hfile
    case isTrue => cases hfile
    case isFalse => exact .inl hfile
  · intro name' content hfile
    exact .inl (by simpa [Files.lookup_erase'] using hfile)
  · intro m hm hfile hthere
    rw [Files.lookup_erase', if_neg]
    · exact hthere
    · intro heq
      exact hfile (hfree m hm (by simpa using heq.symm))

/-- Deleting a temporary lease file. -/
theorem Drifts.dropTemp (h : Drifts published archives d t) (name : String) :
    Drifts published archives d (t.erase (.temp (.leaseMeta name))) := by
  refine h.changed ?_ ?_ ?_ ?_
  · intro location dir id
    simp
  · intro name' content hfile
    exact .inl (by simpa [Files.lookup_erase'] using hfile)
  · intro name' content hfile
    rw [Files.lookup_erase'] at hfile
    split at hfile
    case isTrue => cases hfile
    case isFalse => exact .inl hfile
  · intro m _ _ hthere
    simpa [Files.lookup_erase'] using hthere

/-! ### Finding messages -/

/-- Messages are published as `handle_publish` does, in queues whose strings are names. -/
structure Catalogued (published : List MessageEnvelope) : Prop where
  well : WellPublished published
  named : ∀ m ∈ published, Named m

/-- The message of a lease file. -/
theorem Afloat.lease (h : Afloat published d) {stored : LeaseMeta}
    (hlease : d.lease K = some stored) :
    ∃ m ∈ published, safeKey K = safeKey m.key ∧ stored.queue = m.queue := by
  obtain ⟨content, hfile, hparse⟩ := Option.bind_eq_some_iff.mp hlease
  obtain ⟨m, hm, hnames, stored', rfl, hqueue⟩ := h.leases _ _ hfile
  rw [ofJson_toJson, Option.some.injEq] at hparse
  exact ⟨m, hm, hnames, hparse ▸ hqueue⟩

/-- A key that reaches a file reaches that of the message it names. -/
theorem Afloat.reached (h : Afloat published d) (hcat : Catalogued published)
    {stored : LeaseMeta} {content : JsonText} (hreach : Reaches d K stored id content) :
    ∃ m ∈ published, safeKey K = safeKey m.key ∧ id = m.messageId ∧
      (∀ dir, queuePath stored.queue dir id = filePath m dir) ∧
      d.lookup (filePath m .processing) = some content := by
  obtain ⟨hlease, hid, hfile⟩ := hreach
  obtain ⟨m, hm, hnames, hqueue⟩ := h.lease hlease
  have hnamed := hcat.named m hm
  have hpath : ∀ dir, queuePath stored.queue dir id = .message [m.queue] dir id := fun dir => by
    rw [hqueue, queuePath_of_name hnamed.queue]
  rw [hpath] at hfile
  -- the file is one of a published message, so the identifier has no underscore
  obtain ⟨m', hm', -, hid'⟩ := h.files _ _ _ (by rw [hfile]; simp)
  have hguid : '_' ∉ id.toList := hid' ▸ (not_mem_of_guid (hcat.named m' hm').guid).2
  have hsafe := hnames
  rw [hnamed.key] at hsafe
  obtain rfl : id = m.messageId :=
    messageIdOf_of_safeKey (not_mem_of_guid hnamed.guid).symm hid hguid hsafe
  exact ⟨m, hm, hnames, rfl, hpath, hfile⟩

/-- The message of a file in a directory of a queue. -/
theorem Afloat.matched (h : Afloat published d) {queue : String} {dir : SubDir}
    {content : JsonText} (hfile : d.lookup (queuePath queue dir id) = some content) :
    ∃ m ∈ published, id = m.messageId ∧ (∀ dir', queuePath queue dir' id = filePath m dir') ∧
      d.lookup (filePath m dir) = some content := by
  obtain ⟨m, hm, hlocation, rfl⟩ := h.files _ _ _ (by rw [queuePath] at hfile; rw [hfile]; simp)
  have hpath : ∀ dir', queuePath queue dir' m.messageId = filePath m dir' := fun dir' => by
    rw [queuePath, hlocation]
  exact ⟨m, hm, rfl, hpath, hpath dir ▸ hfile⟩

/-- The envelope in the file of a message. -/
theorem Faithful.envelope (h : Faithful published d) (hcat : Catalogued published)
    (hm : m ∈ published) {dir : SubDir} {content : JsonText}
    (hfile : d.lookup (filePath m dir) = some content) :
    ∃ j attempt available, content = some j ∧ IsEnvelope m j attempt available := by
  obtain ⟨m', hm', hid, j, attempt, available, hj, henvelope⟩ := h _ _ hfile m.messageId rfl
  obtain rfl : m' = m := hcat.well.eq_of_id hm' hm hid
  exact ⟨j, attempt, available, hj, henvelope⟩

end YirangMQ.FileSystem

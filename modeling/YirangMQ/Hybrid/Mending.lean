import YirangMQ.Hybrid.Crash

namespace YirangMQ.Hybrid

/-!
# Repairs after a stop

A repair knows of a message's past only what its rows and files show.  A file whose row looks
elsewhere, or has gone, counts as an orphan and gets a ready row, whose target is empty.

* `Stray` — a payload file where the row of its message does not look for it;
* `keyStates_mended`, `row_mended` — what the repair makes of the rows of a message;
* `SafelyRepaired` — no acknowledged message is leased again, no message goes to another consumer
  than its target, and no key has two rows;
* `Mendable` — no stray file is one that the repair takes for a lost message;
* `Intact` — a call that has moved its payload together with its row;
* `safely_repaired_iff` — **a repair is safe exactly if the store is mendable**;
* `revived_by_repair` — stops after which it is not.
-/

variable {schema : SchemaFile} {now repairedAt : Int} {lastWrite : String → Option Int}
  {queue key : String} {published : List MessageEnvelope} {m : MessageEnvelope} {s : Store}
  {files : Payloads} {dir : PayloadDir}

/-! ### Files and rows of a message -/

/-- A payload file of a published message is a document. -/
theorem Filed.parseAll (h : Filed published files) : ParseAll files := by
  intro path hlookup
  obtain ⟨m, -, htext, -⟩ := h path none hlookup
  cases htext

/-- A file that is listed is one of a published message. -/
theorem Filed.message_of_listed (hwell : WellPublished published) (h : Filed published files)
    {q id : String} (hid : id ∈ listPayloadFiles files q dir) :
    ∃ m ∈ published, m.queue = q ∧ m.messageId = id := by
  obtain ⟨-, hslash, hpath⟩ := mem_listPayloadFiles.mp hid
  obtain ⟨text, htext⟩ := Option.isSome_iff_exists.mp (AList.lookup_isSome.mpr hpath)
  obtain ⟨m, hm, -, hpathOf⟩ := h _ text htext
  rcases hpathOf with ⟨dir', heq⟩ | heq
  · have hslash' : '/' ∉ m.messageId.toList := not_slash_of_guid (hwell.formed m hm).2
    obtain ⟨-, hqueue, hsame⟩ := payloadPath_inj hslash hslash' heq
    exact ⟨m, hm, hqueue.symm, hsame.symm⟩
  · exact absurd heq (payloadPath_ne_temp _ _ _ _)

/-- The identifier of a published message has no colon. -/
theorem not_colon_of_mem (hwell : WellPublished published) (hm : m ∈ published) :
    ':' ∉ m.messageId.toList :=
  fun hmem => (isGuidChar_ne ((hwell.formed m hm).2 _ hmem)).1 rfl

/-- The names of payload files are identifiers without a colon. -/
theorem Filed.plainFiles (hwell : WellPublished published) (h : Filed published files) (q : String) :
    PlainFiles files q := by
  intro dir _ id hid
  obtain ⟨m, hm, -, rfl⟩ := h.message_of_listed hwell hid
  exact not_colon_of_mem hwell hm

/-- A payload file of the message is where its row does not look for it. -/
def Stray (s : Store) (m : MessageEnvelope) (dir : PayloadDir) : Prop :=
  dir ≠ .archive ∧ s.files.lookup (payloadPath dir m.queue m.messageId) ≠ none ∧
    home s.data m.key ≠ some dir

/-- Whether a payload is stray can be computed. -/
instance : Decidable (Stray s m dir) := inferInstanceAs (Decidable (_ ∧ _ ∧ _))

/-- A published message is listed in a directory exactly when its payload lies there. -/
theorem Survived.listed_iff (h : Survived published s) (hm : m ∈ published) :
    m.messageId ∈ listPayloadFiles s.files m.queue dir ↔
      s.files.lookup (payloadPath dir m.queue m.messageId) ≠ none := by
  have hslash : '/' ∉ m.messageId.toList := not_slash_of_guid (h.well.formed m hm).2
  rw [mem_listPayloadFiles, and_iff_right (h.identified m hm), and_iff_right hslash, Ne,
    AList.lookup_eq_none, not_not]
  exact Iff.rfl

/-- A published message is indexed for a directory exactly when it is its home. -/
theorem Survived.indexed_iff (h : Survived published s) (hm : m ∈ published) :
    m.messageId ∈ indexedIds s.data m.queue (statesOf dir) ↔ home s.data m.key = some dir := by
  have hkey : messageKey m.queue m.messageId = m.key := (h.well.formed m hm).1.symm
  rw [mem_indexedIds (h.known.wellKeyed h.well), and_iff_right (not_colon_of_mem h.well hm), hkey]
  constructor
  · rintro ⟨r, hr, hsame, hstate⟩
    rw [home_of_row (hsame ▸ h.keeps.invariant.row?_of_mem hr)]
    exact homeOf_iff.mpr hstate
  · exact row_of_home

/-- The check reports the stray files. -/
theorem Survived.stray_iff (h : Survived published s) (hm : m ∈ published) :
    Stray s m dir ↔ dir ≠ .archive ∧ m.messageId ∈ listPayloadFiles s.files m.queue dir ∧
      m.messageId ∉ indexedIds s.data m.queue (statesOf dir) := by
  rw [Stray, h.listed_iff hm, h.indexed_iff hm]

/-- A stray payload is counted as one orphan. -/
theorem Survived.orphanCount_eq (h : Survived published s) (hm : m ∈ published)
    (hdir : dir ≠ .archive) [Decidable (Stray s m dir)] :
    orphanCount s.data s.files m.queue m.messageId dir = if Stray s m dir then 1 else 0 := by
  rw [Hybrid.orphanCount_eq]
  refine if_congr ?_ rfl rfl
  rw [h.stray_iff hm, and_iff_right hdir]

/-! ### Rows after the repair -/

/-- The tables after the check of the store and the repair of its report. -/
def mended (schema : SchemaFile) (now repairedAt : Int) (lastWrite : String → Option Int)
    (queue : String) (s : Store) : Tables :=
  (afterRepair schema now repairedAt lastWrite queue (s.data, s.files)).1

/-- The states of a key after a check and its repair. -/
theorem Survived.keyStates_mended (h : Survived published s) (hm : m ∈ published) :
    keyStates (mended schema now repairedAt lastWrite queue s) m.key =
      if m.queue ∈ queuesToCheck s.data s.files queue then
        (touching m.key (checkQueue now lastWrite s.data s.files m.queue)).foldl
          (repairedStates schema) (keyStates s.data m.key)
      else keyStates s.data m.key := by
  have hplain : ∀ q ∈ queuesToCheck s.data s.files queue, PlainFiles s.files q := fun q _ =>
    h.filed.plainFiles h.well q
  rw [mended, afterRepair, repairConsistency,
    keyStates_repairIssues (readable_checkConsistency h.filed.parseAll), checkConsistency, reportOf,
    (h.well.formed m hm).1]
  by_cases hq : m.queue ∈ queuesToCheck s.data s.files queue
  · rw [if_pos hq, touching_queues nodup_queuesToCheck hq hplain (not_colon_of_mem h.well hm)]
  · rw [if_neg hq, touching_queues_of_not_mem hq hplain (not_colon_of_mem h.well hm)]
    rfl

/-- A row after the repair was there before, or is the one of a stray file. -/
theorem Survived.row_mended (h : Survived published s) {r : IndexRow}
    (hr : r ∈ (mended schema now repairedAt lastWrite queue s).index) :
    (∃ r' ∈ s.data.index, r'.messageKey = r.messageKey ∧
      r'.targetConsumerId = r.targetConsumerId) ∨
    (∃ m ∈ published, m.key = r.messageKey ∧ m.queue ∈ queuesToCheck s.data s.files queue ∧
      (∃ dir, Stray s m dir)) ∧
      r.availableAt = repairedAt ∧ r.targetConsumerId = "" := by
  revert r
  apply forall_index_repairIssues
  · exact fun r horigin => ⟨horigin, horigin.imp_right fun hnew => ⟨hnew.1, rfl, hnew.2.2⟩⟩
  · intro issue hissue htype
    refine .inr ⟨?_, rfl, rfl⟩
    obtain ⟨q, hq, hmem⟩ := List.mem_flatMap.mp hissue
    rcases mem_checkQueue.mp hmem with ⟨dir, hdir, id, hin, hout, rfl⟩ | ⟨dir, -, id, -, -, rfl⟩ |
      ⟨id, -, -, rfl⟩
    · obtain ⟨m, hm, rfl, rfl⟩ := h.filed.message_of_listed h.well hin
      exact ⟨m, hm, (h.well.formed m hm).1, hq, dir, (h.stray_iff hm).mpr ⟨hdir, hin, hout⟩⟩
    · exact absurd htype (by simp [issueOf])
    · exact absurd htype (by simp [issueOf])
  · intro r hr
    exact .inl ⟨r, hr, rfl, rfl⟩

/-! ### One row for each key -/

/-- The keys of the index are distinct exactly when no key has two states. -/
theorem nodup_iff_keyStates {t : Tables} :
    (t.index.map IndexRow.messageKey).Nodup ↔ ∀ key, (keyStates t key).length ≤ 1 := by
  rw [List.nodup_iff_count_le_one]
  refine forall_congr' fun key => ?_
  rw [keyStates, List.length_map, ← List.countP_eq_length_filter, List.count, List.countP_map]
  apply iff_of_eq
  congr 2

/-- Where the key is declared, a key that has one row keeps one. -/
theorem length_foldl_declared (hdeclared : schema.declaresPrimaryKey = true)
    (types : List ConsistencyIssueType) {states : List MessageState} (hone : states.length ≤ 1) :
    (types.foldl (repairedStates schema) states).length ≤ 1 := by
  induction types generalizing states with
  | nil => exact hone
  | cons type types ih =>
    apply ih
    cases type with
    | orphanPayload =>
      show (if _ then states else states ++ [MessageState.ready]).length ≤ 1
      by_cases hnil : states = []
      · rw [if_neg fun hand => hand.2 hnil, hnil]
        exact le_refl 1
      · rw [if_pos ⟨hdeclared, hnil⟩]
        exact hone
    | missingPayload => exact (List.length_map _).trans_le hone
    | staleArchive => exact hone
    | invalidState => exact (List.length_map _).trans_le hone

/-- Where it is not, every orphan payload adds a row. -/
theorem length_foldl_undeclared (hundeclared : schema.declaresPrimaryKey = false)
    (types : List ConsistencyIssueType) (states : List MessageState) :
    (types.foldl (repairedStates schema) states).length =
      states.length + types.count .orphanPayload := by
  induction types generalizing states with
  | nil => rfl
  | cons type types ih =>
    rw [List.foldl_cons, ih]
    cases type with
    | orphanPayload =>
      have hnot : ¬(schema.declaresPrimaryKey = true ∧ states ≠ []) := by simp [hundeclared]
      rw [repairedStates, if_neg hnot, List.length_append, List.count_cons_self]
      show states.length + 1 + _ = _
      omega
    | missingPayload => simp [repairedStates]
    | staleArchive => simp [repairedStates]
    | invalidState => simp [repairedStates]

/-- The orphans among the issues of a key are the files counted. -/
theorem count_orphans {t : Tables} {q id : String} :
    (touching (messageKey q id) (checkQueue now lastWrite t files q)).count .orphanPayload =
      orphanCount t files q id .active + orphanCount t files q id .dlq := by
  obtain ⟨n, htypes, -⟩ := @touching_checkQueue now lastWrite t files q id
  rw [htypes, List.count_append, List.count_replicate_self,
    List.count_eq_zero_of_not_mem (by simp), Nat.add_zero]

/-- No key has more than one state. -/
theorem Survived.keyStates_le (h : Survived published s) (key : String) :
    (keyStates s.data key).length ≤ 1 :=
  nodup_iff_keyStates.mp h.keeps.invariant.indexKeyed key

/-- The keys of the rows are those of published messages. -/
theorem Survived.key_mended (h : Survived published s) {r : IndexRow}
    (hr : r ∈ (mended schema now repairedAt lastWrite queue s).index) :
    ∃ m ∈ published, m.key = r.messageKey := by
  rcases h.row_mended hr with ⟨r', hr', hkey, -⟩ | ⟨⟨m, hm, hkey, -⟩, -⟩
  · obtain ⟨m, hm, hsame, -⟩ := h.known.rows r' hr'
    exact ⟨m, hm, hsame.trans hkey⟩
  · exact ⟨m, hm, hkey⟩

/-- A stray file of the message is the only one, and the message has no row. -/
def Alone (s : Store) (m : MessageEnvelope) : Prop :=
  ∀ dir, Stray s m dir → s.data.row? m.key = none ∧ ∀ dir', Stray s m dir' → dir' = dir

/-- A key has no row exactly when it has no states. -/
theorem row?_eq_none_iff : s.data.row? key = none ↔ keyStates s.data key = [] := by
  rw [keyStates_eq_nil, Tables.row?, Table.row?_eq_none]

/-- The rows of a message after the repair, where the key is not declared. -/
theorem Survived.alone_iff (h : Survived published s) (hm : m ∈ published)
    (hq : m.queue ∈ queuesToCheck s.data s.files queue)
    (hundeclared : schema.declaresPrimaryKey = false) :
    (keyStates (mended schema now repairedAt lastWrite queue s) m.key).length ≤ 1 ↔ Alone s m := by
  classical
  -- The repair adds one row for each stray file, as nothing keeps it from doing so.
  have hlength : (keyStates (mended schema now repairedAt lastWrite queue s) m.key).length =
      (keyStates s.data m.key).length +
        ((if Stray s m .active then 1 else 0) + if Stray s m .dlq then 1 else 0) := by
    rw [h.keyStates_mended hm, if_pos hq, length_foldl_undeclared hundeclared,
      (h.well.formed m hm).1, count_orphans, h.orphanCount_eq hm (by decide),
      h.orphanCount_eq hm (by decide)]
  have hone := h.keyStates_le m.key
  -- Without a row there is no state of the key.
  have hnone : s.data.row? m.key = none ↔ (keyStates s.data m.key).length = 0 := by
    rw [row?_eq_none_iff, List.length_eq_zero_iff]
  have harchive : ¬Stray s m .archive := fun hstray => hstray.1 rfl
  -- Archived files are never stray, so only the other two directories matter.
  have halone : Alone s m ↔
      (Stray s m .active → (keyStates s.data m.key).length = 0 ∧ ¬Stray s m .dlq) ∧
      (Stray s m .dlq → (keyStates s.data m.key).length = 0 ∧ ¬Stray s m .active) := by
    unfold Alone
    rw [hnone]
    constructor
    · intro hall
      refine ⟨fun hstray => ⟨(hall _ hstray).1, fun hother => ?_⟩,
        fun hstray => ⟨(hall _ hstray).1, fun hother => ?_⟩⟩
      · cases (hall _ hstray).2 _ hother
      · cases (hall _ hstray).2 _ hother
    · rintro ⟨hactive, hdlq⟩ dir hstray
      cases dir with
      | active =>
        refine ⟨(hactive hstray).1, fun dir' hother => ?_⟩
        cases dir' with
        | active => rfl
        | dlq => exact absurd hother (hactive hstray).2
        | archive => exact absurd hother harchive
      | dlq =>
        refine ⟨(hdlq hstray).1, fun dir' hother => ?_⟩
        cases dir' with
        | active => exact absurd hother (hdlq hstray).2
        | dlq => rfl
        | archive => exact absurd hother harchive
      | archive => exact absurd hstray harchive
  rw [hlength, halone]
  -- The four cases: the number of rows is one at most exactly if no stray file adds a second.
  by_cases hactive : Stray s m .active
  · by_cases hdlq : Stray s m .dlq
    · rw [if_pos hactive, if_pos hdlq]
      simp [hactive, hdlq]
    · rw [if_pos hactive, if_neg hdlq]
      simp [hactive, hdlq]
  · by_cases hdlq : Stray s m .dlq
    · rw [if_neg hactive, if_pos hdlq]
      simp [hactive, hdlq]
    · rw [if_neg hactive, if_neg hdlq]
      simp [hactive, hdlq, hone]

/-- No key has two rows after the repair. -/
theorem Survived.nodup_iff (h : Survived published s) :
    ((mended schema now repairedAt lastWrite queue s).index.map IndexRow.messageKey).Nodup ↔
      (schema.declaresPrimaryKey = false → ∀ m ∈ published,
        m.queue ∈ queuesToCheck s.data s.files queue → Alone s m) := by
  rw [nodup_iff_keyStates]
  constructor
  · intro hone hundeclared m hm hq
    exact (h.alone_iff hm hq hundeclared).mp (hone m.key)
  · intro halone key
    by_cases hkey : ∃ m ∈ published, m.key = key
    · obtain ⟨m, hm, rfl⟩ := hkey
      by_cases hq : m.queue ∈ queuesToCheck s.data s.files queue
      · cases hdeclared : schema.declaresPrimaryKey with
        | false => exact (h.alone_iff hm hq hdeclared).mpr (halone hdeclared m hm hq)
        | true =>
          rw [h.keyStates_mended hm, if_pos hq]
          exact length_foldl_declared hdeclared _ (h.keyStates_le m.key)
      · rw [h.keyStates_mended hm, if_neg hq]
        exact h.keyStates_le m.key
    · have hnil : keyStates (mended schema now repairedAt lastWrite queue s) key = [] := by
        rw [keyStates_eq_nil]
        intro hmem
        obtain ⟨r, hr, hsame⟩ := List.mem_map.mp hmem
        obtain ⟨m, hm, hkey'⟩ := h.key_mended hr
        exact hkey ⟨m, hm, hkey'.trans hsame⟩
      rw [hnil]
      exact Nat.zero_le 1

/-! ### Leases after the repair -/

/-- A row of the key is among those from which `lease_next` can select for the consumer. -/
def Leasable (t : Tables) (key c : String) : Prop :=
  ∃ r ∈ t.index, r.messageKey = key ∧ ∃ queue now, Tables.isReadyFor queue c now r = true

/-- Then no row has that key. -/
theorem not_mem_of_gone (hgone : s.data.row? key = none) {r : IndexRow} (hr : r ∈ s.data.index) :
    r.messageKey ≠ key := by
  rintro rfl
  exact Table.row?_eq_none.mp hgone (List.mem_map_of_mem hr)

/-- A stray file of a message without a row makes it leasable by everyone. -/
theorem Survived.leasable_of_stray (h : Survived published s) (hm : m ∈ published)
    (hq : m.queue ∈ queuesToCheck s.data s.files queue) (hgone : s.data.row? m.key = none)
    (hstray : Stray s m dir) (c : String) :
    Leasable (mended schema now repairedAt lastWrite queue s) m.key c := by
  have hkey : m.key = messageKey m.queue m.messageId := (h.well.formed m hm).1
  obtain ⟨n, htypes, hn⟩ :=
    @touching_checkQueue now lastWrite s.data s.files m.queue m.messageId
  have hmissing : ¬Missing s.data s.files m.queue m.messageId := by
    rintro ⟨dir', -, hindexed, -⟩
    obtain ⟨r, hr, hsame, -⟩ := row_of_home ((h.indexed_iff hm).mp hindexed)
    exact not_mem_of_gone hgone hr hsame
  have horphaned : Orphaned s.data s.files m.queue m.messageId := ⟨dir, (h.stray_iff hm).mp hstray⟩
  have hcount := mt orphanCount_eq_zero.mp (not_not.mpr horphaned)
  generalize orphanCount s.data s.files m.queue m.messageId .active +
    orphanCount s.data s.files m.queue m.messageId .dlq = count at htypes hcount
  obtain ⟨k, horphans, hk⟩ := foldl_orphans schema [] count
  have hstates : keyStates (mended schema now repairedAt lastWrite queue s) m.key =
      List.replicate k .ready := by
    rw [h.keyStates_mended hm, if_pos hq, row?_eq_none_iff.mp hgone, hkey, htypes, List.foldl_append,
      horphans, foldl_missing, if_pos (hn.mpr hmissing), List.nil_append]
  have hpositive : k ≠ 0 := by
    intro hzero
    rcases hk.mp hzero with hnone | ⟨-, hnil⟩
    · exact hcount hnone
    · exact hnil rfl
  have hready : MessageState.ready ∈
      keyStates (mended schema now repairedAt lastWrite queue s) m.key := by
    rw [hstates]
    exact List.mem_replicate.mpr ⟨hpositive, rfl⟩
  obtain ⟨r, hr, hsame, hstate⟩ := mem_keyStates.mp hready
  rcases h.row_mended hr with ⟨r', hr', hold, -⟩ | ⟨-, havailable, htarget⟩
  · exact absurd (hold.trans hsame) (not_mem_of_gone hgone hr')
  · refine ⟨r, hr, hsame, r.queue, repairedAt, ?_⟩
    exact decide_eq_true ⟨rfl, hstate, havailable.le, .inl htarget⟩

/-- What the claim of a safe repair says of the tables after it. -/
structure SafelyRepaired (h : History Store CutCall (Option Reply)) (t : Tables) : Prop where
  /-- No message whose acknowledgement is committed can be leased. -/
  acked : ∀ key, AckCommitted h key → ∀ c, ¬Leasable t key c
  /-- No message with a target can be leased by another consumer. -/
  targeted : ∀ m ∈ given h, m.targetConsumerId ≠ "" → ∀ c, Leasable t m.key c →
    c = m.targetConsumerId
  /-- No key has two rows. -/
  single : (t.index.map IndexRow.messageKey).Nodup

/-- The stray files in the queues checked are those of no acknowledged message, of no message with
    a target whose row has gone, and, where the key is not declared, one of a message without a
    row. -/
structure Mendable (schema : SchemaFile) (h : History Store CutCall (Option Reply)) (queue : String)
    (s : Store) : Prop where
  acked : ∀ m ∈ given h, m.queue ∈ queuesToCheck s.data s.files queue →
    AckCommitted h m.key → ∀ dir, ¬Stray s m dir
  targeted : ∀ m ∈ given h, m.queue ∈ queuesToCheck s.data s.files queue →
    m.targetConsumerId ≠ "" → s.data.row? m.key = none → ∀ dir, ¬Stray s m dir
  single : schema.declaresPrimaryKey = false → ∀ m ∈ given h,
    m.queue ∈ queuesToCheck s.data s.files queue → Alone s m

section Repaired

variable {h : History Store CutCall (Option Reply)} (run : Run (crashing schema) Stoppable h s)
include run

/-- A safe repair finds nothing that it would spoil. -/
theorem mendable_of_safe
    (hsafe : SafelyRepaired h (mended schema now repairedAt lastWrite queue s)) :
    Mendable schema h queue s := by
  have hsurvived := survived_of_run run
  constructor
  · intro m hm hq hacked dir hstray
    have hgone := (acked_gone run hacked).1
    exact hsafe.acked m.key hacked "" (hsurvived.leasable_of_stray hm hq hgone hstray "")
  · intro m hm hq htarget hgone dir hstray
    have hempty : "" = m.targetConsumerId :=
      hsafe.targeted m hm htarget "" (hsurvived.leasable_of_stray hm hq hgone hstray "")
    exact htarget hempty.symm
  · exact hsurvived.nodup_iff.mp hsafe.single

/-- The row of a message with a target, where the repair has made no other. -/
theorem target_of_row (hnodup : ((mended schema now repairedAt lastWrite queue s).index.map
      IndexRow.messageKey).Nodup) {m : MessageEnvelope} (hm : m ∈ given h) {r r' : IndexRow}
    (hr : r ∈ (mended schema now repairedAt lastWrite queue s).index) (hkey : r.messageKey = m.key)
    (hr' : r' ∈ s.data.index) (hkey' : r'.messageKey = m.key) :
    r.targetConsumerId = m.targetConsumerId := by
  have hsurvived := survived_of_run run
  obtain ⟨j, -, m', hm', hdescribes, -⟩ := hsurvived.content r' hr'
  obtain rfl : m' = m := hsurvived.well.eq_of_key hm' hm (hdescribes.key.symm.trans hkey')
  -- the old row is still there
  obtain ⟨r'', hr'', hkey'', htarget⟩ := @exists_index_repairIssues schema repairedAt
    (checkConsistency now lastWrite s.data s.files queue).issues (s.data, s.files)
    (fun r => r.messageKey = m'.key ∧ r.targetConsumerId = m'.targetConsumerId)
    (fun _ hsame => ⟨hsame, hsame⟩) ⟨r', hr', hkey', hdescribes.target⟩
  obtain rfl : r = r'' := List.inj_on_of_nodup_map hnodup hr hr'' (hkey.trans hkey''.symm)
  exact htarget

/-- **A repair that finds nothing it would spoil is safe.** -/
theorem safe_of_mendable (hmendable : Mendable schema h queue s) :
    SafelyRepaired h (mended schema now repairedAt lastWrite queue s) := by
  have hsurvived := survived_of_run run
  have hnodup : ((mended schema now repairedAt lastWrite queue s).index.map
      IndexRow.messageKey).Nodup := hsurvived.nodup_iff.mpr hmendable.single
  refine ⟨?_, ?_, hnodup⟩
  · rintro key hacked c ⟨r, hr, rfl, -⟩
    have hgone := (acked_gone run hacked).1
    rcases hsurvived.row_mended hr with ⟨r', hr', hkey, -⟩ | ⟨⟨m, hm, hkey, hq, dir, hstray⟩, -⟩
    · exact not_mem_of_gone hgone hr' hkey
    · exact hmendable.acked m hm hq (hkey ▸ hacked) dir hstray
  · rintro m hm htarget c ⟨r, hr, hkey, queue', now', hready⟩
    have hold : ∀ r' ∈ s.data.index, r'.messageKey = m.key →
        r.targetConsumerId = m.targetConsumerId := fun r' hr' hkey' =>
      target_of_row run hnodup hm hr hkey hr' hkey'
    have hsame : r.targetConsumerId = m.targetConsumerId := by
      rcases hsurvived.row_mended hr with ⟨r', hr', hkey', -⟩ |
        ⟨⟨m', hm', hkey', hq, dir, hstray⟩, -⟩
      · exact hold r' hr' (hkey'.trans hkey)
      · obtain rfl : m' = m := hsurvived.well.eq_of_key hm' hm (hkey'.trans hkey)
        cases hrow : s.data.row? m'.key with
        | none => exact absurd hstray (hmendable.targeted m' hm hq htarget hrow dir)
        | some r' => exact hold r' (Table.row?_mem hrow) (Table.row?_key hrow)
    have hfor := (of_decide_eq_true hready).2.2.2
    rw [hsame] at hfor
    exact (hfor.resolve_left htarget).symm

end Repaired

/-! ### Runs that leave no stray file -/

/-- The call, stopped or not, spares dead rows, and has moved payload files exactly if it has
    changed the rows. -/
structure Intact (schema : SchemaFile) (s : Store) (i : CutCall) : Prop where
  spares : Spares i.call s.data
  kept : (afterCut schema s i).data = s.data → ∀ dir queue id, dir ≠ .archive →
    (afterCut schema s i).files.lookup (payloadPath dir queue id) =
      s.files.lookup (payloadPath dir queue id)
  moved : (afterCut schema s i).data ≠ s.data → ∀ dir queue id, dir ≠ .archive →
    (afterCut schema s i).files.lookup (payloadPath dir queue id) =
      (filesAfter i.call s.data s.files).lookup (payloadPath dir queue id)

/-- No payload lies at the paths of a message that is new. -/
theorem Filed.fresh (hwell : WellPublished published) (h : Filed published files)
    (hfresh : (Call.enqueue m).Fresh published) (dir : PayloadDir) :
    files.lookup (payloadPath dir m.queue m.messageId) = none := by
  by_contra hfile
  obtain ⟨text, htext⟩ := Option.ne_none_iff_exists'.mp hfile
  obtain ⟨m', hm', -, hpath⟩ := h _ _ htext
  exact hpath.not_fresh hwell hm' hfresh

/-- A message that is about to be published has no row and no file. -/
theorem Survived.widen (h : Survived published s) (hhomed : Homed published s.data s.files)
    {call : Call} (hfresh : call.Fresh published) :
    Homed (call.publishing published) s.data s.files := by
  cases call with
  | enqueue m =>
    have hgone : home s.data m.key = none := by
      rw [home]
      cases hrow : s.data.row? m.key with
      | none => rfl
      | some r =>
        obtain ⟨m', hm', hkey, -⟩ := h.known.rows r (Table.row?_mem hrow)
        have hsame : m'.key = m.key := hkey.trans (Table.row?_key hrow)
        exact absurd hfresh (h.well.not_fresh (hsame ▸ List.mem_map_of_mem hm'))
    constructor
    intro m' hm' dir hdir
    rcases List.mem_cons.mp hm' with rfl | hold
    · rw [h.filed.fresh h.well hfresh, hgone]
      rfl
    · exact hhomed.homes m' hold dir hdir
  | _ => exact hhomed

/-- An intact call keeps every payload where its row says. -/
theorem Homed.afterCut (hsurvived : Survived published s) (h : Homed published s.data s.files)
    {i : CutCall} (hfresh : i.call.Fresh published) (hintact : Intact schema s i) :
    Homed (i.call.publishing published) (afterCut schema s i).data (afterCut schema s i).files := by
  by_cases hsame : (Hybrid.afterCut schema s i).data = s.data
  · have hwider := hsurvived.widen h hfresh
    rw [hsame]
    exact hwider.same (fun _ => rfl) fun m _ dir hdir => hintact.kept hsame dir _ _ hdir
  · obtain ⟨faults, hafter⟩ := @afterCut_eq schema s hsurvived.keeps.saved i
    have hperforms := (@perform_performs True schema { i.env with faults } s hsurvived.keeps.saved
      (.inl trivial) i.call).2
    rw [← hafter] at hperforms
    rcases hperforms with ⟨-, hrefused, -⟩ | heffect
    · exact absurd hrefused hsame
    · have hnone : ∀ m, i.call = .enqueue m → ∀ dir,
          s.files.lookup (payloadPath dir m.queue m.messageId) = none := by
        intro m hcall dir
        exact hsurvived.filed.fresh hsurvived.well (hcall ▸ hfresh) dir
      have hhomed := h.effect hsurvived.well hsurvived.keeps.invariant hsurvived.known hfresh hnone
        hintact.spares heffect
      exact hhomed.same (fun _ => rfl) fun m _ dir hdir => hintact.moved hsame dir _ _ hdir

/-- After a run whose steps are intact the payloads are at home. -/
theorem homed_of_intact {h : History Store CutCall (Option Reply)}
    (run : Run (crashing schema) Stoppable h s)
    (hintact : ∀ r ∈ h, Intact schema r.before r.input) : Homed (given h) s.data s.files := by
  induction run with
  | start => exact ⟨fun m hm => nomatch hm⟩
  | @step h s i run ok ih =>
    rw [List.forall_mem_cons] at hintact
    exact (ih hintact.2).afterCut (survived_of_run run) ok.fresh hintact.1

/-- A payload at home is not stray. -/
theorem Homed.not_stray (h : Homed published s.data s.files) (hm : m ∈ published) :
    ¬Stray s m dir := by
  rintro ⟨hdir, hfile, hhome⟩
  rw [h.homes m hm dir hdir, if_neg hhome] at hfile
  exact hfile rfl

/-- Where the payloads are at home there is nothing to spoil. -/
theorem Homed.mendable {h : History Store CutCall (Option Reply)}
    (hhomed : Homed (given h) s.data s.files) : Mendable schema h queue s where
  acked _ hm _ _ _ := hhomed.not_stray hm
  targeted _ hm _ _ _ _ := hhomed.not_stray hm
  single _ _ hm _ _ hstray := absurd hstray (hhomed.not_stray hm)

/-- **After a run with stops and failures the check and its repair are safe exactly if no stray file
    is one the repair takes for a lost message**; so they are where every call has moved its
    payload together with its row. -/
theorem safely_repaired_iff {h : History Store CutCall (Option Reply)}
    (run : Run (crashing schema) Stoppable h s) :
    ∀ now repairedAt lastWrite queue, Checkable (given h) queue →
      (SafelyRepaired h (mended schema now repairedAt lastWrite queue s) ↔
        Mendable schema h queue s) ∧
      ((∀ r ∈ h, Intact schema r.before r.input) →
        SafelyRepaired h (mended schema now repairedAt lastWrite queue s)) := by
  intro now repairedAt lastWrite queue _
  constructor
  · exact ⟨mendable_of_safe run, safe_of_mendable run⟩
  · intro hintact
    exact safe_of_mendable run (homed_of_intact run hintact).mendable

section Example

/-- A row that is selected makes its key leasable. -/
theorem leasable_of_readyRow {t : Tables} {c : String}
    (hready : (t.readyRow? schema queue c now).isSome = true)
    (hkeys : ∀ r ∈ t.index, r.messageKey = key) : Leasable t key c := by
  obtain ⟨row, hrow⟩ := Option.isSome_iff_exists.mp hready
  obtain ⟨hmem, hcond⟩ := Tables.readyRow?_some hrow
  exact ⟨row, hmem, hkeys row hmem, queue, now, hcond⟩

/-- A call of names may be stopped anywhere. -/
theorem Stoppable.of_names {h : History Store CutCall (Option Reply)} {i : CutCall}
    (hplain : i.call.Plain) (hfresh : i.call.Fresh (given h))
    (hnames : ∀ m ∈ i.call.publishing (given h), m.messageId ≠ "" ∧ IsName m.queue) :
    Stoppable h s i where
  plain := hplain
  fresh := hfresh
  identified m hm := (hnames m hm).1
  apart := apart_of_names fun m hm => (hnames m hm).2

/-- An `enqueue` stopped before its commit leaves a stray file, and the repair makes a row of it. -/
theorem safely_repaired_iff_letter :
    let M := crashing .backendAdapter
    let r := M.stepAt M.start ⟨⟨1, Int.one_pos, "", []⟩, .enqueue letter, some 6⟩
    let t := mended .backendAdapter 3 4 (fun _ => none) "" r.after
    SafelyRepaired [r] t ∧ r.after.data.index = [] ∧ keyStates t "msg:q:a" = [.ready] := by
  intro M r t
  have hnames : ∀ m ∈ [letter], m.messageId ≠ "" ∧ IsName m.queue :=
    List.forall_mem_singleton.mpr (by decide)
  have hrows : r.after.data.index = [] ∧ keyStates t "msg:q:a" = [.ready] := by decide +kernel
  have hactive : ∀ dir, Stray r.after letter dir → dir = .active := by
    have hdlq : ¬Stray r.after letter .dlq := by decide +kernel
    intro dir hstray
    cases dir with
    | active => rfl
    | archive => exact absurd rfl hstray.1
    | dlq => exact absurd hstray hdlq
  have run : Run M Stoppable [r] r.after :=
    Run.start.stepAt _ (Stoppable.of_names (by decide) (by decide) hnames)
  refine ⟨?_, hrows⟩
  refine (safely_repaired_iff run 3 4 (fun _ => none) "" (.inl rfl)).1.mpr ?_
  constructor
  · rintro m - - ⟨r', hr', lease, hcall, -⟩
    obtain rfl := List.mem_singleton.mp hr'
    cases hcall
  · intro m hm _ htarget
    obtain rfl := List.mem_singleton.mp hm
    exact absurd rfl htarget
  · intro _ m hm _ dir hstray
    obtain rfl := List.mem_singleton.mp hm
    refine ⟨?_, fun dir' hother => (hactive dir' hother).trans (hactive dir hstray).symm⟩
    rw [row?_eq_none_iff, keyStates, hrows.1]
    rfl

/-- An `ack` is stopped after its commit and before it moves the payload, and the message is leased
    again; an `enqueue` is stopped before its commit, and the message goes to another consumer than
    its target; a `nack` is stopped after it has moved the payload and before its commit, and where
    the key is not declared, it has two rows. -/
theorem revived_by_repair :
    let env : Env := ⟨1, Int.one_pos, "", []⟩
    let lease : LeaseToken := ⟨"", "msg:q:a", "c", 30001⟩
    (let M := crashing .mainMq
      let r₁ := M.stepAt M.start ⟨env, .enqueue letter, none⟩
      let r₂ := M.stepAt r₁.after ⟨env, .leaseNext "q" "c" 30, none⟩
      let r₃ := M.stepAt r₂.after ⟨env, .ack lease, some 5⟩
      let t := mended .mainMq 3 4 (fun _ => none) "" r₃.after
      Run M Stoppable [r₃, r₂, r₁] r₃.after ∧ AckCommitted [r₃, r₂, r₁] "msg:q:a" ∧
        ¬SafelyRepaired [r₃, r₂, r₁] t ∧ (t.readyRow? .mainMq "q" "c" 4).isSome) ∧
    (let M := crashing .mainMq
      let targeted : MessageEnvelope := { letter with targetConsumerId := "c" }
      let r := M.stepAt M.start ⟨env, .enqueue targeted, some 6⟩
      let t := mended .mainMq 3 4 (fun _ => none) "" r.after
      Run M Stoppable [r] r.after ∧ ¬SafelyRepaired [r] t ∧ (t.readyRow? .mainMq "q" "other" 4).isSome) ∧
    (let M := crashing .backendAdapter
      let r₁ := M.stepAt M.start ⟨env, .enqueue letter, none⟩
      let r₂ := M.stepAt r₁.after ⟨env, .leaseNext "q" "c" 30, none⟩
      let r₃ := M.stepAt r₂.after ⟨env, .nack lease "bad" false, some 5⟩
      let t := mended .backendAdapter 3 4 (fun _ => none) "" r₃.after
      Run M Stoppable [r₃, r₂, r₁] r₃.after ∧ ¬SafelyRepaired [r₃, r₂, r₁] t ∧
        t.index.map IndexRow.messageKey = ["msg:q:a", "msg:q:a"]) := by
  intro env lease
  have hnames : ∀ m ∈ [letter], m.messageId ≠ "" ∧ IsName m.queue :=
    List.forall_mem_singleton.mpr (by decide)
  refine ⟨?_, ?_, ?_⟩
  -- An acknowledgement stopped before the payload was archived.
  · intro M r₁ r₂ r₃ t
    have hready : (t.readyRow? .mainMq "q" "c" 4).isSome = true := by decide +kernel
    have hacked : r₂.after.data.row? "msg:q:a" ≠ none ∧ r₃.after.data.row? "msg:q:a" = none := by
      decide +kernel
    have hcommitted : AckCommitted [r₃, r₂, r₁] "msg:q:a" :=
      ⟨r₃, List.mem_cons_self, lease, rfl, rfl, hacked.1, hacked.2⟩
    have run₁ : Run M Stoppable [r₁] r₁.after :=
      Run.start.stepAt _ (Stoppable.of_names (by decide) (by decide) hnames)
    have run₂ : Run M Stoppable [r₂, r₁] r₂.after :=
      run₁.stepAt _ (Stoppable.of_names (by decide) trivial hnames)
    have run₃ : Run M Stoppable [r₃, r₂, r₁] r₃.after :=
      run₂.stepAt _ (Stoppable.of_names (by decide) trivial hnames)
    have hleasable : Leasable t "msg:q:a" "c" := leasable_of_readyRow hready (by decide +kernel)
    exact ⟨run₃, hcommitted, fun hsafe => hsafe.acked _ hcommitted "c" hleasable, hready⟩
  -- A publication stopped before its commit: the target is lost with the row.
  · intro M targeted r t
    have hready : (t.readyRow? .mainMq "q" "other" 4).isSome = true := by decide +kernel
    have hnames : ∀ m ∈ [targeted], m.messageId ≠ "" ∧ IsName m.queue :=
      List.forall_mem_singleton.mpr (by decide)
    have run : Run M Stoppable [r] r.after :=
      Run.start.stepAt _ (Stoppable.of_names (by decide) (by decide) hnames)
    have hleasable : Leasable t "msg:q:a" "other" :=
      leasable_of_readyRow hready (by decide +kernel)
    refine ⟨run, fun hsafe => ?_, hready⟩
    have hsame : "other" = "c" :=
      hsafe.targeted targeted (List.mem_singleton_self _) (by decide) "other" hleasable
    exact absurd hsame (by decide)
  -- A dead letter moved but not committed, in the schema without a primary key.
  · intro M r₁ r₂ r₃ t
    have htwo : t.index.map IndexRow.messageKey = ["msg:q:a", "msg:q:a"] := by decide +kernel
    have run₁ : Run M Stoppable [r₁] r₁.after :=
      Run.start.stepAt _ (Stoppable.of_names (by decide) (by decide) hnames)
    have run₂ : Run M Stoppable [r₂, r₁] r₂.after :=
      run₁.stepAt _ (Stoppable.of_names (by decide) trivial hnames)
    have run₃ : Run M Stoppable [r₃, r₂, r₁] r₃.after :=
      run₂.stepAt _ (Stoppable.of_names (by decide) trivial hnames)
    refine ⟨run₃, fun hsafe => ?_, htwo⟩
    have hnodup := hsafe.single
    rw [htwo] at hnodup
    exact absurd hnodup (by decide)

end Example

end YirangMQ.Hybrid

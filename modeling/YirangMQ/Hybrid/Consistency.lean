import YirangMQ.Hybrid.Payloads
import YirangMQ.Hybrid.Statements
import YirangMQ.Library.Paths

namespace YirangMQ

/-- What `check_consistency` reports. -/
structure ConsistencyReport where
  orphanPayloads : Nat
  missingPayloads : Nat
  invalidStates : Nat := 0
  staleArchives : Nat
  issues : List ConsistencyIssue
  deriving DecidableEq, Repr

namespace Hybrid

/-!
# Check and repair

`check_consistency` compares the rows of a queue with its payload files, and `repair_consistency`
goes through the issues it reports.  No statement and no file operation fails here, so that the
check skips no queue.  The statements take the queue strings and keys as values, and a directory is
found by its text: that is what the code does where the strings are plain and the queue strings
lead to directories of their own, as names do.

* `listPayloadFiles`, `indexedIds` — what is compared;
* `checkQueue`, `checkConsistency` — the issues;
* `Orderly` — the tables and directories whose strings are taken for what they are;
* `repairIssue`, `repairConsistency` — the repair;
* `mem_listPayloadFiles` — the identifiers listed are those of the files;
* `stale_archive_iff` — **an archived payload is reported and deleted at the right age exactly when
  the epochs of the two clocks do not lead to another answer**;
* `fresh_archive_deleted` — an archive that is deleted right away.
-/

/-! ### The check -/

/-- The directory of a queue's payload files. -/
def payloadDirectory (queue : String) (dir : PayloadDir) : String :=
  "./data/payloads/" ++ queue ++ "/" ++ dir.name ++ "/"

/-- The identifier a file of a directory is listed with. -/
def listedId (directory path : String) : Option String :=
  if directory.toList.isPrefixOf path.toList then
    let name := path.toList.drop directory.length
    if '/' ∉ name ∧ 5 < name.length ∧ ".json".toList.isSuffixOf name then
      some (String.ofList (name.take (name.length - 5)))
    else none
  else none

/-- `list_payload_files` -/
def listPayloadFiles (files : Payloads) (queue : String) (dir : PayloadDir) : List String :=
  files.keys.filterMap (listedId (payloadDirectory queue dir))

/-- The identifiers of the rows of a queue in some states. -/
def indexedIds (t : Tables) (queue : String) (states : List MessageState) : List String :=
  (t.index.filter fun r => r.queue = queue ∧ r.state ∈ states).map fun r =>
    extractMessageIdFromKey r.messageKey

/-- The states whose payload is in `active/`. -/
def activeStates : List MessageState := [.ready, .inflight, .delayed]

/-- The first name of a path under the payload root that leads into a directory; slashes in a row
    count as one. -/
def firstName (path : String) : Option String :=
  if "./data/payloads/".toList.isPrefixOf path.toList then
    let rest := (path.toList.drop "./data/payloads/".length).dropWhile (· = '/')
    if '/' ∈ rest then some (String.ofList (rest.takeWhile (· ≠ '/'))) else none
  else none

/-- The directories in the payload root.  Neither the root nor the directory above it is an entry of
    it. -/
def payloadQueues (files : Payloads) : List String :=
  (files.keys.filterMap firstName).filter fun queue => queue ≠ "." ∧ queue ≠ ".."

/-- `get_all_queues` -/
def getAllQueues (t : Tables) (files : Payloads) : List String :=
  let indexed := (t.index.map IndexRow.queue).dedup.filter (· ≠ "")
  indexed ++ (payloadQueues files).dedup.filter (· ∉ indexed)

/-- The queue asked for, or all queues. -/
def queuesToCheck (t : Tables) (files : Payloads) (queue : String) : List String :=
  if queue = "" then getAllQueues t files else [queue]

/-- An issue about the file of an identifier. -/
def issueOf (type : ConsistencyIssueType) (queue : String) (dir : PayloadDir) (id : String) :
    ConsistencyIssue :=
  ⟨type, queue, messageKey queue id, payloadPath dir queue id⟩

/-- Seven days. -/
def retentionMs : Int := 604800000

/-- The difference of the two clocks' readings exceeds the retention.  A file whose time cannot be
    read is not stale. -/
def isStale (now : Int) (lastWrite : Option Int) : Bool :=
  lastWrite.any fun fileTime => retentionMs < now - fileTime

/-- The body of the loop of `check_consistency`; `lastWrite` is read on the clock of the files. -/
def checkQueue (now : Int) (lastWrite : String → Option Int) (t : Tables) (files : Payloads)
    (queue : String) : List ConsistencyIssue :=
  let indexedActive := indexedIds t queue activeStates
  let indexedDlq := indexedIds t queue [.dlq]
  let activeFiles := listPayloadFiles files queue .active
  let dlqFiles := listPayloadFiles files queue .dlq
  (activeFiles.filter (· ∉ indexedActive)).map (issueOf .orphanPayload queue .active) ++
  (dlqFiles.filter (· ∉ indexedDlq)).map (issueOf .orphanPayload queue .dlq) ++
  (indexedActive.filter (· ∉ activeFiles)).map (issueOf .missingPayload queue .active) ++
  (indexedDlq.filter (· ∉ dlqFiles)).map (issueOf .missingPayload queue .dlq) ++
  ((listPayloadFiles files queue .archive).filter
    (fun id => isStale now (lastWrite (buildArchivePath queue id)))).map
      (issueOf .staleArchive queue .archive)

/-- The report of the issues found. -/
def reportOf (issues : List ConsistencyIssue) : ConsistencyReport where
  orphanPayloads := issues.countP (·.type = .orphanPayload)
  missingPayloads := issues.countP (·.type = .missingPayload)
  staleArchives := issues.countP (·.type = .staleArchive)
  issues

/-- `check_consistency`, of a queue or of all queues -/
def checkConsistency (now : Int) (lastWrite : String → Option Int) (t : Tables) (files : Payloads)
    (queue : String) : ConsistencyReport :=
  reportOf ((queuesToCheck t files queue).flatMap (checkQueue now lastWrite t files))

/-- The payload root holds directories of queues with files in them, the strings spliced into the
    statements stand there as they are, and the queues checked are such directories. -/
structure Orderly (t : Tables) (files : Payloads) (queue : String) : Prop where
  paths : ∀ path ∈ files.keys, IsPlain path ∧ ∃ q dir name, IsName q ∧ IsName name ∧
    path = payloadDirectory q dir ++ name
  rows : ∀ r ∈ t.index, IsPlain r.queue ∧ IsPlain r.messageKey
  queues : ∀ q ∈ queuesToCheck t files queue, IsName q ∧ IsPlain q

/-! ### The repair -/

/-- `INSERT OR IGNORE` -/
def orIgnore (f : Tables → Except String (Unit × Tables)) (t : Tables) : Tables :=
  match f t with
  | .ok (_, t') => t'
  | .error _ => t

/-- The row an orphan payload gets. -/
def repairedRow (issue : ConsistencyIssue) (now : Int) : IndexRow where
  queue := issue.queue
  state := .ready
  priority := 0
  availableAt := now
  attempt := 0
  messageKey := issue.messageKey

/-- One issue of `repair_consistency`, with whether it counts as repaired. -/
def repairIssue (schema : SchemaFile) (now : Int) (s : Tables × Payloads)
    (issue : ConsistencyIssue) : Bool × Tables × Payloads :=
  let (t, files) := s
  match issue.type with
  | .orphanPayload =>
    match files.lookup issue.payloadPath with
    | some (some _) =>
      let envelope := Operation.repairedEnvelopeJson issue now
      let t := orIgnore (Tables.insertKv ⟨issue.messageKey, some envelope, "message", now, now⟩) t
      (true, orIgnore (Tables.insertIndex schema (repairedRow issue now)) t, files)
    | _ => (false, t, files)
  | .missingPayload =>
    (true, t.updateIndex (fun r => r.messageKey = issue.messageKey) (fun r =>
      { r with state := .dlq, dlqReason := some "missing_payload", dlqAt := some now }), files)
  | .staleArchive =>
    ((files.lookup issue.payloadPath).isSome, t, files.erase issue.payloadPath)
  | .invalidState =>
    (true, t.updateIndex (fun r => r.messageKey = issue.messageKey) (fun r =>
      { r with state := .ready, availableAt := now }), files)

/-- The loop of `repair_consistency`. -/
def repairIssues (schema : SchemaFile) (now : Int) :
    List ConsistencyIssue → Tables × Payloads → Nat × Tables × Payloads
  | [], s => (0, s)
  | issue :: issues, s =>
    let (repaired, s) := repairIssue schema now s issue
    let (count, s) := repairIssues schema now issues s
    (count + repaired.toNat, s)

/-- `repair_consistency`, with the number of issues repaired -/
def repairConsistency (schema : SchemaFile) (now : Int) (report : ConsistencyReport)
    (s : Tables × Payloads) : Nat × Tables × Payloads :=
  repairIssues schema now report.issues s

/-! ### Listed files -/

/-- The characters of a path, from the root to the extension. -/
theorem toList_directory (root queue dir id extension : String) :
    (root ++ queue ++ "/" ++ dir ++ "/" ++ (id ++ extension)).toList = root.toList ++
      ((queue.toList ++ '/' :: dir.toList) ++ '/' :: (id.toList ++ extension.toList)) := by
  have hslash : "/".toList = ['/'] := rfl
  simp only [String.toList_append, hslash, List.append_assoc, List.cons_append, List.nil_append]

/-- The path of a payload file in its directory. -/
theorem payloadPath_eq (queue : String) (dir : PayloadDir) (id : String) :
    payloadPath dir queue id = payloadDirectory queue dir ++ (id ++ ".json") := by
  have hright := toList_directory "./data/payloads/" queue dir.name id ".json"
  exact String.toList_inj.mp ((toList_payloadPath dir queue id).trans hright.symm)

/-- A file of a directory is listed with what comes before its extension. -/
theorem listedId_eq_some_iff {directory path id : String} :
    listedId directory path = some id ↔
      path = directory ++ (id ++ ".json") ∧ id ≠ "" ∧ '/' ∉ id.toList := by
  have hlength : (".json".toList).length = 5 := rfl
  have hextension : '/' ∉ ".json".toList := by decide
  constructor
  -- From left to right: the path starts with the directory, and its last five characters are the
  -- extension.
  · intro h
    unfold listedId at h
    split at h
    case isFalse => cases h
    case isTrue hprefix =>
      obtain ⟨name, hpath⟩ := List.isPrefixOf_iff_prefix.mp hprefix
      have hname : path.toList.drop directory.length = name := by
        rw [← hpath, ← String.length_toList, List.drop_left]
      rw [hname] at h
      dsimp only at h
      split at h
      case isFalse => cases h
      case isTrue hcond =>
        obtain ⟨hslash, hlong, hsuffix⟩ := hcond
        obtain ⟨front, hfront⟩ := List.isSuffixOf_iff_suffix.mp hsuffix
        -- What is left of the name without the extension is the identifier.
        have htake : name.take (name.length - 5) = front := by
          have hlen : name.length - 5 = front.length := by
            rw [← hfront, List.length_append, hlength]
            omega
          rw [hlen, ← hfront, List.take_left]
        rw [htake, Option.some.injEq] at h
        have hid : id.toList = front := by rw [← h, String.toList_ofList]
        refine ⟨?_, ?_, ?_⟩
        · apply String.toList_inj.mp
          rw [String.toList_append, String.toList_append, hid, hfront, hpath]
        · rintro rfl
          have hnil : front = [] := hid.symm
          rw [← hfront, hnil, List.nil_append, hlength] at hlong
          omega
        · intro hmem
          apply hslash
          rw [← hfront]
          exact List.mem_append_left _ (hid ▸ hmem)
  -- From right to left: the identifier is read back off the path that is built from it.
  · rintro ⟨rfl, hne, hslash⟩
    have hdrop : (directory ++ (id ++ ".json")).toList.drop directory.length =
        id.toList ++ ".json".toList := by
      rw [String.toList_append, ← String.length_toList, List.drop_left, String.toList_append]
    have hpos : 0 < id.toList.length := by
      apply List.length_pos_iff.mpr
      intro hnil
      exact hne (String.toList_inj.mp hnil)
    have hprefix : directory.toList.isPrefixOf (directory ++ (id ++ ".json")).toList = true := by
      rw [List.isPrefixOf_iff_prefix, String.toList_append]
      exact List.prefix_append _ _
    have hsuffix : ".json".toList.isSuffixOf (id.toList ++ ".json".toList) = true := by
      rw [List.isSuffixOf_iff_suffix]
      exact List.suffix_append _ _
    have hnot : '/' ∉ id.toList ++ ".json".toList := by
      rw [List.mem_append]
      exact fun hor => hor.elim hslash hextension
    have hlong : 5 < (id.toList ++ ".json".toList).length := by
      rw [List.length_append, hlength]
      omega
    have htake : (id.toList ++ ".json".toList).take
        ((id.toList ++ ".json".toList).length - 5) = id.toList := by
      rw [List.length_append, hlength, Nat.add_sub_cancel, List.take_left]
    rw [listedId, if_pos hprefix, hdrop]
    dsimp only
    rw [if_pos ⟨hnot, hlong, hsuffix⟩, htake, String.ofList_toList]

/-- The identifiers listed are those of the files. -/
theorem mem_listPayloadFiles {files : Payloads} {queue : String} {dir : PayloadDir} {id : String} :
    id ∈ listPayloadFiles files queue dir ↔
      id ≠ "" ∧ '/' ∉ id.toList ∧ payloadPath dir queue id ∈ files.keys := by
  rw [listPayloadFiles, List.mem_filterMap, payloadPath_eq]
  constructor
  · rintro ⟨path, hpath, hid⟩
    obtain ⟨rfl, hne, hslash⟩ := listedId_eq_some_iff.mp hid
    exact ⟨hne, hslash, hpath⟩
  · rintro ⟨hne, hslash, hpath⟩
    exact ⟨_, hpath, listedId_eq_some_iff.mpr ⟨rfl, hne, hslash⟩⟩

/-! ### Issues and their repair -/

variable {now : Int} {lastWrite : String → Option Int} {t : Tables} {files : Payloads}
  {queue q id : String} {issue : ConsistencyIssue}

/-- The stale archives among the issues. -/
theorem mem_checkQueue_stale (htype : issue.type = .staleArchive) :
    issue ∈ checkQueue now lastWrite t files q ↔
      ∃ id ∈ listPayloadFiles files q .archive,
        isStale now (lastWrite (buildArchivePath q id)) = true ∧
        issue = issueOf .staleArchive q .archive id := by
  have hother : ∀ (type : ConsistencyIssueType) (dir : PayloadDir) (ids : List String),
      type ≠ .staleArchive → issue ∉ ids.map (issueOf type q dir) := by
    intro type dir ids hne hmem
    obtain ⟨id, -, rfl⟩ := List.mem_map.mp hmem
    exact hne htype
  have horphan := fun dir ids => hother .orphanPayload dir ids (by decide)
  have hmissing := fun dir ids => hother .missingPayload dir ids (by decide)
  rw [checkQueue]
  simp only [List.mem_append, horphan, hmissing, false_or, List.mem_map, List.mem_filter]
  constructor
  · rintro ⟨id, ⟨hid, hstale⟩, rfl⟩
    exact ⟨id, hid, hstale, rfl⟩
  · rintro ⟨id, hid, hstale, rfl⟩
    exact ⟨id, ⟨hid, hstale⟩, rfl⟩

/-- The stale archives a report names at a path. -/
theorem stale_of_path (hid : '/' ∉ id.toList) (htype : issue.type = .staleArchive)
    (hpath : issue.payloadPath = buildArchivePath q id)
    (hissue : issue ∈ (checkConsistency now lastWrite t files queue).issues) :
    issue = issueOf .staleArchive q .archive id ∧
      isStale now (lastWrite (buildArchivePath q id)) = true := by
  obtain ⟨q', -, hmem⟩ := List.mem_flatMap.mp hissue
  obtain ⟨id', hlisted, hstale, rfl⟩ := (mem_checkQueue_stale htype).mp hmem
  have hid' := (mem_listPayloadFiles.mp hlisted).2.1
  have hsame : payloadPath .archive q' id' = payloadPath .archive q id := hpath
  obtain ⟨-, rfl, rfl⟩ := payloadPath_inj hid' hid hsame
  exact ⟨rfl, hstale⟩

/-- Only a stale archive loses its file. -/
theorem lookup_repairIssue (schema : SchemaFile) (now : Int) (s : Tables × Payloads)
    (issue : ConsistencyIssue) (path : String) :
    (repairIssue schema now s issue).2.2.lookup path =
      if issue.type = .staleArchive ∧ issue.payloadPath = path then none
      else s.2.lookup path := by
  unfold repairIssue
  cases htype : issue.type with
  | orphanPayload =>
    dsimp only
    split
    case h_1 => simp
    case h_2 => simp
  | missingPayload => simp
  | invalidState => simp
  | staleArchive =>
    show (s.2.erase issue.payloadPath).lookup path = _
    rw [Files.lookup_erase']
    by_cases hpath : path = issue.payloadPath
    · rw [if_pos hpath, if_pos ⟨rfl, hpath.symm⟩]
    · rw [if_neg hpath, if_neg (fun hand => hpath hand.2.symm)]

/-- A repair removes the files of stale archives, and no others. -/
theorem lookup_repairIssues (schema : SchemaFile) (now : Int) (issues : List ConsistencyIssue)
    (s : Tables × Payloads) (path : String) :
    (repairIssues schema now issues s).2.2.lookup path =
      if ∃ issue ∈ issues, issue.type = .staleArchive ∧ issue.payloadPath = path then none
      else s.2.lookup path := by
  induction issues generalizing s with
  | nil => simp [repairIssues]
  | cons issue issues ih =>
    show (repairIssues schema now issues (repairIssue schema now s issue).2).2.2.lookup path = _
    rw [ih, lookup_repairIssue]
    simp only [List.mem_cons, exists_eq_or_imp]
    by_cases hrest : ∃ issue ∈ issues, issue.type = .staleArchive ∧ issue.payloadPath = path
    · rw [if_pos hrest, if_pos (.inr hrest)]
    · simp only [if_neg hrest, or_iff_left hrest]

/-- The archived payload was last written at a time of the clock of the system, is reported exactly
    when it is older than the retention, and is then deleted by the repair. -/
structure StaleRight (schema : SchemaFile) (now repairedAt written : Int)
    (lastWrite : String → Option Int) (t : Tables) (files : Payloads) (queue q id : String) :
    Prop where
  reported :
    issueOf .staleArchive q .archive id ∈ (checkConsistency now lastWrite t files queue).issues ↔
      retentionMs < now - written
  deleted :
    (repairConsistency schema repairedAt (checkConsistency now lastWrite t files queue)
        (t, files)).2.2.lookup (buildArchivePath q id) = none ↔
      retentionMs < now - written

/-- What is reported and deleted depends on the difference of the two clocks' readings. -/
theorem staleRight_iff (schema : SchemaFile) (repairedAt written : Int)
    (hq : q ∈ queuesToCheck t files queue) (hid : id ∈ listPayloadFiles files q .archive)
    {fileTime : Int} (hlast : lastWrite (buildArchivePath q id) = some fileTime) :
    StaleRight schema now repairedAt written lastWrite t files queue q id ↔
      (retentionMs < now - fileTime ↔ retentionMs < now - written) := by
  obtain ⟨-, hslash, hfile⟩ := mem_listPayloadFiles.mp hid
  have hstale : isStale now (lastWrite (buildArchivePath q id)) = true ↔
      retentionMs < now - fileTime := by
    rw [hlast]
    exact decide_eq_true_iff
  -- The check reports the file if its age as computed is over the bound.
  have hreported : issueOf .staleArchive q .archive id ∈
      (checkConsistency now lastWrite t files queue).issues ↔ retentionMs < now - fileTime := by
    rw [← hstale]
    constructor
    · intro hmem
      exact (stale_of_path hslash rfl rfl hmem).2
    · intro hold
      exact List.mem_flatMap.mpr ⟨q, hq, (mem_checkQueue_stale rfl).mpr ⟨id, hid, hold, rfl⟩⟩
  -- The repair deletes what is reported, and nothing else.
  have hdeleted : (repairConsistency schema repairedAt (checkConsistency now lastWrite t files queue)
      (t, files)).2.2.lookup (buildArchivePath q id) = none ↔ retentionMs < now - fileTime := by
    rw [← hreported, repairConsistency, lookup_repairIssues]
    have hthere : files.lookup (buildArchivePath q id) ≠ none := by
      rw [Ne, AList.lookup_eq_none]
      exact not_not.mpr hfile
    constructor
    · intro hnone
      split at hnone
      case isTrue hissue =>
        obtain ⟨issue, hmem, htype, hpath⟩ := hissue
        exact (stale_of_path hslash htype hpath hmem).1 ▸ hmem
      case isFalse => exact absurd hnone hthere
    · intro hmem
      exact if_pos ⟨_, hmem, rfl, rfl⟩
  constructor
  · intro h
    exact hreported.symm.trans h.reported
  · intro h
    exact ⟨hreported.trans h, hdeleted.trans h⟩

/-- **An archived payload is reported and deleted at the right age exactly when the offset between
    the clocks does not change the answer; it is so for all ages exactly when there is no
    offset.** -/
theorem stale_archive_iff (schema : SchemaFile) (repairedAt offset : Int) (t : Tables)
    (files : Payloads) (queue q id : String) (_horderly : Orderly t files queue)
    (hq : q ∈ queuesToCheck t files queue) (hid : id ∈ listPayloadFiles files q .archive) :
    (∀ now written lastWrite, lastWrite (buildArchivePath q id) = some (written + offset) →
      (StaleRight schema now repairedAt written lastWrite t files queue q id ↔
        (retentionMs < now - written - offset ↔ retentionMs < now - written))) ∧
    ((∀ now written lastWrite, lastWrite (buildArchivePath q id) = some (written + offset) →
      StaleRight schema now repairedAt written lastWrite t files queue q id) ↔ offset = 0) := by
  have hone : ∀ now written lastWrite,
      lastWrite (buildArchivePath q id) = some (written + offset) →
      (StaleRight schema now repairedAt written lastWrite t files queue q id ↔
        (retentionMs < now - written - offset ↔ retentionMs < now - written)) := by
    intro now written lastWrite hlast
    rw [staleRight_iff schema repairedAt written hq hid hlast, Int.sub_sub]
  refine ⟨hone, ?_⟩
  constructor
  · intro hall
    -- one age just below the retention, and one just above it
    have hyoung := (hone retentionMs 0 (fun _ => some (0 + offset)) rfl).mp (hall _ _ _ rfl)
    have hold := (hone (retentionMs + 1) 0 (fun _ => some (0 + offset)) rfl).mp (hall _ _ _ rfl)
    omega
  · intro hzero now written lastWrite hlast
    rw [hone now written lastWrite hlast, hzero, Int.sub_zero]

/-- One archived payload, and no rows. -/
def oneArchive : Payloads :=
  AList.insert (buildArchivePath "orders" "a") (some (.obj [])) ∅

theorem orderly_oneArchive : Orderly .empty oneArchive "orders" where
  paths path hpath := by
    have hsame : path = buildArchivePath "orders" "a" := by
      simpa [oneArchive] using hpath
    subst hsame
    exact ⟨by decide, "orders", .archive, "a.json", by decide, by decide, by decide⟩
  rows r hr := by cases hr
  queues := List.forall_mem_singleton.mpr (by decide)

theorem stale_archive_iff_oneArchive :
    (∀ now written lastWrite,
      lastWrite (buildArchivePath "orders" "a") = some (written + 5) →
      (StaleRight .mainMq now 0 written lastWrite .empty oneArchive "orders" "orders" "a" ↔
        (retentionMs < now - written - 5 ↔ retentionMs < now - written))) ∧
    ((∀ now written lastWrite,
      lastWrite (buildArchivePath "orders" "a") = some (written + 5) →
      StaleRight .mainMq now 0 written lastWrite .empty oneArchive "orders" "orders" "a") ↔
        (5 : Int) = 0) :=
  stale_archive_iff .mainMq 0 5 .empty oneArchive "orders" "orders" "a" orderly_oneArchive
    (by decide) (by decide)

/-- The clock of the files starts in the year 2174, and an archive is deleted a second after it was
    written. -/
theorem fresh_archive_deleted :
    let written : Int := 1700000000000
    let lastWrite := fun _ => some (written - 6437664000000)
    let report := checkConsistency (written + 1000) lastWrite .empty oneArchive "orders"
    report.staleArchives = 1 ∧
    (repairConsistency .mainMq (written + 1000) report (.empty, oneArchive)).2.2.lookup
      (buildArchivePath "orders" "a") = none := by
  decide

end Hybrid

end YirangMQ

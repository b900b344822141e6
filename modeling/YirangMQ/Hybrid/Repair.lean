import YirangMQ.Hybrid.Consistency
import Mathlib.Data.List.Dedup
import Mathlib.Data.List.TakeWhile

namespace YirangMQ.Hybrid

/-!
# Repeated repairs

The repair changes rows only, and always towards one state: an orphan payload gets a ready row,
and the row of a missing payload becomes dead.  Whether a second check is clean depends on where
the files of a message lie.

* `keyStates` — the states of the rows of a key;
* `keyStates_repairIssue`, `keyStates_repairIssues` — what the repair makes of them;
* `Matches`, `Converges` — the rows and the files agree, and stay so;
* `Settles` — the row states and file locations of an identifier that a repair brings together;
* `converges_iff` — **a repair leaves nothing to repair exactly when it settles all identifiers of
  the queues checked**;
* `missing_stays_missing` — a payload that is reported for ever.
-/

variable {schema : SchemaFile} {now repairedAt : Int} {lastWrite : String → Option Int} {t : Tables}
  {files : Payloads} {queue q q' id id' key : String} {states : List MessageState}
  {issue : ConsistencyIssue} {issues : List ConsistencyIssue} {s : Tables × Payloads}

/-! ### Keys -/

/-- The key is made of the row's queue and the identifier that is read in it. -/
def WellKeyed (r : IndexRow) : Prop :=
  r.messageKey = messageKey r.queue (extractMessageIdFromKey r.messageKey)

/-- An identifier taken from a key has no colon. -/
theorem colon_notMem_extract (key : String) : ':' ∉ (extractMessageIdFromKey key).toList := by
  rw [extractMessageIdFromKey, String.toList_ofList, List.mem_reverse]
  intro hmem
  have hne := List.mem_takeWhile_imp hmem
  simp at hne

/-- Within a queue the keys tell the identifiers apart, whatever they contain. -/
theorem messageKey_left_inj (h : messageKey q id = messageKey q id') : id = id' := by
  have hlists := congrArg String.toList h
  simp only [messageKey, String.toList_append] at hlists
  exact String.toList_inj.mp (List.append_cancel_left hlists)

/-- Identifiers without colons tell the queues apart too. -/
theorem messageKey_inj_of_colon (hid : ':' ∉ id.toList) (hid' : ':' ∉ id'.toList)
    (h : messageKey q id = messageKey q' id') : q = q' ∧ id = id' := by
  have hsame : id = id' := by
    rw [← @extractMessageIdFromKey_messageKey q id hid, h,
      extractMessageIdFromKey_messageKey hid']
  subst hsame
  have hlists := congrArg String.toList h
  simp only [messageKey, String.toList_append] at hlists
  have hfront := List.append_cancel_right (List.append_cancel_right hlists)
  exact ⟨String.toList_inj.mp (List.append_cancel_left hfront), rfl⟩

/-- The identifiers the check reads from the rows of a queue. -/
theorem mem_indexedIds (hkeys : ∀ r ∈ t.index, WellKeyed r) :
    id ∈ indexedIds t q states ↔
      ':' ∉ id.toList ∧ ∃ r ∈ t.index, r.messageKey = messageKey q id ∧ r.state ∈ states := by
  rw [indexedIds, List.mem_map]
  constructor
  · rintro ⟨r, hr, rfl⟩
    obtain ⟨hr, hcond⟩ := List.mem_filter.mp hr
    obtain ⟨hqueue, hstate⟩ := of_decide_eq_true hcond
    have hkey := hkeys r hr
    rw [WellKeyed, hqueue] at hkey
    exact ⟨colon_notMem_extract _, r, hr, hkey, hstate⟩
  · rintro ⟨hid, r, hr, hkey, hstate⟩
    have hread : extractMessageIdFromKey r.messageKey = id := by
      rw [hkey]
      exact extractMessageIdFromKey_messageKey hid
    have hwell := hkeys r hr
    rw [WellKeyed, hread, hkey] at hwell
    have hqueue := (messageKey_inj_of_colon hid hid hwell).1
    exact ⟨r, List.mem_filter.mpr ⟨hr, decide_eq_true ⟨hqueue.symm, hstate⟩⟩, hread⟩

/-! ### The rows of a key -/

/-- The states of the rows of a key. -/
def keyStates (t : Tables) (key : String) : List MessageState :=
  (t.index.filter fun r => r.messageKey = key).map IndexRow.state

/-- The states of a key are those of its rows. -/
theorem mem_keyStates {state : MessageState} :
    state ∈ keyStates t key ↔ ∃ r ∈ t.index, r.messageKey = key ∧ r.state = state := by
  simp [keyStates, and_assoc]

/-- A key without states has no row. -/
theorem keyStates_eq_nil : keyStates t key = [] ↔ key ∉ t.index.map IndexRow.messageKey := by
  simp [keyStates]

/-- What an issue of the key makes of the states. -/
def repairedStates (schema : SchemaFile) (states : List MessageState) :
    ConsistencyIssueType → List MessageState
  | .orphanPayload =>
    if schema.declaresPrimaryKey ∧ states ≠ [] then states else states ++ [.ready]
  | .missingPayload => states.map fun _ => .dlq
  | .staleArchive => states
  | .invalidState => states.map fun _ => .ready

/-- Inserting a value leaves the rows as they are. -/
theorem index_insertKv (row : KvRow) (t : Tables) :
    (orIgnore (Tables.insertKv row) t).index = t.index := by
  unfold orIgnore Tables.insertKv
  by_cases hmem : row.key ∈ t.kv.map KvRow.key
  · rw [if_pos hmem]
  · rw [if_neg hmem]

/-- Inserting a row adds it at the end, or nothing. -/
theorem index_insertIndex (schema : SchemaFile) (row : IndexRow) (t : Tables) :
    (orIgnore (Tables.insertIndex schema row) t).index = t.index ∨
      (orIgnore (Tables.insertIndex schema row) t).index = t.index ++ [row] := by
  unfold orIgnore
  split
  case h_1 u t' hok =>
    rw [Tables.insertIndex_ok hok]
    exact .inr rfl
  case h_2 => exact .inl rfl

/-- The states of a key after a row of it, or of another key, has been inserted. -/
theorem keyStates_insert {row : IndexRow} {kv : KvRow} (hkey : kv.key = row.messageKey) :
    keyStates (orIgnore (Tables.insertIndex schema row) (orIgnore (Tables.insertKv kv) t)) key =
      if row.messageKey = key then
        if schema.declaresPrimaryKey ∧ keyStates t key ≠ [] then keyStates t key
        else keyStates t key ++ [row.state]
      else keyStates t key := by
  -- the key is in the value table, whether it was there before or not
  have hkv : row.messageKey ∈ (orIgnore (Tables.insertKv kv) t).kv.map KvRow.key := by
    unfold orIgnore Tables.insertKv
    by_cases hmem : kv.key ∈ t.kv.map KvRow.key
    · rw [if_pos hmem]
      exact hkey ▸ hmem
    · rw [if_neg hmem]
      simp [hkey]
  have hindex := index_insertKv kv t
  generalize orIgnore (Tables.insertKv kv) t = t' at hkv hindex
  have hstates : keyStates t' key = keyStates t key := by rw [keyStates, hindex, keyStates]
  have hempty : keyStates t row.messageKey ≠ [] ↔
      row.messageKey ∈ t'.index.map IndexRow.messageKey := by
    rw [hindex, Ne, keyStates_eq_nil, not_not]
  rw [orIgnore, Tables.insertIndex, if_neg (not_not.mpr hkv)]
  by_cases hdup : schema.declaresPrimaryKey ∧ row.messageKey ∈ t'.index.map IndexRow.messageKey
  · rw [if_pos hdup]
    by_cases hsame : row.messageKey = key
    · subst hsame
      rw [if_pos rfl, if_pos ⟨hdup.1, hempty.mpr hdup.2⟩]
      exact hstates
    · rw [if_neg hsame]
      exact hstates
  · rw [if_neg hdup]
    have happend : keyStates { t' with index := t'.index ++ [row] } key =
        keyStates t key ++ if row.messageKey = key then [row.state] else [] := by
      rw [← hstates]
      by_cases hsame : row.messageKey = key
      · simp [keyStates, List.filter_append, hsame]
      · simp [keyStates, List.filter_append, hsame]
    by_cases hsame : row.messageKey = key
    · have hnot : ¬(schema.declaresPrimaryKey = true ∧ keyStates t key ≠ []) := by
        rw [← hsame]
        exact fun hand => hdup ⟨hand.1, hempty.mp hand.2⟩
      rw [if_pos hsame, if_neg hnot]
      rw [if_pos hsame] at happend
      exact happend
    · rw [if_neg hsame]
      rw [if_neg hsame, List.append_nil] at happend
      exact happend

/-- The states of a key after the rows of a key have been set to one state. -/
theorem keyStates_update {f : IndexRow → IndexRow} {state : MessageState} {K : String}
    (hkey : ∀ r, (f r).messageKey = r.messageKey) (hstate : ∀ r, (f r).state = state) :
    keyStates (t.updateIndex (fun r => r.messageKey = K) f) key =
      if K = key then (keyStates t key).map (fun _ => state) else keyStates t key := by
  let g : IndexRow → IndexRow := fun r => if decide (r.messageKey = K) then f r else r
  have hsame : ∀ r, (g r).messageKey = r.messageKey := by
    intro r
    show (if _ then f r else r).messageKey = _
    split
    · exact hkey r
    · rfl
  have hfilter : ((fun r : IndexRow => decide (r.messageKey = key)) ∘ g) =
      fun r => decide (r.messageKey = key) := by
    ext r
    rw [Function.comp_apply, hsame]
  show ((t.index.map g).filter _).map _ = _
  rw [List.filter_map, hfilter, List.map_map, keyStates]
  by_cases hK : K = key
  · rw [if_pos hK, List.map_map]
    apply List.map_congr_left
    intro r hr
    have hr : r.messageKey = K := (of_decide_eq_true (List.mem_filter.mp hr).2).trans hK.symm
    show (if _ then f r else r).state = state
    rw [if_pos (decide_eq_true hr)]
    exact hstate r
  · rw [if_neg hK]
    apply List.map_congr_left
    intro r hr
    have hr : r.messageKey ≠ K := fun heq =>
      hK (heq.symm.trans (of_decide_eq_true (List.mem_filter.mp hr).2))
    show (if _ then f r else r).state = r.state
    rw [if_neg (mt of_decide_eq_true hr)]

/-- An issue changes the rows of its own key only. -/
theorem keyStates_repairIssue
    (hread : issue.type = .orphanPayload →
      ∃ content, s.2.lookup issue.payloadPath = some (some content)) :
    keyStates (repairIssue schema now s issue).2.1 key =
      if issue.messageKey = key then repairedStates schema (keyStates s.1 key) issue.type
      else keyStates s.1 key := by
  obtain ⟨t, files⟩ := s
  unfold repairIssue
  cases htype : issue.type with
  | orphanPayload =>
    obtain ⟨content, hcontent⟩ := hread htype
    dsimp only at hcontent ⊢
    rw [hcontent]
    exact keyStates_insert rfl
  | missingPayload => exact keyStates_update (fun _ => rfl) (fun _ => rfl)
  | invalidState => exact keyStates_update (fun _ => rfl) (fun _ => rfl)
  | staleArchive => simp [repairedStates]

/-- The kinds of the issues that change the rows of a key. -/
def touching (key : String) (issues : List ConsistencyIssue) : List ConsistencyIssueType :=
  (issues.filter fun i => i.messageKey = key ∧ i.type ≠ .staleArchive).map (·.type)

/-- What touches a key: the first issue, where it names the key, and what of the rest does. -/
theorem touching_cons : touching key (issue :: issues) =
    if issue.messageKey = key ∧ issue.type ≠ .staleArchive then
      issue.type :: touching key issues
    else touching key issues := by
  rw [touching, List.filter_cons]
  by_cases h : issue.messageKey = key ∧ issue.type ≠ .staleArchive
  · rw [if_pos h, if_pos (decide_eq_true h)]
    rfl
  · rw [if_neg h, if_neg (mt of_decide_eq_true h)]
    rfl

/-- Every orphan payload among the issues is read, and is no stale archive of theirs. -/
def Readable (files : Payloads) (issues : List ConsistencyIssue) : Prop :=
  ∀ issue ∈ issues, issue.type = .orphanPayload →
    (∃ content, files.lookup issue.payloadPath = some (some content)) ∧
    ∀ other ∈ issues, other.type = .staleArchive → other.payloadPath ≠ issue.payloadPath

/-- What is readable for a list of issues is readable for the rest after the first repair. -/
theorem Readable.tail (h : Readable s.2 (issue :: issues)) :
    Readable (repairIssue schema now s issue).2.2 issues := by
  intro orphan hmem htype
  obtain ⟨⟨content, hcontent⟩, hother⟩ := h orphan (List.mem_cons_of_mem _ hmem) htype
  refine ⟨⟨content, ?_⟩, fun other hin => hother other (List.mem_cons_of_mem _ hin)⟩
  have hnot : ¬(issue.type = .staleArchive ∧ issue.payloadPath = orphan.payloadPath) :=
    fun hand => hother issue List.mem_cons_self hand.1 hand.2
  rw [lookup_repairIssue, if_neg hnot]
  exact hcontent

/-- The rows of a key after a repair. -/
theorem keyStates_repairIssues (hread : Readable s.2 issues) :
    keyStates (repairIssues schema now issues s).2.1 key =
      (touching key issues).foldl (repairedStates schema) (keyStates s.1 key) := by
  induction issues generalizing s with
  | nil => rfl
  | cons issue issues ih =>
    have hstep := @keyStates_repairIssue schema now key issue s fun htype =>
      (hread issue List.mem_cons_self htype).1
    show keyStates (repairIssues schema now issues (repairIssue schema now s issue).2).2.1 key = _
    rw [ih hread.tail, hstep, touching_cons]
    by_cases hkey : issue.messageKey = key
    · rw [if_pos hkey]
      by_cases htype : issue.type = .staleArchive
      · rw [if_neg (fun hand => hand.2 htype), htype]
        rfl
      · rw [if_pos ⟨hkey, htype⟩]
        rfl
    · rw [if_neg hkey, if_neg (fun hand => hkey hand.1)]

/-! ### The issues of an identifier -/

/-- What touches a key in two lists, one after the other. -/
theorem touching_append (key : String) (issues issues' : List ConsistencyIssue) :
    touching key (issues ++ issues') = touching key issues ++ touching key issues' := by
  simp [touching]

/-- What touches a key among the issues raised for a list of identifiers. -/
theorem touching_issues {type : ConsistencyIssueType} {dir : PayloadDir} {ids : List String}
    (htype : type ≠ .staleArchive) :
    touching (messageKey q id) (ids.map (issueOf type q dir)) =
      (ids.filter (· = id)).map fun _ => type := by
  induction ids with
  | nil => rfl
  | cons x ids ih =>
    rw [List.map_cons, touching_cons, ih, List.filter_cons]
    by_cases hx : x = id
    · subst hx
      rw [if_pos ⟨rfl, htype⟩, if_pos (decide_eq_true rfl)]
      rfl
    · have hkey : messageKey q x ≠ messageKey q id := fun h => hx (messageKey_left_inj h)
      rw [if_neg (fun hand => hkey hand.1), if_neg (mt of_decide_eq_true hx)]

/-- A stale archive touches no key. -/
theorem touching_stale {dir : PayloadDir} {ids : List String} :
    touching key (ids.map (issueOf .staleArchive q dir)) = [] := by
  simp [touching, issueOf]

/-- No file of a directory that is compared has a colon in its identifier. -/
def PlainFiles (files : Payloads) (q : String) : Prop :=
  ∀ dir, dir ≠ .archive → ∀ id ∈ listPayloadFiles files q dir, ':' ∉ id.toList

/-- The issues of another queue do not touch the key. -/
theorem touching_of_ne (hplain : PlainFiles files q') (hid : ':' ∉ id.toList) (hne : q' ≠ q) :
    touching (messageKey q id) (checkQueue now lastWrite t files q') = [] := by
  have hactive := hplain .active (by decide)
  have hdlq := hplain .dlq (by decide)
  have hindexed : ∀ states, ∀ x ∈ indexedIds t q' states, ':' ∉ x.toList := by
    intro states x hx
    obtain ⟨r, -, rfl⟩ := List.mem_map.mp hx
    exact colon_notMem_extract _
  have hnone : ∀ {type : ConsistencyIssueType} {dir : PayloadDir} {ids : List String}
      {p : String → Bool}, (∀ x ∈ ids, ':' ∉ x.toList) →
      touching (messageKey q id) ((ids.filter p).map (issueOf type q' dir)) = [] := by
    intro type dir ids p hids
    rw [touching, List.map_eq_nil_iff, List.filter_eq_nil_iff]
    intro i hi hcond
    obtain ⟨x, hx, rfl⟩ := List.mem_map.mp hi
    have hkey := (of_decide_eq_true hcond).1
    exact hne (messageKey_inj_of_colon (hids x (List.mem_filter.mp hx).1) hid hkey).1
  simp only [checkQueue, touching_append]
  rw [hnone hactive, hnone hdlq, hnone (hindexed _), hnone (hindexed _), touching_stale]
  rfl

/-- The states of the rows whose payload a directory holds. -/
def statesOf : PayloadDir → List MessageState
  | .active => activeStates
  | .dlq => [.dlq]
  | .archive => []

/-- A file of the identifier has no row of its directory. -/
def Orphaned (t : Tables) (files : Payloads) (q id : String) : Prop :=
  ∃ dir, dir ≠ .archive ∧ id ∈ listPayloadFiles files q dir ∧ id ∉ indexedIds t q (statesOf dir)

/-- A row of the identifier has no file where it is looked for. -/
def Missing (t : Tables) (files : Payloads) (q id : String) : Prop :=
  ∃ dir, dir ≠ .archive ∧ id ∈ indexedIds t q (statesOf dir) ∧ id ∉ listPayloadFiles files q dir

/-- The directories other than the archive, one by one. -/
theorem exists_dir {P : PayloadDir → Prop} :
    (∃ dir, dir ≠ .archive ∧ P dir) ↔ P .active ∨ P .dlq := by
  constructor
  · rintro ⟨dir, hdir, h⟩
    cases dir with
    | active => exact .inl h
    | dlq => exact .inr h
    | archive => exact absurd rfl hdir
  · intro h
    rcases h with h | h
    · exact ⟨.active, by decide, h⟩
    · exact ⟨.dlq, by decide, h⟩

/-- The issues of a queue. -/
theorem mem_checkQueue : issue ∈ checkQueue now lastWrite t files q ↔
    (∃ dir, dir ≠ .archive ∧ ∃ id, id ∈ listPayloadFiles files q dir ∧
      id ∉ indexedIds t q (statesOf dir) ∧ issue = issueOf .orphanPayload q dir id) ∨
    (∃ dir, dir ≠ .archive ∧ ∃ id, id ∈ indexedIds t q (statesOf dir) ∧
      id ∉ listPayloadFiles files q dir ∧ issue = issueOf .missingPayload q dir id) ∨
    (∃ id ∈ listPayloadFiles files q .archive,
      isStale now (lastWrite (buildArchivePath q id)) = true ∧
      issue = issueOf .staleArchive q .archive id) := by
  have hmem : ∀ {type : ConsistencyIssueType} {dir : PayloadDir} {ids others : List String},
      issue ∈ (ids.filter (· ∉ others)).map (issueOf type q dir) ↔
        ∃ id, id ∈ ids ∧ id ∉ others ∧ issue = issueOf type q dir id := by
    intro type dir ids others
    rw [List.mem_map]
    constructor
    · rintro ⟨x, hx, rfl⟩
      have hx := List.mem_filter.mp hx
      exact ⟨x, hx.1, of_decide_eq_true hx.2, rfl⟩
    · rintro ⟨x, hin, hout, rfl⟩
      exact ⟨x, List.mem_filter.mpr ⟨hin, decide_eq_true hout⟩, rfl⟩
  have hstale : issue ∈ ((listPayloadFiles files q .archive).filter
      (fun id => isStale now (lastWrite (buildArchivePath q id)))).map
        (issueOf .staleArchive q .archive) ↔
      ∃ id ∈ listPayloadFiles files q .archive,
        isStale now (lastWrite (buildArchivePath q id)) = true ∧
        issue = issueOf .staleArchive q .archive id := by
    simp only [List.mem_map, List.mem_filter, and_assoc, eq_comm]
  rw [checkQueue, List.mem_append, List.mem_append, List.mem_append, List.mem_append, hmem, hmem,
    hmem, hmem, hstale, exists_dir, exists_dir]
  simp only [or_assoc]
  exact Iff.rfl

/-- A payload file is listed once. -/
theorem nodup_listPayloadFiles {dir : PayloadDir} : (listPayloadFiles files q dir).Nodup := by
  refine List.Nodup.filterMap (fun path path' id hid hid' => ?_) files.nodupKeys
  have hpath := (listedId_eq_some_iff.mp hid).1
  have hpath' := (listedId_eq_some_iff.mp hid').1
  exact hpath.trans hpath'.symm

/-- The issues about an orphan payload of the identifier in a directory. -/
def orphanCount (t : Tables) (files : Payloads) (q id : String) (dir : PayloadDir) : Nat :=
  ((listPayloadFiles files q dir).filter (· ∉ indexedIds t q (statesOf dir))).count id

/-- A file is reported once. -/
theorem orphanCount_eq {dir : PayloadDir} : orphanCount t files q id dir =
    if id ∈ listPayloadFiles files q dir ∧ id ∉ indexedIds t q (statesOf dir) then 1 else 0 := by
  rw [orphanCount, List.Nodup.count (nodup_listPayloadFiles.filter _)]
  simp only [List.mem_filter, decide_eq_true_eq]

/-- The issues of an identifier: its orphan payloads, and then its missing ones. -/
theorem touching_checkQueue :
    ∃ m, touching (messageKey q id) (checkQueue now lastWrite t files q) =
        List.replicate (orphanCount t files q id .active + orphanCount t files q id .dlq)
          .orphanPayload ++ List.replicate m .missingPayload ∧
      (m = 0 ↔ ¬Missing t files q id) := by
  have hlist : ∀ {type : ConsistencyIssueType} {dir : PayloadDir} {ids others : List String},
      type ≠ .staleArchive →
      touching (messageKey q id) ((ids.filter (· ∉ others)).map (issueOf type q dir)) =
        List.replicate ((ids.filter (· ∉ others)).count id) type := by
    intro type dir ids others htype
    rw [touching_issues htype, List.map_const', List.count_eq_length_filter]
    rfl
  have hzero : ∀ {ids others : List String},
      (ids.filter (· ∉ others)).count id = 0 ↔ ¬(id ∈ ids ∧ id ∉ others) := by
    intro ids others
    rw [List.count_eq_zero, List.mem_filter, decide_eq_true_eq]
  let missing := fun dir =>
    ((indexedIds t q (statesOf dir)).filter (· ∉ listPayloadFiles files q dir)).count id
  refine ⟨missing .active + missing .dlq, ?_, ?_⟩
  · simp only [checkQueue, touching_append]
    rw [hlist (by decide), hlist (by decide), hlist (by decide), hlist (by decide),
      touching_stale, List.append_nil, ← List.replicate_append_replicate,
      ← List.replicate_append_replicate, List.append_assoc]
    rfl
  · rw [Nat.add_eq_zero_iff, hzero, hzero, Missing, exists_dir, not_or]

/-- No orphaned file is counted exactly when there is none. -/
theorem orphanCount_eq_zero : orphanCount t files q id .active + orphanCount t files q id .dlq = 0 ↔
    ¬Orphaned t files q id := by
  rw [Nat.add_eq_zero_iff, orphanCount_eq, orphanCount_eq, Orphaned, exists_dir, not_or]
  simp only [ite_eq_right_iff, Nat.one_ne_zero, imp_false]

/-- Orphan payloads add ready rows, at most one of them where the key is declared. -/
theorem foldl_orphans (schema : SchemaFile) (states : List MessageState) (n : Nat) :
    ∃ k, (List.replicate n .orphanPayload).foldl (repairedStates schema) states =
        states ++ List.replicate k .ready ∧
      (k = 0 ↔ n = 0 ∨ schema.declaresPrimaryKey ∧ states ≠ []) := by
  induction n generalizing states with
  | zero => exact ⟨0, by simp⟩
  | succ n ih =>
    rw [List.replicate_succ, List.foldl_cons, repairedStates]
    by_cases hkept : schema.declaresPrimaryKey ∧ states ≠ []
    · obtain ⟨k, hstates, hk⟩ := ih states
      rw [if_pos hkept]
      have hzero : k = 0 := hk.mpr (.inr hkept)
      exact ⟨k, hstates, by simp [hkept, hzero]⟩
    · obtain ⟨k, hstates, -⟩ := ih (states ++ [.ready])
      rw [if_neg hkept, hstates, List.append_assoc]
      exact ⟨k + 1, by rw [List.replicate_succ]; rfl, by simp [hkept]⟩

/-- Missing payloads make all rows of the key dead. -/
theorem foldl_missing (schema : SchemaFile) (states : List MessageState) (m : Nat) :
    (List.replicate m .missingPayload).foldl (repairedStates schema) states =
      if m = 0 then states else states.map fun _ => .dlq := by
  induction m generalizing states with
  | zero => rfl
  | succ m ih =>
    rw [List.replicate_succ, List.foldl_cons, ih, if_neg (Nat.succ_ne_zero m)]
    by_cases hm : m = 0
    · rw [if_pos hm]
      rfl
    · rw [if_neg hm, repairedStates, List.map_map]
      rfl

/-- A row of the identifier is in one of the states. -/
def RowIn (t : Tables) (q id : String) (states : List MessageState) : Prop :=
  ∃ r ∈ t.index, r.messageKey = messageKey q id ∧ r.state ∈ states

/-- A row in one of the states is a state of the key. -/
theorem rowIn_iff :
    RowIn t q id states ↔ ∃ state ∈ keyStates t (messageKey q id), state ∈ states := by
  constructor
  · rintro ⟨r, hr, hkey, hstate⟩
    exact ⟨r.state, mem_keyStates.mpr ⟨r, hr, hkey, rfl⟩, hstate⟩
  · rintro ⟨state, hmem, hstate⟩
    obtain ⟨r, hr, hkey, rfl⟩ := mem_keyStates.mp hmem
    exact ⟨r, hr, hkey, hstate⟩

/-- The row of an orphan payload is not kept out by another row of its key. -/
def Insertable (schema : SchemaFile) (t : Tables) (key : String) : Prop :=
  schema.declaresPrimaryKey = false ∨ key ∉ t.index.map IndexRow.messageKey

/-- The tables `t'` are what the repair of a queue makes of the rows of an identifier. -/
structure Repaired (schema : SchemaFile) (t : Tables) (files : Payloads) (q id : String)
    (t' : Tables) : Prop where
  active : RowIn t' q id activeStates ↔ ¬Missing t files q id ∧
    (RowIn t q id activeStates ∨
      Orphaned t files q id ∧ Insertable schema t (messageKey q id))
  dlq : RowIn t' q id [.dlq] ↔ Missing t files q id ∨ RowIn t q id [.dlq]

/-- The repair works on the states of each key as the issues that touch it say. -/
theorem repaired_of_foldl {t' : Tables} (hkeys : ∀ r ∈ t.index, WellKeyed r)
    (hstates : keyStates t' (messageKey q id) =
      (touching (messageKey q id) (checkQueue now lastWrite t files q)).foldl
        (repairedStates schema) (keyStates t (messageKey q id))) :
    Repaired schema t files q id t' := by
  obtain ⟨m, htypes, hm⟩ := @touching_checkQueue now lastWrite t files q id
  have hn := @orphanCount_eq_zero t files q id
  generalize orphanCount t files q id .active + orphanCount t files q id .dlq = n at htypes hn
  obtain ⟨k, horphans, hk⟩ := foldl_orphans schema (keyStates t (messageKey q id)) n
  rw [htypes, List.foldl_append, horphans, foldl_missing] at hstates
  have hinserted : k ≠ 0 ↔ Orphaned t files q id ∧ Insertable schema t (messageKey q id) := by
    rw [Ne, hk, hn, Insertable, ← keyStates_eq_nil]
    cases hpk : schema.declaresPrimaryKey <;> simp
  by_cases hmissing : Missing t files q id
  · have hne : m ≠ 0 := fun h => hm.mp h hmissing
    rw [if_neg hne] at hstates
    -- the row whose file is missing
    have hrow := hmissing
    obtain ⟨dir, -, hindexed, -⟩ := hrow
    obtain ⟨-, r, hr, hkey, -⟩ := (mem_indexedIds hkeys).mp hindexed
    have hmem := mem_keyStates.mpr ⟨r, hr, hkey, rfl⟩
    constructor
    · rw [rowIn_iff, hstates]
      constructor
      · rintro ⟨state, hin, hactive⟩
        obtain ⟨-, -, rfl⟩ := List.mem_map.mp hin
        exact absurd hactive (by decide)
      · intro hand
        exact absurd hmissing hand.1
    · rw [rowIn_iff, hstates]
      have hdead := List.mem_map_of_mem (f := fun _ => MessageState.dlq)
        (List.mem_append_left (List.replicate k MessageState.ready) hmem)
      exact ⟨fun _ => .inl hmissing, fun _ => ⟨.dlq, hdead, List.mem_singleton_self _⟩⟩
  · rw [if_pos (hm.mpr hmissing)] at hstates
    constructor
    · rw [rowIn_iff, hstates, and_iff_right hmissing, ← hinserted, rowIn_iff]
      simp only [List.mem_append, List.mem_replicate, or_and_right, exists_or]
      apply or_congr Iff.rfl
      constructor
      · rintro ⟨-, ⟨hne, -⟩, -⟩
        exact hne
      · intro hne
        exact ⟨.ready, ⟨hne, rfl⟩, by decide⟩
    · rw [rowIn_iff, hstates, or_iff_right hmissing, rowIn_iff]
      simp only [List.mem_append, List.mem_replicate, or_and_right, exists_or]
      apply or_iff_left
      rintro ⟨state, ⟨-, rfl⟩, hdlq⟩
      exact absurd hdlq (by decide)

/-! ### The queues checked -/

/-- The queues found: those named in a row and those with a payload directory. -/
theorem mem_getAllQueues :
    q ∈ getAllQueues t files ↔ (q ≠ "" ∧ ∃ r ∈ t.index, r.queue = q) ∨ q ∈ payloadQueues files := by
  have hindexed : q ∈ (t.index.map IndexRow.queue).dedup.filter (· ≠ "") ↔
      q ≠ "" ∧ ∃ r ∈ t.index, r.queue = q := by
    rw [List.mem_filter, List.mem_dedup, List.mem_map, decide_eq_true_eq, and_comm]
  rw [getAllQueues]
  generalize (t.index.map IndexRow.queue).dedup.filter (· ≠ "") = indexed at hindexed
  rw [List.mem_append, List.mem_filter, List.mem_dedup, decide_eq_true_eq, hindexed]
  by_cases hrow : q ≠ "" ∧ ∃ r ∈ t.index, r.queue = q
  · exact ⟨fun _ => .inl hrow, fun _ => .inl hrow⟩
  · rw [or_iff_right hrow, or_iff_right hrow, and_iff_left hrow]

/-- No queue is checked twice. -/
theorem nodup_queuesToCheck : (queuesToCheck t files queue).Nodup := by
  unfold queuesToCheck
  split
  · apply List.Nodup.append
    · exact (List.nodup_dedup _).filter _
    · exact (List.nodup_dedup _).filter _
    · intro q hleft hright
      exact of_decide_eq_true (List.mem_filter.mp hright).2 hleft
  · exact List.nodup_singleton _

/-- A queue found in the payload root is a name. -/
theorem name_of_payloadQueues (hq : q ∈ payloadQueues files) : '/' ∉ q.toList ∧ q.toList ≠ [] := by
  obtain ⟨path, -, hpath⟩ := List.mem_filterMap.mp (List.mem_filter.mp hq).1
  unfold firstName at hpath
  split at hpath
  case isFalse => cases hpath
  case isTrue =>
    dsimp only at hpath
    split at hpath
    case isFalse => cases hpath
    case isTrue hslash =>
      have hhead := List.head?_dropWhile_not (fun c => decide (c = '/'))
        (path.toList.drop "./data/payloads/".length)
      generalize (path.toList.drop _).dropWhile _ = rest at hpath hslash hhead
      rw [Option.some.injEq] at hpath
      rw [← hpath, String.toList_ofList]
      constructor
      · intro hmem
        have hne := List.mem_takeWhile_imp hmem
        simp at hne
      · -- the first character left is no slash
        intro hnil
        cases rest with
        | nil => simp at hslash
        | cons c rest =>
          have hc : c ≠ '/' := by simpa using hhead
          simp [hc] at hnil

/-- A queue found in the payload root is found as long as it has a file. -/
theorem payloadQueues_of_file {files' : Payloads} {dir : PayloadDir}
    (hq : q ∈ payloadQueues files) (hfile : id ∈ listPayloadFiles files' q dir) :
    q ∈ payloadQueues files' := by
  obtain ⟨-, -, hkey⟩ := mem_listPayloadFiles.mp hfile
  have hname := name_of_payloadQueues hq
  refine List.mem_filter.mpr ⟨List.mem_filterMap.mpr ⟨_, hkey, ?_⟩, (List.mem_filter.mp hq).2⟩
  unfold firstName
  have hlist : (payloadPath dir q id).toList = "./data/payloads/".toList ++
      (q.toList ++ '/' :: (dir.name.toList ++ '/' :: (id.toList ++ ".json".toList))) := by
    rw [toList_payloadPath]
    simp
  have hprefix : "./data/payloads/".toList.isPrefixOf (payloadPath dir q id).toList = true := by
    rw [hlist, List.isPrefixOf_iff_prefix]
    exact List.prefix_append _ _
  have hall : ∀ c ∈ q.toList, decide (c ≠ '/') = true := by
    intro c hc
    exact decide_eq_true fun heq => hname.1 (heq ▸ hc)
  have hdrop : ((payloadPath dir q id).toList.drop "./data/payloads/".length).dropWhile (· = '/') =
      q.toList ++ '/' :: (dir.name.toList ++ '/' :: (id.toList ++ ".json".toList)) := by
    rw [hlist, ← String.length_toList, List.drop_left]
    obtain ⟨c, rest, hcons⟩ := List.exists_cons_of_ne_nil hname.2
    rw [hcons]
    have hc : ¬(decide (c = '/')) = true := by
      intro heq
      exact hname.1 (hcons ▸ of_decide_eq_true heq ▸ List.mem_cons_self)
    exact List.dropWhile_cons_of_neg hc
  dsimp only
  rw [if_pos hprefix, hdrop, if_pos (by simp), List.takeWhile_append_of_pos hall]
  simp

/-! ### Rows and files that agree -/

/-- The rows and the files of a queue name the same identifiers. -/
def Matches (t : Tables) (files : Payloads) (q : String) : Prop :=
  ∀ dir, dir ≠ .archive → ∀ id,
    id ∈ listPayloadFiles files q dir ↔ id ∈ indexedIds t q (statesOf dir)

/-- Nothing of a queue is reported but stale archives. -/
theorem matches_iff : Matches t files q ↔
    ∀ issue ∈ checkQueue now lastWrite t files q, issue.type = .staleArchive := by
  constructor
  · intro h issue hissue
    rcases mem_checkQueue.mp hissue with ⟨dir, hdir, id, hin, hout, -⟩ |
      ⟨dir, hdir, id, hin, hout, -⟩ | ⟨id, -, -, rfl⟩
    · exact absurd ((h dir hdir id).mp hin) hout
    · exact absurd ((h dir hdir id).mpr hin) hout
    · rfl
  · intro h dir hdir id
    constructor
    · intro hin
      by_contra hout
      have htype := h _ (mem_checkQueue.mpr (.inl ⟨dir, hdir, id, hin, hout, rfl⟩))
      exact absurd htype (by simp [issueOf])
    · intro hin
      by_contra hout
      have htype := h _ (mem_checkQueue.mpr (.inr (.inl ⟨dir, hdir, id, hin, hout, rfl⟩)))
      exact absurd htype (by simp [issueOf])

/-- The report names no orphan payload and no missing one. -/
theorem clean_iff :
    (checkConsistency now lastWrite t files queue).orphanPayloads = 0 ∧
      (checkConsistency now lastWrite t files queue).missingPayloads = 0 ↔
    ∀ q ∈ queuesToCheck t files queue, Matches t files q := by
  let report := checkConsistency now lastWrite t files queue
  have hzero : report.orphanPayloads = 0 ∧ report.missingPayloads = 0 ↔
      ∀ issue ∈ report.issues, issue.type = .staleArchive := by
    show report.issues.countP _ = 0 ∧ report.issues.countP _ = 0 ↔ _
    rw [List.countP_eq_zero, List.countP_eq_zero, ← forall₂_and]
    refine forall₂_congr fun issue hissue => ?_
    obtain ⟨q, -, hmem⟩ := List.mem_flatMap.mp hissue
    rcases mem_checkQueue.mp hmem with ⟨dir, -, id, -, -, rfl⟩ | ⟨dir, -, id, -, -, rfl⟩ |
      ⟨id, -, -, rfl⟩
    · simp [issueOf]
    · simp [issueOf]
    · simp [issueOf]
  rw [hzero]
  constructor
  · intro h q hq
    exact matches_iff.mpr fun issue hissue => h issue (List.mem_flatMap.mpr ⟨q, hq, hissue⟩)
  · intro h issue hissue
    obtain ⟨q, hq, hmem⟩ := List.mem_flatMap.mp hissue
    exact matches_iff.mp (h q hq) issue hmem

/-- The path of an archived payload. -/
def IsArchive (path : String) : Prop :=
  ∃ q id, '/' ∉ id.toList ∧ path = buildArchivePath q id

/-- The tables and payloads after a check and the repair of its report. -/
def afterRepair (schema : SchemaFile) (now repairedAt : Int) (lastWrite : String → Option Int)
    (queue : String) (s : Tables × Payloads) : Tables × Payloads :=
  (repairConsistency schema repairedAt (checkConsistency now lastWrite s.1 s.2 queue) s).2

/-- A repair removes archived payloads and touches no other file. -/
theorem lookup_afterRepair {path : String} (hpath : ¬IsArchive path) :
    (afterRepair schema now repairedAt lastWrite queue s).2.lookup path = s.2.lookup path := by
  rw [afterRepair, repairConsistency, lookup_repairIssues, if_neg]
  rintro ⟨issue, hissue, htype, rfl⟩
  obtain ⟨q, -, hmem⟩ := List.mem_flatMap.mp hissue
  obtain ⟨id, hid, -, rfl⟩ := (mem_checkQueue_stale htype).mp hmem
  exact hpath ⟨q, id, (mem_listPayloadFiles.mp hid).2.1, rfl⟩

/-- A payload file that is not in the archive is none of them. -/
theorem not_isArchive {dir : PayloadDir} (hdir : dir ≠ .archive) (hid : '/' ∉ id.toList) :
    ¬IsArchive (payloadPath dir q id) := by
  rintro ⟨q', id', hid', hpath⟩
  have hpath : payloadPath dir q id = payloadPath .archive q' id' := hpath
  exact hdir (payloadPath_inj hid hid' hpath).1

/-- The files that are compared stay. -/
theorem mem_listPayloadFiles_afterRepair {dir : PayloadDir} (hdir : dir ≠ .archive) :
    id ∈ listPayloadFiles (afterRepair schema now repairedAt lastWrite queue s).2 q dir ↔
      id ∈ listPayloadFiles s.2 q dir := by
  rw [mem_listPayloadFiles, mem_listPayloadFiles]
  refine and_congr_right fun _ => and_congr_right fun hslash => ?_
  have hkeys : ∀ files : Payloads,
      payloadPath dir q id ∈ files.keys ↔ files.lookup (payloadPath dir q id) ≠ none := by
    intro files
    rw [Ne, AList.lookup_eq_none, not_not]
    exact Iff.rfl
  rw [hkeys, hkeys, lookup_afterRepair (not_isArchive hdir hslash)]

/-- Two rows agree in their queue and key. -/
def SameKey (r r' : IndexRow) : Prop := r'.queue = r.queue ∧ r'.messageKey = r.messageKey

/-- The updates of a repair keep the property of a row. -/
def KeptByRepair (now : Int) (P : IndexRow → Prop) : Prop :=
  ∀ r, P r →
    P { r with state := .dlq, dlqReason := some "missing_payload", dlqAt := some now } ∧
    P { r with state := .ready, availableAt := now }

/-- What an issue makes of the rows: nothing, a new row for an orphan payload, or an update. -/
theorem index_repairIssue (schema : SchemaFile) (now : Int) (s : Tables × Payloads)
    (issue : ConsistencyIssue) :
    (repairIssue schema now s issue).2.1.index = s.1.index ∨
    (issue.type = .orphanPayload ∧
      (repairIssue schema now s issue).2.1.index = s.1.index ++ [repairedRow issue now]) ∨
    ∃ f : IndexRow → IndexRow, (∀ P, KeptByRepair now P → ∀ r, P r → P (f r)) ∧
      (repairIssue schema now s issue).2.1.index = s.1.index.map f := by
  obtain ⟨t, files⟩ := s
  unfold repairIssue
  cases htype : issue.type with
  | orphanPayload =>
    dsimp only
    split
    case h_2 => exact .inl rfl
    case h_1 =>
      dsimp only
      generalize hkv : orIgnore (Tables.insertKv _) t = t'
      have hindex : t'.index = t.index := hkv ▸ index_insertKv _ t
      rw [← hindex]
      rcases index_insertIndex schema (repairedRow issue now) t' with heq | heq
      · exact .inl heq
      · exact .inr (.inl ⟨rfl, heq⟩)
  | missingPayload =>
    refine .inr (.inr ⟨_, fun P hP r hr => ?_, rfl⟩)
    split
    · exact (hP r hr).1
    · exact hr
  | invalidState =>
    refine .inr (.inr ⟨_, fun P hP r hr => ?_, rfl⟩)
    split
    · exact (hP r hr).2
    · exact hr
  | staleArchive => exact .inl rfl

/-- What holds of all rows and of the new ones, and is kept by the updates, holds of all rows after
    the repair. -/
theorem forall_index_repairIssues {P : IndexRow → Prop} (hkept : KeptByRepair now P)
    (hnew : ∀ issue ∈ issues, issue.type = .orphanPayload → P (repairedRow issue now))
    (h : ∀ r ∈ s.1.index, P r) :
    ∀ r ∈ (repairIssues schema now issues s).2.1.index, P r := by
  induction issues generalizing s with
  | nil => exact h
  | cons issue issues ih =>
    rw [List.forall_mem_cons] at hnew
    have hstep : ∀ r ∈ (repairIssue schema now s issue).2.1.index, P r := by
      intro r hr
      rcases index_repairIssue schema now s issue with heq | ⟨htype, heq⟩ | ⟨f, hf, heq⟩
      · exact h r (heq ▸ hr)
      · rw [heq] at hr
        rcases List.mem_append.mp hr with hold | hadded
        · exact h r hold
        · rw [List.mem_singleton.mp hadded]
          exact hnew.1 htype
      · rw [heq] at hr
        obtain ⟨r', hr', rfl⟩ := List.mem_map.mp hr
        exact hf P hkept r' (h r' hr')
    exact ih hnew.2 hstep

/-- No row is deleted. -/
theorem exists_index_repairIssues {P : IndexRow → Prop} (hkept : KeptByRepair now P)
    (h : ∃ r ∈ s.1.index, P r) : ∃ r ∈ (repairIssues schema now issues s).2.1.index, P r := by
  induction issues generalizing s with
  | nil => exact h
  | cons issue issues ih =>
    have hstep : ∃ r ∈ (repairIssue schema now s issue).2.1.index, P r := by
      obtain ⟨r, hr, hP⟩ := h
      rcases index_repairIssue schema now s issue with heq | ⟨-, heq⟩ | ⟨f, hf, heq⟩
      · exact ⟨r, heq ▸ hr, hP⟩
      · exact ⟨r, heq ▸ List.mem_append_left _ hr, hP⟩
      · exact ⟨f r, heq ▸ List.mem_map_of_mem hr, hf P hkept r hP⟩
    exact ih hstep

/-- The repair keeps the queue and key of each row, and adds rows for orphan payloads only. -/
theorem mem_index_repairIssues (schema : SchemaFile) (now : Int) (issues : List ConsistencyIssue)
    (s : Tables × Payloads) :
    (∀ r ∈ s.1.index, ∃ r' ∈ (repairIssues schema now issues s).2.1.index, SameKey r r') ∧
    ∀ r ∈ (repairIssues schema now issues s).2.1.index, (∃ r' ∈ s.1.index, SameKey r r') ∨
      ∃ issue ∈ issues, issue.type = .orphanPayload ∧ r.queue = issue.queue ∧
        r.messageKey = issue.messageKey := by
  constructor
  · intro r hr
    exact exists_index_repairIssues (fun _ hsame => ⟨hsame, hsame⟩) ⟨r, hr, rfl, rfl⟩
  · apply forall_index_repairIssues
    · exact fun _ horigin => ⟨horigin, horigin⟩
    · intro issue hissue htype
      exact .inr ⟨issue, hissue, htype, rfl, rfl⟩
    · intro r hr
      exact .inl ⟨r, hr, rfl, rfl⟩

/-! ### Convergence -/

/-- Every payload file holds a document. -/
def ParseAll (files : Payloads) : Prop := ∀ path, files.lookup path ≠ some none

/-- Where every payload file is a document, all issues can be repaired. -/
theorem readable_checkConsistency (hparse : ParseAll files) :
    Readable files (checkConsistency now lastWrite t files queue).issues := by
  intro issue hissue htype
  obtain ⟨q, -, hmem⟩ := List.mem_flatMap.mp hissue
  rcases mem_checkQueue.mp hmem with ⟨dir, hdir, id, hin, -, rfl⟩ | ⟨dir, -, id, -, -, rfl⟩ |
    ⟨id, -, -, rfl⟩
  · obtain ⟨-, hslash, hkey⟩ := mem_listPayloadFiles.mp hin
    constructor
    · obtain ⟨content, hcontent⟩ := Option.isSome_iff_exists.mp (AList.lookup_isSome.mpr hkey)
      cases content with
      | none => exact absurd hcontent (hparse _)
      | some content => exact ⟨content, hcontent⟩
    · intro other hother hstale hpath
      obtain ⟨q', -, hmem'⟩ := List.mem_flatMap.mp hother
      obtain ⟨id', hid', -, rfl⟩ := (mem_checkQueue_stale hstale).mp hmem'
      exact not_isArchive hdir hslash ⟨q', id', (mem_listPayloadFiles.mp hid').2.1, hpath.symm⟩
  · exact absurd htype (by simp [issueOf])
  · exact absurd htype (by simp [issueOf])

/-- The other queues have no issue about an identifier. -/
theorem touching_queues_of_not_mem {queues : List String} (hq : q ∉ queues)
    (hplain : ∀ q' ∈ queues, PlainFiles files q') (hid : ':' ∉ id.toList) :
    touching (messageKey q id) (queues.flatMap (checkQueue now lastWrite t files)) = [] := by
  induction queues with
  | nil => rfl
  | cons q' queues ih =>
    rw [List.forall_mem_cons] at hplain
    have hne : q' ≠ q := fun heq => hq (heq ▸ List.mem_cons_self)
    rw [List.flatMap_cons, touching_append, touching_of_ne hplain.1 hid hne,
      ih (fun hmem => hq (List.mem_cons_of_mem _ hmem)) hplain.2]
    rfl

/-- The issues about an identifier are those of its queue. -/
theorem touching_queues {queues : List String} (hnodup : queues.Nodup) (hq : q ∈ queues)
    (hplain : ∀ q' ∈ queues, PlainFiles files q') (hid : ':' ∉ id.toList) :
    touching (messageKey q id) (queues.flatMap (checkQueue now lastWrite t files)) =
      touching (messageKey q id) (checkQueue now lastWrite t files q) := by
  induction queues with
  | nil => cases hq
  | cons q' queues ih =>
    rw [List.nodup_cons] at hnodup
    rw [List.forall_mem_cons] at hplain
    rw [List.flatMap_cons, touching_append]
    by_cases heq : q' = q
    · subst heq
      rw [touching_queues_of_not_mem hnodup.1 hplain.2 hid, List.append_nil]
    · have hmem := (List.mem_cons.mp hq).resolve_left fun h => heq h.symm
      rw [touching_of_ne hplain.1 hid heq, List.nil_append, ih hnodup.2 hmem hplain.2]

/-- A row that is not dead has its payload in `dlq/` alone; the repair makes the row dead. -/
structure LeftBehind (t : Tables) (files : Payloads) (q id : String) : Prop where
  row : RowIn t q id activeStates
  active : id ∉ listPayloadFiles files q .active
  dlq : id ∈ listPayloadFiles files q .dlq

/-- No row is without its file, and a file without its row lies in `active/` and can get one. -/
structure Placed (schema : SchemaFile) (t : Tables) (files : Payloads) (q id : String) : Prop where
  active : RowIn t q id activeStates → id ∈ listPayloadFiles files q .active
  dlq : RowIn t q id [.dlq] ↔ id ∈ listPayloadFiles files q .dlq
  orphan : id ∈ listPayloadFiles files q .active →
    RowIn t q id activeStates ∨ Insertable schema t (messageKey q id)

/-- The repair brings the rows and the files of the identifier together. -/
def Settles (schema : SchemaFile) (t : Tables) (files : Payloads) (q id : String) : Prop :=
  LeftBehind t files q id ∨ Placed schema t files q id

/-- A message settles where a repair ends: with its payload put right, or with nothing to report. -/
theorem settles_iff : Settles schema t files q id ↔
    (RowIn t q id activeStates ∧ id ∉ listPayloadFiles files q .active ∧
      id ∈ listPayloadFiles files q .dlq) ∨
    ((RowIn t q id activeStates → id ∈ listPayloadFiles files q .active) ∧
      (RowIn t q id [.dlq] ↔ id ∈ listPayloadFiles files q .dlq) ∧
      (id ∈ listPayloadFiles files q .active →
        RowIn t q id activeStates ∨ Insertable schema t (messageKey q id))) := by
  constructor
  · intro h
    rcases h with h | h
    · exact .inl ⟨h.row, h.active, h.dlq⟩
    · exact .inr ⟨h.active, h.dlq, h.orphan⟩
  · intro h
    rcases h with ⟨hrow, hactive, hdlq⟩ | ⟨hactive, hdlq, horphan⟩
    · exact .inl ⟨hrow, hactive, hdlq⟩
    · exact .inr ⟨hactive, hdlq, horphan⟩

/-- The rounds of check and repair that follow a repair. -/
structure Round where
  checkedAt : Int
  repairedAt : Int
  lastWrite : String → Option Int

/-- The store after rounds of checking and repairing. -/
def afterRounds (schema : SchemaFile) (queue : String) (rounds : List Round)
    (s : Tables × Payloads) : Tables × Payloads :=
  rounds.foldl (fun s r => afterRepair schema r.checkedAt r.repairedAt r.lastWrite queue s) s

/-- A second check reports neither orphan payloads nor missing ones, and repeated repairs change no
    row, and no file but those of stale archives. -/
structure Converges (schema : SchemaFile) (queue : String) (s : Tables × Payloads) : Prop where
  clean : ∀ now lastWrite, (checkConsistency now lastWrite s.1 s.2 queue).orphanPayloads = 0 ∧
    (checkConsistency now lastWrite s.1 s.2 queue).missingPayloads = 0
  rows : ∀ rounds, (afterRounds schema queue rounds s).1 = s.1
  payloads : ∀ rounds path, ¬IsArchive path →
    (afterRounds schema queue rounds s).2.lookup path = s.2.lookup path

/-- All that is reported are stale archives, and their repair leaves the tables as they are. -/
theorem tables_of_matches (hmatches : ∀ q ∈ queuesToCheck s.1 s.2 queue, Matches s.1 s.2 q) :
    (afterRepair schema now repairedAt lastWrite queue s).1 = s.1 := by
  have hstale : ∀ issue ∈ (checkConsistency now lastWrite s.1 s.2 queue).issues,
      issue.type = .staleArchive := by
    intro issue hissue
    obtain ⟨q, hq, hmem⟩ := List.mem_flatMap.mp hissue
    exact matches_iff.mp (hmatches q hq) issue hmem
  have hrun : ∀ (issues : List ConsistencyIssue) (s : Tables × Payloads),
      (∀ issue ∈ issues, issue.type = .staleArchive) →
      (repairIssues schema repairedAt issues s).2.1 = s.1 := by
    intro issues
    induction issues with
    | nil => exact fun _ _ => rfl
    | cons issue issues ih =>
      intro s hall
      rw [List.forall_mem_cons] at hall
      have hstep : (repairIssue schema repairedAt s issue).2.1 = s.1 := by
        rw [repairIssue, hall.1]
      exact (ih _ hall.2).trans hstep
  exact hrun _ s hstale

/-- The queues of a later check are among those of the first one. -/
theorem queuesToCheck_afterRepair
    (hq : q ∈ queuesToCheck (afterRepair schema now repairedAt lastWrite queue s).1
      (afterRepair schema now repairedAt lastWrite queue s).2 queue) :
    q ∈ queuesToCheck s.1 s.2 queue := by
  unfold queuesToCheck at hq ⊢
  by_cases hall : queue = ""
  · rw [if_pos hall] at hq ⊢
    have hissue : ∀ {issue}, issue ∈ (checkConsistency now lastWrite s.1 s.2 queue).issues →
        issue.queue ∈ getAllQueues s.1 s.2 := by
      intro issue hissue
      obtain ⟨q', hq', hmem⟩ := List.mem_flatMap.mp hissue
      rw [queuesToCheck, if_pos hall] at hq'
      rcases mem_checkQueue.mp hmem with ⟨-, -, -, -, -, rfl⟩ | ⟨-, -, -, -, -, rfl⟩ |
        ⟨-, -, -, rfl⟩
      all_goals exact hq'
    rcases mem_getAllQueues.mp hq with ⟨hne, r, hr, rfl⟩ | hfiles
    · rcases (mem_index_repairIssues schema repairedAt _ s).2 r hr with ⟨r', hr', hqueue, -⟩ |
        ⟨issue, hmem, -, hqueue, -⟩
      · exact mem_getAllQueues.mpr (.inl ⟨hne, r', hr', hqueue⟩)
      · exact hqueue ▸ hissue hmem
    · -- no path is new
      obtain ⟨hlisted, hentry⟩ := List.mem_filter.mp hfiles
      obtain ⟨path, hpath, hname⟩ := List.mem_filterMap.mp hlisted
      have hold : path ∈ s.2.keys := by
        have hsome := AList.lookup_isSome.mpr hpath
        rw [afterRepair, repairConsistency, lookup_repairIssues] at hsome
        split at hsome
        · cases hsome
        · exact AList.lookup_isSome.mp hsome
      have hmem : q ∈ payloadQueues s.2 :=
        List.mem_filter.mpr ⟨List.mem_filterMap.mpr ⟨path, hold, hname⟩, hentry⟩
      exact mem_getAllQueues.mpr (.inr hmem)
  · rw [if_neg hall] at hq ⊢
    exact hq

/-- A queue that is not checked again has no rows and no files. -/
theorem queuesToCheck_again (hq : q ∈ queuesToCheck s.1 s.2 queue)
    (hleft : (∃ r ∈ s.1.index, r.queue = q) ∨ ∃ dir id, id ∈ listPayloadFiles
      (afterRepair schema now repairedAt lastWrite queue s).2 q dir) :
    q ∈ queuesToCheck (afterRepair schema now repairedAt lastWrite queue s).1
      (afterRepair schema now repairedAt lastWrite queue s).2 queue := by
  unfold queuesToCheck at hq ⊢
  by_cases hall : queue = ""
  · rw [if_pos hall] at hq ⊢
    have hkept : ∀ r ∈ s.1.index, r.queue = q →
        ∃ r' ∈ (afterRepair schema now repairedAt lastWrite queue s).1.index, r'.queue = q := by
      intro r hr hqueue
      obtain ⟨r', hr', hsame⟩ := (mem_index_repairIssues schema repairedAt
        (checkConsistency now lastWrite s.1 s.2 queue).issues s).1 r hr
      exact ⟨r', hr', hsame.1.trans hqueue⟩
    rcases mem_getAllQueues.mp hq with ⟨hne, r, hr, hqueue⟩ | hfiles
    · exact mem_getAllQueues.mpr (.inl ⟨hne, hkept r hr hqueue⟩)
    · rcases hleft with ⟨r, hr, hqueue⟩ | ⟨dir, id, hfile⟩
      · have hne : q ≠ "" := by
          rintro rfl
          exact (name_of_payloadQueues hfiles).2 rfl
        exact mem_getAllQueues.mpr (.inl ⟨hne, hkept r hr hqueue⟩)
      · exact mem_getAllQueues.mpr (.inr (payloadQueues_of_file hfiles hfile))
  · rw [if_neg hall] at hq ⊢
    exact hq

/-- Clean tables and payloads stay so. -/
theorem converges_of_matches (hmatches : ∀ q ∈ queuesToCheck s.1 s.2 queue, Matches s.1 s.2 q) :
    Converges schema queue s := by
  have hround : ∀ (s : Tables × Payloads) (r : Round),
      (∀ q ∈ queuesToCheck s.1 s.2 queue, Matches s.1 s.2 q) →
      let s' := afterRepair schema r.checkedAt r.repairedAt r.lastWrite queue s
      ∀ q ∈ queuesToCheck s'.1 s'.2 queue, Matches s'.1 s'.2 q := by
    intro s r h s' q hq dir hdir id
    show id ∈ listPayloadFiles (afterRepair _ _ _ _ _ _).2 q dir ↔
      id ∈ indexedIds (afterRepair _ _ _ _ _ _).1 q _
    rw [mem_listPayloadFiles_afterRepair hdir, tables_of_matches h]
    exact h q (queuesToCheck_afterRepair hq) dir hdir id
  have hrounds : ∀ (rounds : List Round) (s : Tables × Payloads),
      (∀ q ∈ queuesToCheck s.1 s.2 queue, Matches s.1 s.2 q) →
      (afterRounds schema queue rounds s).1 = s.1 ∧ ∀ path, ¬IsArchive path →
        (afterRounds schema queue rounds s).2.lookup path = s.2.lookup path := by
    intro rounds
    induction rounds with
    | nil => exact fun _ _ => ⟨rfl, fun _ _ => rfl⟩
    | cons r rounds ih =>
      intro s h
      obtain ⟨htables, hpayloads⟩ := ih _ (hround s r h)
      constructor
      · exact htables.trans (tables_of_matches h)
      · intro path hpath
        exact (hpayloads path hpath).trans (lookup_afterRepair hpath)
  constructor
  · intro now lastWrite
    exact clean_iff.mpr hmatches
  · intro rounds
    exact (hrounds rounds s hmatches).1
  · intro rounds path hpath
    exact (hrounds rounds s hmatches).2 path hpath

section Repaired

variable (hkeys : ∀ r ∈ s.1.index, WellKeyed r) (hparse : ParseAll s.2)
  (hplain : ∀ q ∈ queuesToCheck s.1 s.2 queue, PlainFiles s.2 q)

include hplain in
/-- A round keeps the rows well keyed. -/
theorem wellKeyed_afterRepair (hkeys : ∀ r ∈ s.1.index, WellKeyed r) :
    ∀ r ∈ (afterRepair schema now repairedAt lastWrite queue s).1.index, WellKeyed r := by
  intro r hr
  rcases (mem_index_repairIssues schema repairedAt _ s).2 r hr with ⟨r', hr', hqueue, hkey⟩ |
    ⟨issue, hissue, htype, hqueue, hkey⟩
  · have hwell := hkeys r' hr'
    rw [WellKeyed, hqueue, hkey] at hwell
    exact hwell
  · obtain ⟨q, hq, hmem⟩ := List.mem_flatMap.mp hissue
    rcases mem_checkQueue.mp hmem with ⟨dir, hdir, id, hin, -, rfl⟩ | ⟨dir, -, id, -, -, rfl⟩ |
      ⟨id, -, -, rfl⟩
    · rw [WellKeyed, hqueue, hkey]
      show messageKey q id = messageKey q (extractMessageIdFromKey (messageKey q id))
      rw [extractMessageIdFromKey_messageKey (hplain q hq dir hdir id hin)]
    · exact absurd htype (by simp [issueOf])
    · exact absurd htype (by simp [issueOf])

include hkeys hparse hplain in
/-- After a repair the rows and files of a queue agree exactly when it settles all identifiers. -/
theorem matches_afterRepair_iff (hq : q ∈ queuesToCheck s.1 s.2 queue) :
    Matches (afterRepair schema now repairedAt lastWrite queue s).1
        (afterRepair schema now repairedAt lastWrite queue s).2 q ↔
      ∀ id, ':' ∉ id.toList → Settles schema s.1 s.2 q id := by
  generalize hs' : afterRepair schema now repairedAt lastWrite queue s = s'
  have hwell : ∀ r ∈ s'.1.index, WellKeyed r := hs' ▸ wellKeyed_afterRepair hplain hkeys
  have hfiles : ∀ {dir : PayloadDir} {id : String}, dir ≠ .archive →
      (id ∈ listPayloadFiles s'.2 q dir ↔ id ∈ listPayloadFiles s.2 q dir) := by
    intro dir id hdir
    rw [← hs', mem_listPayloadFiles_afterRepair hdir]
  have hrows : ∀ {t : Tables} {id : String} (dir : PayloadDir), (∀ r ∈ t.index, WellKeyed r) →
      ':' ∉ id.toList → (id ∈ indexedIds t q (statesOf dir) ↔ RowIn t q id (statesOf dir)) := by
    intro t id dir hkeys hid
    rw [mem_indexedIds hkeys, and_iff_right hid]
    exact Iff.rfl
  have hmatch : Matches s'.1 s'.2 q ↔ ∀ id, ':' ∉ id.toList →
      (id ∈ listPayloadFiles s.2 q .active ↔ RowIn s'.1 q id activeStates) ∧
      (id ∈ listPayloadFiles s.2 q .dlq ↔ RowIn s'.1 q id [.dlq]) := by
    constructor
    · intro h id hid
      have hactive := h .active (by decide) id
      have hdlq := h .dlq (by decide) id
      rw [hfiles (by decide), hrows _ hwell hid] at hactive hdlq
      exact ⟨hactive, hdlq⟩
    · intro h dir hdir id
      by_cases hid : ':' ∈ id.toList
      · have hnot : id ∉ listPayloadFiles s.2 q dir := fun hin => hplain q hq dir hdir id hin hid
        rw [hfiles hdir, mem_indexedIds hwell]
        exact ⟨fun hin => absurd hin hnot, fun hrow => absurd hid hrow.1⟩
      · rw [hfiles hdir, hrows dir hwell hid]
        cases dir with
        | active => exact (h id hid).1
        | dlq => exact (h id hid).2
        | archive => exact absurd rfl hdir
  rw [hmatch]
  refine forall₂_congr fun id hid => ?_
  have hrepaired : Repaired schema s.1 s.2 q id s'.1 := by
    apply repaired_of_foldl hkeys
    · rw [← hs', afterRepair, repairConsistency,
        keyStates_repairIssues (readable_checkConsistency hparse), checkConsistency, reportOf,
        touching_queues nodup_queuesToCheck hq hplain hid]
  have horphaned : Orphaned s.1 s.2 q id ↔
      (id ∈ listPayloadFiles s.2 q .active ∧ ¬RowIn s.1 q id activeStates) ∨
      (id ∈ listPayloadFiles s.2 q .dlq ∧ ¬RowIn s.1 q id [.dlq]) := by
    rw [Orphaned, exists_dir, hrows .active hkeys hid, hrows .dlq hkeys hid]
    exact Iff.rfl
  have hmissing : Missing s.1 s.2 q id ↔
      (RowIn s.1 q id activeStates ∧ id ∉ listPayloadFiles s.2 q .active) ∨
      (RowIn s.1 q id [.dlq] ∧ id ∉ listPayloadFiles s.2 q .dlq) := by
    rw [Missing, exists_dir, hrows .active hkeys hid, hrows .dlq hkeys hid]
    exact Iff.rfl
  rw [hrepaired.active, hrepaired.dlq, horphaned, hmissing, settles_iff]
  generalize RowIn s.1 q id activeStates = active
  generalize RowIn s.1 q id [.dlq] = dlq
  generalize (id ∈ listPayloadFiles s.2 q .active) = activeFile
  generalize (id ∈ listPayloadFiles s.2 q .dlq) = dlqFile
  generalize Insertable schema s.1 (messageKey q id) = insertable
  by_cases hmissing : active ∧ ¬activeFile ∨ dlq ∧ ¬dlqFile
  · -- the rows become dead, so that only the file in `dlq/` may be there
    grind
  · -- the dead rows stay as they are, and the files in `active/` get the rows they lack
    grind

end Repaired

/-- **A check and its repair leave nothing to repair exactly when no file compared has a colon in
    its identifier and the repair settles all identifiers of the queues checked.** -/
theorem converges_iff (schema : SchemaFile) (now repairedAt : Int)
    (lastWrite : String → Option Int) (queue : String) (t : Tables) (files : Payloads)
    (_horderly : Orderly t files queue) (hkeys : ∀ r ∈ t.index, WellKeyed r)
    (hparse : ParseAll files) :
    Converges schema queue (afterRepair schema now repairedAt lastWrite queue (t, files)) ↔
      ∀ q ∈ queuesToCheck t files queue, PlainFiles files q ∧
        ∀ id, ':' ∉ id.toList → Settles schema t files q id := by
  generalize hs : (t, files) = s
  have ht : t = s.1 := hs ▸ rfl
  have hf : files = s.2 := hs ▸ rfl
  subst ht hf
  -- If the repair converges, files and rows match after it; what was listed before it is listed
  -- again as long as something of the queue is left.
  constructor
  · intro h
    have hmatches := clean_iff.mp (h.clean 0 fun _ => none)
    have hplain : ∀ q ∈ queuesToCheck s.1 s.2 queue, PlainFiles s.2 q := by
      intro q hq dir hdir id hfile hcolon
      rw [← @mem_listPayloadFiles_afterRepair schema now repairedAt lastWrite queue q id s dir hdir]
        at hfile
      have hagain := queuesToCheck_again hq (.inr ⟨dir, id, hfile⟩)
      have hindexed := (hmatches q hagain dir hdir id).mp hfile
      obtain ⟨r, -, rfl⟩ := List.mem_map.mp hindexed
      exact colon_notMem_extract _ hcolon
    intro q hq
    refine ⟨hplain q hq, ?_⟩
    by_cases hleft : (∃ r ∈ s.1.index, r.queue = q) ∨ ∃ dir id, id ∈ listPayloadFiles
        (afterRepair schema now repairedAt lastWrite queue s).2 q dir
    · exact (matches_afterRepair_iff hkeys hparse hplain hq).mp
        (hmatches q (queuesToCheck_again hq hleft))
    -- Nothing of the queue is left, so there were no files and no rows to settle.
    · intro id hid
      rw [not_or] at hleft
      have hfile : ∀ dir, dir ≠ .archive → id ∉ listPayloadFiles s.2 q dir := by
        intro dir hdir hin
        exact hleft.2 ⟨dir, id, (mem_listPayloadFiles_afterRepair hdir).mpr hin⟩
      have hrow : ∀ states, ¬RowIn s.1 q id states := by
        rintro states ⟨r, hr, hkey, -⟩
        have hwell := hkeys r hr
        rw [WellKeyed, hkey, extractMessageIdFromKey_messageKey hid] at hwell
        exact hleft.1 ⟨r, hr, (messageKey_inj_of_colon hid hid hwell).1.symm⟩
      exact .inr ⟨fun h => absurd h (hrow _),
        ⟨fun h => absurd h (hrow _), fun h => absurd h (hfile .dlq (by decide))⟩,
        fun h => absurd h (hfile .active (by decide))⟩
  -- Conversely the condition of each queue makes files and rows match, and matching is enough.
  · intro h
    apply converges_of_matches
    intro q hq
    have hq := queuesToCheck_afterRepair hq
    exact (matches_afterRepair_iff hkeys hparse (fun q hq => (h q hq).1) hq).mpr (h q hq).2

/-- One ready row, and no files. -/
def oneRow : Tables where
  kv := [⟨messageKey "orders" "a", some (.obj []), "message", 0, 0⟩]
  index := [{ queue := "orders", state := .ready, priority := 0, availableAt := 0, attempt := 0,
              messageKey := messageKey "orders" "a" }]

/-- The store with one row and no payload file is orderly. -/
theorem orderly_oneRow : Orderly oneRow ∅ "orders" where
  paths path hpath := by cases hpath
  rows := List.forall_mem_singleton.mpr (by decide)
  queues := List.forall_mem_singleton.mpr (by decide)

/-- For that store, what has to settle for a second check to find nothing. -/
theorem converges_iff_oneRow :
    Converges .mainMq "orders" (afterRepair .mainMq 1 2 (fun _ => none) "orders" (oneRow, ∅)) ↔
      ∀ q ∈ queuesToCheck oneRow ∅ "orders", PlainFiles ∅ q ∧
        ∀ id, ':' ∉ id.toList → Settles .mainMq oneRow ∅ q id :=
  converges_iff .mainMq 1 2 (fun _ => none) "orders" oneRow ∅ orderly_oneRow
    (List.forall_mem_singleton.mpr (show _ = _ by decide)) (fun _ h => nomatch h)

/-- The row of a missing payload becomes dead, and its payload is missing in `dlq/` from then on. -/
theorem missing_stays_missing :
    let s := afterRepair .mainMq 1 2 (fun _ => none) "orders" (oneRow, ∅)
    (checkConsistency 3 (fun _ => none) s.1 s.2 "orders").missingPayloads = 1 ∧
    ¬Converges .mainMq "orders" s := by
  have hmissing : let s := afterRepair .mainMq 1 2 (fun _ => none) "orders" (oneRow, ∅)
      (checkConsistency 3 (fun _ => none) s.1 s.2 "orders").missingPayloads = 1 := by decide
  refine ⟨hmissing, ?_⟩
  intro h
  have hzero := (h.clean 3 fun _ => none).2
  exact absurd (hmissing.symm.trans hzero) (by decide)

end YirangMQ.Hybrid

import YirangMQ.FileSystem.Representation
import YirangMQ.Library.Plan
import YirangMQ.Library.Registers
import YirangMQ.SQLite.Effects

namespace YirangMQ

/-!
# Stored policies

`save_policy` and `load_policy` of the SQLite and the FileSystem adapter.  The one goes to its table;
the other keeps a cache beside its files, which it fills before it writes the file.

* `readPolicy` — the reading of a stored policy, `readPolicy_toJson` — what is written is read back;
* `SQLite.policyStore`, `FileSystem.policyStore` — the two as stores of registers;
* `load_policy_last_saved` — **the SQLite adapter loads what was saved last; the FileSystem adapter
  does as long as every failing save repeats the policy saved last and no successful one is cut
  short**;
* `FileSystem.failed_save_shows` — a failed save that is loaded.
-/

open Program

/-! ### Documents -/

/-- `j.value(k, d)` at a boolean; `none` is the type error. -/
def Json.valueBool (j : Json String) (k : String) (d : Bool) : Option Bool :=
  match j with
  | .obj fields =>
    match fields.lookup k with
    | none => some d
    | some (.bool b) => some b
    | some _ => none
  | _ => none

/-- The part `retry` of a stored policy. -/
def readRetry (retry : Json String) : Option RetryPolicy := do
  return {
    limit := ← retry.valueInt "limit" 5
    backoff := ← retry.valueStr "backoff" "exponential"
    initialDelaySec := ← retry.valueInt "initialDelaySec" 1
    maxDelaySec := ← retry.valueInt "maxDelaySec" 60 }

/-- The part `dlq` of a stored policy. -/
def readDlq (dlq : Json String) : Option DlqPolicy := do
  return {
    enabled := ← dlq.valueBool "enabled" true
    queue := ← dlq.valueStr "queue" ""
    retentionDays := ← dlq.valueInt "retentionDays" 14 }

/-- The policy of a document.  `present` is how a part is looked for; one that is not found is left
    empty. -/
def readPolicy (present : Json String → String → Option (Json String)) (j : Json String) :
    Option QueuePolicy := do
  return {
    visibilityTimeoutSec := ← j.valueInt "visibilityTimeoutSec" 30
    retry := ← ((present j "retry").map readRetry).getD (some {})
    dlq := ← ((present j "dlq").map readDlq).getD (some {}) }

/-- `j.contains(k) && j[k].is_object()` -/
def objectPart (j : Json String) (k : String) : Option (Json String) :=
  (j.get? k).filter Json.isObject

/-- What is written is read back, in every field. -/
theorem readPolicy_toJson (policy : QueuePolicy) :
    readPolicy Json.get? policy.toJson = some policy ∧
    readPolicy objectPart policy.toJson = some policy := by
  constructor
  · rfl
  · rfl

/-! ### The SQLite adapter -/

namespace SQLite

/-- `load_policy`.  The text of the library's own exception is left out. -/
def loadPolicy (queue : String) : Program Store (Except String (Option QueuePolicy)) := do
  match ← prim (Conn.reading id) with
  | .error e => return .error e
  | .ok _ =>
    match ← prim (Conn.reading fun t => t.value? ("policy:" ++ queue)) with
    | .error _ => return .ok none
    | .ok none => return .ok none
    | .ok (some value) =>
      match value.bind (readPolicy Json.get?) with
      | none => return .error "failed to parse policy"
      | some policy => return .ok (some policy)

/-- What `save_policy` is called with, and what the database does to its statements. -/
structure SaveRequest where
  env : Env
  queue : String
  policy : QueuePolicy

/-- The policies of a database.  Closing the connection ends its transaction. -/
def policyStore : Registers Store String QueuePolicy SaveRequest (Option String) where
  start := ⟨.empty, none, ()⟩
  key := SaveRequest.queue
  value := SaveRequest.policy
  write request := (savePolicy request.env request.queue request.policy).run request.env.faults
  read queue := (loadPolicy queue).run []
  restart := Conn.rolledBack

/-- The table has the policies of a map. -/
structure HasPolicies (m : String → Option QueuePolicy) (s : Store) : Prop where
  saved : s.saved = none
  rows : ∀ queue, s.data.value? ("policy:" ++ queue) =
    (m queue).map fun policy => some policy.toJson

/-- Different queues have different policy keys. -/
theorem policyKey_inj {queue queue' : String} :
    "policy:" ++ queue = "policy:" ++ queue' ↔ queue = queue' := by
  constructor
  · intro h
    have hlist := congrArg String.toList h
    rw [String.toList_append, String.toList_append] at hlist
    exact String.toList_inj.mp (List.append_cancel_left hlist)
  · rintro rfl
    rfl

/-- What a table has after the row of a key has been replaced. -/
theorem value?_replaceKv (row : KvRow) (t : Tables) (key : String) :
    (t.replaceKv row).value? key = if key = row.key then some row.value else t.value? key := by
  rw [Tables.replaceKv, Tables.value?_append]
  by_cases hkey : key = row.key
  · rw [if_pos hkey, if_pos hkey.symm, hkey]
    have hnone : Tables.value? ⟨(t.deleteKv row.key).kv, (t.deleteKv row.key).index⟩ row.key = none :=
      Tables.deleteKv_self.1
    rw [Option.or_eq_right_of_none hnone]
  · rw [if_neg hkey, if_neg (Ne.symm hkey), Option.or_none]
    exact (Tables.deleteKv_of_ne hkey).1

/-- What `load_policy` answers: the policy in the row of its key, if there is one and it can be
    read. -/
theorem loadPolicy_run (queue : String) (s : Store) :
    (loadPolicy queue).run [] s =
      (match s.data.value? ("policy:" ++ queue) with
        | none => .ok none
        | some value =>
          match value.bind (readPolicy Json.get?) with
          | none => .error "failed to parse policy"
          | some policy => .ok (some policy), s) := by
  have hsat : Sat False (fun _ => True) s (loadPolicy queue) fun r t => t = s ∧
      r = match s.data.value? ("policy:" ++ queue) with
        | none => .ok none
        | some value =>
          match value.bind (readPolicy Json.get?) with
          | none => .error "failed to parse policy"
          | some policy => .ok (some policy) := by
    refine Sat.bind (Sat.prim ?_ (by simp [Conn.reading]) fun hf => hf.elim)
    rintro _ _ ⟨rfl, rfl⟩
    refine ⟨trivial, Sat.bind (Sat.prim ?_ (by simp [Conn.reading]) fun hf => hf.elim)⟩
    rintro _ _ ⟨rfl, rfl⟩
    refine ⟨trivial, ?_⟩
    dsimp only
    cases s.data.value? ("policy:" ++ queue) with
    | none =>
      refine Sat.pure ?_
      exact ⟨rfl, rfl⟩
    | some value =>
      dsimp only
      cases value.bind (readPolicy Json.get?) with
      | none =>
        refine Sat.pure ?_
        exact ⟨rfl, rfl⟩
      | some policy =>
        refine Sat.pure ?_
        exact ⟨rfl, rfl⟩
  obtain ⟨⟨hstate, hresult⟩, -⟩ := hsat.run (.inr rfl) trivial
  exact Prod.ext hresult hstate

/-- What a save does to the table, whatever the database does to its statements. -/
theorem savePolicy_run {m : String → Option QueuePolicy} {s : Store} (h : HasPolicies m s)
    (request : SaveRequest) :
    ((policyStore.write request s).1 = .ok () →
      HasPolicies (Registers.update m request.queue request.policy)
        (policyStore.write request s).2) ∧
    ∀ error, (policyStore.write request s).1 = .error error →
      HasPolicies m (policyStore.write request s).2 := by
  have hsat : Sat True (fun _ => True) s (savePolicy request.env request.queue request.policy) _ :=
    savePolicy_sat h.saved request.queue request.policy
  have hrun := (@Sat.run _ _ _ _ _ _ _ hsat request.env.faults (.inl trivial) trivial).1
  obtain ⟨hopen, hdata⟩ := hrun
  constructor
  · intro hok
    have hok : ((savePolicy request.env request.queue request.policy).run
        request.env.faults s).1 = .ok () := hok
    rw [hok] at hdata
    refine ⟨hopen, fun queue => ?_⟩
    have hwritten : ((savePolicy request.env request.queue request.policy).run
        request.env.faults s).2.data = s.data.replaceKv ⟨"policy:" ++ request.queue,
          some request.policy.toJson, "policy", request.env.now, request.env.now⟩ := hdata
    show ((savePolicy request.env request.queue request.policy).run
        request.env.faults s).2.data.value? _ = _
    rw [hwritten, value?_replaceKv, h.rows queue]
    simp only [policyKey_inj, Registers.update]
    split <;> rfl
  · intro error herror
    have herror : ((savePolicy request.env request.queue request.policy).run
        request.env.faults s).1 = .error error := herror
    rw [herror] at hdata
    refine ⟨hopen, fun queue => ?_⟩
    show ((savePolicy request.env request.queue request.policy).run
        request.env.faults s).2.data.value? _ = _
    rw [hdata.1, h.rows queue]

/-- The SQLite store reads what was written last. -/
theorem policyStore_simulates :
    policyStore.Simulates (fun _ => True) (fun _ _ => True) HasPolicies where
  start := ⟨rfl, fun _ => rfl⟩
  written := by
    intro m s request h _ _ hok
    exact (savePolicy_run h request).1 hok
  refused := by
    intro m s request e h _ _ herror
    exact (savePolicy_run h request).2 e herror
  read := by
    intro m s queue h _
    have hrun : policyStore.read queue s = _ := loadPolicy_run queue s
    rw [hrun, h.rows queue]
    refine ⟨?_, h⟩
    cases m queue with
    | none => rfl
    | some policy =>
      have hread : readPolicy Json.get? policy.toJson = some policy := (readPolicy_toJson policy).1
      simp only [Option.map_some, Option.bind_some, hread]
  restart := by
    intro m s h
    have hsame : Conn.rolledBack s = s := by
      obtain ⟨data, saved, files⟩ := s
      obtain rfl : saved = none := h.saved
      rfl
    show HasPolicies m (Conn.rolledBack s)
    rw [hsame]
    exact h

end SQLite

/-! ### The FileSystem adapter -/

namespace FileSystem

/-- The files of an adapter, and its `policies_`. -/
structure PolicyState where
  disk : Disk
  policies : List (String × QueuePolicy) := []

/-- What `save_policy` is called with, what the file system does to its steps, and what is read from
    the bytes of the file that reach the disk. -/
structure SaveRequest where
  queue : String
  policy : QueuePolicy
  faults : List (Option String) := []
  content : JsonText := some policy.toJson

/-- The part of `save_policy` after the cache, for a file of which only some bytes may reach the
    disk. -/
def storePolicy (queue : String) (content : JsonText) : Program Disk Status := do
  let _ ← prim (fun disk => .ok ((), disk)) -- ensure_queue_directories
  match ← writeNamed queue (.policy queue) content with
  | .error e => return .error (some e)
  | .ok () => return .ok ()

/-- All bytes reach the disk in `savePolicy`. -/
theorem savePolicy_eq (queue : String) (policy : QueuePolicy) :
    savePolicy queue policy = storePolicy queue (some policy.toJson) := rfl

/-- `policies_[queue] = policy` -/
def PolicyState.remember (queue : String) (policy : QueuePolicy) (s : PolicyState) : PolicyState :=
  { s with policies := (queue, policy) :: s.policies.filter fun entry => entry.1 ≠ queue }

/-- `save_policy` -/
def PolicyState.save (request : SaveRequest) (s : PolicyState) : Status × PolicyState :=
  let s := s.remember request.queue request.policy
  let result := (storePolicy request.queue request.content).run request.faults s.disk
  (result.1, { s with disk := result.2 })

/-- `load_policy`.  The text of the library's own exception is left out. -/
def PolicyState.load (queue : String) (s : PolicyState) :
    Except String (Option QueuePolicy) × PolicyState :=
  match s.policies.lookup queue with
  | some policy => (.ok (some policy), s)
  | none =>
    match ((readFile (.policy queue)).run [] s.disk).1 with
    | .error _ => (.ok none, s)
    | .ok content =>
      match content.bind (readPolicy objectPart) with
      | none => (.error "policy parse error", s)
      | some policy => (.ok (some policy), s.remember queue policy)

/-- The policies under a root directory.  `close` clears the cache. -/
def policyStore : Registers PolicyState String QueuePolicy SaveRequest (Option String) where
  start := ⟨∅, []⟩
  key := SaveRequest.queue
  value := SaveRequest.policy
  write := PolicyState.save
  read := PolicyState.load
  restart s := { s with policies := [] }

/-- The temporary file cannot be opened, or cannot be renamed. -/
def SaveFails (faults : List (Option String)) : Prop :=
  fault faults 1 ≠ none ∨ fault faults 2 ≠ none

/-- Whether a save fails under a plan can be computed. -/
instance (faults : List (Option String)) : Decidable (SaveFails faults) :=
  inferInstanceAs (Decidable (_ ∨ _))

/-- A failing save repeats the policy that was saved last, and no other save is cut short. -/
def Admissible (m : String → Option QueuePolicy) (request : SaveRequest) : Prop :=
  if SaveFails request.faults then m request.queue = some request.policy
  else request.content.bind (readPolicy objectPart) = some request.policy

/-- What an atomic write has done under a plan: it succeeds when the temporary file can be opened
    and renamed, and no other file changes. -/
theorem atomicWrite_answered {faults : List (Option String)} {n : Nat} {disk : Disk} (target : Path)
    (content : JsonText) :
    Planned faults n disk (atomicWrite target content) fun _ r after =>
      (r.isOk = true ↔ fault faults n = none ∧ fault faults (n + 1) = none) ∧
      ∀ path, path ≠ .temp target → after.lookup path =
        if r.isOk = true ∧ path = target then some content else disk.lookup path := by
  refine Planned.bind (Planned.prim ?_ ?_ (by simp [Files.create]))
  · intro text hopen
    refine Planned.pure ⟨?_, fun path _ => ?_⟩
    · simp [hopen, Except.isOk, Except.toBool]
    · simp [Except.isOk, Except.toBool]
  · rintro hopen _ _ ⟨rfl, rfl⟩
    refine Planned.bind (Planned.prim ?_ ?_ ?_)
    · intro e hrename
      -- the temporary file is left, or removed again
      refine Planned.bind (Planned.prim ?_ ?_ (by simp [Files.remove]))
      · intro e' _
        refine Planned.pure ⟨?_, fun path hpath => ?_⟩
        · simp [hrename, Except.isOk, Except.toBool]
        · simp [Except.isOk, Except.toBool, hpath]
      · rintro _ _ _ ⟨rfl, rfl⟩
        refine Planned.pure ⟨?_, fun path hpath => ?_⟩
        · simp [hrename, Except.isOk, Except.toBool]
        · simp [Except.isOk, Except.toBool, hpath]
    · intro hrename _ after hrenamed
      simp only [Files.rename, AList.lookup_insert, Except.ok.injEq, Prod.mk.injEq] at hrenamed
      obtain ⟨-, rfl⟩ := hrenamed
      refine Planned.pure ⟨?_, fun path hpath => ?_⟩
      · simp [hopen, hrename, Except.isOk, Except.toBool]
      · simp [Except.isOk, Except.toBool, Files.lookup_renamed, hpath]
    · intro _ text hrenamed
      simp [Files.rename] at hrenamed

/-- What the file of a policy is after a save. -/
theorem storePolicy_run {queue : String} (hname : '/' ∉ queue.toList) (content : JsonText)
    (faults : List (Option String)) (disk : Disk) :
    let result := (storePolicy queue content).run faults disk
    (result.1.isOk = true ↔ ¬SaveFails faults) ∧
    ∀ queue', result.2.lookup (.policy queue') =
      if result.1.isOk = true ∧ queue' = queue then some content
      else disk.lookup (.policy queue') := by
  have hnamed : writeNamed queue (.policy queue) content = atomicWrite (.policy queue) content :=
    if_neg hname
  have hplanned : Planned faults 0 disk (storePolicy queue content) fun _ r after =>
      (r.isOk = true ↔ ¬SaveFails faults) ∧
      ∀ queue', after.lookup (.policy queue') =
        if r.isOk = true ∧ queue' = queue then some content
        else disk.lookup (.policy queue') := by
    have hrest : Planned faults 1 disk (do
        match ← writeNamed queue (.policy queue) content with
        | .error e => return .error (some e)
        | .ok () => return .ok () : Program Disk Status) fun _ r after =>
          (r.isOk = true ↔ ¬SaveFails faults) ∧
          ∀ queue', after.lookup (.policy queue') =
            if r.isOk = true ∧ queue' = queue then some content
            else disk.lookup (.policy queue') := by
      rw [hnamed]
      refine Planned.bind ((atomicWrite_answered (.policy queue) content).weaken ?_)
      rintro _ r after ⟨hok, hlookup⟩
      have hfails : r.isOk = true ↔ ¬SaveFails faults := by
        rw [hok, SaveFails]
        tauto
      have hpolicies : ∀ queue', after.lookup (.policy queue') =
          if r.isOk = true ∧ queue' = queue then some content
          else disk.lookup (.policy queue') := by
        intro queue'
        rw [hlookup (.policy queue') (by simp)]
        simp only [Path.policy.injEq]
      cases r with
      | error e => exact Planned.pure ⟨hfails, hpolicies⟩
      | ok u => exact Planned.pure ⟨hfails, hpolicies⟩
    -- whether the directories can be made does not matter
    refine Planned.bind (Planned.prim ?_ ?_ (by simp))
    · exact fun _ _ => hrest
    · rintro _ _ _ ⟨rfl, rfl⟩
      exact hrest
  obtain ⟨_, h⟩ := hplanned.run
  exact h

/-- The cache has no other policies than a map, and the files have its policies. -/
structure HasPolicies (m : String → Option QueuePolicy) (s : PolicyState) : Prop where
  cached : ∀ queue policy, s.policies.lookup queue = some policy → m queue = some policy
  missing : ∀ queue, m queue = none → s.disk.lookup (.policy queue) = none
  stored : ∀ queue policy, m queue = some policy → ∃ content,
    s.disk.lookup (.policy queue) = some content ∧
    content.bind (readPolicy objectPart) = some policy

/-- What the cache knows after a policy has been put into it. -/
theorem lookup_remember (queue : String) (policy : QueuePolicy) (s : PolicyState)
    (queue' : String) : (s.remember queue policy).policies.lookup queue' =
      if queue' = queue then some policy else s.policies.lookup queue' := by
  simp only [PolicyState.remember, List.lookup_cons, Json.lookup_filter_ne]
  by_cases hqueue : queue' = queue
  · simp only [if_pos hqueue, beq_iff_eq.mpr hqueue]
  · simp only [if_neg hqueue, beq_eq_false_iff_ne.mpr hqueue]

section Saving

variable {m : String → Option QueuePolicy} {s : PolicyState} (h : HasPolicies m s)
  {request : SaveRequest}

include h

/-- The cache after a save has the policy of the request, whatever became of the file. -/
theorem cached_save {queue : String} {policy : QueuePolicy}
    (hlookup : (s.save request).2.policies.lookup queue = some policy) :
    if queue = request.queue then request.policy = policy else m queue = some policy := by
  have hremember : (s.save request).2.policies.lookup queue =
      if queue = request.queue then some request.policy else s.policies.lookup queue :=
    lookup_remember request.queue request.policy s queue
  rw [hremember] at hlookup
  split at hlookup
  case isTrue heq => rw [if_pos heq, Option.some.inj hlookup]
  case isFalse hne =>
    rw [if_neg hne]
    exact h.cached queue policy hlookup

/-- After a save that has written a document of its policy the map has the policy. -/
theorem save_written
    (hfiles : ∀ queue, (s.save request).2.disk.lookup (.policy queue) =
      if queue = request.queue then some request.content else s.disk.lookup (.policy queue))
    (hcontent : request.content.bind (readPolicy objectPart) = some request.policy) :
    HasPolicies (Registers.update m request.queue request.policy) (s.save request).2 := by
  refine ⟨?_, ?_, ?_⟩
  · intro queue policy hlookup
    have hcached := cached_save h hlookup
    unfold Registers.update
    split at hcached
    case isTrue heq => rw [if_pos heq, hcached]
    case isFalse hne => rw [if_neg hne, hcached]
  · intro queue hnone
    unfold Registers.update at hnone
    split at hnone
    case isTrue => cases hnone
    case isFalse hne =>
      rw [hfiles queue, if_neg hne]
      exact h.missing queue hnone
  · intro queue policy hpolicy
    unfold Registers.update at hpolicy
    split at hpolicy
    case isTrue heq =>
      rw [hfiles queue, if_pos heq]
      exact ⟨request.content, rfl, by rw [hcontent, hpolicy]⟩
    case isFalse hne =>
      rw [hfiles queue, if_neg hne]
      exact h.stored queue policy hpolicy

/-- After a save that has written nothing the map is as it was, if it had the policy already. -/
theorem save_unwritten
    (hfiles : ∀ queue, (s.save request).2.disk.lookup (.policy queue) =
      s.disk.lookup (.policy queue))
    (hrepeats : m request.queue = some request.policy) : HasPolicies m (s.save request).2 := by
  refine ⟨?_, ?_, ?_⟩
  · intro queue policy hlookup
    have hcached := cached_save h hlookup
    split at hcached
    case isTrue heq => rw [heq, hrepeats, hcached]
    case isFalse => exact hcached
  · intro queue hnone
    rw [hfiles]
    exact h.missing queue hnone
  · intro queue policy hpolicy
    rw [hfiles]
    exact h.stored queue policy hpolicy

/-- What a save does to the cache and to the files. -/
theorem save_run (hvalid : isValidQueueName request.queue = true)
    (hadmissible : Admissible m request) :
    match (s.save request).1 with
    | .ok () => HasPolicies (Registers.update m request.queue request.policy) (s.save request).2
    | .error _ => HasPolicies m (s.save request).2 := by
  have hname : '/' ∉ request.queue.toList :=
    fun hmem => (isName_of_valid hvalid).2.2.2 '/' hmem |>.1 rfl
  obtain ⟨hok, hfiles⟩ := storePolicy_run hname request.content request.faults s.disk
  have hstatus : (s.save request).1 =
      ((storePolicy request.queue request.content).run request.faults s.disk).1 := rfl
  have hdisk : (s.save request).2.disk =
      ((storePolicy request.queue request.content).run request.faults s.disk).2 := rfl
  rw [← hstatus] at hok hfiles
  rw [← hdisk] at hfiles
  split
  -- The file was written, and the cache holds what it says.
  case h_1 hresult =>
    have hsuccess : (s.save request).1.isOk = true := by
      rw [hresult]
      rfl
    rw [Admissible, if_neg (hok.mp hsuccess)] at hadmissible
    apply save_written h ?_ hadmissible
    intro queue
    rw [hfiles queue]
    simp only [hsuccess, true_and]
  -- It was not, so the policy must be the one that is there already.
  case h_2 e hresult =>
    have hfailure : ¬(s.save request).1.isOk = true := by
      rw [hresult]
      exact Bool.false_ne_true
    rw [Admissible, if_pos (not_not.mp (fun hnot => hfailure (hok.mpr hnot)))] at hadmissible
    apply save_unwritten h ?_ hadmissible
    intro queue
    rw [hfiles queue, if_neg (fun hand => hfailure hand.1)]

end Saving

/-- A load gives what the map has, and caches nothing else. -/
theorem load_run {m : String → Option QueuePolicy} {s : PolicyState} (h : HasPolicies m s)
    (queue : String) : (s.load queue).1 = .ok (m queue) ∧ HasPolicies m (s.load queue).2 := by
  -- What reading the file of the queue gives, in a load that meets no fault.
  have hread : (∀ content, s.disk.lookup (.policy queue) = some content →
        ((readFile (.policy queue)).run [] s.disk).1 = .ok content) ∧
      (s.disk.lookup (.policy queue) = none →
        ∃ e, ((readFile (.policy queue)).run [] s.disk).1 = .error e) := by
    have hsat : Sat False (fun _ => True) s.disk (readFile (.policy queue)) fun r _ =>
        (∀ content, s.disk.lookup (.policy queue) = some content → r = .ok content) ∧
        (s.disk.lookup (.policy queue) = none → ∃ e, r = .error e) := by
      refine readFile_sat trivial ?_ ?_
      · intro content hfile
        rw [hfile]
        refine ⟨?_, ?_⟩
        · intro _ hsome
          rw [Option.some.inj hsome]
        · intro hnone
          cases hnone
      · intro hnone e
        rw [hnone]
        refine ⟨?_, fun _ => ⟨e, rfl⟩⟩
        intro _ hsome
        cases hsome
    exact (hsat.run (.inr rfl) trivial).1
  unfold PolicyState.load
  cases hcached : s.policies.lookup queue with
  | some policy =>
    -- A cached policy is answered without reading.
    rw [h.cached queue policy hcached]
    exact ⟨rfl, h⟩
  | none =>
    cases hmap : m queue with
    | none =>
      -- The file is missing exactly if no policy was saved.
      obtain ⟨e, herror⟩ := hread.2 (h.missing queue hmap)
      simp only [herror]
      exact ⟨trivial, h⟩
    | some policy =>
      obtain ⟨content, hfile, hcontent⟩ := h.stored queue policy hmap
      simp only [hread.1 content hfile, hcontent]
      -- The policy read is put into the cache, which stays that of the saved policies.
      refine ⟨trivial, ?_, h.missing, h.stored⟩
      intro queue' policy' hlookup
      rw [lookup_remember] at hlookup
      split at hlookup
      case isTrue heq => rw [heq, hmap, hlookup]
      case isFalse => exact h.cached queue' policy' hlookup

/-- The FileSystem store reads what was written last, as long as the writes are admissible. -/
theorem policyStore_simulates :
    policyStore.Simulates (fun queue => isValidQueueName queue = true) Admissible HasPolicies where
  start := by
    refine ⟨?_, fun _ _ => rfl, ?_⟩
    · intro _ _ hlookup
      cases hlookup
    · intro _ _ hsome
      cases hsome
  written := by
    intro m s request h hvalid hadmissible hok
    have hrun := save_run h hvalid hadmissible
    have hresult : (s.save request).1 = .ok () := hok
    rw [hresult] at hrun
    exact hrun
  refused := by
    intro m s request e h hvalid hadmissible herror
    have hrun := save_run h hvalid hadmissible
    have hresult : (s.save request).1 = .error e := herror
    rw [hresult] at hrun
    exact hrun
  read := fun _ _ queue h _ => load_run h queue
  restart := by
    intro m s h
    refine ⟨?_, h.missing, h.stored⟩
    intro _ _ hlookup
    cases hlookup

/-- Two policies for one queue. -/
def shortPolicy : QueuePolicy := ⟨30, ⟨5, "exponential", 1, 60⟩, ⟨true, "", 14⟩⟩

/-- A policy with a longer document than the short one. -/
def longPolicy : QueuePolicy := ⟨300, ⟨9, "fixed", 5, 60⟩, ⟨false, "", 1⟩⟩

/-- The second save fails at its rename, and is loaded all the same.  The removal of the temporary
    file succeeds, and the text of the failure is of that. -/
theorem failed_save_shows :
    let saved := policyStore.start.save { queue := "q", policy := shortPolicy }
    let failed := saved.2.save
      { queue := "q", policy := longPolicy, faults := [none, none, some "No space left on device"] }
    saved.1 = .ok () ∧
    failed.1 = .error (some "rename failed: Success") ∧
    (failed.2.load "q").1 = .ok (some longPolicy) := by
  exact ⟨rfl, rfl, rfl⟩

end FileSystem

/-! ### Both adapters -/

/-- **The SQLite adapter loads, of each queue and after any saves, loads and reopenings, the policy
    of the last successful save, whichever statements of the saves fail.  So does the FileSystem
    adapter in every run whose saves are admissible.** -/
theorem load_policy_last_saved (queue : String) :
    (∀ h s, Run SQLite.policyStore.machine
        (SQLite.policyStore.Allowed (fun _ => True) fun _ _ => True) h s →
      (SQLite.policyStore.read queue s).1 = .ok (SQLite.policyStore.lastWritten h queue)) ∧
    (isValidQueueName queue = true →
      ∀ h s, Run FileSystem.policyStore.machine
        (FileSystem.policyStore.Allowed (fun q => isValidQueueName q = true)
          FileSystem.Admissible) h s →
      (FileSystem.policyStore.read queue s).1 = .ok (FileSystem.policyStore.lastWritten h queue)) := by
  constructor
  · intro h s run
    exact Registers.read_of_run SQLite.policyStore_simulates run trivial
  · intro hvalid h s run
    exact Registers.read_of_run FileSystem.policyStore_simulates run hvalid

/-- Both adapters are reopened after two saves, of which the second is loaded; on the FileSystem
    adapter that policy has been saved once more, and the save has failed. -/
theorem load_policy_last_saved_reopened :
    let env : Env := ⟨1, Int.one_pos, "", []⟩
    let rows := (SQLite.policyStore.machine.replay [.write ⟨env, "q", FileSystem.longPolicy⟩,
      .write ⟨env, "q", FileSystem.shortPolicy⟩, .restart, .read "q"]
      ([], SQLite.policyStore.machine.start)).2
    let files := (FileSystem.policyStore.machine.replay
      [.write { queue := "q", policy := FileSystem.longPolicy },
        .write { queue := "q", policy := FileSystem.shortPolicy },
        .write { queue := "q", policy := FileSystem.shortPolicy, faults := [none, none, some "full"] },
        .restart, .read "q"] ([], FileSystem.policyStore.machine.start)).2
    (SQLite.policyStore.read "q" rows).1 = .ok (some FileSystem.shortPolicy) ∧
    (FileSystem.policyStore.read "q" files).1 = .ok (some FileSystem.shortPolicy) := by
  intro env rows files
  constructor
  · have run := @run_replay _ _ _ SQLite.policyStore.machine
      (SQLite.policyStore.Allowed (fun _ => True) fun _ _ => True)
      [.write ⟨env, "q", FileSystem.longPolicy⟩, .write ⟨env, "q", FileSystem.shortPolicy⟩,
        .restart, .read "q"]
      ⟨⟨trivial, trivial⟩, ⟨trivial, trivial⟩, trivial, trivial, trivial⟩
    exact (load_policy_last_saved "q").1 _ _ run
  · have run := @run_replay _ _ _ FileSystem.policyStore.machine
      (FileSystem.policyStore.Allowed (fun q => isValidQueueName q = true) FileSystem.Admissible)
      [.write { queue := "q", policy := FileSystem.longPolicy },
        .write { queue := "q", policy := FileSystem.shortPolicy },
        .write { queue := "q", policy := FileSystem.shortPolicy, faults := [none, none, some "full"] },
        .restart, .read "q"]
      ⟨⟨by decide, rfl⟩, ⟨by decide, rfl⟩, ⟨by decide, rfl⟩, trivial,
        show isValidQueueName "q" = true by decide, trivial⟩
    exact (load_policy_last_saved "q").2 (by decide) _ _ run

end YirangMQ

import YirangMQ.Hybrid.Invariant
import YirangMQ.Backend.Content

namespace YirangMQ.Hybrid

open Program Abortable

/-!
# Whose the payload files are

Whatever fails and wherever an operation is cut, rows and values are those of published messages
or of policies, and every payload file has the payload of a published message and lies at a path
of that message.

* `PayloadDir`, `payloadPath`, `payloadPath_inj` — the paths of payload files, which determine
  their queue and identifier;
* `Known`, `Filed`, `Owned` — the tables and the files, as far as they belong to published
  messages;
* `program_owned` — **every primitive of every operation keeps them so**;
* `owned_of_run` — after every run.
-/

/-! ### Paths -/

/-- The directories of a queue. -/
inductive PayloadDir where
  | active
  | archive
  | dlq
  deriving DecidableEq, Repr

/-- The name of a directory of a queue. -/
def PayloadDir.name : PayloadDir → String
  | .active => "active"
  | .archive => "archive"
  | .dlq => "dlq"

/-- The path of a payload file. -/
def payloadPath : PayloadDir → String → String → String
  | .active => buildPayloadPath
  | .archive => buildArchivePath
  | .dlq => buildDlqPath

/-- The characters of a path under the payload root, grouped at its slashes. -/
theorem toList_path (queue dir id : String) :
    ("./data/payloads/" ++ queue ++ ("/" ++ dir ++ "/") ++ id ++ ".json").toList =
      "./data/payloads/".toList ++
        ((queue.toList ++ '/' :: dir.toList) ++ '/' :: (id.toList ++ ".json".toList)) := by
  have hslash : "/".toList = ['/'] := rfl
  rw [String.toList_append, String.toList_append, String.toList_append, String.toList_append,
    String.toList_append, String.toList_append, hslash]
  generalize "./data/payloads/".toList = root
  generalize ".json".toList = extension
  simp only [List.append_assoc, List.cons_append, List.nil_append]

/-- The characters of a payload path. -/
theorem toList_payloadPath (dir : PayloadDir) (queue id : String) :
    (payloadPath dir queue id).toList = "./data/payloads/".toList ++
      ((queue.toList ++ '/' :: dir.name.toList) ++ '/' :: (id.toList ++ ".json".toList)) := by
  cases dir with
  | active => exact toList_path queue "active" id
  | archive => exact toList_path queue "archive" id
  | dlq => exact toList_path queue "dlq" id

/-- An identifier of digits, letters and hyphens has no slash. -/
theorem not_slash_of_guid {id : String} (hid : ∀ c ∈ id.toList, isGuidChar c = true) :
    '/' ∉ id.toList := fun hmem => (isGuidChar_ne (hid _ hmem)).2.2 rfl

/-- A path determines its directory, and its queue and identifier when the latter has no slash. -/
theorem payloadPath_inj {dir dir' : PayloadDir} {queue queue' id id' : String}
    (hid : '/' ∉ id.toList) (hid' : '/' ∉ id'.toList)
    (h : payloadPath dir queue id = payloadPath dir' queue' id') :
    dir = dir' ∧ queue = queue' ∧ id = id' := by
  have hlist := congrArg String.toList h
  rw [toList_payloadPath, toList_payloadPath] at hlist
  have hfile {i : String} (hi : '/' ∉ i.toList) : '/' ∉ i.toList ++ ".json".toList := by
    simpa using hi
  obtain ⟨hfront, hback⟩ :=
    append_cons_inj (hfile hid) (hfile hid') (List.append_cancel_left hlist)
  have hname (d : PayloadDir) : '/' ∉ d.name.toList := by cases d <;> decide
  obtain ⟨hqueue, hdir⟩ := append_cons_inj (hname dir) (hname dir') hfront
  refine ⟨?_, String.toList_inj.mp hqueue, String.toList_inj.mp (List.append_cancel_right hback)⟩
  cases dir <;> cases dir' <;> first | rfl | exact absurd hdir (by decide)

/-- The file through which a payload is written lies at no path of a payload. -/
theorem payloadPath_ne_temp (dir : PayloadDir) (queue id path : String) :
    payloadPath dir queue id ≠ path ++ ".tmp" := by
  intro h
  have hlast := congrArg (List.getLast? ∘ String.toList) h
  simp [toList_payloadPath, List.getLast?_cons] at hlast

/-- The path is one of a message's payload files, or of the file through which its payload is
    written. -/
def PathOf (m : MessageEnvelope) (path : String) : Prop :=
  (∃ dir, path = payloadPath dir m.queue m.messageId) ∨
    path = buildPayloadPath m.queue m.messageId ++ ".tmp"

/-- A path is that of one published message only. -/
theorem PathOf.unique {published : List MessageEnvelope} (hwell : WellPublished published)
    {m m' : MessageEnvelope} (hm : m ∈ published) (hm' : m' ∈ published) {path : String}
    (h : PathOf m path) (h' : PathOf m' path) : m' = m := by
  have hid {n : MessageEnvelope} (hn : n ∈ published) : '/' ∉ n.messageId.toList :=
    not_slash_of_guid (hwell.formed n hn).2
  have hsame : m'.messageId = m.messageId := by
    rcases h with ⟨dir, rfl⟩ | rfl
    · rcases h' with ⟨dir', heq⟩ | heq
      · exact (payloadPath_inj (hid hm) (hid hm') heq).2.2.symm
      · exact absurd heq (payloadPath_ne_temp _ _ _ _)
    · rcases h' with ⟨dir', heq⟩ | heq
      · exact absurd heq.symm (payloadPath_ne_temp _ _ _ _)
      · have hpath : payloadPath .active m.queue m.messageId =
            payloadPath .active m'.queue m'.messageId := by
          have hlist := congrArg String.toList heq
          rw [String.toList_append, String.toList_append] at hlist
          exact String.toList_inj.mp (List.append_cancel_right hlist)
        exact (payloadPath_inj (hid hm) (hid hm') hpath).2.2.symm
  exact hwell.eq_of_id hm' hm hsame

/-! ### Belonging -/

/-- Index rows are those of published messages, and values are theirs or those of policies. -/
structure Known (published : List MessageEnvelope) (t : Tables) : Prop where
  rows : ∀ r ∈ t.index, ∃ m ∈ published, m.key = r.messageKey ∧ m.queue = r.queue
  values : ∀ r ∈ t.kv, r.key ∈ published.map MessageEnvelope.key ∨ ∃ q, r.key = "policy:" ++ q

/-- Every payload file has the payload of a published message, at one of its paths. -/
def Filed (published : List MessageEnvelope) (files : Payloads) : Prop :=
  ∀ path text, files.lookup path = some text →
    ∃ m ∈ published, text = some (payloadJson m) ∧ PathOf m path

/-- What the store holds belongs to published messages. -/
abbrev Owned (published : List MessageEnvelope) : Store → Prop :=
  Conn.Has (Known published) (Filed published)

variable {schema : SchemaFile} {env : Env} {published : List MessageEnvelope} {t t' : Tables}
  {files : Payloads} {m : MessageEnvelope} {α : Type}

/-- The payload of a published message may be written at a path of it. -/
theorem Filed.insert (h : Filed published files) {path : String} (hm : m ∈ published)
    (hpath : PathOf m path) : Filed published (files.insert path (some (payloadJson m))) := by
  intro path' text hlookup
  rw [Files.lookup_insert'] at hlookup
  split at hlookup
  case isTrue heq =>
    obtain rfl := Option.some.inj hlookup
    exact ⟨m, hm, rfl, heq ▸ hpath⟩
  case isFalse => exact h path' text hlookup

/-- Any file may be removed. -/
theorem Filed.erase (h : Filed published files) (path : String) :
    Filed published (files.erase path) := by
  intro path' text hlookup
  rw [Files.lookup_erase'] at hlookup
  split at hlookup
  case isTrue => cases hlookup
  case isFalse => exact h path' text hlookup

/-- A message's file that is renamed to another of its paths. -/
theorem Filed.rename (hwell : WellPublished published) (h : Filed published files)
    {src dest : String} {a : Unit} {files' : Payloads} (hm : m ∈ published)
    (hsrc : PathOf m src) (hdest : PathOf m dest)
    (hrename : Files.rename src dest files = .ok (a, files')) : Filed published files' := by
  unfold Files.rename at hrename
  split at hrename
  case h_1 => cases hrename
  case h_2 text htext =>
    simp only [Except.ok.injEq, Prod.mk.injEq] at hrename
    obtain ⟨-, rfl⟩ := hrename
    obtain ⟨m', hm', rfl, hpath⟩ := h src text htext
    obtain rfl := hsrc.unique hwell hm hm' hpath
    exact (h.erase src).insert hm hdest

/-- An update that keeps keys and queues keeps the rows known. -/
theorem Known.updateIndex (h : Known published t) {p : IndexRow → Bool} {f : IndexRow → IndexRow}
    (hf : ∀ r, (f r).messageKey = r.messageKey ∧ (f r).queue = r.queue) :
    Known published (t.updateIndex p f) where
  rows r hr := by
    obtain ⟨r', hr', rfl⟩ := List.mem_map.mp hr
    obtain ⟨m, hm, hkey, hqueue⟩ := h.rows r' hr'
    refine ⟨m, hm, ?_⟩
    split
    · exact ⟨hkey.trans (hf r').1.symm, hqueue.trans (hf r').2.symm⟩
    · exact ⟨hkey, hqueue⟩
  values := h.values

/-- Deleting rows keeps the others known. -/
theorem Known.deleteIndex (h : Known published t) (p : IndexRow → Bool) :
    Known published (t.deleteIndex p) where
  rows r hr := h.rows r (List.mem_of_mem_filter hr)
  values := h.values

/-- Deleting a value, and with it its row, keeps the others known. -/
theorem Known.deleteKv (h : Known published t) (schema : SchemaFile) (key : String) :
    Known published (deleteKv schema key t) := by
  cases schema with
  | backendAdapter =>
    exact ⟨fun r hr => h.rows r (List.mem_of_mem_filter hr),
      fun r hr => h.values r (List.mem_of_mem_filter hr)⟩
  | mainMq => exact ⟨h.rows, fun r hr => h.values r (List.mem_of_mem_filter hr)⟩

/-- Replacing a value keeps the keys and the rows known. -/
theorem Known.updateKvValue (h : Known published t) (key : String) (value : JsonText) (now : Int) :
    Known published (t.updateKvValue key value now) where
  rows := h.rows
  values r hr := by
    obtain ⟨r', hr', rfl⟩ := List.mem_map.mp hr
    have hvalue := h.values r' hr'
    split
    · exact hvalue
    · exact hvalue

/-- Editing a value keeps the keys and the rows known. -/
theorem Known.editKv (h : Known published t) {key : String} {now : Int}
    {edit : Json String → Json String} {a : Unit}
    (hedit : editKv key now edit t = .ok (a, t')) : Known published t' := by
  unfold Hybrid.editKv at hedit
  split at hedit
  case h_1 =>
    simp only [Except.ok.injEq, Prod.mk.injEq] at hedit
    exact hedit.2 ▸ h
  case h_2 => cases hedit
  case h_3 =>
    simp only [Except.ok.injEq, Prod.mk.injEq] at hedit
    exact hedit.2 ▸ h.updateKvValue _ _ _

/-- A further publication widens what is known. -/
theorem Known.widen (h : Known published t) (call : Call) :
    Known (call.publishing published) t where
  rows r hr := by
    obtain ⟨m, hm, hsame⟩ := h.rows r hr
    exact ⟨m, call.publishing_of_mem hm, hsame⟩
  values r hr := (h.values r hr).imp_left call.mem_publishing

/-- A further publication widens whose the files may be. -/
theorem Filed.widen (h : Filed published files) (call : Call) :
    Filed (call.publishing published) files := by
  intro path text hlookup
  obtain ⟨m, hm, hsame⟩ := h path text hlookup
  exact ⟨m, call.publishing_of_mem hm, hsame⟩

/-! ### Primitives -/

/-- A query reads known rows and changes nothing. -/
theorem query_owned {error : Option String} {g : Tables → Option α} {Q : α → Prop}
    (hok : ∀ t a, Known published t → g t = some a → Q a) :
    GuardsE (Owned published) (query error g) Q := by
  refine GuardsE.attemptOr fun s a u hs hresult => ?_
  simp only [Conn.onData, selecting] at hresult
  split at hresult
  case h_1 b hb =>
    simp only [Except.map, Except.ok.injEq, Prod.mk.injEq] at hresult
    obtain ⟨rfl, rfl⟩ := hresult
    exact ⟨hs, hok _ _ hs.data hb⟩
  case h_2 => cases hresult

/-- A statement that keeps the rows known keeps the store owned. -/
theorem execute_owned {describe : String → String} {f : Tables → Except String (α × Tables)}
    (hok : ∀ t a t', Known published t → f t = .ok (a, t') → Known published t') :
    GuardsE (Owned published) (execute describe f) fun _ => True := by
  refine Guards.bind (Guards.onData (Q := fun _ => True) fun d a d' hd hf => ?_) fun r _ => ?_
  · exact ⟨hok d a d' hd hf, trivial⟩
  · cases r with
    | ok a => exact Guards.pure fun _ _ => trivial
    | error e => exact Guards.pure fun _ _ => trivial

/-- So does a statement that cannot fail of itself. -/
theorem always_owned {describe : String → String} {f : Tables → Tables}
    (hok : ∀ t, Known published t → Known published (f t)) :
    GuardsE (Owned published) (execute describe (always f)) fun _ => True :=
  execute_owned fun t a t' ht hf => by
    simp only [always, Except.ok.injEq, Prod.mk.injEq] at hf
    exact hf.2 ▸ hok t ht

/-- An index update that keeps keys and queues. -/
theorem update_owned {describe : String → String} {p : IndexRow → Bool}
    {f : IndexRow → IndexRow} (hf : ∀ r, (f r).messageKey = r.messageKey ∧ (f r).queue = r.queue) :
    GuardsE (Owned published) (execute describe (always (Tables.updateIndex p f))) fun _ => True :=
  always_owned fun _ ht => ht.updateIndex hf

/-- So does an edit of a value, carried out or not. -/
theorem editKv_owned {key : String} {now : Int} {edit : Json String → Json String} :
    GuardsE (Owned published) (orDefault (execute id (editKv key now edit)) ()) fun _ => True :=
  GuardsE.orDefault (execute_owned fun _ _ _ ht hedit => ht.editKv hedit) trivial

/-- So does the removal of a file. -/
theorem removeFile_owned (path : String) :
    Guards (Owned published) (removeFile path) fun _ => True := by
  refine (Guards.onFiles (Q := fun _ => True) ?_).weaken fun _ _ => trivial
  rintro files _ files' hfiles ⟨rfl, rfl⟩
  exact ⟨hfiles.erase path, trivial⟩

/-- So does the writing of a payload under its message's identifier. -/
theorem atomicWrite_owned (hwell : WellPublished published) (hm : m ∈ published) :
    Guards (Owned published)
      (atomicWrite (buildPayloadPath m.queue m.messageId) (some (payloadJson m)))
      fun _ => True := by
  refine Guards.bind (Guards.onFiles (Q := fun _ => True) ?_) fun r _ => ?_
  · rintro files _ files' hfiles ⟨rfl, rfl⟩
    exact ⟨hfiles.insert hm (.inr rfl), trivial⟩
  · cases r with
    | error e => exact Guards.done
    | ok u =>
      refine Guards.bind (Guards.onFiles (Q := fun _ => True) ?_) fun r _ => ?_
      · intro files a files' hfiles hrename
        exact ⟨hfiles.rename hwell hm (.inr rfl) (.inl ⟨.active, rfl⟩) hrename, trivial⟩
      · cases r with
        | error e => exact Guards.bind (removeFile_owned _) fun _ _ => Guards.done
        | ok u => exact Guards.done

/-- Moving a message's payload between its directories. -/
theorem movePayload_owned (hwell : WellPublished published) (hm : m ∈ published)
    (dir dir' : PayloadDir) :
    Guards (Owned published)
      (movePayload (payloadPath dir m.queue m.messageId) (payloadPath dir' m.queue m.messageId))
      fun _ => True := by
  refine Guards.bind (Guards.onFiles (Q := fun _ => True) ?_) fun _ _ => Guards.done
  intro files a files' hfiles hrename
  exact ⟨hfiles.rename hwell hm (.inl ⟨dir, rfl⟩) (.inl ⟨dir', rfl⟩) hrename, trivial⟩

/-! ### Operations -/

/-- An identifier without a colon is read back from its key. -/
theorem extractMessageIdFromKey_messageKey {queue id : String} (hid : ':' ∉ id.toList) :
    extractMessageIdFromKey (messageKey queue id) = id := by
  have hplain : ∀ c ∈ id.toList.reverse, (decide (c ≠ ':')) = true := by
    intro c hc
    have hne : c ≠ ':' := fun heq => hid (heq ▸ List.mem_reverse.mp hc)
    exact decide_eq_true hne
  have hlist : (messageKey queue id).toList.reverse =
      id.toList.reverse ++ ':' :: ("msg:" ++ queue).toList.reverse := by
    rw [messageKey]
    simp [String.toList_append]
  rw [extractMessageIdFromKey, hlist, List.takeWhile_append_of_pos hplain]
  simp

/-- The identifier in the key of a published message. -/
theorem extractMessageIdFromKey_of_mem (hwell : WellPublished published) (hm : m ∈ published) :
    extractMessageIdFromKey m.key = m.messageId := by
  obtain ⟨hkey, hid⟩ := hwell.formed m hm
  rw [hkey]
  exact extractMessageIdFromKey_messageKey fun hmem => (isGuidChar_ne (hid _ hmem)).1 rfl

/-- The queue of an index row, and the published message of its key. -/
theorem queueInState_known {key queue : String} {state : MessageState}
    (h : Known published t) (hqueue : queueInState key state t = some queue) :
    ∃ m ∈ published, m.key = key ∧ m.queue = queue := by
  obtain ⟨r, hr, rfl⟩ := Option.map_eq_some_iff.mp hqueue
  have hkey : r.messageKey = key := by
    have hfound := List.find?_some hr
    simp only [decide_eq_true_eq] at hfound
    exact hfound.1
  obtain ⟨m, hm, hsame, hq⟩ := h.rows r (List.mem_of_find?_eq_some hr)
  exact ⟨m, hm, hsame.trans hkey, hq⟩

/-- Moving the payload of the message whose row has been read. -/
theorem moveOf_owned (hwell : WellPublished published) {key queue : String}
    (dir dir' : PayloadDir) (hread : ∃ m ∈ published, m.key = key ∧ m.queue = queue) :
    Guards (Owned published)
      (movePayload (payloadPath dir queue (extractMessageIdFromKey key))
        (payloadPath dir' queue (extractMessageIdFromKey key))) fun _ => True := by
  obtain ⟨m, hm, rfl, rfl⟩ := hread
  rw [extractMessageIdFromKey_of_mem hwell hm]
  exact movePayload_owned hwell hm dir dir'

/-- The rows inserted for a published message are known. -/
theorem insertMessage_owned (hm : m ∈ published) :
    GuardsE (Owned published) (insertMessage schema env m) fun _ => True := by
  refine GuardsE.bind (execute_owned fun t a t' ht hkv => ?_) fun _ _ =>
    execute_owned fun t a t' ht hindex => ?_
  · obtain ⟨-, rfl⟩ := Tables.insertKv_ok hkv
    refine ⟨ht.rows, fun r hr => ?_⟩
    rcases List.mem_append.mp hr with hr | hr
    · exact ht.values r hr
    · rw [List.mem_singleton.mp hr]
      exact .inl (List.mem_map_of_mem hm)
  · obtain rfl := Tables.insertIndex_ok hindex
    refine ⟨fun r hr => ?_, ht.values⟩
    rcases List.mem_append.mp hr with hr | hr
    · exact ht.rows r hr
    · rw [List.mem_singleton.mp hr]
      exact ⟨m, hm, rfl, rfl⟩

/-- The directories of a queue are there before and after. -/
theorem ensurePayloadDirectories_owned :
    Guards (Owned published) (prim (Conn.onFiles fun files => .ok ((), files))) fun _ => True := by
  refine (Guards.onFiles (Q := fun _ => True) ?_).weaken fun _ _ => trivial
  rintro files _ _ hfiles ⟨rfl, rfl⟩
  exact ⟨hfiles, trivial⟩

/-- Enqueueing a published message keeps the store owned, where it is undone as well. -/
theorem enqueue_owned (hwell : WellPublished published) (hm : m ∈ published) :
    Guards (Owned published) (enqueue schema env m) fun _ => True := by
  have hundo : ∀ e, Guards (Owned published)
      (undoEnqueue (buildPayloadPath m.queue m.messageId) e) fun _ => True := by
    intro e
    refine Guards.bind Guards.rollback fun _ _ => Guards.bind (removeFile_owned _) fun r _ => ?_
    cases r with
    | error what => exact Guards.done
    | ok u => exact Guards.done
  refine Guards.bind ensurePayloadDirectories_owned fun r _ => ?_
  cases r with
  | error e => exact Guards.done
  | ok u =>
    refine Guards.bind Guards.beginTransaction fun r _ => ?_
    cases r with
    | error e => exact Guards.done
    | ok u =>
      refine Guards.bind (atomicWrite_owned hwell hm) fun r _ => ?_
      cases r with
      | error e => exact Guards.bind Guards.rollback fun _ _ => Guards.done
      | ok u =>
        refine Guards.bind (insertMessage_owned hm) fun r _ => ?_
        cases r with
        | error e => exact hundo e
        | ok u =>
          refine Guards.bind Guards.commit fun r _ => ?_
          cases r with
          | error e => exact hundo (some e)
          | ok u => exact Guards.done

/-- Leasing changes a row and a value only. -/
theorem leaseNext_owned (queue c : String) (timeout : Int) :
    Guards (Owned published) (leaseNext schema env queue c timeout) fun _ => True := by
  have hrow : GuardsE (Owned published)
      (leaseRow schema queue c env.now (env.now + timeout * 1000)) fun _ => True := by
    refine GuardsE.bind (query_owned (Q := fun _ => True) fun _ _ _ _ => trivial) fun row _ => ?_
    refine GuardsE.bind (update_owned fun _ => ⟨rfl, rfl⟩) fun _ _ => ?_
    refine GuardsE.bind (query_owned (Q := fun _ => True) fun _ _ _ _ => trivial) fun value _ => ?_
    exact GuardsE.pure trivial
  refine Guards.bind (Guards.transaction hrow) fun r _ => ?_
  rcases r with e | ⟨row, value⟩
  · exact Guards.done
  · have hread : Guards (Owned published) (readMessage row value) fun _ => True := by
      unfold readMessage
      split
      · exact Guards.done
      · refine Guards.bind (Guards.onFiles (Q := fun _ => True) ?_) fun _ _ => Guards.done
        intro files text files' hfiles hread
        unfold Files.read at hread
        split at hread
        case h_1 => cases hread
        case h_2 =>
          simp only [Except.ok.injEq, Prod.mk.injEq] at hread
          exact ⟨hread.2 ▸ hfiles, trivial⟩
    refine Guards.bind hread fun r _ => ?_
    cases r with
    | none => exact Guards.done
    | some message => exact Guards.done

/-- Acknowledging deletes a row, or moves the payload to the archive of its queue. -/
theorem ack_owned (hwell : WellPublished published) (lease : LeaseToken) :
    Guards (Owned published) (ack schema lease) fun _ => True := by
  refine Guards.bind (Guards.transaction (Q := fun queue =>
    ∃ m ∈ published, m.key = lease.messageKey ∧ m.queue = queue) ?_) fun r hr => ?_
  · refine GuardsE.bind (query_owned fun _ _ ht hqueue => queueInState_known ht hqueue)
      fun queue hqueue => ?_
    refine GuardsE.bind (always_owned fun _ ht => ht.deleteIndex _) fun _ _ => ?_
    refine GuardsE.bind (always_owned fun _ ht => ht.deleteKv _ _) fun _ _ => ?_
    exact GuardsE.pure hqueue
  · cases r with
    | error e => exact Guards.done
    | ok queue =>
      exact Guards.bind (moveOf_owned hwell .active .archive (hr queue rfl)) fun _ _ => Guards.done

/-- A nack moves the payload to the DLQ of its queue at most. -/
theorem nack_owned (hwell : WellPublished published) (lease : LeaseToken) (reason : String)
    (requeue : Bool) :
    Guards (Owned published) (nack env lease reason requeue) fun _ => True := by
  refine (Guards.transaction (Q := fun _ => True) ?_).weaken fun _ _ => trivial
  refine GuardsE.bind (query_owned fun _ _ ht hqueue => queueInState_known ht hqueue)
    fun queue hqueue => ?_
  cases requeue with
  | true => exact update_owned fun _ => ⟨rfl, rfl⟩
  | false =>
    refine GuardsE.bind (update_owned fun _ => ⟨rfl, rfl⟩) fun _ _ => ?_
    refine GuardsE.bind editKv_owned fun _ _ => ?_
    exact GuardsE.lift (moveOf_owned hwell .active .dlq hqueue)

/-- A statement that always succeeds in itself, outside a transaction. -/
theorem executed_owned {f : Tables → Tables}
    (hok : ∀ t, Known published t → Known published (f t)) :
    Guards (Owned published) (ExceptT.run (execute id (always f)) : Program Store Status)
      fun _ => True :=
  (always_owned hok).weaken fun _ _ => trivial

/-- Saving a policy writes a value that is no message. -/
theorem savePolicy_owned (queue : String) (policy : QueuePolicy) :
    Guards (Owned published) (savePolicy env queue policy) fun _ => True := by
  refine Guards.bind ensurePayloadDirectories_owned fun _ _ => executed_owned fun t ht => ?_
  unfold Tables.upsertKv
  split
  · exact ht.updateKvValue _ _ _
  · refine ⟨ht.rows, fun r hr => ?_⟩
    rcases List.mem_append.mp hr with hr | hr
    · exact ht.values r hr
    · rw [List.mem_singleton.mp hr]
      exact .inr ⟨queue, rfl⟩

/-- A sweep that counts its rows keeps their keys and queues. -/
theorem updateCounting_owned {p : IndexRow → Bool} {f : IndexRow → IndexRow}
    (hf : ∀ r, (f r).messageKey = r.messageKey ∧ (f r).queue = r.queue) :
    Guards (Owned published) (updateCounting p f) fun _ => True := by
  refine Guards.bind (Guards.prim (Q := fun _ => True) ?_) fun r _ => ?_
  · rintro s a t hs ⟨rfl, rfl⟩
    exact ⟨hs, trivial⟩
  · split
    · exact Guards.done
    · exact Guards.done
    · refine Guards.bind (executed_owned fun t ht => ht.updateIndex hf) fun r _ => ?_
      cases r with
      | error e => exact Guards.done
      | ok u => exact Guards.done

/-- Moving to the DLQ moves the payload within its queue. -/
theorem moveToDlq_owned (hwell : WellPublished published) (key reason : String) :
    Guards (Owned published) (moveToDlq env key reason) fun _ => True := by
  refine Guards.bind (Guards.transaction (Q := fun queue =>
    queue ≠ "" → ∃ m ∈ published, m.key = key ∧ m.queue = queue) ?_) fun r hr => ?_
  · have hread : ∀ t queue, Known published t →
        (t.row? key).map IndexRow.queue = some queue →
        queue ≠ "" → ∃ m ∈ published, m.key = key ∧ m.queue = queue := by
      rintro t queue ht hqueue -
      obtain ⟨r, hr, rfl⟩ := Option.map_eq_some_iff.mp hqueue
      obtain ⟨m, hm, hsame, hq⟩ := ht.rows r (Table.row?_mem hr)
      exact ⟨m, hm, hsame.trans (Table.row?_key hr), hq⟩
    refine GuardsE.bind (GuardsE.orDefault (query_owned hread) fun hne => absurd rfl hne)
      fun queue hqueue => ?_
    · refine GuardsE.bind (update_owned fun _ => ⟨rfl, rfl⟩) fun _ _ => ?_
      refine GuardsE.bind editKv_owned fun _ _ => ?_
      exact GuardsE.pure hqueue
  · cases r with
    | error e => exact Guards.done
    | ok queue =>
      dsimp only
      split
      case isTrue hne =>
        exact Guards.bind (moveOf_owned hwell .active .dlq (hr queue rfl hne))
          fun _ _ => Guards.done
      case isFalse => exact Guards.done

/-- Reprocessing moves the payload back within its queue. -/
theorem reprocessDlqMessage_owned (hwell : WellPublished published) (key : String) :
    Guards (Owned published) (reprocessDlqMessage env key) fun _ => True := by
  refine Guards.bind (Guards.transaction (Q := fun queue =>
    ∃ m ∈ published, m.key = key ∧ m.queue = queue) ?_) fun r hr => ?_
  · refine GuardsE.bind (query_owned fun _ _ ht hqueue => queueInState_known ht hqueue)
      fun queue hqueue => ?_
    refine GuardsE.bind (update_owned fun _ => ⟨rfl, rfl⟩) fun _ _ => ?_
    refine GuardsE.bind editKv_owned fun _ _ => ?_
    exact GuardsE.pure hqueue
  · cases r with
    | error e => exact Guards.done
    | ok queue =>
      dsimp only
      split
      case isTrue =>
        exact Guards.bind (moveOf_owned hwell .dlq .active (hr queue rfl)) fun _ _ => Guards.done
      case isFalse => exact Guards.done

/-- The message of a call that publishes is a published one. -/
def Publishes (published : List MessageEnvelope) : Call → Prop
  | .enqueue message => message ∈ published
  | _ => True

/-- **Every primitive of every operation leaves what the store holds to published messages.** -/
theorem program_owned (hwell : WellPublished published) {call : Call}
    (hcall : Publishes published call) :
    Guards (Owned published) (program schema env call) fun _ => True := by
  cases call with
  | enqueue message => exact enqueue_owned hwell hcall
  | leaseNext queue c timeout =>
    exact Guards.bind (leaseNext_owned queue c timeout) fun _ _ => Guards.done
  | ack lease => exact Guards.bind (ack_owned hwell lease) fun _ _ => Guards.done
  | nack lease reason requeue =>
    exact Guards.bind (nack_owned hwell lease reason requeue) fun _ _ => Guards.done
  | extendLease lease timeout =>
    exact Guards.bind (executed_owned fun _ ht => ht.updateIndex fun _ => ⟨rfl, rfl⟩)
      fun _ _ => Guards.done
  | savePolicy queue policy =>
    exact Guards.bind (savePolicy_owned queue policy) fun _ _ => Guards.done
  | recoverExpiredLeases =>
    exact Guards.bind (updateCounting_owned fun _ => ⟨rfl, rfl⟩) fun _ _ => Guards.done
  | processDelayedMessages =>
    exact Guards.bind (updateCounting_owned fun _ => ⟨rfl, rfl⟩) fun _ _ => Guards.done
  | delayMessage key delayMs =>
    exact Guards.bind (executed_owned fun _ ht => ht.updateIndex fun _ => ⟨rfl, rfl⟩)
      fun _ _ => Guards.done
  | moveToDlq key reason =>
    exact Guards.bind (moveToDlq_owned hwell key reason) fun _ _ => Guards.done
  | reprocessDlqMessage key =>
    exact Guards.bind (reprocessDlqMessage_owned hwell key) fun _ _ => Guards.done

/-- A call that is recorded publishes what it enqueues. -/
theorem publishes_publishing (published : List MessageEnvelope) (call : Call) :
    Publishes (call.publishing published) call := by
  cases call with
  | enqueue message => exact List.mem_cons_self
  | _ => trivial

/-- After every run of calls that publish as `handle_publish` does, and whichever primitives
    fail, what the store holds belongs to the messages published. -/
theorem owned_of_run {allowed : History Store (Env × Call) Reply → Store → Env × Call → Prop}
    (hfresh : ∀ h s i, allowed h s i → i.2.Fresh (publishedBy h))
    {h : History Store (Env × Call) Reply} {s : Store}
    (run : Run (adapter schema).machine allowed h s) :
    WellPublished (publishedBy h) ∧ Owned (publishedBy h) s := by
  induction run with
  | start =>
    exact ⟨trivial, ⟨by simp [Adapter.machine, adapter, Tables.empty],
      by simp [Adapter.machine, adapter, Tables.empty]⟩, by simp [Adapter.machine, adapter],
      by simp [Filed, Adapter.machine, adapter]⟩
  | @step h s i run ok ih =>
    obtain ⟨env, call⟩ := i
    obtain ⟨hwell, howned⟩ := ih
    have hwell' : WellPublished (call.publishing (publishedBy h)) :=
      hwell.publishing (hfresh _ _ _ ok)
    have hwider : Owned (call.publishing (publishedBy h)) s :=
      ⟨howned.data.widen call, fun d hd => (howned.saved d hd).widen call,
        howned.files.widen call⟩
    have hguards : Guards (Owned _) (program schema env call) fun _ => True :=
      program_owned hwell' (publishes_publishing _ call)
    exact ⟨hwell', (hguards.run hwider env.faults).1⟩

end YirangMQ.Hybrid

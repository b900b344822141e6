import YirangMQ.Hybrid.Payloads
import YirangMQ.Library.Paths

namespace YirangMQ.Hybrid

open Program Abortable

/-!
# Where the Hybrid adapter's payload files are

Queue strings are formatted into the paths of payload files.  As long as queues are names, an
operation makes, writes, moves and removes files in the directories of queues only, and one on a
queue stays in its directory.

* `payloadRoot`, `queueDirectory`, `queueDirectories` — the root, the directory of a queue string,
  and the directories made for a queue;
* `inside_of_pathOf` — where the paths of a message lead to;
* `Beside` — the files of other messages are as before;
* `touched_confined` — **what a call touches is inside the directory of a queue.**
-/

/-- `payload_root_`, followed from the working directory. -/
def payloadRoot : Directory := ["payloads", "data"]

/-- The directory of a queue's payloads, as it is formatted. -/
def directoryText (queue : String) (dir : PayloadDir) : String :=
  "./data/payloads/" ++ queue ++ ("/" ++ dir.name)

/-- `ensure_payload_directories`: the directories made for a queue. -/
def queueDirectories (queue : String) : List Directory :=
  [PayloadDir.active, .archive, .dlq].map fun dir => resolve [] (directoryText queue dir)

variable {schema : SchemaFile} {published : List MessageEnvelope} {s t : Store} {env : Env}
  {m : MessageEnvelope} {path queue : String} {α : Type}

/-- The directory a queue string leads to. -/
def queueDirectory (queue : String) : Directory := resolve [] ("./data/payloads/" ++ queue)

/-! ### Places -/

/-- A path under the payload root is not empty. -/
theorem payloads_ne_empty (text : String) : "./data/payloads/" ++ text ≠ "" := by
  intro hempty
  have hlength := congrArg String.length hempty
  rw [String.length_append] at hlength
  have hroot : "./data/payloads/".length = 16 := by decide
  have hzero : "".length = 0 := rfl
  omega

/-- A queue that is a name has its directory right under the payload root. -/
theorem queueDirectory_of_name (hqueue : IsName queue) :
    queueDirectory queue = queue :: payloadRoot := by
  have hplain : isAbsolute queue = false := isAbsolute_of_name fun c hc => (hqueue.2.2.2 c hc).1
  have hlist : ("./data/payloads/" ++ queue).toList =
      "./data/payloads".toList ++ '/' :: queue.toList := by
    have hroot : "./data/payloads/".toList = "./data/payloads".toList ++ ['/'] := rfl
    rw [String.toList_append, hroot, List.append_assoc, List.singleton_append]
  rw [queueDirectory, resolve_append hlist (by decide) hplain,
    show resolve [] "./data/payloads" = payloadRoot by decide, resolve_name hqueue]

/-- The directories of a queue are in the directory of its string, whatever that is. -/
theorem resolve_directoryText (queue : String) (dir : PayloadDir) :
    resolve [] (directoryText queue dir) = dir.name :: queueDirectory queue := by
  have hslash : "/".toList = ['/'] := rfl
  have hdir : IsName dir.name := by cases dir <;> decide
  have hplain : isAbsolute dir.name = false := isAbsolute_of_name fun c hc => (hdir.2.2.2 c hc).1
  have hlist : (directoryText queue dir).toList =
      ("./data/payloads/" ++ queue).toList ++ '/' :: dir.name.toList := by
    rw [directoryText, String.toList_append, @String.toList_append "/", hslash,
      List.singleton_append]
  rw [resolve_append hlist (payloads_ne_empty queue) hplain, resolve_name hdir, queueDirectory]

/-- A file in one of the directories of a queue. -/
theorem resolve_payload (dir : PayloadDir) {id extension : String}
    (hid : '/' ∉ id.toList) (hextension : '/' ∉ extension.toList) (hlong : 2 < extension.length)
    (hpath : path.toList =
      (directoryText queue dir).toList ++ '/' :: (id ++ extension).toList) :
    resolve [] path = (id ++ extension) :: dir.name :: queueDirectory queue := by
  have hfile : isAbsolute (id ++ extension) = false := by
    refine isAbsolute_of_name ?_
    intro c hc heq
    rw [String.toList_append, List.mem_append, heq] at hc
    exact hc.elim hid hextension
  have hne : directoryText queue dir ≠ "" := by
    intro hempty
    rw [directoryText, String.append_eq_empty_iff] at hempty
    exact payloads_ne_empty queue hempty.1
  rw [resolve_append hpath hne hfile, resolve_directoryText, resolve_file hid hextension hlong]

/-- Where a payload file is. -/
theorem resolve_payloadPath (dir : PayloadDir) (queue : String) {id : String}
    (hid : '/' ∉ id.toList) :
    resolve [] (payloadPath dir queue id) = (id ++ ".json") :: dir.name :: queueDirectory queue := by
  have hslash : "/".toList = ['/'] := rfl
  refine resolve_payload dir hid (by decide) (by decide) ?_
  rw [toList_payloadPath, directoryText]
  simp only [String.toList_append, hslash, List.append_assoc, List.cons_append, List.nil_append]

/-- The payload files of a message are inside the directory of its queue. -/
theorem inside_of_pathOf (h : PathOf m path) (hqueue : IsName m.queue)
    (hid : '/' ∉ m.messageId.toList) :
    Inside (m.queue :: payloadRoot) (resolve [] path) := by
  have hslash : "/".toList = ['/'] := rfl
  rcases h with ⟨dir, rfl⟩ | rfl
  · rw [resolve_payloadPath dir m.queue hid, queueDirectory_of_name hqueue]
    exact (inside_cons dir.name _).cons _
  · have hpath : (buildPayloadPath m.queue m.messageId ++ ".tmp").toList =
        (directoryText m.queue .active).toList ++ '/' :: (m.messageId ++ ".json.tmp").toList := by
      have hextension : ".json.tmp".toList = ".json".toList ++ ".tmp".toList := by decide
      have hfront := toList_payloadPath .active m.queue m.messageId
      rw [payloadPath] at hfront
      rw [String.toList_append, hfront, directoryText]
      simp only [String.toList_append, hslash, hextension, List.append_assoc, List.cons_append,
        List.nil_append]
    rw [resolve_payload .active hid (by decide) (by decide) hpath, queueDirectory_of_name hqueue]
    exact (inside_cons "active" _).cons _

/-! ### Other messages -/

/-- The files, but for those of a class, are as they were. -/
def Beside (P : String → Prop) (files files' : Payloads) : Prop :=
  ∀ path, ¬P path → files'.lookup path = files.lookup path

/-- The store, as far as its files are concerned. -/
abbrev Leaves (P : String → Prop) (s : Store) : Store → Prop :=
  Conn.Has (fun _ => True) (Beside P s.files)

/-- Nothing is left from a store to itself but what was there. -/
theorem Leaves.refl (P : String → Prop) (s : Store) : Leaves P s s :=
  ⟨trivial, fun _ _ => trivial, fun _ _ => rfl⟩

variable {P : String → Prop}

/-- A query touches no file. -/
theorem query_leaves {error : Option String} (g : Tables → Option α) :
    GuardsE (Leaves P s) (query error g) fun _ => True := by
  refine GuardsE.attemptOr fun t a u ht hresult => ?_
  simp only [Conn.onData, selecting] at hresult
  split at hresult
  case h_1 =>
    simp only [Except.map, Except.ok.injEq, Prod.mk.injEq] at hresult
    exact ⟨hresult.2 ▸ ht, trivial⟩
  case h_2 => cases hresult

/-- A statement touches no file. -/
theorem execute_leaves {describe : String → String} (f : Tables → Except String (α × Tables)) :
    GuardsE (Leaves P s) (execute describe f) fun _ => True := by
  refine Guards.bind (Guards.onData (Q := fun _ => True) fun _ _ _ _ _ => ⟨trivial, trivial⟩)
    fun r _ => ?_
  cases r with
  | ok a => exact Guards.pure fun _ _ => trivial
  | error e => exact Guards.pure fun _ _ => trivial

/-- A removal touches the file it removes. -/
theorem removeFile_leaves (hpath : P path) :
    Guards (Leaves P s) (removeFile path) fun _ => True := by
  refine (Guards.onFiles (Q := fun _ => True) ?_).weaken fun _ _ => trivial
  rintro files _ files' hfiles ⟨rfl, rfl⟩
  refine ⟨?_, trivial⟩
  intro path' hpath'
  have hne : path' ≠ path := fun heq => hpath' (heq ▸ hpath)
  rw [Files.lookup_erase', if_neg hne]
  exact hfiles path' hpath'

/-- A write touches its file and the temporary one. -/
theorem atomicWrite_leaves (hpath : P path) (htemp : P (path ++ ".tmp")) (content : JsonText) :
    Guards (Leaves P s) (atomicWrite path content) fun _ => True := by
  refine Guards.bind (Guards.onFiles (Q := fun _ => True) ?_) fun r _ => ?_
  · rintro files _ files' hfiles ⟨rfl, rfl⟩
    refine ⟨?_, trivial⟩
    intro path' hpath'
    have hne : path' ≠ path ++ ".tmp" := fun heq => hpath' (heq ▸ htemp)
    rw [Files.lookup_insert', if_neg hne]
    exact hfiles path' hpath'
  · cases r with
    | error e => exact Guards.done
    | ok u =>
      refine Guards.bind (Guards.onFiles (Q := fun _ => True) ?_) fun r _ => ?_
      · intro files a files' hfiles hrename
        refine ⟨?_, trivial⟩
        unfold Files.rename at hrename
        split at hrename
        case h_1 => cases hrename
        case h_2 =>
          simp only [Except.ok.injEq, Prod.mk.injEq] at hrename
          obtain ⟨-, rfl⟩ := hrename
          intro path' hpath'
          have hne : path' ≠ path := fun heq => hpath' (heq ▸ hpath)
          have hne' : path' ≠ path ++ ".tmp" := fun heq => hpath' (heq ▸ htemp)
          rw [Files.lookup_renamed, if_neg hne, if_neg hne']
          exact hfiles path' hpath'
      · cases r with
        | error e => exact Guards.bind (removeFile_leaves htemp) fun _ _ => Guards.done
        | ok u => exact Guards.done

/-- Inserting a message touches no file. -/
theorem insertMessage_leaves (m : MessageEnvelope) :
    GuardsE (Leaves P s) (insertMessage schema env m) fun _ => True :=
  GuardsE.bind (execute_leaves _) fun _ _ => execute_leaves _

/-- The directories of a queue are there before and after. -/
theorem ensure_leaves :
    Guards (Leaves P s) (prim (Conn.onFiles fun files => .ok ((), files))) fun _ => True := by
  refine (Guards.onFiles (Q := fun _ => True) ?_).weaken fun _ _ => trivial
  rintro files _ _ hfiles ⟨rfl, rfl⟩
  exact ⟨hfiles, trivial⟩

/-- Publishing touches the files of the message only. -/
theorem enqueue_leaves (m : MessageEnvelope) :
    Guards (Leaves (PathOf m) s) (enqueue schema env m) fun _ => True := by
  have hpath : PathOf m (buildPayloadPath m.queue m.messageId) := .inl ⟨.active, rfl⟩
  have hundo : ∀ e, Guards (Leaves (PathOf m) s)
      (undoEnqueue (buildPayloadPath m.queue m.messageId) e) fun _ => True := by
    intro e
    refine Guards.bind Guards.rollback fun _ _ => Guards.bind (removeFile_leaves hpath) fun r _ => ?_
    cases r with
    | error what => exact Guards.done
    | ok u => exact Guards.done
  refine Guards.bind ensure_leaves fun r _ => ?_
  cases r with
  | error e => exact Guards.done
  | ok u =>
    refine Guards.bind Guards.beginTransaction fun r _ => ?_
    cases r with
    | error e => exact Guards.done
    | ok u =>
      refine Guards.bind (atomicWrite_leaves hpath (.inr rfl) _) fun r _ => ?_
      cases r with
      | error e => exact Guards.bind Guards.rollback fun _ _ => Guards.done
      | ok u =>
        refine Guards.bind (insertMessage_leaves m) fun r _ => ?_
        cases r with
        | error e => exact hundo e
        | ok u =>
          refine Guards.bind Guards.commit fun r _ => ?_
          cases r with
          | error e => exact hundo (some e)
          | ok u => exact Guards.done

/-- Leasing touches no file. -/
theorem leaseNext_leaves (queue c : String) (timeout : Int) :
    Guards (Leaves (fun _ => False) s) (leaseNext schema env queue c timeout) fun _ => True := by
  have hrow : GuardsE (Leaves (fun _ => False) s)
      (leaseRow schema queue c env.now (env.now + timeout * 1000)) fun _ => True := by
    refine GuardsE.bind (query_leaves _) fun row _ => ?_
    refine GuardsE.bind (execute_leaves _) fun _ _ => ?_
    refine GuardsE.bind (query_leaves _) fun value _ => ?_
    exact GuardsE.pure trivial
  refine Guards.bind (Guards.transaction hrow) fun r _ => ?_
  rcases r with e | ⟨row, value⟩
  · exact Guards.done
  · have hread : Guards (Leaves (fun _ => False) s) (readMessage row value) fun _ => True := by
      unfold readMessage
      split
      · exact Guards.done
      · refine Guards.bind (Guards.onFiles (Q := fun _ => True) ?_) fun _ _ => Guards.done
        intro files text files' hfiles hread
        unfold Files.read at hread
        split at hread
        case h_1 => cases hread
        case h_2 =>
          simp only [Except.ok.injEq, Prod.mk.injEq] at hread
          exact ⟨hread.2 ▸ hfiles, trivial⟩
    refine Guards.bind hread fun r _ => ?_
    cases r with
    | none => exact Guards.done
    | some message => exact Guards.done

/-- Policies are rows. -/
theorem savePolicy_leaves (queue : String) (policy : QueuePolicy) :
    Guards (Leaves P s) (savePolicy env queue policy) fun _ => True :=
  Guards.bind ensure_leaves fun _ _ => (execute_leaves _).weaken fun _ _ => trivial

/-- **What a call touches, at any moment, is inside the directory of a queue**; and the queue is
    the one that the call names, if it does. -/
theorem touched_confined {call : Call} (hwell : WellPublished published)
    (howned : Owned published s) (hfresh : call.Fresh published)
    (hnames : ∀ m ∈ call.publishing published, IsName m.queue)
    {faults : List (Option String)} (ht : t ∈ (program schema env call).passedStates faults s)
    (htouched : t.files.lookup path ≠ s.files.lookup path) :
    ∃ q, IsName q ∧ (∀ queue, call.queue? = some queue → q = queue) ∧
      Inside (q :: payloadRoot) (resolve [] path) := by
  have hwell' : WellPublished (call.publishing published) := hwell.publishing hfresh
  have hwider : Owned (call.publishing published) s :=
    ⟨howned.data.widen call, fun d hd => (howned.saved d hd).widen call, howned.files.widen call⟩
  have hpassed : ∀ t ∈ (program schema env call).passedStates faults s,
      Owned (call.publishing published) t := by
    have hguards : Guards (Owned (call.publishing published)) (program schema env call)
        fun _ => True := program_owned hwell' (publishes_publishing published call)
    exact (hguards.run hwider faults).2.2
  -- the file is there before or at that moment, and so is one of a published message
  obtain ⟨m, hm, hpath⟩ : ∃ m ∈ call.publishing published, PathOf m path := by
    cases hafter : t.files.lookup path with
    | some text =>
      obtain ⟨m, hm, -, hpath⟩ := (hpassed t ht).files path text hafter
      exact ⟨m, hm, hpath⟩
    | none =>
      cases hbefore : s.files.lookup path with
      | some text =>
        obtain ⟨m, hm, -, hpath⟩ := hwider.files path text hbefore
        exact ⟨m, hm, hpath⟩
      | none => exact absurd (hafter.trans hbefore.symm) htouched
  have hid : '/' ∉ m.messageId.toList := not_slash_of_guid (hwell'.formed m hm).2
  refine ⟨m.queue, hnames m hm, ?_, inside_of_pathOf hpath (hnames m hm) hid⟩
  intro queue hqueue
  cases call with
  | enqueue message =>
    have hleaves : Guards (Leaves (PathOf message) s) (program schema env (.enqueue message))
        fun _ => True := enqueue_leaves message
    have hown : PathOf message path := by
      by_contra hother
      exact htouched (((hleaves.run (Leaves.refl _ s) faults).2.2 t ht).files path hother)
    have hsame := hown.unique hwell' List.mem_cons_self hm hpath
    exact (congrArg MessageEnvelope.queue hsame).trans (Option.some.inj hqueue)
  | leaseNext queue' c timeout =>
    have hleaves : Guards (Leaves (fun _ => False) s)
        (program schema env (.leaseNext queue' c timeout)) fun _ => True :=
      Guards.bind (leaseNext_leaves queue' c timeout) fun _ _ => Guards.done
    exact absurd (((hleaves.run (Leaves.refl _ s) faults).2.2 t ht).files path id) htouched
  | savePolicy queue' policy =>
    have hleaves : Guards (Leaves (fun _ => False) s)
        (program schema env (.savePolicy queue' policy)) fun _ => True :=
      Guards.bind (savePolicy_leaves queue' policy) fun _ _ => Guards.done
    exact absurd (((hleaves.run (Leaves.refl _ s) faults).2.2 t ht).files path id) htouched
  | _ => cases hqueue

end YirangMQ.Hybrid

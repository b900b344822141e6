import YirangMQ.FileSystem.Filing

namespace YirangMQ.FileSystem

open Program

/-!
# Where the FileSystem adapter's files are

A queue string is followed as a path from the root, wherever that leads.  As long as queues are
names and keys have no slash, the files an operation makes, writes, moves or removes are in the
directory of a queue or in that of the adapter's own notes; an operation on one queue stays in its
directory.

* `Path.place` — the path of a file, followed from the root;
* `named`, `KeepsNames` — the filing of names, and the calls that keep to it;
* `Elsewhere` — the files of other queues are as before;
* `filed_of_run` — after every run of such calls the files are where they should;
* `touched_confined` — **what such a call touches is inside a queue's directory or the notes.**
-/

/-- The path of a file, followed from the root. -/
def Path.place : Path → Directory
  | .message location dir id => resolve (resolve location dir.name) (id ++ ".json")
  | .leaseMeta text => resolve (resolve [] metaDir) ("leases/" ++ text ++ ".json")
  | .delayedMeta text => resolve (resolve [] metaDir) ("delayed/" ++ text ++ ".json")
  | .policy queue => resolve (resolve [] metaDir) ("policy_" ++ queue ++ ".json")
  | .temp path =>
    match path.place with
    | [] => [".tmp"]
    | name :: above => (name ++ ".tmp") :: above

/-- The directory of a queue in which the file is, if it is a message. -/
def Path.location? : Path → Option Directory
  | .message location _ _ => some location
  | .temp path => path.location?
  | _ => none

/-- `ensure_queue_directories`: the directories made for a queue. -/
def queueDirectories (queue : String) : List Directory :=
  [SubDir.inbox, .processing, .archive, .dlq, .delayed].map fun dir =>
    resolve (resolve [] queue) dir.name

variable {published : List MessageEnvelope} {d s : Disk} {env : Env} {path : Path} {queue : String}
  {location : Directory} {α : Type}

/-! ### Places -/

/-- Where a message file is, when its identifier is one name. -/
theorem place_message (location : Directory) (dir : SubDir) {id : String}
    (hid : '/' ∉ id.toList) :
    (Path.message location dir id).place = (id ++ ".json") :: dir.name :: location := by
  have hname : IsName dir.name := by cases dir <;> decide
  rw [Path.place, resolve_name hname, resolve_file hid (by decide) (by decide)]

/-- A note in a directory beside the others. -/
theorem inside_note {front text : String} (hfront : IsName front) (htext : '/' ∉ text.toList) :
    Inside [metaDir] (resolve (resolve [] metaDir) (front ++ "/" ++ text ++ ".json")) := by
  have hfile : isAbsolute (text ++ ".json") = false := by
    refine isAbsolute_of_name ?_
    intro c hc heq
    rw [String.toList_append, List.mem_append, heq] at hc
    exact hc.elim htext (by decide)
  have hlist : (front ++ "/" ++ text ++ ".json").toList =
      front.toList ++ '/' :: (text ++ ".json").toList := by
    have hslash : "/".toList = ['/'] := rfl
    simp only [String.toList_append, hslash, List.append_assoc, List.cons_append, List.nil_append]
  rw [resolve_append hlist hfront.1 hfile, resolve_name hfront,
    resolve_file htext (by decide) (by decide)]
  exact (inside_cons front [metaDir]).cons _

/-- Messages and notes under names without a slash. -/
def Path.Plain : Path → Prop
  | .message _ _ id => '/' ∉ id.toList
  | .leaseMeta text | .delayedMeta text | .policy text => '/' ∉ text.toList
  | .temp path => path.Plain

/-- A temporary file is beside the file that it becomes. -/
theorem inside_temp {dir : Directory} (h : Inside dir path.place) :
    Inside dir (Path.temp path).place := by
  rw [Path.place]
  cases hplace : path.place with
  | nil =>
    rw [hplace] at h
    exact h
  | cons name above =>
    rw [hplace] at h
    exact h

/-- A plain file is in the directory of its queue, or among the notes. -/
theorem inside_of_plain (h : path.Plain) :
    (∃ location, path.location? = some location ∧ Inside location path.place) ∨
      path.location? = none ∧ Inside [metaDir] path.place := by
  induction path with
  | message location dir id =>
    refine .inl ⟨location, rfl, ?_⟩
    rw [place_message location dir h]
    exact (inside_cons dir.name location).cons _
  | leaseMeta text =>
    have hnote := @inside_note "leases" text (by decide) h
    exact .inr ⟨rfl, hnote⟩
  | delayedMeta text =>
    have hnote := @inside_note "delayed" text (by decide) h
    exact .inr ⟨rfl, hnote⟩
  | policy text =>
    have hfile : '/' ∉ ("policy_" ++ text).toList := by
      rw [String.toList_append, List.mem_append]
      exact fun hmem => hmem.elim (by decide) h
    refine .inr ⟨rfl, ?_⟩
    show Inside [metaDir] (resolve (resolve [] metaDir) ("policy_" ++ text ++ ".json"))
    rw [resolve_file hfile (by decide) (by decide)]
    exact inside_cons _ [metaDir]
  | temp path ih =>
    rcases ih h with ⟨location, hlocation, hinside⟩ | ⟨hnote, hinside⟩
    · exact .inl ⟨location, hlocation, inside_temp hinside⟩
    · exact .inr ⟨hnote, inside_temp hinside⟩

/-! ### The filing of names -/

/-- Queues are names, and the names of files have no slash. -/
def named (published : List MessageEnvelope) : Filing where
  queue := IsName
  name text := '/' ∉ text.toList
  published := published
  fits m location := resolve [] m.queue = location ∧ '/' ∉ m.key.toList
  foreign := ∅
  name_of_plain _ h := h
  name_of_fits _ _ h := plain_safeKey h.2
  queue_of_root q directory hq hroot := by
    rw [resolve_name hq] at hroot
    exact (List.cons.inj hroot).1 ▸ hq
  foreign_queue _ _ _ _ := rfl
  foreign_root := foreign_root_empty
  foreign_lease := foreign_lease_empty

/-- The call names queues by names, and keys have no slash. -/
def KeepsNames : Call → Prop
  | .enqueue message => IsName message.queue
  | .leaseNext queue _ _ => IsName queue
  | .ack lease | .nack lease _ _ | .extendLease lease _ => '/' ∉ lease.messageKey.toList
  | .delayMessage key _ | .moveToDlq key _ => '/' ∉ key.toList
  | .reprocessDlqMessage key =>
    '/' ∉ key.toList ∧ (extractQueueFromKey key = "" ∨ IsName (extractQueueFromKey key))
  | .savePolicy queue _ => IsName queue
  | .recoverExpiredLeases | .processDelayedMessages => True

/-- Whether a call keeps to names can be computed. -/
instance : (call : Call) → Decidable (KeepsNames call)
  | .enqueue message => inferInstanceAs (Decidable (IsName message.queue))
  | .leaseNext queue _ _ | .savePolicy queue _ => inferInstanceAs (Decidable (IsName queue))
  | .ack lease | .nack lease _ _ | .extendLease lease _ =>
    inferInstanceAs (Decidable ('/' ∉ lease.messageKey.toList))
  | .delayMessage key _ | .moveToDlq key _ => inferInstanceAs (Decidable ('/' ∉ key.toList))
  | .reprocessDlqMessage key => inferInstanceAs (Decidable ('/' ∉ key.toList ∧
      (extractQueueFromKey key = "" ∨ IsName (extractQueueFromKey key))))
  | .recoverExpiredLeases | .processDelayedMessages => inferInstanceAs (Decidable True)

/-- A file of the adapter is plain, and lies in the directory of a queue that is a name. -/
theorem owns_plain (h : (named published).Owns path) :
    path.Plain ∧ ∀ location, path.location? = some location →
      ∃ q, IsName q ∧ location = [q] := by
  induction path with
  | message location dir id =>
    obtain ⟨⟨q, hq, hlocation⟩, hid⟩ := h
    refine ⟨hid, ?_⟩
    rintro _ ⟨rfl⟩
    exact ⟨q, hq, by rw [← hlocation, resolve_name hq]⟩
  | temp path ih => exact ih h
  | leaseMeta text => exact ⟨h, by rintro _ ⟨⟩⟩
  | delayedMeta text => exact ⟨h, by rintro _ ⟨⟩⟩
  | policy text => exact ⟨h, by rintro _ ⟨⟩⟩

/-- Whether a file belongs to the adapter does not depend on what is published. -/
theorem named_owns {published' : List MessageEnvelope} (h : (named published).Owns path) :
    (named published').Owns path := by
  induction path with
  | temp path ih => exact ih h
  | _ => exact h

/-- Publishing keeps what is filed. -/
theorem Filing.Kept.publishing (h : (named published).Kept d) (call : Call) :
    (named (call.publishing published)).Kept d where
  foreign path hpath := h.foreign path fun hown => hpath (named_owns hown)
  holds path content hown hlookup := by
    have hholds := h.holds path content (named_owns hown) hlookup
    clear hown hlookup
    induction path with
    | message location dir id =>
      obtain ⟨m, hm, hrest⟩ := hholds
      exact ⟨m, call.publishing_of_mem hm, hrest⟩
    | temp path ih => exact ih hholds
    | leaseMeta text => exact hholds
    | delayedMeta text => trivial
    | policy text => trivial

/-- Calls that keep to names keep to the filing. -/
theorem KeepsNames.admits {call : Call} (h : KeepsNames call) (hfresh : call.Fresh published)
    (hquiet : ∀ key, call = .reprocessDlqMessage key → extractQueueFromKey key ≠ "") :
    (named (call.publishing published)).Admits call := by
  cases call with
  | enqueue m =>
    obtain ⟨hkey, -, hid, -⟩ := hfresh
    have hplain : '/' ∉ m.messageId.toList := fun hmem => (isGuidChar_ne (hid _ hmem)).2.2 rfl
    refine ⟨List.mem_cons_self, h, hplain, rfl, ?_⟩
    rw [hkey, toList_messageKey]
    intro hmem
    simp only [List.mem_append, List.mem_cons] at hmem
    rcases hmem with (hfront | hqueue) | hcolon | hmem
    · revert hfront
      decide
    · exact (h.2.2.2 _ hqueue).1 rfl
    · cases hcolon
    · exact hplain hmem
  | leaseNext => exact h
  | ack | nack | extendLease | delayMessage | moveToDlq => exact Filing.key_of_plain _ h
  | reprocessDlqMessage key =>
    exact ⟨Filing.key_of_plain _ h.1, h.2.resolve_left (hquiet key rfl)⟩
  | savePolicy | recoverExpiredLeases | processDelayedMessages => trivial

/-- A key without a queue is refused at once. -/
theorem reprocess_refused {key : String} (h : extractQueueFromKey key = "") :
    program env (.reprocessDlqMessage key) =
      pure (.status (.error (some "invalid message key format"))) := by
  show (do return Reply.status (← reprocessDlqMessage env key)) = _
  rw [reprocessDlqMessage, if_pos h]
  rfl

/-- All that such a call does is in the adapter's own files. -/
theorem passed_kept {call : Call} (h : (named published).Kept d) (hnames : KeepsNames call)
    (hfresh : call.Fresh published) (faults : List (Option String)) :
    (named (call.publishing published)).Kept ((program env call).run faults d).2 ∧
    ∀ t ∈ (program env call).passedStates faults d, (named (call.publishing published)).Kept t := by
  have hkept : Guards (named (call.publishing published)).Kept (program env call)
      fun _ => True := by
    by_cases hquiet : ∀ key, call = .reprocessDlqMessage key → extractQueueFromKey key ≠ ""
    · exact (program_files call (hnames.admits hfresh hquiet)).weaken fun _ _ => trivial
    · push Not at hquiet
      obtain ⟨key, rfl, hkey⟩ := hquiet
      rw [reprocess_refused hkey]
      exact Guards.done
  obtain ⟨hlast, -, hpassed⟩ := hkept.run (h.publishing call) faults
  exact ⟨hlast, hpassed⟩

/-- After every run of such calls the adapter has files of its own only. -/
theorem filed_of_run {allowed : History Disk (Env × Call) Reply → Disk → Env × Call → Prop}
    (hallowed : ∀ h d i, allowed h d i → KeepsNames i.2 ∧ i.2.Fresh (publishedBy h))
    {h : History Disk (Env × Call) Reply} {d : Disk} (run : Run adapter.machine allowed h d) :
    (named (publishedBy h)).Kept d := by
  induction run with
  | start =>
    constructor
    · intro path _
      rfl
    · intro path content _ hlookup
      simp [Adapter.machine, adapter] at hlookup
  | @step h d i run ok ih =>
    obtain ⟨env, call⟩ := i
    obtain ⟨hnames, hfresh⟩ := hallowed h d _ ok
    exact (passed_kept ih hnames hfresh env.faults).1

/-! ### Other queues -/

/-- The file is a note, or a message in the directory of the queue. -/
def Near (location : Directory) (path : Path) : Prop :=
  ∀ other, path.location? = some other → other = location

/-- The files of other queues are as they were. -/
def Elsewhere (location : Directory) (s d : Disk) : Prop :=
  ∀ path, ¬Near location path → d.lookup path = s.lookup path

namespace Elsewhere

/-- Nothing has changed elsewhere in a disk against itself. -/
theorem refl (location : Directory) (s : Disk) : Elsewhere location s s := fun _ _ => rfl

/-- A file nearby may be written. -/
theorem insert (h : Elsewhere location s d) (hnear : Near location path) (content : JsonText) :
    Elsewhere location s (d.insert path content) := by
  intro path' hfar
  have hne : path' ≠ path := fun heq => hfar (heq ▸ hnear)
  rw [Files.lookup_insert', if_neg hne]
  exact h path' hfar

/-- A file nearby may be removed. -/
theorem erase (h : Elsewhere location s d) (hnear : Near location path) :
    Elsewhere location s (d.erase path) := by
  intro path' hfar
  have hne : path' ≠ path := fun heq => hfar (heq ▸ hnear)
  rw [Files.lookup_erase', if_neg hne]
  exact h path' hfar

/-! Its rules. -/

/-- Reading changes nothing elsewhere. -/
theorem read (path : Path) : Guards (Elsewhere location s) (readFile path) fun _ => True := by
  refine Guards.bind (Guards.prim (Q := fun _ => True) ?_) fun r _ => ?_
  · intro d content d' hd hread
    unfold Files.read at hread
    split at hread
    case h_1 => cases hread
    case h_2 =>
      simp only [Except.ok.injEq, Prod.mk.injEq] at hread
      exact ⟨hread.2 ▸ hd, trivial⟩
  · split <;> exact Guards.done

/-- A rename between files nearby changes nothing elsewhere. -/
theorem rename {src dest : Path} (hsrc : Near location src) (hdest : Near location dest) :
    Guards (Elsewhere location s) (Program.prim (Files.rename src dest)) fun _ => True := by
  refine (Guards.prim (Q := fun _ => True) ?_).weaken fun _ _ => trivial
  intro d u d' hd hrename
  unfold Files.rename at hrename
  split at hrename
  case h_1 => cases hrename
  case h_2 content _ =>
    simp only [Except.ok.injEq, Prod.mk.injEq] at hrename
    exact ⟨hrename.2 ▸ (hd.erase hsrc).insert hdest content, trivial⟩

/-- Nor does a move between them. -/
theorem move {src dest : Path} (hsrc : Near location src) (hdest : Near location dest) :
    Guards (Elsewhere location s) (moveFile src dest) fun _ => True := by
  refine Guards.bind (rename hsrc hdest) fun r _ => ?_
  split <;> exact Guards.done

/-- Nor does the removal of a file nearby by the primitive. -/
theorem removed (hnear : Near location path) :
    Guards (Elsewhere location s) (prim (Files.remove path)) fun _ => True := by
  refine (Guards.prim (Q := fun _ => True) ?_).weaken fun _ _ => trivial
  rintro d u d' hd ⟨rfl, rfl⟩
  exact ⟨hd.erase hnear, trivial⟩

/-- Nor does its deletion. -/
theorem remove (hnear : Near location path) :
    Guards (Elsewhere location s) (deleteFile path) fun _ => True :=
  Guards.bind (removed hnear) fun _ _ => Guards.done

/-- Nor does its writing; the temporary file is nearby as well. -/
theorem write (hnear : Near location path) (content : JsonText) :
    Guards (Elsewhere location s) (atomicWrite path content) fun _ => True := by
  have htemp : Near location (.temp path) := hnear
  refine Guards.bind (Guards.prim (Q := fun _ => True) ?_) fun r _ => ?_
  · rintro d u d' hd ⟨rfl, rfl⟩
    exact ⟨hd.insert htemp content, trivial⟩
  · split
    · exact Guards.done
    · refine Guards.bind (rename htemp hnear) fun r _ => ?_
      split
      · exact Guards.bind (removed htemp) fun _ _ => Guards.done
      · exact Guards.done

/-- Nor does the writing of a named file, written or refused. -/
theorem writeNamed {name : String} (hnear : Near location path) (content : JsonText) :
    Guards (Elsewhere location s) (writeNamed name path content) fun _ => True := by
  unfold FileSystem.writeNamed
  split
  · exact Guards.done
  · exact write hnear content

/-- Nor does a listing. -/
theorem listJson (queue : String) (dir : SubDir) :
    Guards (Elsewhere location s) (listJsonFiles queue dir) fun _ => True := by
  have hlist : Guards (Elsewhere location s) (listDirectory (Disk.ids · (resolve [] queue) dir))
      fun _ => True := by
    refine Guards.bind (Guards.prim (Q := fun _ => True) ?_) fun r _ => ?_
    · rintro d l d' hd ⟨rfl, rfl⟩
      exact ⟨hd, trivial⟩
    · split <;> exact Guards.done
  exact Guards.bind hlist fun ids _ => Guards.done

end Elsewhere

/-- The message files of a queue are near its directory. -/
theorem near_queuePath (queue : String) (dir : SubDir) (id : String) :
    Near (resolve [] queue) (queuePath queue dir id) := by
  rintro _ ⟨rfl⟩
  rfl

/-- Enqueueing changes nothing outside the queue's directory and the meta directory. -/
theorem enqueue_elsewhere (m : MessageEnvelope) :
    Guards (Elsewhere (resolve [] m.queue) s) (enqueue env m) fun _ => True := by
  have hnote : ∀ delayed, Guards (Elsewhere (resolve [] m.queue) s) (writeDelayedMeta delayed)
      fun _ => True := by
    intro delayed
    refine Guards.bind (Elsewhere.writeNamed ?_ _) fun _ _ => Guards.done
    rintro _ ⟨⟩
  have hwrite : ∀ dir, Guards (Elsewhere (resolve [] m.queue) s)
      (atomicWrite (queuePath m.queue dir m.messageId) (some (serializeEnvelope m)))
      fun _ => True :=
    fun dir => Elsewhere.write (near_queuePath m.queue dir m.messageId) _
  refine Guards.bind (Guards.prim (Q := fun _ => True) ?_) fun r _ => ?_
  · rintro d u d' hd ⟨rfl, rfl⟩
    exact ⟨hd, trivial⟩
  · split
    · exact Guards.done
    · split
      · refine Guards.bind (hnote _) fun _ _ => Guards.bind Guards.done fun dir _ => ?_
        refine Guards.bind (hwrite dir) fun r _ => ?_
        split <;> exact Guards.done
      · refine Guards.bind Guards.done fun dir _ => Guards.bind (hwrite dir) fun r _ => ?_
        split <;> exact Guards.done

/-- Nor does the search through the inbox. -/
theorem findMatch_elsewhere (queue c : String) (ids : List String) :
    Guards (Elsewhere location s) (findMatch queue c ids) fun _ => True := by
  induction ids with
  | nil => exact Guards.done
  | cons id ids ih =>
    refine Guards.bind (Elsewhere.read _) fun r _ => ?_
    split
    · exact ih
    · split
      · exact ih
      · split
        · exact Guards.done
        · exact ih

/-- Nor does leasing. -/
theorem leaseNext_elsewhere (queue c : String) (timeout : Int) :
    Guards (Elsewhere (resolve [] queue) s) (leaseNext env queue c timeout) fun _ => True := by
  have hnear := near_queuePath queue
  refine Guards.bind (Elsewhere.listJson queue .inbox) fun ids _ =>
    Guards.bind (findMatch_elsewhere queue c ids) fun r _ => ?_
  split
  · exact Guards.done
  · rename_i id envelope
    refine Guards.bind (Elsewhere.move (hnear .inbox id) (hnear .processing id)) fun r _ => ?_
    split
    · exact Guards.done
    · refine Guards.bind (Elsewhere.writeNamed ?_ _) fun r _ => ?_
      · rintro _ ⟨⟩
      · split
        · exact Guards.bind (Elsewhere.move (hnear .processing id) (hnear .inbox id)) fun _ _ =>
            Guards.done
        · exact Guards.bind (Elsewhere.write (hnear .processing id) _) fun _ _ => Guards.done

/-- Policies are notes. -/
theorem savePolicy_elsewhere (queue : String) (policy : QueuePolicy) :
    Guards (Elsewhere location s) (savePolicy queue policy) fun _ => True := by
  refine Guards.bind (Guards.prim (Q := fun _ => True) ?_) fun _ _ => ?_
  · rintro d u d' hd ⟨rfl, rfl⟩
    exact ⟨hd, trivial⟩
  · refine Guards.bind (Elsewhere.writeNamed ?_ _) fun r _ => ?_
    · rintro _ ⟨⟩
    · split <;> exact Guards.done

/-- An operation on a queue stays in its directory. -/
theorem named_elsewhere {call : Call} (h : call.queue? = some queue) :
    Guards (Elsewhere (resolve [] queue) s) (program env call) fun _ => True := by
  cases call with
  | enqueue message =>
    obtain rfl := Option.some.inj h
    exact Guards.bind (enqueue_elsewhere message) fun _ _ => Guards.done
  | leaseNext queue c timeout =>
    obtain rfl := Option.some.inj h
    exact Guards.bind (leaseNext_elsewhere _ c timeout) fun _ _ => Guards.done
  | savePolicy queue policy =>
    exact Guards.bind (savePolicy_elsewhere queue policy) fun _ _ => Guards.done
  | _ => cases h

/-- **What a call touches, at any moment, is inside the directory of a queue or among the notes**;
    and the queue is the one that the call names, if it does. -/
theorem touched_confined {call : Call} (h : (named published).Kept d) (hnames : KeepsNames call)
    (hfresh : call.Fresh published) {faults : List (Option String)} {t : Disk}
    (ht : t ∈ (program env call).passedStates faults d) (htouched : t.lookup path ≠ d.lookup path) :
    (∃ q, IsName q ∧ (∀ queue, call.queue? = some queue → q = queue) ∧ Inside [q] path.place) ∨
      Inside [metaDir] path.place := by
  have hkept := (passed_kept h hnames hfresh faults).2 t ht
  have hown : (named (call.publishing published)).Owns path := by
    by_contra hforeign
    have hbefore := (h.publishing call).foreign path hforeign
    exact htouched ((hkept.foreign path hforeign).trans hbefore.symm)
  obtain ⟨hplain, hlocation⟩ := owns_plain hown
  rcases inside_of_plain hplain with ⟨location, hsome, hinside⟩ | ⟨-, hinside⟩
  · obtain ⟨q, hq, rfl⟩ := hlocation location hsome
    refine .inl ⟨q, hq, ?_, hinside⟩
    intro queue hqueue
    have hname : IsName queue := by
      cases call with
      | enqueue message => exact Option.some.inj hqueue ▸ hnames
      | leaseNext => exact Option.some.inj hqueue ▸ hnames
      | savePolicy => exact Option.some.inj hqueue ▸ hnames
      | _ => cases hqueue
    obtain ⟨-, -, hpassed⟩ := (named_elsewhere hqueue).run (Elsewhere.refl _ d) faults
    have hnear : Near (resolve [] queue) path := by
      by_contra hfar
      exact htouched (hpassed t ht path hfar)
    have hsame := hnear [q] hsome
    rw [resolve_name hname] at hsame
    exact (List.cons.inj hsame).1
  · exact .inr hinside

end YirangMQ.FileSystem

import YirangMQ.FileSystem.Filing

namespace YirangMQ.FileSystem

open Program

/-!
# Lease and delay files of different messages

Each message has a lease file and a delay file, named by its key with every colon replaced.  An
operation on one message is to leave the files of all others alone.  The replaced names are
different unless the keys have one identifier and queue strings that differ in colons and
underscores only.  Queue strings are names here: with a slash the name of such a file leads into a
directory, which may or may not be there, and a NUL character ends it.

* `Agree`, `Agrees` — the files of a class are as they were on a disk, and programs that leave
  them so, with one rule for each primitive;
* `Clear` — the keys whose files are not of the class;
* `PublishedKey` — the keys of messages, with their queue strings and identifiers;
* `Call.On` — the calls on one key;
* `LeavesAlone` — what the operations on one key leave of another;
* `leavesAlone_iff` — **they leave the other's files alone exactly when the names differ.**
-/

/-- The files of the class are as on the first disk. -/
def Agree (P : Path → Prop) (d₀ d : Disk) : Prop := ∀ path, P path → d.lookup path = d₀.lookup path

/-- The program leaves the files of the class as they were on the disk, whatever fails. -/
def Agrees {α : Type} (P : Path → Prop) (d₀ : Disk) (m : Program Disk α) : Prop :=
  ∀ d, Agree P d₀ d → Sat True (fun _ => True) d m fun _ d' => Agree P d₀ d'

/-- The class has lease and delay files only. -/
def MetaOnly (P : Path → Prop) : Prop :=
  ∀ path, P path → ∃ text, path = .leaseMeta text ∨ path = .delayedMeta text

/-- The files of the key are not of the class. -/
structure Clear (P : Path → Prop) (key : String) : Prop where
  lease : ¬P (.leaseMeta (safeKey key))
  note : ¬P (.delayedMeta (safeKey key))

variable {P : Path → Prop} {d₀ d : Disk} {env : Env} {key : String} {α β : Type}

/-- No message file is among the files in question. -/
theorem MetaOnly.queuePath (hP : MetaOnly P) (queue : String) (dir : SubDir) (id : String) :
    ¬P (queuePath queue dir id) := by
  intro hpath
  obtain ⟨text, heq | heq⟩ := hP _ hpath
  · cases heq
  · cases heq

/-- No temporary file is among them. -/
theorem MetaOnly.temp (hP : MetaOnly P) (path : Path) : ¬P (.temp path) := by
  intro hpath
  obtain ⟨text, heq | heq⟩ := hP _ hpath
  · cases heq
  · cases heq

/-- No policy file is among them. -/
theorem MetaOnly.policy (hP : MetaOnly P) (queue : String) : ¬P (.policy queue) := by
  intro hpath
  obtain ⟨text, heq | heq⟩ := hP _ hpath
  · cases heq
  · cases heq

/-- Writing another file changes none of them. -/
theorem Agree.insert (h : Agree P d₀ d) {path : Path} (hpath : ¬P path) (content : JsonText) :
    Agree P d₀ (d.insert path content) := by
  intro path' hpath'
  have hne : path' ≠ path := fun heq => hpath (heq ▸ hpath')
  rw [Files.lookup_insert', if_neg hne]
  exact h path' hpath'

/-- Removing another file changes none of them. -/
theorem Agree.erase (h : Agree P d₀ d) {path : Path} (hpath : ¬P path) :
    Agree P d₀ (d.erase path) := by
  intro path' hpath'
  have hne : path' ≠ path := fun heq => hpath (heq ▸ hpath')
  rw [Files.lookup_erase', if_neg hne]
  exact h path' hpath'

namespace Agrees

/-- A program that does nothing leaves the files alone. -/
theorem done {a : α} : Agrees P d₀ (Pure.pure a) := fun _ hd => Sat.pure hd

/-- Two programs that leave the files alone do so one after the other. -/
theorem bind {m : Program Disk β} {f : β → Program Disk α} (hm : Agrees P d₀ m)
    (hf : ∀ b, Agrees P d₀ (f b)) : Agrees P d₀ (m >>= f) :=
  fun d hd => Sat.bind ((hm d hd).weaken fun b d' hd' => hf b d' hd')

/-- A primitive whose result agrees. -/
theorem prim {f : Disk → Except String (α × Disk)}
    (h : ∀ d a d', Agree P d₀ d → f d = .ok (a, d') → Agree P d₀ d') :
    Agrees P d₀ (Program.prim f) :=
  fun d hd => Sat.prim (fun a d' hf => ⟨trivial, h d a d' hd hf⟩) (fun _ _ => hd) fun _ _ => hd

/-- So does a program repeated over a list. -/
theorem sumList {f : β → Program Disk Nat} (bs : List β) (h : ∀ b ∈ bs, Agrees P d₀ (f b)) :
    Agrees P d₀ (Program.sumList f bs) :=
  fun _ hd => Sat.sumList (Agree P d₀) bs (fun b hb d' hd' => h b hb d' hd') hd

/-- What is so at the end of a run. -/
theorem run {m : Program Disk α} (h : Agrees P d₀ m) (hd : Agree P d₀ d)
    (faults : List (Option String)) : Agree P d₀ (m.run faults d).2 :=
  ((h d hd).run (.inl trivial) trivial).1

/-- Reading leaves the files alone. -/
theorem read (path : Path) : Agrees P d₀ (readFile path) := by
  refine bind (prim ?_) fun r => ?_
  · intro d content d' hd hread
    unfold Files.read at hread
    split at hread
    case h_1 => cases hread
    case h_2 => cases hread; exact hd
  · split <;> exact done

/-- A rename between other files leaves them alone. -/
theorem rename {src dest : Path} (hsrc : ¬P src) (hdest : ¬P dest) :
    Agrees P d₀ (Program.prim (Files.rename src dest)) := by
  refine prim fun d u d' hd hrename => ?_
  unfold Files.rename at hrename
  split at hrename
  case h_1 => cases hrename
  case h_2 content _ =>
    cases hrename
    exact (hd.erase hsrc).insert hdest content

/-- So does a move between other files. -/
theorem move {src dest : Path} (hsrc : ¬P src) (hdest : ¬P dest) :
    Agrees P d₀ (moveFile src dest) := by
  refine bind (rename hsrc hdest) fun r => ?_
  split <;> exact done

/-- So does the removal of another file by the primitive. -/
theorem removed {path : Path} (hpath : ¬P path) :
    Agrees P d₀ (Program.prim (Files.remove path)) := by
  refine prim fun d u d' hd hremove => ?_
  cases hremove
  exact hd.erase hpath

/-- So does the deletion of another file. -/
theorem remove {path : Path} (hpath : ¬P path) : Agrees P d₀ (deleteFile path) :=
  bind (removed hpath) fun _ => done

/-- So does the writing of another file; its temporary file is none of them. -/
theorem write (hP : MetaOnly P) {target : Path} (htarget : ¬P target) (content : JsonText) :
    Agrees P d₀ (atomicWrite target content) := by
  refine bind (prim fun d u d' hd hcreate => ?_) fun r => ?_
  · cases hcreate
    exact hd.insert (hP.temp target) content
  · split
    · exact done
    · refine bind (rename (hP.temp target) htarget) fun r => ?_
      split
      · exact bind (removed (hP.temp target)) fun _ => done
      · exact done

/-- So does the writing of a named file, written or refused. -/
theorem writeNamed (hP : MetaOnly P) {name : String} {path : Path} (hpath : ¬P path)
    (content : JsonText) : Agrees P d₀ (writeNamed name path content) := by
  unfold FileSystem.writeNamed
  split
  case isTrue => exact done
  case isFalse => exact write hP hpath content

/-- Listing leaves the files alone. -/
theorem list (entries : Disk → List α) : Agrees P d₀ (listDirectory entries) := by
  refine bind (prim fun d l d' hd hlist => ?_) fun r => ?_
  · cases hlist
    exact hd
  · split <;> exact done

/-- Listing a directory of a queue leaves the files alone. -/
theorem listJson (queue : String) (dir : SubDir) : Agrees P d₀ (listJsonFiles queue dir) :=
  bind (list _) fun _ => done

/-- Reading a lease leaves the files alone. -/
theorem readLease (key : String) : Agrees P d₀ (readLeaseMeta key) := by
  refine bind (read _) fun r => ?_
  split
  · exact done
  · split <;> exact done

/-- Editing a message file leaves the files alone. -/
theorem editFile (hP : MetaOnly P) (queue : String) (dir : SubDir) (id : String)
    (edit : Json String → Option (Json String)) :
    Agrees P d₀ (editFile (queuePath queue dir id) edit) := by
  refine bind (read _) fun r => ?_
  split
  · exact done
  · split
    · exact done
    · exact bind (write hP (hP.queuePath _ _ _) _) fun _ => done

/-- A file that leaves `processing/` takes its own lease file with it, which is none of them. -/
theorem leave (hP : MetaOnly P) (hkey : Clear P key) (queue : String) (src dest : SubDir)
    (id : String) :
    Agrees P d₀ (leaveProcessing key (queuePath queue src id) (queuePath queue dest id)) := by
  refine bind (move (hP.queuePath _ _ _) (hP.queuePath _ _ _)) fun r => ?_
  split
  · exact done
  · exact bind (remove hkey.lease) fun _ => done

/-- A note of a clear key is none of them. -/
theorem note (hP : MetaOnly P) {delayed : DelayedMeta} (hkey : Clear P delayed.messageKey) :
    Agrees P d₀ (writeDelayedMeta delayed) :=
  bind (writeNamed hP hkey.note _) fun _ => done

end Agrees

/-- Whatever a program does, it ends. -/
theorem sat_ends {m : Program Disk α} {Q : α → Disk → Prop} (h : ∀ a d', Q a d') :
    Sat True (fun _ => True) d m Q :=
  fun _ _ _ _ => ⟨.inl trivial, fun _ _ => trivial, h _ _⟩

/-- Reading a file whose content is known, or failing to. -/
theorem readFile_reads {path : Path} {Q : Except String JsonText → Disk → Prop}
    (hok : ∀ content, d.lookup path = some content → Q (.ok content) d)
    (herr : ∀ e, Q (.error e) d) : Sat True (fun _ => True) d (readFile path) Q := by
  refine Sat.bind (Sat.prim ?_ (fun _ _ => Sat.pure (herr _)) fun _ _ => Sat.pure (herr _))
  intro content d' hread
  unfold Files.read at hread
  split at hread
  case h_1 => cases hread
  case h_2 content' hcontent =>
    cases hread
    exact ⟨trivial, Sat.pure (hok content hcontent)⟩

/-! ### Operations -/

/-- Searching the inbox leaves the files alone. -/
theorem findMatch_agrees {queue c : String} (ids : List String) :
    Agrees P d₀ (findMatch queue c ids) := by
  induction ids with
  | nil => exact .done
  | cons id ids ih =>
    refine Agrees.bind (.read _) fun r => ?_
    split
    · exact ih
    · split
      · exact ih
      · split
        · exact .done
        · exact ih

section Operations

variable (hP : MetaOnly P)
include hP

/-- Enqueueing under a clear key leaves the files alone. -/
theorem enqueue_agrees {m : MessageEnvelope} (hkey : Clear P m.key) :
    Agrees P d₀ (enqueue env m) := by
  have hwrite : ∀ dir, Agrees P d₀ (atomicWrite (queuePath m.queue dir m.messageId)
      (some (serializeEnvelope m))) := fun dir => .write hP (hP.queuePath _ _ _) _
  refine Agrees.bind (.prim fun d u d' hd hsame => ?_) fun r => ?_
  · cases hsame
    exact hd
  · split
    · exact .done
    · split
      · refine Agrees.bind (.note hP hkey) fun _ => Agrees.bind .done fun dir => ?_
        refine Agrees.bind (hwrite dir) fun r => ?_
        split <;> exact .done
      · refine Agrees.bind .done fun dir => Agrees.bind (hwrite dir) fun r => ?_
        split <;> exact .done

/-- Acknowledging under a clear key leaves them alone. -/
theorem ack_agrees {lease : LeaseToken} (hkey : Clear P lease.messageKey) :
    Agrees P d₀ (ack env lease) := by
  refine Agrees.bind (.readLease _) fun r => ?_
  split
  · exact .done
  · split
    · exact .done
    · split
      · exact .done
      · split
        · exact .done
        · exact .leave hP hkey _ _ _ _

/-- The file in `processing/` is rewritten and moved to `dlq/`. -/
theorem bury_agrees (hkey : Clear P key) (queue id : String)
    (edit : Json String → Option (Json String)) :
    Agrees P d₀ (do
      editFile (queuePath queue .processing id) edit
      leaveProcessing key (queuePath queue .processing id) (queuePath queue .dlq id)) :=
  Agrees.bind (.editFile hP _ _ _ _) fun _ => .leave hP hkey _ _ _ _

/-- So does a nack under a clear key. -/
theorem nack_agrees {lease : LeaseToken} {reason : String} {requeue : Bool}
    (hkey : Clear P lease.messageKey) : Agrees P d₀ (nack env lease reason requeue) := by
  refine Agrees.bind (.readLease _) fun r => ?_
  split
  · exact .done
  · split
    · exact .done
    · split
      · exact .leave hP hkey _ _ _ _
      · exact bury_agrees hP hkey _ _ _

/-- So does the extension of a lease under a clear key. -/
theorem extendLease_agrees {lease : LeaseToken} {timeout : Int}
    (hkey : Clear P lease.messageKey) : Agrees P d₀ (extendLease env lease timeout) := by
  refine Agrees.bind (.readLease _) fun r => ?_
  split
  · exact .done
  · split
    · exact .done
    · split
      · exact .done
      · refine Agrees.bind (.writeNamed hP hkey.lease _) fun r => ?_
        split <;> exact .done

/-- So does the saving of a policy. -/
theorem savePolicy_agrees {queue : String} {policy : QueuePolicy} :
    Agrees P d₀ (savePolicy queue policy) := by
  refine Agrees.bind (.prim fun d u d' hd hsame => ?_) fun _ => ?_
  · cases hsame
    exact hd
  · refine Agrees.bind (.writeNamed hP (hP.policy queue) _) fun r => ?_
    split <;> exact .done

/-- So does the delaying of a message under a clear key. -/
theorem delayMessage_agrees {delayMs : Int} (hkey : Clear P key) :
    Agrees P d₀ (delayMessage env key delayMs) := by
  refine Agrees.bind (.readLease _) fun r => ?_
  split
  · exact .done
  · split
    · exact .done
    · dsimp only
      split
      · exact .leave hP hkey _ _ _ _
      · refine Agrees.bind (.editFile hP _ _ _ _) fun _ =>
          Agrees.bind (.move (hP.queuePath _ _ _) (hP.queuePath _ _ _)) fun r => ?_
        split
        · exact .done
        · exact Agrees.bind (.note hP hkey) fun _ =>
            Agrees.bind (.remove hkey.lease) fun _ => .done

/-- So does its move to the DLQ. -/
theorem moveToDlq_agrees {reason : String} (hkey : Clear P key) :
    Agrees P d₀ (moveToDlq env key reason) := by
  refine Agrees.bind (.readLease _) fun r => ?_
  split
  · exact .done
  · split
    · exact .done
    · exact bury_agrees hP hkey _ _ _

/-- So does the reprocessing of a dead letter, under any key. -/
theorem reprocessDlqMessage_agrees : Agrees P d₀ (reprocessDlqMessage env key) := by
  unfold reprocessDlqMessage
  split
  · exact .done
  · split
    · exact .done
    · refine Agrees.bind (.read _) fun r => ?_
      split
      · exact .done
      · split
        · exact .done
        · refine Agrees.bind (.write hP (hP.queuePath _ _ _) _) fun r => ?_
          split
          · exact .done
          · refine Agrees.bind (.move (hP.queuePath _ _ _) (hP.queuePath _ _ _)) fun r => ?_
            split <;> exact .done

/-- A round of `recover_expired_leases` removes the lease file it is about. -/
theorem recoverLease_agrees {path : Path} (hpath : ¬P path) :
    Agrees P d₀ (recoverLease env path) := by
  refine Agrees.bind (.read _) fun r => ?_
  split
  · exact .done
  · split
    · exact .done
    · refine Agrees.bind (.rename (hP.queuePath _ _ _) (hP.queuePath _ _ _)) fun r =>
        Agrees.bind (.remove hpath) fun _ => ?_
      split <;> exact .done

/-- A round of `process_delayed_messages` removes the delay file of the key in the document. -/
theorem processDelayed_agrees {queue id : String} (hd : Agree P d₀ d)
    (hkeys : ∀ j key, d.lookup (queuePath queue .delayed id) = some (some j) →
      j.valueStr "key" "" = some key → Clear P key) :
    Sat True (fun _ => True) d (processDelayed env queue id) fun _ d' => Agree P d₀ d' := by
  refine Sat.bind (readFile_reads ?_ fun _ => Sat.pure hd)
  intro content hcontent
  dsimp only
  split
  · exact Sat.pure hd
  · rename_i j time hread
    have hj : content = some j := by
      simp only [Option.bind_eq_some_iff, Option.map_eq_some_iff, Prod.mk.injEq] at hread
      obtain ⟨j', hcontent', _, -, rfl, -⟩ := hread
      exact hcontent'
    split
    · refine Sat.bind ((Agrees.rename (hP.queuePath _ _ _) (hP.queuePath _ _ _) d hd).weaken ?_)
      intro r d' hd'
      split
      · exact Sat.pure hd'
      · split
        · exact Sat.pure hd'
        · rename_i key hkey
          have hclear : Clear P key := hkeys j key (hj ▸ hcontent) hkey
          split
          · exact Agrees.bind (.remove hclear.note) (fun _ => .done) d' hd'
          · exact Agrees.bind .done (fun _ => .done) d' hd'
    · exact Sat.pure hd

/-- A lease file that could not be written is as it was. -/
theorem writeLeaseMeta_agrees {lease : LeaseMeta} (hd : Agree P d₀ d) :
    Sat True (fun _ => True) d (writeLeaseMeta key lease) fun r d' =>
      r = .ok () ∧ ¬Clear P key ∨ Agree P d₀ d' := by
  unfold writeLeaseMeta writeNamed
  split
  case isTrue => exact Sat.pure (.inr hd)
  case isFalse =>
    have htemp := hP.temp (.leaseMeta (safeKey key))
    refine Sat.bind (Sat.prim ?_ (fun _ _ => Sat.pure (.inr hd)) fun _ _ => Sat.pure (.inr hd))
    intro u d₁ hcreate
    cases hcreate
    have hd₁ : Agree P d₀ (d.insert (.temp (.leaseMeta (safeKey key))) (some (lease.toJson key))) :=
      hd.insert htemp _
    -- Whatever fails, only the temporary file has been touched.
    have hfails : Sat True (fun _ => True)
        (d.insert (.temp (.leaseMeta (safeKey key))) (some (lease.toJson key)))
        (do
          let removed ← prim (Files.remove (.temp (.leaseMeta (safeKey key))))
          return .error ("rename failed: " ++ Files.errorMessage removed) :
            Program Disk (Except String Unit))
        fun r d' => r = .ok () ∧ ¬Clear P key ∨ Agree P d₀ d' :=
      (Agrees.bind (.removed htemp) (fun _ => .done) _ hd₁).weaken
        fun _ _ hagree => .inr hagree
    refine ⟨trivial, Sat.bind (Sat.prim ?_ (fun _ _ => hfails) fun _ _ => hfails)⟩
    intro u d₂ hrename
    refine ⟨trivial, Sat.pure ?_⟩
    -- The rename has put the lease in its place, which is one of `P` or clear of them.
    by_cases hclear : Clear P key
    · right
      unfold Files.rename at hrename
      split at hrename
      case h_1 => cases hrename
      case h_2 content _ =>
        cases hrename
        exact (hd₁.erase htemp).insert hclear.lease content
    · exact .inl ⟨rfl, hclear⟩

/-- `lease_next` writes the lease file of the message it leases. -/
theorem leaseNext_agrees {queue c : String} {timeout : Int} (hd : Agree P d₀ d) :
    Sat True (fun _ => True) d (leaseNext env queue c timeout) fun r d' =>
      (∀ message token, (Reply.lease r).granted = some (message, token) →
        Clear P message.key) → Agree P d₀ d' := by
  refine Sat.bind ((Agrees.listJson queue .inbox d hd).weaken fun ids d₁ hd₁ => ?_)
  refine Sat.bind ((findMatch_agrees ids d₁ hd₁).weaken fun r d₂ hd₂ => ?_)
  split
  · exact Sat.pure fun _ => hd₂
  · rename_i id envelope
    refine Sat.bind ((Agrees.move (hP.queuePath queue .inbox id)
      (hP.queuePath queue .processing id) d₂ hd₂).weaken fun r d₃ hd₃ => ?_)
    split
    · exact Sat.pure fun _ => hd₃
    · refine Sat.bind ((writeLeaseMeta_agrees hP hd₃).weaken fun r d₄ hd₄ => ?_)
      split
      · have hkept : Agree P d₀ d₄ := hd₄.resolve_left fun h => by cases h.1
        refine Sat.bind ((Agrees.move (hP.queuePath queue .processing id)
          (hP.queuePath queue .inbox id) d₄ hkept).weaken fun r d₅ hd₅ => ?_)
        exact Sat.pure fun _ => hd₅
      · by_cases hclear : Clear P envelope.key
        · have hkept : Agree P d₀ d₄ := hd₄.resolve_left fun h => h.2 hclear
          refine Sat.bind ((Agrees.write hP (hP.queuePath queue .processing id) _ d₄
            hkept).weaken fun r d₅ hd₅ => ?_)
          exact Sat.pure fun _ => hd₅
        · refine Sat.bind (sat_ends fun r d₅ => Sat.pure fun hgranted => ?_)
          exact absurd (hgranted _ _ rfl) hclear

end Operations

/-! ### The files of another key -/

/-- The lease file and the delay file of a key. -/
def IsMetaOf (key : String) (path : Path) : Prop :=
  path = .leaseMeta (safeKey key) ∨ path = .delayedMeta (safeKey key)

/-- The lease and the delay file of a key are meta files. -/
theorem metaOnly_isMetaOf (key : String) : MetaOnly (IsMetaOf key) := fun _ h => ⟨_, h⟩

/-- A queue string or a part of a file name that is one component of a path. -/
def OneComponent (text : String) : Prop := '/' ∉ text.toList ∧ '\x00' ∉ text.toList

/-- A key as `handle_publish` makes it, of a queue string that is one component of a path and of an
    identifier as `Generator::guid` makes it. -/
structure PublishedKey where
  queue : String
  id : String
  name : OneComponent queue
  guid : ∀ c ∈ id.toList, isGuidChar c = true

/-- The key that is published for the queue and the identifier. -/
def PublishedKey.text (k : PublishedKey) : String := messageKey k.queue k.id

/-- The call is on the message of the key, as its answer tells for `lease_next`.  Its queue string
    is one component of a path. -/
def Call.On (key : String) : Call → Reply → Prop
  | .enqueue m, _ => m.key = key
  | .leaseNext queue _ _, reply =>
    OneComponent queue ∧ ∀ message token, reply.granted = some (message, token) → message.key = key
  | .ack lease, _ | .nack lease _ _, _ | .extendLease lease _, _ => lease.messageKey = key
  | .delayMessage messageKey _, _ | .moveToDlq messageKey _, _ => messageKey = key
  | .reprocessDlqMessage messageKey, _ => messageKey = key
  | .savePolicy queue _, _ => OneComponent queue
  | .recoverExpiredLeases, _ | .processDelayedMessages, _ => False

/-- What the operations on one key do on a disk to the lease and delay file of another: nothing,
    and what is written into the other's lease file is not read from that of the key. -/
structure LeavesAlone (key other : String) (d : Disk) : Prop where
  called : ∀ env call, Call.On key call ((program env call).run env.faults d).1 →
    Agree (IsMetaOf other) d ((program env call).run env.faults d).2
  recovered : ∀ env, ∀ path ∈ [Path.leaseMeta (safeKey key), .temp (.leaseMeta (safeKey key))],
    Agree (IsMetaOf other) d ((recoverLease env path).run env.faults d).2
  promoted : ∀ env queue id j, d.lookup (queuePath queue .delayed id) = some (some j) →
    j.valueStr "key" "" = some key →
    Agree (IsMetaOf other) d ((processDelayed env queue id).run env.faults d).2
  read : ∀ stored faults faults', let d' := ((writeLeaseMeta other stored).run faults d).2
    ((readLeaseMeta key).run faults' d').1 = ((readLeaseMeta key).run faults' d).1

/-- Keys with different names. -/
theorem clear_isMetaOf {other : String} (hname : safeKey key ≠ safeKey other) :
    Clear (IsMetaOf other) key where
  lease := by
    rintro (heq | heq)
    · exact hname (Path.leaseMeta.inj heq)
    · cases heq
  note := by
    rintro (heq | heq)
    · cases heq
    · exact hname (Path.delayedMeta.inj heq)

/-- Reading a lease depends on its file. -/
theorem readLeaseMeta_congr {d' : Disk}
    (hsame : d'.lookup (.leaseMeta (safeKey key)) = d.lookup (.leaseMeta (safeKey key)))
    (faults : List (Option String)) :
    ((readLeaseMeta key).run faults d').1 = ((readLeaseMeta key).run faults d).1 := by
  simp only [readLeaseMeta, readFile, Program.run, bind, prim, Files.read, hsame]
  cases faults.headD none with
  | some text => rfl
  | none =>
    cases d.lookup (.leaseMeta (safeKey key)) with
    | none => rfl
    | some content => cases hparse : LeaseMeta.ofJson content <;> simp [pure, hparse]

/-- **The operations on a key leave the files of another name alone.** -/
theorem leavesAlone_of_name {other : String} (hname : safeKey key ≠ safeKey other) (d : Disk) :
    LeavesAlone key other d := by
  have hclear : Clear (IsMetaOf other) key := clear_isMetaOf hname
  have hreverse : Clear (IsMetaOf key) other := clear_isMetaOf hname.symm
  have hP := metaOnly_isMetaOf other
  have hd : Agree (IsMetaOf other) d d := fun _ _ => rfl
  constructor
  case called =>
    intro env call hon
    -- Every operation writes at the meta paths of its own key only, and `lease_next` at those of
    -- the key leased.
    cases call with
    | enqueue m =>
      obtain rfl : m.key = key := hon
      exact (Agrees.bind (enqueue_agrees hP hclear) fun _ => .done).run hd _
    | leaseNext queue c timeout =>
      have hlease : Sat True (fun _ => True) d (program env (.leaseNext queue c timeout))
          fun r d' => (∀ message token, r.granted = some (message, token) →
            Clear (IsMetaOf other) message.key) → Agree (IsMetaOf other) d d' :=
        Sat.bind ((leaseNext_agrees hP hd).weaken fun r d' hd' => Sat.pure hd')
      exact (hlease.run (.inl trivial) trivial).1 fun message token hgranted =>
        (hon.2 message token hgranted) ▸ hclear
    | ack lease =>
      obtain rfl : lease.messageKey = key := hon
      exact (Agrees.bind (ack_agrees hP hclear) fun _ => .done).run hd _
    | nack lease reason requeue =>
      obtain rfl : lease.messageKey = key := hon
      exact (Agrees.bind (nack_agrees hP hclear) fun _ => .done).run hd _
    | extendLease lease timeout =>
      obtain rfl : lease.messageKey = key := hon
      exact (Agrees.bind (extendLease_agrees hP hclear) fun _ => .done).run hd _
    | savePolicy queue policy => exact (Agrees.bind (savePolicy_agrees hP) fun _ => .done).run hd _
    | delayMessage messageKey delayMs =>
      obtain rfl : messageKey = key := hon
      exact (Agrees.bind (delayMessage_agrees hP hclear) fun _ => .done).run hd _
    | moveToDlq messageKey reason =>
      obtain rfl : messageKey = key := hon
      exact (Agrees.bind (moveToDlq_agrees hP hclear) fun _ => .done).run hd _
    | reprocessDlqMessage messageKey =>
      exact (Agrees.bind (reprocessDlqMessage_agrees hP) fun _ => .done).run hd _
    -- The two sweeps are on no key: their rounds are the next two cases.
    | recoverExpiredLeases => exact hon.elim
    | processDelayedMessages => exact hon.elim
  -- A round of the recovery: it renames the message and deletes the lease file read.
  case recovered =>
    intro env path hpath
    refine (recoverLease_agrees hP ?_).run hd _
    rcases List.mem_cons.mp hpath with rfl | htemp
    · exact hclear.lease
    · rw [List.mem_singleton.mp htemp]
      exact hP.temp _
  -- A round of the promotion: it deletes the delay file of the key in the document.
  case promoted =>
    intro env queue id j hfile hkey
    refine ((processDelayed_agrees hP hd ?_).run (.inl trivial) trivial).1
    intro j' key' hfile' hkey'
    obtain rfl : j = j' := Option.some.inj (Option.some.inj (hfile.symm.trans hfile'))
    obtain rfl : key = key' := Option.some.inj (hkey.symm.trans hkey')
    exact hclear
  -- A lease written for the other key is in no file of this one.
  case read =>
    intro stored faults faults' d'
    have hwrite := (writeLeaseMeta_agrees (metaOnly_isMetaOf key) (fun _ _ => rfl) :
      Sat True (fun _ => True) d (writeLeaseMeta other stored) _)
    have hsame : Agree (IsMetaOf key) d d' :=
      (hwrite.run (.inl trivial) trivial).1.resolve_left fun h => h.2 hreverse
    exact readLeaseMeta_congr (hsame _ (.inl rfl)) faults'

/-! ### The names of published keys -/

section Names

variable {queue queue' id id' : String}

/-- The names of the files are the same for one identifier and queue strings that differ in colons
    and underscores only. -/
theorem safeKey_messageKey_iff (hid : ∀ c ∈ id.toList, isGuidChar c = true)
    (hid' : ∀ c ∈ id'.toList, isGuidChar c = true) :
    safeKey (messageKey queue id) = safeKey (messageKey queue' id') ↔
      safeKey queue = safeKey queue' ∧ id = id' := by
  have hplain := not_mem_of_guid hid
  have hplain' := not_mem_of_guid hid'
  have hlist : ∀ {q i : String}, ':' ∉ i.toList → (safeKey (messageKey q i)).toList =
      "msg_".toList ++ (safeKey q).toList ++ '_' :: i.toList := by
    intro q i hi
    simp only [safeKey, String.toList_ofList, toList_messageKey, List.map_append, List.map_cons,
      map_safe hi, if_true]
    rfl
  rw [← String.toList_inj, hlist hplain.1, hlist hplain'.1]
  constructor
  · intro h
    obtain ⟨hfront, hback⟩ := append_cons_inj hplain.2 hplain'.2 h
    exact ⟨String.toList_inj.mp (List.append_cancel_left hfront), String.toList_inj.mp hback⟩
  · rintro ⟨hqueue, rfl⟩
    rw [hqueue]

/-- The slashes of a published key are those of its queue. -/
theorem slash_mem_messageKey (hid : ∀ c ∈ id.toList, isGuidChar c = true) :
    '/' ∈ (messageKey queue id).toList ↔ '/' ∈ queue.toList := by
  have hplain : '/' ∉ id.toList := fun h => (isGuidChar_ne (hid _ h)).2.2 rfl
  rw [toList_messageKey]
  simp [hplain]

end Names

/-- A message stored for later. -/
def laterMessage (queue id : String) : MessageEnvelope :=
  { key := messageKey queue id, messageId := id, queue, payloadJson := "\x7b\x7d",
    attributesJson := "\x7b\x7d", availableAtMs := 2 }

/-- Storing a message for later writes its delay file. -/
theorem note_written {queue id : String} (hslash : '/' ∉ (messageKey queue id).toList) :
    ((program { now := 1, now_pos := Int.one_pos }
      (.enqueue (laterMessage queue id))).run [] ∅).2.lookup
        (.delayedMeta (safeKey (messageKey queue id))) ≠ none := by
  have henqueue : Sat False (fun _ => True) ∅
      (program { now := 1, now_pos := Int.one_pos } (.enqueue (laterMessage queue id)))
      fun _ d => d.lookup (.delayedMeta (safeKey (messageKey queue id))) ≠ none := by
    have hlater : (1 : Int) < 2 := by decide
    refine Sat.bind (enqueue_sat_delayed trivial hlater hslash ⟨trivial, trivial, trivial, trivial,
      Sat.pure ?_⟩)
    simp [lookup_written, queuePath, laterMessage]
  exact (henqueue.run (.inr rfl) trivial).1

/-- **The operations on one published key leave the files of another alone exactly when the names
    of the files differ**: the identifiers differ, as those of two published messages do, or the
    queue strings differ otherwise than in colons and underscores. -/
theorem leavesAlone_iff (k other : PublishedKey)
    {allowed : History Disk (Env × Call) Reply → Disk → Env × Call → Prop} :
    (∀ h d, Run adapter.machine allowed h d → LeavesAlone k.text other.text d) ↔
      k.id ≠ other.id ∨ safeKey k.queue ≠ safeKey other.queue := by
  have hsame := @safeKey_messageKey_iff k.queue other.queue k.id other.id k.guid other.guid
  constructor
  · intro hall
    by_contra hnames
    simp only [not_or, not_not] at hnames
    have hname : safeKey k.text = safeKey other.text := hsame.mpr ⟨hnames.2, hnames.1⟩
    have hplain : '/' ∉ k.text.toList := (slash_mem_messageKey k.guid).not.mpr k.name.1
    -- on an empty disk, a message of the one key is stored for later
    have halone := hall [] ∅ .start
    have hagree := halone.called { now := 1, now_pos := Int.one_pos }
      (.enqueue (laterMessage k.queue k.id)) rfl (.delayedMeta (safeKey other.text)) (.inr rfl)
    rw [← hname] at hagree
    exact note_written hplain hagree
  · intro hnames h d run
    refine leavesAlone_of_name (fun hname => ?_) d
    obtain ⟨hqueue, hid⟩ := hsame.mp hname
    exact hnames.elim (fun hne => hne hid) fun hne => hne hqueue

/-- The acknowledgement of `msg:a_b:a1` reads and drops the lease of `msg:a:b:a1`. -/
theorem lease_dropped_under_other_key :
    let env (now : Int) (h : 0 < now) : Env := { now, now_pos := h, guid := "lease" }
    let m : MessageEnvelope :=
      { key := messageKey "a:b" "a1", messageId := "a1", queue := "a:b", payloadJson := "[1]",
        attributesJson := "[]" }
    let M := adapter.machine
    let leased := M.replay [(env 1 (Int.succ_ofNat_pos 0), Call.enqueue m),
      (env 2 (Int.succ_ofNat_pos 1), .leaseNext "a:b" "c" 30)] ([], M.start)
    let acked := M.step leased.2
      (env 3 (Int.succ_ofNat_pos 2), .ack ⟨"lease", messageKey "a_b" "a1", "c", 0⟩)
    Run M (fun _ _ _ => True) leased.1 leased.2 ∧ messageKey "a_b" "a1" ≠ messageKey "a:b" "a1" ∧
      (leased.2.lease (messageKey "a:b" "a1")).isSome = true ∧ acked.1.succeeded = true ∧
      acked.2.lease (messageKey "a:b" "a1") = none ∧
      ¬LeavesAlone (messageKey "a_b" "a1") (messageKey "a:b" "a1") leased.2 := by
  intro env m M leased acked
  have hthere : leased.2.lookup (.leaseMeta (safeKey (messageKey "a:b" "a1"))) ≠ none := by decide
  have hgone : acked.2.lookup (.leaseMeta (safeKey (messageKey "a:b" "a1"))) = none := by decide
  refine ⟨run_replay _ ⟨trivial, trivial, trivial⟩, by decide, by decide, by decide, by decide, ?_⟩
  intro halone
  apply hthere
  rw [← hgone]
  exact (halone.called (env 3 (Int.succ_ofNat_pos 2))
    (.ack ⟨"lease", messageKey "a_b" "a1", "c", 0⟩) rfl _ (.inl rfl)).symm

end YirangMQ.FileSystem

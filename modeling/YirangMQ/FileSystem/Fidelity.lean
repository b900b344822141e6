import YirangMQ.Backend.Content
import YirangMQ.FileSystem.Stands

namespace YirangMQ.FileSystem

open Program

/-!
# The FileSystem adapter keeps the content of its messages

Every file that is named after an identifier, temporary files included, holds the envelope of
the message published under it, whatever primitives fail and in whatever directory it lies.

* `HoldsMessage`, `Faithful` — the documents on the disk;
* `Present`, `Secure` — the messages that have a file in their queue;
* `Spares` — an edit keeps the content of an envelope;
* `Follows` — the renames of the adapter;
* `Secures` — a program keeps the disk secure and answers as `Q` says, with one rule for each
  primitive: `Secures.read`, `Secures.rename`, `Secures.remove`, `Secures.write`;
* `program_secures` — **every operation keeps the disk secure**, and leases only what was
  published.
-/

variable {published stored : List MessageEnvelope} {d : Disk} {env : Env} {α β : Type}

/-- The identifier in the name of a message file or of its temporary file. -/
def Path.messageId : Path → Option String
  | .message _ _ id => some id
  | .temp path => path.messageId
  | .leaseMeta _ | .delayedMeta _ | .policy _ => none

/-- The content is the envelope of a published message, if the file is named after one. -/
def HoldsMessage (published : List MessageEnvelope) (path : Path) (content : JsonText) : Prop :=
  ∀ id, path.messageId = some id → ∃ m ∈ published, m.messageId = id ∧
    ∃ j attempt available, content = some j ∧ IsEnvelope m j attempt available

/-- Every file holds what it should. -/
def Faithful (published : List MessageEnvelope) (d : Disk) : Prop :=
  ∀ path content, d.lookup path = some content → HoldsMessage published path content

/-- The message has a file in a directory of its queue. -/
def Present (d : Disk) (m : MessageEnvelope) : Prop :=
  ∃ dir, d.lookup (queuePath m.queue dir m.messageId) ≠ none

/-- Every file holds what it should, and the stored messages have files. -/
structure Secure (published stored : List MessageEnvelope) (d : Disk) : Prop where
  faithful : Faithful published d
  present : ∀ m ∈ stored, Present d m

/-! ### Envelopes -/

/-- The edit keeps envelopes, up to their attempt and their time. -/
def Spares (edit : Json String → Option (Json String)) : Prop :=
  ∀ m j j' attempt available, IsEnvelope m j attempt available → edit j = some j' →
    ∃ attempt' available', IsEnvelope m j' attempt' available'

/-- Marking a dead letter keeps the content. -/
theorem spares_withDlqFields (reason : String) (now : Int) :
    Spares (withDlqFields reason now) := by
  intro m j j' attempt available henvelope hedit
  obtain ⟨i, hi, henvelope'⟩ := henvelope.withDlqFields reason now
  obtain rfl := Option.some.inj (hi.symm.trans hedit)
  exact ⟨attempt, available, henvelope'⟩

/-- Putting a message off keeps the content. -/
theorem spares_withAvailableAt (time : Int) : Spares (withAvailableAt time) := by
  intro m j j' attempt available henvelope hedit
  obtain ⟨i, hi, henvelope'⟩ := henvelope.withAvailableAt time
  obtain rfl := Option.some.inj (hi.symm.trans hedit)
  exact ⟨attempt, time, henvelope'⟩

/-- Reprocessing keeps the content. -/
theorem spares_reprocessed (now : Int) : Spares (reprocessed now) := by
  intro m j j' attempt available henvelope hedit
  obtain ⟨i, hi, henvelope'⟩ := henvelope.reprocessed now
  obtain rfl := Option.some.inj (hi.symm.trans hedit)
  exact ⟨0, now, henvelope'⟩

/-- A file keeps what it should hold under a sparing edit. -/
theorem HoldsMessage.edit {path : Path} {content : JsonText} {j' : Json String}
    {edit : Json String → Option (Json String)} (h : HoldsMessage published path content)
    (hspares : Spares edit) (hedit : content.bind edit = some j') :
    HoldsMessage published path (some j') := by
  intro id hid
  obtain ⟨m, hm, hmid, j, attempt, available, rfl, henvelope⟩ := h id hid
  obtain ⟨attempt', available', henvelope'⟩ := hspares m j j' attempt available henvelope hedit
  exact ⟨m, hm, hmid, j', attempt', available', rfl, henvelope'⟩

/-- The envelope read from the file of a message is that of the message. -/
theorem HoldsMessage.parsed {location : Directory} {dir : SubDir} {id : String}
    {content : JsonText} {envelope : MessageEnvelope}
    (h : HoldsMessage published (.message location dir id) content)
    (hparse : deserializeEnvelope content = some envelope) :
    ∃ m ∈ published, m.messageId = id ∧ ∃ attempt available,
      envelope = { m with attempt, availableAtMs := available } := by
  obtain ⟨m, hm, hmid, j, attempt, available, rfl, henvelope⟩ := h id rfl
  rw [henvelope.deserialize, Option.some.injEq] at hparse
  exact ⟨m, hm, hmid, attempt, available, hparse.symm⟩

/-- A serialized message, with any attempt and time, in a file of its identifier. -/
theorem holdsMessage_serialize {m : MessageEnvelope} (hm : m ∈ published) {path : Path}
    (hpath : path.messageId = some m.messageId) (attempt available : Int) :
    HoldsMessage published path
      (some (serializeEnvelope { m with attempt, availableAtMs := available })) := by
  intro id hid
  obtain rfl := Option.some.inj (hpath.symm.trans hid)
  exact ⟨m, hm, rfl, _, attempt, available, rfl, IsEnvelope.serialize m attempt available⟩

/-! ### Disks -/

/-- A file with a fitting content may be written. -/
theorem Faithful.insert (h : Faithful published d) {path : Path} {content : JsonText}
    (hholds : HoldsMessage published path content) : Faithful published (d.insert path content) := by
  intro path' content' hlookup
  rw [Files.lookup_insert'] at hlookup
  split at hlookup
  case isTrue heq =>
    obtain rfl := Option.some.inj hlookup
    exact heq ▸ hholds
  case isFalse => exact h path' content' hlookup

/-- Any file may be removed. -/
theorem Faithful.erase (h : Faithful published d) (path : Path) :
    Faithful published (d.erase path) := by
  intro path' content hlookup
  rw [Files.lookup_erase'] at hlookup
  split at hlookup
  case isTrue => cases hlookup
  case isFalse => exact h path' content hlookup

/-- A publication may be recorded: it only widens what is published. -/
theorem Faithful.publishing (h : Faithful published d) (call : Call) :
    Faithful (call.publishing published) d := by
  intro path content hlookup id hid
  obtain ⟨m, hm, hmid, hholds⟩ := h path content hlookup id hid
  exact ⟨m, call.publishing_of_mem hm, hmid, hholds⟩

/-- Writing a file takes no message away. -/
theorem Present.insert {m : MessageEnvelope} (h : Present d m) (path : Path)
    (content : JsonText) : Present (d.insert path content) m := by
  obtain ⟨dir, hfile⟩ := h
  refine ⟨dir, ?_⟩
  rw [Files.lookup_insert']
  split
  case isTrue => simp
  case isFalse => exact hfile

/-- The path is not that of a message in a directory of a queue. -/
def Path.Aside (path : Path) : Prop := ∀ location dir id, path ≠ .message location dir id

/-- Removing a file aside takes no message away. -/
theorem Present.erase {m : MessageEnvelope} (h : Present d m) {path : Path}
    (haside : path.Aside) : Present (d.erase path) m := by
  obtain ⟨dir, hfile⟩ := h
  have hother : queuePath m.queue dir m.messageId ≠ path := (haside _ _ _).symm
  refine ⟨dir, ?_⟩
  rw [Files.lookup_erase', if_neg hother]
  exact hfile

/-- A rename of the adapter: of a temporary file to its target, or of a message file between the
    directories of one queue. -/
inductive Follows : Path → Path → Prop
  | target (path : Path) : Follows (.temp path) path
  | move (queue : String) (src dest : SubDir) (id : String) :
      Follows (queuePath queue src id) (queuePath queue dest id)

/-- A rename of the adapter keeps the identifier in the name. -/
theorem Follows.messageId {src dest : Path} (h : Follows src dest) :
    dest.messageId = src.messageId := by
  cases h with
  | target => rfl
  | move => rfl

/-- A rename of the adapter takes no message away: its file is in another directory. -/
theorem Present.renamed {m : MessageEnvelope} (h : Present d m) {src dest : Path}
    (hfollows : Follows src dest) (content : JsonText) :
    Present (Files.renamed src dest content d) m := by
  cases hfollows with
  | target => exact (h.erase (by simp [Path.Aside])).insert _ content
  | move queue src dest id =>
    by_cases hsame : resolve [] m.queue = resolve [] queue ∧ m.messageId = id
    · refine ⟨dest, ?_⟩
      rw [Files.lookup_renamed, queuePath, queuePath, if_pos (by rw [hsame.1, hsame.2])]
      simp
    · obtain ⟨dir, hfile⟩ := h
      refine ⟨dir, ?_⟩
      have hother : ∀ dir', queuePath m.queue dir m.messageId ≠ queuePath queue dir' id := by
        intro dir' heq
        simp only [queuePath, Path.message.injEq] at heq
        exact hsame ⟨heq.1, heq.2.2⟩
      rw [Files.lookup_renamed, if_neg (hother _), if_neg (hother _)]
      exact hfile

/-! ### Programs -/

/-- The program keeps the disk secure at every primitive and answers as `Q` says, whichever
    primitives fail. -/
abbrev Secures (published stored : List MessageEnvelope) (m : Program Disk α) (Q : α → Prop) :
    Prop :=
  Guards (Secure published stored) m Q

namespace Secures

/-- What is read holds the message it is named after. -/
theorem read (path : Path) : Secures published stored (readFile path) fun r =>
    ∀ content, r = .ok content → HoldsMessage published path content := by
  refine Guards.bind (Guards.prim (Q := HoldsMessage published path) ?_) ?_
  · intro d content d' hd hread
    unfold Files.read at hread
    split at hread
    case h_1 => cases hread
    case h_2 content' hcontent =>
      simp only [Except.ok.injEq, Prod.mk.injEq] at hread
      obtain ⟨rfl, rfl⟩ := hread
      exact ⟨hd, hd.faithful path _ hcontent⟩
  · rintro (e | content) hr
    · exact Guards.pure (by simp)
    · refine Guards.pure ?_
      rintro _ ⟨rfl⟩
      exact hr _ rfl

/-- A file keeps its identifier when it is renamed. -/
theorem rename {src dest : Path} (hfollows : Follows src dest) :
    Secures published stored (Program.prim (Files.rename src dest)) fun _ => True := by
  refine Guards.weaken (Guards.prim (Q := fun _ => True) ?_) fun _ _ => trivial
  intro d u d' hd hrename
  unfold Files.rename at hrename
  split at hrename
  case h_1 => cases hrename
  case h_2 content hcontent =>
    simp only [Except.ok.injEq, Prod.mk.injEq] at hrename
    obtain ⟨-, rfl⟩ := hrename
    refine ⟨⟨(hd.faithful.erase src).insert fun id hid => ?_, fun m hm => ?_⟩, trivial⟩
    · exact hd.faithful src content hcontent id (hfollows.messageId ▸ hid)
    · exact (hd.present m hm).renamed hfollows content

/-- A file may move between the directories of its queue. -/
theorem move (queue : String) (src dest : SubDir) (id : String) :
    Secures published stored (moveFile (queuePath queue src id) (queuePath queue dest id))
      fun _ => True := by
  refine Guards.bind (rename (.move queue src dest id)) fun r _ => ?_
  split <;> exact Guards.pure trivial

/-- A file aside may be removed by the primitive. -/
theorem removed {path : Path} (haside : path.Aside) :
    Secures published stored (prim (Files.remove path)) fun _ => True := by
  refine (Guards.prim (Q := fun _ => True) ?_).weaken fun _ _ => trivial
  rintro d u d' hd ⟨rfl, rfl⟩
  exact ⟨⟨hd.faithful.erase path, fun m hm => (hd.present m hm).erase haside⟩, trivial⟩

/-- A file aside may be deleted. -/
theorem remove {path : Path} (haside : path.Aside) :
    Secures published stored (deleteFile path) fun _ => True :=
  Guards.bind (removed haside) fun _ _ => Guards.pure trivial

/-- A fitting content may be written atomically. -/
theorem write {target : Path} {content : JsonText}
    (hholds : HoldsMessage published target content) :
    Secures published stored (atomicWrite target content) fun _ => True := by
  refine Guards.bind (Guards.prim (Q := fun _ => True) ?_) fun r _ => ?_
  · rintro d u d' hd ⟨rfl, rfl⟩
    exact ⟨⟨hd.faithful.insert hholds, fun m hm => (hd.present m hm).insert _ _⟩, trivial⟩
  · split
    · exact Guards.pure trivial
    · refine Guards.bind (rename (.target target)) fun r _ => ?_
      split
      · exact Guards.bind (removed (by simp [Path.Aside])) fun _ _ => Guards.pure trivial
      · exact Guards.pure trivial

/-- Lease, delay and policy files are not named after messages. -/
theorem writeNamed {name : String} {path : Path} {content : JsonText}
    (hpath : path.messageId = none) :
    Secures published stored (writeNamed name path content) fun _ => True := by
  unfold FileSystem.writeNamed
  split
  · exact Guards.pure trivial
  · refine write fun id hid => ?_
    rw [hpath] at hid
    cases hid

/-- Listing changes nothing, and gives entries of the disk. -/
theorem list {entries : Disk → List α} {P : α → Prop} (h : ∀ d, ∀ a ∈ entries d, P a) :
    Secures published stored (listDirectory entries) fun l => ∀ a ∈ l, P a := by
  refine Guards.bind (Guards.prim (Q := fun l => ∀ a ∈ l, P a) ?_) fun r hr => ?_
  · rintro d l d' hd ⟨rfl, rfl⟩
    exact ⟨hd, h d⟩
  · split
    · exact Guards.pure (by simp)
    · exact Guards.pure (hr _ rfl)

/-- Listing a directory of a queue changes nothing. -/
theorem listJson (queue : String) (dir : SubDir) :
    Secures published stored (listJsonFiles queue dir) fun _ => True :=
  Guards.bind (list (P := fun _ => True) fun _ _ _ => trivial) fun _ _ => Guards.pure trivial

/-- Reading a lease changes nothing. -/
theorem readLease (key : String) : Secures published stored (readLeaseMeta key) fun _ => True := by
  refine Guards.bind (read _) fun r _ => ?_
  split
  · exact Guards.pure trivial
  · split <;> exact Guards.pure trivial

/-- A file may be edited in place by an edit that spares its content. -/
theorem editFile {path : Path} {edit : Json String → Option (Json String)}
    (hspares : Spares edit) : Secures published stored (editFile path edit) fun _ => True := by
  refine Guards.bind (read path) fun r hr => ?_
  split
  · exact Guards.pure trivial
  · split
    · exact Guards.pure trivial
    · rename_i content _ envelope hedit
      exact Guards.bind (write ((hr content rfl).edit hspares hedit)) fun _ _ => Guards.pure trivial

/-- A file may leave `processing/` together with its lease. -/
theorem leave (key queue : String) (dest : SubDir) (id : String) :
    Secures published stored (leaveProcessing key (queuePath queue .processing id)
      (queuePath queue dest id)) fun _ => True := by
  refine Guards.bind (move queue _ dest id) fun r _ => ?_
  split
  · exact Guards.pure trivial
  · exact Guards.bind (remove (by simp [Path.Aside])) fun _ _ => Guards.pure trivial

/-- A note names no message file. -/
theorem note (delayed : DelayedMeta) :
    Secures published stored (writeDelayedMeta delayed) fun _ => True :=
  Guards.bind (writeNamed rfl) fun _ _ => Guards.pure trivial

end Secures

/-! ### Operations -/

/-- A published message may be enqueued, over any file of its name. -/
theorem enqueue_secures {message : MessageEnvelope} (hmem : message ∈ published) :
    Secures published stored (enqueue env message) fun _ => True := by
  have hwrite : ∀ dir, Secures published stored
      (atomicWrite (queuePath message.queue dir message.messageId)
        (some (serializeEnvelope message))) fun _ => True := fun dir =>
    Secures.write (holdsMessage_serialize hmem rfl message.attempt message.availableAtMs)
  refine Guards.bind (Guards.prim (Q := fun _ => True) ?_) fun r _ => ?_
  · rintro d u d' hd ⟨rfl, rfl⟩
    exact ⟨hd, trivial⟩
  · split
    · exact Guards.done
    · split
      · refine Guards.bind (Secures.note _) fun _ _ => Guards.bind Guards.done fun dir _ => ?_
        refine Guards.bind (hwrite dir) fun r _ => ?_
        split <;> exact Guards.done
      · refine Guards.bind Guards.done fun dir _ => Guards.bind (hwrite dir) fun r _ => ?_
        split <;> exact Guards.done

/-- A match is the envelope of a published message, in the file of its identifier. -/
theorem findMatch_secures {queue c : String} (ids : List String) :
    Secures published stored (findMatch queue c ids) fun r =>
      ∀ id envelope, r = some (id, envelope) → ∃ m ∈ published, m.messageId = id ∧ ∃ attempt available,
        envelope = { m with attempt, availableAtMs := available } := by
  induction ids with
  | nil => exact Guards.pure (by simp)
  | cons id ids ih =>
    refine Guards.bind (Secures.read _) fun r hr => ?_
    split
    · exact ih
    · split
      · exact ih
      · rename_i content _ envelope hparse
        split
        · refine Guards.pure ?_
          rintro _ _ ⟨rfl, rfl⟩
          exact (hr content rfl).parsed hparse
        · exact ih

/-- A lease gives what was published, up to the attempt and the time. -/
theorem leaseNext_secures {queue c : String} {timeout : Int} :
    Secures published stored (leaseNext env queue c timeout) fun r => ∀ message token,
      (Reply.lease r).granted = some (message, token) →
        ∃ m ∈ published, SameContent m message := by
  refine Guards.bind (Secures.listJson queue .inbox) fun ids _ =>
    Guards.bind (findMatch_secures ids) fun r hr => ?_
  split
  · exact Guards.pure (by simp [Reply.granted])
  · rename_i id envelope
    obtain ⟨m, hm, rfl, attempt, available, rfl⟩ := hr id envelope rfl
    refine Guards.bind (Secures.move _ _ _ _) fun r _ => ?_
    split
    · exact Guards.pure (by simp [Reply.granted])
    · refine Guards.bind (Secures.writeNamed rfl) fun r _ => ?_
      split
      · exact Guards.bind (Secures.move _ _ _ _) fun _ _ => Guards.pure (by simp [Reply.granted])
      · refine Guards.bind (Secures.write
          (holdsMessage_serialize hm rfl (attempt + 1) available)) fun _ _ => Guards.pure ?_
        intro message token hgranted
        simp only [Reply.granted, Option.some.injEq, Prod.mk.injEq] at hgranted
        obtain ⟨rfl, -⟩ := hgranted
        exact ⟨m, hm, rfl, rfl, rfl, rfl, rfl, rfl, fun _ => rfl⟩

/-- An acknowledged message is kept in the archive. -/
theorem ack_secures {lease : LeaseToken} :
    Secures published stored (ack env lease) fun _ => True := by
  refine Guards.bind (Secures.readLease _) fun r _ => ?_
  split
  · exact Guards.done
  · split
    · exact Guards.done
    · split
      · exact Guards.done
      · split
        · exact Guards.done
        · exact Secures.leave _ _ _ _

/-- A nacked message is kept, in `inbox/` or in `dlq/`. -/
theorem nack_secures {lease : LeaseToken} {reason : String} {requeue : Bool} :
    Secures published stored (nack env lease reason requeue) fun _ => True := by
  refine Guards.bind (Secures.readLease _) fun r _ => ?_
  split
  · exact Guards.done
  · split
    · exact Guards.done
    · split
      · exact Secures.leave _ _ _ _
      · exact Guards.bind (Secures.editFile (spares_withDlqFields _ _)) fun _ _ =>
          Secures.leave _ _ _ _

/-- Extending a lease writes a lease file only. -/
theorem extendLease_secures {lease : LeaseToken} {timeout : Int} :
    Secures published stored (extendLease env lease timeout) fun _ => True := by
  refine Guards.bind (Secures.readLease _) fun r _ => ?_
  split
  · exact Guards.done
  · split
    · exact Guards.done
    · split
      · exact Guards.done
      · refine Guards.bind (Secures.writeNamed rfl) fun r _ => ?_
        split <;> exact Guards.done

/-- Saving a policy writes a policy file only. -/
theorem savePolicy_secures {queue : String} {policy : QueuePolicy} :
    Secures published stored (savePolicy queue policy) fun _ => True := by
  refine Guards.bind (Guards.prim (Q := fun _ => True) ?_) fun _ _ =>
    Guards.bind (Secures.writeNamed rfl) fun r _ => ?_
  · rintro d u d' hd ⟨rfl, rfl⟩
    exact ⟨hd, trivial⟩
  · split <;> exact Guards.done

/-- The files under `leases/` are aside. -/
theorem aside_of_leasePaths (d : Disk) : ∀ path ∈ d.leasePaths, path.Aside := by
  rintro path hpath location dir id rfl
  simp [Disk.leasePaths] at hpath

/-- Recovering one lease keeps the message, wherever the lease file leads. -/
theorem recoverLease_secures {path : Path} (haside : path.Aside) :
    Secures published stored (recoverLease env path) fun _ => True := by
  refine Guards.bind (Secures.read _) fun r _ => ?_
  split
  · exact Guards.done
  · split
    · exact Guards.done
    · refine Guards.bind (Secures.rename (.move _ _ _ _)) fun r _ =>
        Guards.bind (Secures.remove haside) fun _ _ => ?_
      split <;> exact Guards.done

/-- One round over a delayed file keeps the message. -/
theorem processDelayed_secures (queue id : String) :
    Secures published stored (processDelayed env queue id) fun _ => True := by
  refine Guards.bind (Secures.read _) fun r _ => ?_
  split
  · exact Guards.done
  · split
    · exact Guards.done
    · split
      · refine Guards.bind (Secures.rename (.move _ _ _ _)) fun r _ => ?_
        split
        · exact Guards.done
        · split
          · exact Guards.done
          · split
            · exact Guards.bind (Secures.remove (by simp [Path.Aside])) fun _ _ => Guards.done
            · exact Guards.bind (Guards.done) fun _ _ => Guards.done
      · exact Guards.done

/-- A message that is put off is kept. -/
theorem delayMessage_secures {key : String} {delayMs : Int} :
    Secures published stored (delayMessage env key delayMs) fun _ => True := by
  refine Guards.bind (Secures.readLease _) fun r _ => ?_
  split
  · exact Guards.done
  · split
    · exact Guards.done
    · split
      · exact Secures.leave _ _ _ _
      · refine Guards.bind (Secures.editFile (spares_withAvailableAt _)) fun _ _ =>
          Guards.bind (Secures.move _ _ _ _) fun r _ => ?_
        split
        · exact Guards.done
        · refine Guards.bind (Secures.note _) fun _ _ => ?_
          exact Guards.bind (Secures.remove (by simp [Path.Aside])) fun _ _ => Guards.done

/-- A message that is moved to the DLQ is kept. -/
theorem moveToDlq_secures {key reason : String} :
    Secures published stored (moveToDlq env key reason) fun _ => True := by
  refine Guards.bind (Secures.readLease _) fun r _ => ?_
  split
  · exact Guards.done
  · split
    · exact Guards.done
    · exact Guards.bind (Secures.editFile (spares_withDlqFields _ _)) fun _ _ =>
        Secures.leave _ _ _ _

/-- A reprocessed message is kept. -/
theorem reprocessDlqMessage_secures {key : String} :
    Secures published stored (reprocessDlqMessage env key) fun _ => True := by
  unfold reprocessDlqMessage
  split
  · exact Guards.done
  · split
    · exact Guards.done
    · refine Guards.bind (Secures.read _) fun r hr => ?_
      split
      · exact Guards.done
      · split
        · exact Guards.done
        · rename_i content _ envelope hedit
          refine Guards.bind (Secures.write
            ((hr content rfl).edit (spares_reprocessed _) hedit)) fun r _ => ?_
          split
          · exact Guards.done
          · refine Guards.bind (Secures.move _ _ _ _) fun r _ => ?_
            split <;> exact Guards.done

/-- The answer leases, if it does, a message as it was published. -/
def Leases (published : List MessageEnvelope) (reply : Reply) : Prop :=
  ∀ message token, reply.granted = some (message, token) → ∃ m ∈ published, SameContent m message

/-- An operation whose answers lease nothing. -/
theorem Secures.unleased {m : Program Disk α} {f : α → Reply}
    (h : Secures published stored m fun _ => True) (hf : ∀ a, (f a).granted = none) :
    Secures published stored (do return f (← m)) (Leases published) := by
  refine Guards.bind h fun a _ => Guards.pure ?_
  intro message token hgranted
  rw [hf a] at hgranted
  cases hgranted

/-- **Every operation keeps the disk secure, and leases only what was published.** -/
theorem program_secures (call : Call) (hmem : ∀ message, call = .enqueue message →
    message ∈ published) : Secures published stored (program env call) (Leases published) := by
  cases call with
  | enqueue message => exact (enqueue_secures (hmem message rfl)).unleased fun _ => rfl
  | leaseNext queue c timeout =>
    exact Guards.bind leaseNext_secures fun r hr => Guards.pure hr
  | ack lease => exact ack_secures.unleased fun _ => rfl
  | nack lease reason requeue => exact nack_secures.unleased fun _ => rfl
  | extendLease lease timeout => exact extendLease_secures.unleased fun _ => rfl
  | savePolicy queue policy => exact savePolicy_secures.unleased fun _ => rfl
  | recoverExpiredLeases =>
    refine Secures.unleased ?_ fun _ => rfl
    exact Guards.bind (Secures.list aside_of_leasePaths) fun paths hpaths =>
      Guards.sumList paths fun path hpath => recoverLease_secures (hpaths path hpath)
  | processDelayedMessages =>
    refine Secures.unleased ?_ fun _ => rfl
    refine Guards.bind (Secures.list (P := fun _ => True) fun _ _ _ => trivial) fun queues _ =>
      Guards.sumList queues fun queue _ => ?_
    exact Guards.bind (Secures.listJson queue .delayed) fun ids _ =>
      Guards.sumList ids fun id _ => processDelayed_secures queue id
  | delayMessage key delayMs => exact delayMessage_secures.unleased fun _ => rfl
  | moveToDlq key reason => exact moveToDlq_secures.unleased fun _ => rfl
  | reprocessDlqMessage key => exact reprocessDlqMessage_secures.unleased fun _ => rfl

/-- After every run of calls the disk is faithful to what was published. -/
theorem content_kept {allowed : History Disk (Env × Call) Reply → Disk → Env × Call → Prop}
    {h : History Disk (Env × Call) Reply} {d : Disk} (run : Run adapter.machine allowed h d) :
    Faithful (publishedBy h) d := by
  induction run with
  | start =>
    intro path content hlookup
    simp [Adapter.machine, adapter] at hlookup
  | @step h d i run ok ih =>
    obtain ⟨env, call⟩ := i
    have hmem : ∀ message, call = .enqueue message → message ∈ call.publishing (publishedBy h) := by
      rintro message rfl
      exact List.mem_cons_self
    have hsecures : Secures (call.publishing (publishedBy h)) [] _ _ :=
      @program_secures _ _ env call hmem
    exact (hsecures.run ⟨ih.publishing call, by simp⟩ env.faults).1.faithful

/-- What `lease_next` leases has the content of a published message. -/
theorem leased_content (h : Faithful published d) {queue c : String} {timeout : Int}
    {message : MessageEnvelope} {token : LeaseToken}
    (hgranted : (adapter.perform env (.leaseNext queue c timeout) d).1.granted =
      some (message, token)) : ∃ m ∈ published, SameContent m message := by
  have hsecures : Secures published [] _ _ :=
    @program_secures _ _ env (.leaseNext queue c timeout) (by simp)
  exact (hsecures.run ⟨h, by simp⟩ env.faults).2.1 message token hgranted

end YirangMQ.FileSystem

import YirangMQ.FileSystem.Fidelity
import Mathlib.Data.List.Dedup

namespace YirangMQ.FileSystem

open Program

/-!
# Which files the FileSystem adapter touches

A filing tells which queue strings and names of files are the adapter's own, and in which
directories a published message fits.  As long as calls keep to it, the adapter touches its own
files only, and messages stay where they fit.

* `Filing` — the queue strings and names, and where messages fit;
* `Filing.Owns`, `Filing.Holds`, `Filing.Kept` — the adapter's own files, what they hold, and the
  disks on which all others are as before;
* `Filing.Admits` — the calls that keep to the filing;
* `Upholds`, with one rule for each primitive; `program_files` — **every operation keeps to it.**
-/

/-- The adapter's own queue strings and names, the messages published, the directories they fit
    in, and the files of others. -/
structure Filing where
  queue : String → Prop
  name : String → Prop
  published : List MessageEnvelope
  fits : MessageEnvelope → Directory → Prop
  foreign : Disk
  /-- A text without a slash is a name. -/
  name_of_plain : ∀ text : String, '/' ∉ text.toList → name text
  /-- The key of a fitting message is that of a file. -/
  name_of_fits : ∀ m location, fits m location → name (safeKey m.key)
  /-- An own queue under the root goes by its name. -/
  queue_of_root : ∀ q directory, queue q → resolve [] q = [directory] → queue directory
  /-- In the directories of own queues there are no files of others. -/
  foreign_queue : ∀ q dir id, queue q → foreign.lookup (queuePath q dir id) = none
  foreign_root : ∀ directory dir id, directory ≠ ".." → directory ≠ "/" →
    foreign.lookup (.message [directory] dir id) = none
  foreign_lease : ∀ path ∈ foreign.leasePaths, False

/-- No file of others is under the root where there is none. -/
theorem foreign_root_empty : ∀ directory dir id, directory ≠ ".." → directory ≠ "/" →
    (∅ : Disk).lookup (.message [directory] dir id) = none :=
  fun _ _ _ _ _ => rfl

/-- There is no lease file where there is no file. -/
theorem foreign_lease_empty : ∀ path ∈ (∅ : Disk).leasePaths, False :=
  fun _ h => absurd h List.not_mem_nil

namespace Filing

/-- The file belongs to the adapter. -/
def Owns (F : Filing) : Path → Prop
  | .message location _ id => (∃ q, F.queue q ∧ resolve [] q = location) ∧ F.name id
  | .leaseMeta text | .delayedMeta text | .policy text => F.name text
  | .temp path => F.Owns path

/-- A message file holds a message that fits there, and a lease file one on an own queue. -/
def Holds (F : Filing) : Path → JsonText → Prop
  | .message location _ _, content =>
    ∃ m ∈ F.published, F.fits m location ∧
      ∃ j attempt available, content = some j ∧ IsEnvelope m j attempt available
  | .leaseMeta _, content =>
    (∀ stored, LeaseMeta.ofJson content = some stored → F.queue stored.queue) ∧
    ∀ now q id, expiredLease now content = some (q, id) → F.queue q ∧ F.name id
  | .temp path, content => F.Holds path content
  | .delayedMeta _, _ | .policy _, _ => True

/-- The files of others are as they were, and the adapter's own hold what they should. -/
structure Kept (F : Filing) (d : Disk) : Prop where
  foreign : ∀ path, ¬ F.Owns path → d.lookup path = F.foreign.lookup path
  holds : ∀ path content, F.Owns path → d.lookup path = some content → F.Holds path content

/-- The file of the key and the identifier in it are the adapter's. -/
def Key (F : Filing) (key : String) : Prop :=
  F.name (safeKey key) ∧ ∀ id, messageIdOf key = some id → F.name id

/-- The call names own queues and files only. -/
def Admits (F : Filing) : Call → Prop
  | .enqueue m =>
    m ∈ F.published ∧ F.queue m.queue ∧ F.name m.messageId ∧ F.fits m (resolve [] m.queue)
  | .leaseNext queue _ _ => F.queue queue
  | .ack lease | .nack lease _ _ | .extendLease lease _ => F.Key lease.messageKey
  | .delayMessage key _ | .moveToDlq key _ => F.Key key
  | .reprocessDlqMessage key => F.Key key ∧ F.queue (extractQueueFromKey key)
  | .savePolicy _ _ | .recoverExpiredLeases | .processDelayedMessages => True

end Filing

variable {F : Filing} {d : Disk} {env : Env} {α β : Type}

/-- A name without a slash keeps none when its separators are replaced. -/
theorem plain_safeKey {key : String} (h : '/' ∉ key.toList) : '/' ∉ (safeKey key).toList := by
  rw [safeKey, String.toList_ofList]
  intro hmem
  obtain ⟨c, hc, hslash⟩ := List.mem_map.mp hmem
  split at hslash
  case isTrue => cases hslash
  case isFalse => exact h (hslash ▸ hc)

/-- The identifier in a key without a slash has none. -/
theorem plain_messageIdOf {key id : String} (h : '/' ∉ key.toList)
    (hid : messageIdOf key = some id) : '/' ∉ id.toList := by
  obtain ⟨front, hfront, -⟩ := messageIdOf_some hid
  intro hmem
  apply h
  rw [hfront]
  simp [hmem]

/-- A key without a slash is one of the adapter's. -/
theorem Filing.key_of_plain (F : Filing) {key : String} (h : '/' ∉ key.toList) : F.Key key :=
  ⟨F.name_of_plain _ (plain_safeKey h), fun _ hid => F.name_of_plain _ (plain_messageIdOf h hid)⟩

/-- A message file of an own queue under a name is the adapter's. -/
theorem Filing.owns_queuePath {q : String} (hq : F.queue q) (dir : SubDir) {id : String}
    (hid : F.name id) : F.Owns (queuePath q dir id) := ⟨⟨q, hq, rfl⟩, hid⟩

/-! ### Disks -/

/-- An own file may be written with a content that fits. -/
theorem Filing.Kept.insert (h : F.Kept d) {path : Path} {content : JsonText} (hown : F.Owns path)
    (hholds : F.Holds path content) : F.Kept (d.insert path content) where
  foreign path' hpath' := by
    have hne : path' ≠ path := fun heq => hpath' (heq ▸ hown)
    rw [Files.lookup_insert', if_neg hne]
    exact h.foreign path' hpath'
  holds path' content' hpath' hlookup := by
    rw [Files.lookup_insert'] at hlookup
    split at hlookup
    case isTrue heq =>
      obtain rfl := Option.some.inj hlookup
      exact heq ▸ hholds
    case isFalse => exact h.holds path' content' hpath' hlookup

/-- An own file may be removed. -/
theorem Filing.Kept.erase (h : F.Kept d) {path : Path} (hown : F.Owns path) :
    F.Kept (d.erase path) where
  foreign path' hpath' := by
    have hne : path' ≠ path := fun heq => hpath' (heq ▸ hown)
    rw [Files.lookup_erase', if_neg hne]
    exact h.foreign path' hpath'
  holds path' content hpath' hlookup := by
    rw [Files.lookup_erase'] at hlookup
    split at hlookup
    case isTrue => cases hlookup
    case isFalse => exact h.holds path' content hpath' hlookup

/-- What is in a directory of an own queue belongs to the adapter. -/
theorem Filing.Kept.owns (h : F.Kept d) {q : String} (hq : F.queue q) {dir : SubDir} {id : String}
    (hfile : d.lookup (queuePath q dir id) ≠ none) : F.Owns (queuePath q dir id) := by
  by_contra hown
  apply hfile
  rw [h.foreign _ hown]
  exact F.foreign_queue q dir id hq

/-! ### Programs -/

/-- The program touches the adapter's own files only, and answers as `Q` says. -/
abbrev Upholds (F : Filing) (m : Program Disk α) (Q : α → Prop) : Prop := Guards F.Kept m Q

namespace Upholds

/-- What is read from an own file is what it should hold. -/
theorem read (path : Path) (hown : F.Owns path) : Upholds F (readFile path) fun r =>
    ∀ content, r = .ok content → F.Holds path content := by
  refine Guards.bind (Guards.prim (Q := F.Holds path) ?_) ?_
  · intro d content d' hd hread
    unfold Files.read at hread
    split at hread
    case h_1 => cases hread
    case h_2 content' hcontent =>
      simp only [Except.ok.injEq, Prod.mk.injEq] at hread
      obtain ⟨rfl, rfl⟩ := hread
      exact ⟨hd, hd.holds path _ hown hcontent⟩
  · rintro (e | content) hr
    · exact Guards.pure (by simp)
    · refine Guards.pure ?_
      rintro _ ⟨rfl⟩
      exact hr _ rfl

/-- An own file may be renamed to another own file that may hold the same. -/
theorem rename (src dest : Path) (hsrc : F.Owns src) (hdest : F.Owns dest)
    (hholds : ∀ content, F.Holds src content → F.Holds dest content) :
    Upholds F (Program.prim (Files.rename src dest)) fun _ => True := by
  refine Guards.weaken (Guards.prim (Q := fun _ => True) ?_) fun _ _ => trivial
  intro d u d' hd hrename
  unfold Files.rename at hrename
  split at hrename
  case h_1 => cases hrename
  case h_2 content hcontent =>
    simp only [Except.ok.injEq, Prod.mk.injEq] at hrename
    obtain ⟨-, rfl⟩ := hrename
    have hcontent' : F.Holds dest content := hholds _ (hd.holds src content hsrc hcontent)
    exact ⟨(hd.erase hsrc).insert hdest hcontent', trivial⟩

/-- A message file moves between the directories of its queue. -/
theorem renameIn {q id : String} {src dest : SubDir} (hown : F.Owns (queuePath q src id)) :
    Upholds F (Program.prim (Files.rename (queuePath q src id) (queuePath q dest id)))
      fun _ => True :=
  rename _ _ hown hown fun _ h => h

/-- An own message file may move within its queue. -/
theorem move {q id : String} {src dest : SubDir} (hown : F.Owns (queuePath q src id)) :
    Upholds F (moveFile (queuePath q src id) (queuePath q dest id)) fun _ => True := by
  refine Guards.bind (renameIn hown) fun r _ => ?_
  split <;> exact Guards.done

/-- An own file may be removed by the primitive. -/
theorem removed (path : Path) (hown : F.Owns path) :
    Upholds F (prim (Files.remove path)) fun _ => True := by
  refine (Guards.prim (Q := fun _ => True) ?_).weaken fun _ _ => trivial
  rintro d u d' hd ⟨rfl, rfl⟩
  exact ⟨hd.erase hown, trivial⟩

/-- An own file may be deleted. -/
theorem remove (path : Path) (hown : F.Owns path) :
    Upholds F (deleteFile path) fun _ => True :=
  Guards.bind (removed path hown) fun _ _ => Guards.done

/-- An own file may be written atomically with a content that fits. -/
theorem write (target : Path) {content : JsonText} (hown : F.Owns target)
    (hholds : F.Holds target content) : Upholds F (atomicWrite target content) fun _ => True := by
  refine Guards.bind (Guards.prim (Q := fun _ => True) ?_) fun r _ => ?_
  · rintro d u d' hd ⟨rfl, rfl⟩
    have htemp : F.Owns (.temp target) := hown
    exact ⟨hd.insert htemp hholds, trivial⟩
  · split
    · exact Guards.done
    · refine Guards.bind (rename (.temp target) target hown hown fun _ h => h) fun r _ => ?_
      split
      · exact Guards.bind (removed (.temp target) hown) fun _ _ => Guards.done
      · exact Guards.done

/-- A file is written under a name without a slash only. -/
theorem writeNamed {name : String} {path : Path} {content : JsonText}
    (hown : '/' ∉ name.toList → F.Owns path)
    (hholds : '/' ∉ name.toList → F.Holds path content) :
    Upholds F (writeNamed name path content) fun _ => True := by
  unfold FileSystem.writeNamed
  split
  case isTrue => exact Guards.done
  case isFalse hplain => exact write _ (hown hplain) (hholds hplain)

/-- What is listed off a kept disk. -/
theorem list {entries : Disk → List α} {P : α → Prop}
    (h : ∀ d, F.Kept d → ∀ a ∈ entries d, P a) :
    Upholds F (listDirectory entries) fun l => ∀ a ∈ l, P a := by
  refine Guards.bind (Guards.prim (Q := fun l => ∀ a ∈ l, P a) ?_) fun r hr => ?_
  · rintro d l d' hd ⟨rfl, rfl⟩
    exact ⟨hd, h d hd⟩
  · split
    · exact Guards.pure (by simp)
    · exact Guards.pure (hr _ rfl)

/-- A listed identifier is that of a file. -/
theorem mem_ids {d : Disk} {location : Directory} {dir : SubDir} {id : String}
    (h : id ∈ Disk.ids d location dir) : d.lookup (.message location dir id) ≠ none := by
  unfold Disk.ids at h
  obtain ⟨path, hpath, hid⟩ := List.mem_filterMap.mp h
  split at hid
  case h_1 l d' id' =>
    split at hid
    case isTrue hsame =>
      obtain rfl := Option.some.inj hid
      rw [← hsame.1, ← hsame.2.1, ← Option.isSome_iff_ne_none]
      exact AList.lookup_isSome.mpr hpath
    case isFalse => cases hid
  case h_2 => cases hid

/-- The files listed for an own queue are the adapter's. -/
theorem listJson {q : String} (hq : F.queue q) (dir : SubDir) :
    Upholds F (listJsonFiles q dir) fun ids => ∀ id ∈ ids, F.Owns (queuePath q dir id) := by
  refine Guards.bind (list (P := fun id => F.Owns (queuePath q dir id)) ?_) fun ids hids => ?_
  · intro d hd id hid
    exact hd.owns hq (mem_ids hid)
  · refine Guards.pure fun id hid => hids id ?_
    exact (List.perm_insertionSort _ _).mem_iff.mp hid

/-- A lease read under an own key is on an own queue. -/
theorem readLease {key : String} (hkey : F.Key key) :
    Upholds F (readLeaseMeta key) fun r => ∀ stored, r = .ok stored → F.queue stored.queue := by
  refine Guards.bind (read (.leaseMeta (safeKey key)) hkey.1) fun r hr => ?_
  split
  · exact Guards.pure (by simp)
  · rename_i content
    split
    · exact Guards.pure (by simp)
    · rename_i stored hstored
      refine Guards.pure ?_
      rintro _ ⟨rfl⟩
      exact (hr content rfl).1 stored hstored

/-- An own message file may be edited by an edit that spares its content. -/
theorem editFile {q id : String} {dir : SubDir} {edit : Json String → Option (Json String)}
    (hown : F.Owns (queuePath q dir id)) (hspares : Spares edit) :
    Upholds F (editFile (queuePath q dir id) edit) fun _ => True := by
  refine Guards.bind (read _ hown) fun r hr => ?_
  split
  · exact Guards.done
  · split
    · exact Guards.done
    · rename_i content _ j' hedit
      obtain ⟨m, hm, hfits, j, attempt, available, rfl, henvelope⟩ := hr content rfl
      obtain ⟨attempt', available', henvelope'⟩ := hspares m j j' attempt available henvelope hedit
      have hholds : F.Holds (queuePath q dir id) (some j') :=
        ⟨m, hm, hfits, j', attempt', available', rfl, henvelope'⟩
      exact Guards.bind (write _ hown hholds) fun _ _ => Guards.done

/-- An own message file may leave `processing/`, together with the lease of an own key. -/
theorem leave {key q id : String} {dest : SubDir} (hkey : F.Key key)
    (hown : F.Owns (queuePath q .processing id)) :
    Upholds F (leaveProcessing key (queuePath q .processing id) (queuePath q dest id))
      fun _ => True := by
  refine Guards.bind (move hown) fun r _ => ?_
  split
  · exact Guards.done
  · exact Guards.bind (remove (.leaseMeta (safeKey key)) hkey.1) fun _ _ => Guards.done

/-- A note is an own file, or is refused for a slash in its name. -/
theorem note (delayed : DelayedMeta) : Upholds F (writeDelayedMeta delayed) fun _ => True :=
  Guards.bind (writeNamed (fun hplain => F.name_of_plain _ (plain_safeKey hplain))
    fun _ => trivial) fun _ _ => Guards.done

end Upholds

/-! ### Operations -/

/-- A message that fits may be written, with any attempt and time. -/
theorem Filing.holds_serialize {m : MessageEnvelope} (hm : m ∈ F.published)
    {location : Directory} (hfits : F.fits m location) (dir : SubDir) (id : String)
    (attempt available : Int) :
    F.Holds (.message location dir id)
      (some (serializeEnvelope { m with attempt, availableAtMs := available })) :=
  ⟨m, hm, hfits, _, attempt, available, rfl, IsEnvelope.serialize m attempt available⟩

/-- The lease file of a key without a slash. -/
theorem Filing.holds_lease (lease : LeaseMeta) (hqueue : F.queue lease.queue) {key : String}
    (hplain : '/' ∉ key.toList) (text : String) :
    F.Holds (.leaseMeta text) (some (lease.toJson key)) := by
  constructor
  · intro stored hstored
    have hsame : stored = lease := (Option.some.inj hstored).symm
    exact hsame ▸ hqueue
  · intro now q id hexpired
    simp only [expiredLease, bind, Option.bind_eq_some_iff] at hexpired
    obtain ⟨j, hj, until_, -, hexpired⟩ := hexpired
    obtain rfl := Option.some.inj hj
    split at hexpired
    case isFalse => cases hexpired
    case isTrue =>
      simp only [Option.bind_eq_some_iff] at hexpired
      obtain ⟨key', hkey', queue', hqueue', hexpired⟩ := hexpired
      obtain rfl : key = key' := Option.some.inj hkey'
      obtain rfl : lease.queue = queue' := Option.some.inj hqueue'
      split at hexpired
      case isTrue => cases hexpired
      case isFalse =>
        obtain ⟨id', hid', hexpired⟩ := Option.bind_eq_some_iff.mp hexpired
        simp only [pure, Option.some.injEq, Prod.mk.injEq] at hexpired
        obtain ⟨rfl, rfl⟩ := hexpired
        exact ⟨hqueue, F.name_of_plain _ (plain_messageIdOf hplain hid')⟩

/-- A fitting message may be enqueued in an own queue. -/
theorem enqueue_files {m : MessageEnvelope} (h : F.Admits (.enqueue m)) :
    Upholds F (enqueue env m) fun _ => True := by
  obtain ⟨hm, hqueue, hid, hfits⟩ := h
  have hwrite : ∀ dir, Upholds F (atomicWrite (queuePath m.queue dir m.messageId)
      (some (serializeEnvelope m))) fun _ => True := fun dir =>
    Upholds.write _ (F.owns_queuePath hqueue dir hid)
      (F.holds_serialize hm hfits dir m.messageId m.attempt m.availableAtMs)
  refine Guards.bind (Guards.prim (Q := fun _ => True) ?_) fun r _ => ?_
  · rintro d u d' hd ⟨rfl, rfl⟩
    exact ⟨hd, trivial⟩
  · split
    · exact Guards.done
    · split
      · refine Guards.bind (Upholds.note _) fun _ _ => Guards.bind Guards.done fun dir _ => ?_
        refine Guards.bind (hwrite dir) fun r _ => ?_
        split <;> exact Guards.done
      · refine Guards.bind Guards.done fun dir _ => Guards.bind (hwrite dir) fun r _ => ?_
        split <;> exact Guards.done

/-- A match is a published message that fits in the directory. -/
theorem findMatch_files {q c : String} (ids : List String)
    (hids : ∀ id ∈ ids, F.Owns (queuePath q .inbox id)) :
    Upholds F (findMatch q c ids) fun r => ∀ id envelope, r = some (id, envelope) →
      F.Owns (queuePath q .inbox id) ∧ ∃ m ∈ F.published, F.fits m (resolve [] q) ∧
        ∃ attempt available, envelope = { m with attempt, availableAtMs := available } := by
  induction ids with
  | nil => exact Guards.pure (by simp)
  | cons id ids ih =>
    have hrest := ih fun id' hid' => hids id' (List.mem_cons_of_mem _ hid')
    have hown : F.Owns (queuePath q .inbox id) := hids id List.mem_cons_self
    refine Guards.bind (Upholds.read _ hown) fun r hr => ?_
    split
    · exact hrest
    · split
      · exact hrest
      · rename_i content _ envelope hparse
        split
        · refine Guards.pure ?_
          rintro _ _ ⟨rfl, rfl⟩
          obtain ⟨m, hm, hfits, j, attempt, available, rfl, henvelope⟩ := hr content rfl
          rw [henvelope.deserialize, Option.some.injEq] at hparse
          exact ⟨hown, m, hm, hfits, attempt, available, hparse.symm⟩
        · exact hrest

/-- A lease on an own queue gives a message that fits there. -/
theorem leaseNext_files {q c : String} {timeout : Int} (hq : F.queue q) :
    Upholds F (leaseNext env q c timeout) fun r => ∀ message token,
      (Reply.lease r).granted = some (message, token) →
        ∃ m ∈ F.published, F.fits m (resolve [] q) ∧ SameContent m message := by
  refine Guards.bind (Upholds.listJson hq .inbox) fun ids hids =>
    Guards.bind (findMatch_files ids hids) fun r hr => ?_
  split
  · exact Guards.pure (by simp [Reply.granted])
  · rename_i id envelope
    obtain ⟨hown, m, hm, hfits, attempt, available, rfl⟩ := hr id envelope rfl
    refine Guards.bind (Upholds.move hown) fun r _ => ?_
    split
    · exact Guards.pure (by simp [Reply.granted])
    · have hlease : Upholds F (writeLeaseMeta m.key
          ⟨c, env.guid, env.now + timeout * 1000, attempt + 1, q⟩) fun _ => True :=
        Upholds.writeNamed (fun hplain => F.name_of_plain _ (plain_safeKey hplain))
          fun hplain => F.holds_lease _ hq hplain _
      refine Guards.bind hlease fun r _ => ?_
      split
      · exact Guards.bind (@Upholds.move F _ _ .processing .inbox hown) fun _ _ =>
          Guards.pure (by simp [Reply.granted])
      · refine Guards.bind (Upholds.write (queuePath q .processing id) hown
          (F.holds_serialize hm hfits _ _ (attempt + 1) available)) fun _ _ => Guards.pure ?_
        intro message token hgranted
        simp only [Reply.granted, Option.some.injEq, Prod.mk.injEq] at hgranted
        obtain ⟨rfl, -⟩ := hgranted
        exact ⟨m, hm, hfits, rfl, rfl, rfl, rfl, rfl, rfl, fun _ => rfl⟩

/-- Acknowledging under an own key keeps to own files. -/
theorem ack_files {lease : LeaseToken} (hkey : F.Key lease.messageKey) :
    Upholds F (ack env lease) fun _ => True := by
  refine Guards.bind (Upholds.readLease hkey) fun r hr => ?_
  split
  · exact Guards.done
  · rename_i stored
    split
    · exact Guards.done
    · split
      · exact Guards.done
      · split
        · exact Guards.done
        · rename_i id hid
          exact Upholds.leave hkey (F.owns_queuePath (hr stored rfl) _ (hkey.2 id hid))

/-- So does a nack under an own key. -/
theorem nack_files {lease : LeaseToken} {reason : String} {requeue : Bool}
    (hkey : F.Key lease.messageKey) : Upholds F (nack env lease reason requeue) fun _ => True := by
  refine Guards.bind (Upholds.readLease hkey) fun r hr => ?_
  split
  · exact Guards.done
  · rename_i stored
    split
    · exact Guards.done
    · rename_i id hid
      have hown := F.owns_queuePath (hr stored rfl) .processing (hkey.2 id hid)
      split
      · exact Upholds.leave hkey hown
      · exact Guards.bind (Upholds.editFile hown (spares_withDlqFields _ _)) fun _ _ =>
          Upholds.leave hkey hown

/-- So does the extension of a lease under an own key. -/
theorem extendLease_files {lease : LeaseToken} {timeout : Int} (hkey : F.Key lease.messageKey) :
    Upholds F (extendLease env lease timeout) fun _ => True := by
  refine Guards.bind (Upholds.readLease hkey) fun r hr => ?_
  split
  · exact Guards.done
  · rename_i stored
    split
    · exact Guards.done
    · split
      · exact Guards.done
      · refine Guards.bind (Upholds.writeNamed
          (fun hplain => F.name_of_plain _ (plain_safeKey hplain))
          fun hplain => F.holds_lease { stored with leaseUntilMs := env.now + timeout * 1000 }
            (hr stored rfl) hplain _) fun r _ => ?_
        split <;> exact Guards.done

/-- So does the saving of any policy: the name of its file is refused or plain. -/
theorem savePolicy_files {queue : String} {policy : QueuePolicy} :
    Upholds F (savePolicy queue policy) fun _ => True := by
  refine Guards.bind (Guards.prim (Q := fun _ => True) ?_) fun _ _ =>
    Guards.bind (Upholds.writeNamed (fun hplain => F.name_of_plain _ hplain) fun _ => trivial)
      fun r _ => ?_
  · rintro d u d' hd ⟨rfl, rfl⟩
    exact ⟨hd, trivial⟩
  · split <;> exact Guards.done

/-- The lease files of a kept disk are the adapter's, or temporary ones of theirs. -/
theorem owns_leasePaths (hd : F.Kept d) : ∀ path ∈ d.leasePaths,
    F.Owns path ∧ ∃ text, path = .leaseMeta text ∨ path = .temp (.leaseMeta text) := by
  intro path hpath
  have hshape : ∃ text, path = .leaseMeta text ∨ path = .temp (.leaseMeta text) := by
    have hlease := (List.mem_filter.mp hpath).2
    split at hlease
    case h_1 text => exact ⟨text, .inl rfl⟩
    case h_2 text => exact ⟨text, .inr rfl⟩
    case h_3 => cases hlease
  refine ⟨?_, hshape⟩
  by_contra hown
  have hmem : path ∈ d.keys := (List.mem_filter.mp hpath).1
  have hsome : (F.foreign.lookup path).isSome = true := by
    rw [← hd.foreign path hown]
    exact AList.lookup_isSome.mpr hmem
  apply F.foreign_lease path
  exact List.mem_filter.mpr ⟨AList.lookup_isSome.mp hsome, (List.mem_filter.mp hpath).2⟩

/-- So does the recovery of an own lease file, which names an own queue. -/
theorem recoverLease_files {path : Path} (hown : F.Owns path)
    (hshape : ∃ text, path = .leaseMeta text ∨ path = .temp (.leaseMeta text)) :
    Upholds F (recoverLease env path) fun _ => True := by
  refine Guards.bind (Upholds.read _ hown) fun r hr => ?_
  split
  · exact Guards.done
  · rename_i content
    have hlease : ∀ now q id, expiredLease now content = some (q, id) →
        F.queue q ∧ F.name id := by
      obtain ⟨text, rfl | rfl⟩ := hshape
      · exact (hr content rfl).2
      · exact (hr content rfl).2
    split
    · exact Guards.done
    · rename_i q id hexpired
      obtain ⟨hq, hid⟩ := hlease _ q id hexpired
      refine Guards.bind (Upholds.renameIn (F.owns_queuePath hq _ hid)) fun r _ =>
        Guards.bind (Upholds.remove _ hown) fun _ _ => ?_
      split <;> exact Guards.done

/-- So does a round over an own delayed file. -/
theorem processDelayed_files {q id : String} (hown : F.Owns (queuePath q .delayed id)) :
    Upholds F (processDelayed env q id) fun _ => True := by
  refine Guards.bind (Upholds.read _ hown) fun r hr => ?_
  split
  · exact Guards.done
  · rename_i content
    obtain ⟨m, -, hfits, j, attempt, available, rfl, henvelope⟩ := hr content rfl
    split
    · exact Guards.done
    · rename_i j' time hread
      have hj : j' = j := by
        simp only [Option.bind_some, Option.map_eq_some_iff, Prod.mk.injEq] at hread
        obtain ⟨_, _, hj, _⟩ := hread
        exact hj.symm
      split
      · refine Guards.bind (Upholds.renameIn hown) fun r _ => ?_
        split
        · exact Guards.done
        · split
          · exact Guards.done
          · rename_i key hkey
            have hname : F.name (safeKey key) := by
              rw [hj, henvelope.key, Option.some.injEq] at hkey
              exact hkey ▸ F.name_of_fits m _ hfits
            split
            · exact Guards.bind (Upholds.remove (.delayedMeta (safeKey key)) hname)
                fun _ _ => Guards.done
            · exact Guards.bind Guards.done fun _ _ => Guards.done
      · exact Guards.done

/-- The queues listed off a kept disk are the adapter's. -/
theorem queue_of_listed (hd : F.Kept d) : ∀ q ∈ d.queues, F.queue q := by
  intro q hq
  obtain ⟨path, hpath, hname⟩ := List.mem_filterMap.mp (List.mem_dedup.1 hq)
  split at hname
  case h_2 => cases hname
  case h_1 directory dir id =>
    split at hname
    case isFalse => cases hname
    case isTrue hproper =>
      obtain rfl := Option.some.inj hname
      have hown : F.Owns (.message [directory] dir id) := by
        by_contra hown
        have hsome : (F.foreign.lookup (.message [directory] dir id)).isSome = true := by
          rw [← hd.foreign _ hown]
          exact AList.lookup_isSome.mpr hpath
        rw [F.foreign_root directory dir id hproper.2.1 hproper.2.2] at hsome
        cases hsome
      obtain ⟨⟨q, hq, hlocation⟩, -⟩ := hown
      exact F.queue_of_root q directory hq hlocation

/-- So does the delaying of a message under an own key. -/
theorem delayMessage_files {key : String} {delayMs : Int} (hkey : F.Key key) :
    Upholds F (delayMessage env key delayMs) fun _ => True := by
  refine Guards.bind (Upholds.readLease hkey) fun r hr => ?_
  split
  · exact Guards.done
  · rename_i stored
    split
    · exact Guards.done
    · rename_i id hid
      have hown := F.owns_queuePath (hr stored rfl) .processing (hkey.2 id hid)
      split
      · exact Upholds.leave hkey hown
      · refine Guards.bind (Upholds.editFile hown (spares_withAvailableAt _)) fun _ _ =>
          Guards.bind (Upholds.move hown) fun r _ => ?_
        split
        · exact Guards.done
        · refine Guards.bind (Upholds.note _) fun _ _ => ?_
          exact Guards.bind (Upholds.remove (.leaseMeta (safeKey key)) hkey.1)
            fun _ _ => Guards.done

/-- So does its move to the DLQ. -/
theorem moveToDlq_files {key reason : String} (hkey : F.Key key) :
    Upholds F (moveToDlq env key reason) fun _ => True := by
  refine Guards.bind (Upholds.readLease hkey) fun r hr => ?_
  split
  · exact Guards.done
  · rename_i stored
    split
    · exact Guards.done
    · rename_i id hid
      have hown := F.owns_queuePath (hr stored rfl) .processing (hkey.2 id hid)
      exact Guards.bind (Upholds.editFile hown (spares_withDlqFields _ _)) fun _ _ =>
        Upholds.leave hkey hown

/-- So does the reprocessing of a dead letter whose key names an own queue. -/
theorem reprocessDlqMessage_files {key : String} (hkey : F.Key key)
    (hqueue : F.queue (extractQueueFromKey key)) :
    Upholds F (reprocessDlqMessage env key) fun _ => True := by
  unfold reprocessDlqMessage
  split
  · exact Guards.done
  · split
    · exact Guards.done
    · rename_i id hid
      have hown := F.owns_queuePath hqueue .dlq (hkey.2 id hid)
      refine Guards.bind (Upholds.read _ hown) fun r hr => ?_
      split
      · exact Guards.done
      · split
        · exact Guards.done
        · rename_i content _ j' hedit
          obtain ⟨m, hm, hfits, j, attempt, available, rfl, henvelope⟩ := hr content rfl
          obtain ⟨attempt', available', henvelope'⟩ :=
            spares_reprocessed env.now m j j' attempt available henvelope hedit
          have hholds : F.Holds (queuePath (extractQueueFromKey key) .dlq id) (some j') :=
            ⟨m, hm, hfits, j', attempt', available', rfl, henvelope'⟩
          refine Guards.bind (Upholds.write _ hown hholds) fun r _ => ?_
          split
          · exact Guards.done
          · refine Guards.bind (Upholds.move hown) fun r _ => ?_
            split <;> exact Guards.done

/-- The answer leases, if it does, a published message that fits in the queue's directory. -/
def LeasesFitting (F : Filing) (call : Call) (reply : Reply) : Prop :=
  ∀ message token, reply.granted = some (message, token) → ∃ q c timeout,
    call = .leaseNext q c timeout ∧
    ∃ m ∈ F.published, F.fits m (resolve [] q) ∧ SameContent m message

/-- An operation whose answers lease nothing. -/
theorem Upholds.unleased {m : Program Disk α} {f : α → Reply} {call : Call}
    (h : Upholds F m fun _ => True) (hf : ∀ a, (f a).granted = none) :
    Upholds F (do return f (← m)) (LeasesFitting F call) := by
  refine Guards.bind h fun a _ => Guards.pure ?_
  intro message token hgranted
  rw [hf a] at hgranted
  cases hgranted

/-- **Every operation that keeps to a filing touches the adapter's own files only**, and leases
    messages that fit. -/
theorem program_files (call : Call) (h : F.Admits call) :
    Upholds F (program env call) (LeasesFitting F call) := by
  cases call with
  | enqueue message => exact (enqueue_files h).unleased fun _ => rfl
  | leaseNext q c timeout =>
    refine Guards.bind (leaseNext_files h) fun r hr => Guards.pure ?_
    intro message token hgranted
    exact ⟨q, c, timeout, rfl, hr message token hgranted⟩
  | ack lease => exact (ack_files h).unleased fun _ => rfl
  | nack lease reason requeue => exact (nack_files h).unleased fun _ => rfl
  | extendLease lease timeout => exact (extendLease_files h).unleased fun _ => rfl
  | savePolicy queue policy => exact savePolicy_files.unleased fun _ => rfl
  | recoverExpiredLeases =>
    refine Upholds.unleased ?_ fun _ => rfl
    refine Guards.bind (Upholds.list fun d hd => owns_leasePaths hd) fun paths hpaths =>
      Guards.sumList paths fun path hpath => ?_
    exact recoverLease_files (hpaths path hpath).1 (hpaths path hpath).2
  | processDelayedMessages =>
    refine Upholds.unleased ?_ fun _ => rfl
    refine Guards.bind (Upholds.list fun d hd => queue_of_listed hd) fun queues hqueues =>
      Guards.sumList queues fun q hq => ?_
    exact Guards.bind (Upholds.listJson (hqueues q hq) .delayed) fun ids hids =>
      Guards.sumList ids fun id hid => processDelayed_files (hids id hid)
  | delayMessage key delayMs => exact (delayMessage_files h).unleased fun _ => rfl
  | moveToDlq key reason => exact (moveToDlq_files h).unleased fun _ => rfl
  | reprocessDlqMessage key => exact (reprocessDlqMessage_files h.1 h.2).unleased fun _ => rfl

end YirangMQ.FileSystem

import YirangMQ.FileSystem.Inbox

namespace YirangMQ.FileSystem

open Program

/-!
# Files that no call but a few writes

Documents in `dlq/` are written by the calls that bury a message, lease files by `lease_next` and
`extend_lease`.  All other calls may remove such a file, but neither make nor change one.

* `NothingNew` — every file of a class was there before, as it is;
* `Apart` — a class of files to which only the calls named above write;
* one lemma for each operation that writes no file of a class that is `Apart`.
-/

variable {P : Path → Prop} {published : List MessageEnvelope} {d d' d'' : Disk}
  {m : MessageEnvelope} {env : Env} {key reason : String}

/-- Every file of the class was there before, with the same content. -/
def NothingNew (P : Path → Prop) (d d' : Disk) : Prop :=
  ∀ path, P path → ∀ content, d'.lookup path = some content → d.lookup path = some content

/-- The class has no delay file and no policy, and of the message files those in `dlq/` at most. -/
structure Apart (P : Path → Prop) : Prop where
  message : ∀ location dir id, dir ≠ .dlq → ¬P (.message location dir id)
  note : ∀ text, ¬P (.delayedMeta text)
  policy : ∀ text, ¬P (.policy text)

namespace NothingNew

/-- A disk has nothing new against itself. -/
theorem refl (d : Disk) : NothingNew P d d := fun _ _ _ hfile => hfile

/-- Two steps without anything new make one. -/
theorem trans (h : NothingNew P d d') (h' : NothingNew P d' d'') : NothingNew P d d'' :=
  fun path hpath content hfile => h path hpath content (h' path hpath content hfile)

/-- A file written aside, with its temporary file, is nothing new. -/
theorem written (h : NothingNew P d d') {path : Path} (hpath : ¬P path) (content : JsonText) :
    NothingNew P d (written path content d') := by
  intro path' hpath' content' hfile
  have hne : path' ≠ path := fun heq => hpath (heq ▸ hpath')
  rw [lookup_written, if_neg hne] at hfile
  split at hfile
  case isTrue => cases hfile
  case isFalse => exact h path' hpath' content' hfile

/-- A file renamed to a place aside is nothing new. -/
theorem renamed (h : NothingNew P d d') {src dest : Path} (hdest : ¬P dest) (content : JsonText) :
    NothingNew P d (Files.renamed src dest content d') := by
  intro path' hpath' content' hfile
  have hne : path' ≠ dest := fun heq => hdest (heq ▸ hpath')
  rw [Files.lookup_renamed, if_neg hne] at hfile
  split at hfile
  case isTrue => cases hfile
  case isFalse => exact h path' hpath' content' hfile

/-- Removing a file brings nothing new. -/
theorem erase (h : NothingNew P d d') (path : Path) : NothingNew P d (d'.erase path) := by
  intro path' hpath' content' hfile
  rw [Files.lookup_erase'] at hfile
  split at hfile
  case isTrue => cases hfile
  case isFalse => exact h path' hpath' content' hfile

/-- A document is written where it was, and then moved out of the class. -/
theorem moved (h : NothingNew P d d') {dest : Path} (hdest : ¬P dest) (content : JsonText)
    (src : Path) :
    NothingNew P d (Files.renamed src dest content (FileSystem.written src content d')) := by
  intro path' hpath' content' hfile
  have hne : path' ≠ dest := fun heq => hdest (heq ▸ hpath')
  rw [Files.lookup_renamed, if_neg hne] at hfile
  split at hfile
  case isTrue => cases hfile
  case isFalse hsrc =>
    rw [lookup_written, if_neg hsrc] at hfile
    split at hfile
    case isTrue => cases hfile
    case isFalse => exact h path' hpath' content' hfile

/-- A file that leaves `processing/` for a place aside is nothing new, and neither is its lost
    lease. -/
theorem released (h : NothingNew P d d') {src dest : Path} (hdest : ¬P dest)
    (content : JsonText) : NothingNew P d (released key src dest content d') :=
  (h.renamed hdest content).erase _

end NothingNew

section Operations

variable (hP : Apart P)
include hP

/-- A file of another directory than `dlq/` is not in the class. -/
theorem Apart.queuePath {queue id : String} {dir : SubDir} (hdir : dir ≠ .dlq) :
    ¬P (queuePath queue dir id) := hP.message _ _ _ hdir

/-- Enqueueing writes aside: the two files of the message and its note. -/
theorem enqueue_nothingNew (hname : '/' ∉ m.key.toList) :
    Sat False (fun _ => True) d (enqueue env m) fun _ d' => NothingNew P d d' := by
  by_cases hlater : env.now < m.availableAtMs
  · refine enqueue_sat_delayed trivial hlater hname ⟨trivial, trivial, trivial, trivial, ?_⟩
    exact ((NothingNew.refl d).written (hP.note _) _).written (hP.queuePath (by simp)) _
  · refine enqueue_sat_ready trivial hlater ⟨trivial, trivial, ?_⟩
    exact (NothingNew.refl d).written (hP.queuePath (by simp)) _

/-- An acknowledged file goes to `archive/`, which is aside. -/
theorem ack_nothingNew {lease : LeaseToken} :
    Sat False (fun _ => True) d (ack env lease) fun _ d' => NothingNew P d d' := by
  refine ack_sat trivial (fun stored id content _ _ _ => ?_) fun _ _ => .refl d
  exact ⟨trivial, trivial, (NothingNew.refl d).released (hP.queuePath (by simp)) _⟩

/-- A file that is nacked for another delivery goes to `inbox/`, which is aside. -/
theorem requeue_nothingNew {lease : LeaseToken} :
    Sat False (fun _ => True) d (nack env lease reason true) fun _ d' => NothingNew P d d' := by
  refine withLease_sat ("lease not found: " ++ ·) trivial ?_ fun _ _ => .refl d
  intro stored id hstored hid
  refine release_sat hstored hid (fun content _ => ⟨trivial, trivial, ?_⟩) fun _ _ => .refl d
  exact (NothingNew.refl d).released (hP.queuePath (by simp)) _

/-- A policy file is aside. -/
theorem savePolicy_nothingNew {queue : String} {policy : QueuePolicy} :
    Sat False (fun _ => True) d (savePolicy queue policy) fun _ d' => NothingNew P d d' := by
  refine savePolicy_sat trivial (fun _ => ⟨trivial, trivial, ?_⟩) fun _ => .refl d
  exact (NothingNew.refl d).written (hP.policy _) _

/-- Recovering leases moves files to `inbox/`, whatever the lease files say. -/
theorem recoverExpiredLeases_nothingNew :
    Sat False (fun _ => True) d (recoverExpiredLeases env) fun _ d' => NothingNew P d d' := by
  refine Sat.bind (listDirectory_sat trivial (Sat.sumList (NothingNew P d) _ ?_ (.refl d)))
  intro path _ d' hkept
  refine recoverLease_sat trivial hkept (fun content queue id text _ _ _ => ?_)
    fun content queue id _ _ _ => ⟨trivial, hkept.erase _⟩
  exact ⟨trivial, trivial, (hkept.renamed (hP.queuePath (by simp)) _).erase _⟩

/-- One round over a delayed file moves it to `inbox/` at most. -/
theorem processDelayed_nothingNew {queue id : String} (hkept : NothingNew P d d') :
    Sat False (fun _ => True) d' (processDelayed env queue id)
      fun _ d'' => NothingNew P d d'' := by
  refine processDelayed_sat trivial hkept fun j available _ _ _ => ⟨trivial, ?_⟩
  have hmoved : NothingNew P d (Files.renamed (queuePath queue .delayed id)
      (queuePath queue .inbox id) (some j) d') := hkept.renamed (hP.queuePath (by simp)) _
  split
  case h_1 => exact hmoved
  case h_2 => exact hmoved
  case h_3 => exact ⟨trivial, hmoved.erase _⟩

/-- The sweep over the delayed files moves them to `inbox/`. -/
theorem processDelayedMessages_nothingNew :
    Sat False (fun _ => True) d (processDelayedMessages env) fun _ d' => NothingNew P d d' := by
  refine Sat.bind (listDirectory_sat trivial (Sat.sumList (NothingNew P d) _ ?_ (.refl d)))
  intro queue _ d' hkept
  refine Sat.bind (listJsonFiles_sat trivial fun ids _ _ => ?_)
  refine Sat.sumList (NothingNew P d) ids ?_ hkept
  exact fun id _ d'' hkept' => processDelayed_nothingNew hP hkept'

/-- A delayed file is written in `processing/` and moved to `delayed/` or `inbox/`. -/
theorem delayMessage_nothingNew {delayMs : Int} (h : Keeps False published d)
    (hname : '/' ∉ key.toList) :
    Sat False (fun _ => True) d (delayMessage env key delayMs)
      fun _ d' => NothingNew P d d' := by
  refine withLease_sat id trivial ?_ fun _ _ => .refl d
  intro stored id hstored hid
  dsimp only
  split
  case isTrue =>
    refine release_sat hstored hid (fun content _ => ⟨trivial, trivial, ?_⟩) fun _ _ => .refl d
    exact (NothingNew.refl d).released (hP.queuePath (by simp)) _
  case isFalse =>
    refine postpone_sat trivial hname hstored hid (fun content hreach => ?_) fun _ _ => .refl d
    obtain ⟨m, hm, -, j, rfl, hheld⟩ := h.reached hreach
    obtain ⟨available, henvelope⟩ := hheld.envelope
    obtain ⟨j', hj', -⟩ := henvelope.withAvailableAt (env.now + delayMs)
    refine ⟨j, j', rfl, hj', trivial, trivial, trivial, trivial, trivial, trivial, ?_⟩
    have hdest : ¬P (queuePath stored.queue .delayed id) := hP.queuePath (by simp)
    have hmoved := (NothingNew.refl d).moved hdest (some j')
      (queuePath stored.queue .processing id)
    exact (hmoved.written (hP.note _) _).erase _

/-- A reprocessed file ends in `inbox/`; the dead letter it was had been there. -/
theorem reprocessDlqMessage_nothingNew :
    Sat False (fun _ => True) d (reprocessDlqMessage env key) fun _ d' => NothingNew P d d' := by
  refine reprocessDlqMessage_sat trivial (fun id content j' _ _ _ _ => ?_) fun _ _ => .refl d
  exact ⟨trivial, trivial, trivial, (NothingNew.refl d).moved (hP.queuePath (by simp)) _ _⟩

end Operations

/-! ### Calls that write to neither -/

/-- The call writes neither a lease file nor a document in `dlq/`. -/
def Call.Bystander : Call → Prop
  | .leaseNext _ _ _ | .extendLease _ _ | .nack _ _ false | .moveToDlq _ _ => False
  | _ => True

/-- The program of an operation leaves the class alone when the operation does. -/
theorem nothingNew_answered {α : Type} {operation : Program Disk α} {answer : α → Reply}
    (hsat : Sat False (fun _ => True) d operation fun _ d' => NothingNew P d d') :
    Sat False (fun _ => True) d (do return answer (← operation))
      fun _ d' => NothingNew P d d' :=
  Sat.bind (hsat.weaken fun _ _ hnew => Sat.pure hnew)

/-- **A call of somebody else brings nothing new** where it could not have been named. -/
theorem program_nothingNew (hP : Apart P) {call : Call} (h : Keeps False published d)
    (hplain : Call.Plain call) (hfresh : call.Fresh published) (hbystander : Call.Bystander call) :
    Sat False (fun _ => True) d (program env call) fun _ d' => NothingNew P d d' := by
  cases call with
  | enqueue message =>
    have hnamed : Named message := ⟨hfresh.1, hfresh.2.2.1, hplain.1, hplain.2⟩
    exact nothingNew_answered (enqueue_nothingNew hP hnamed.no_slash)
  | leaseNext queue c timeout => exact hbystander.elim
  | ack lease => exact nothingNew_answered (ack_nothingNew hP)
  | nack lease reason requeue =>
    cases requeue with
    | true => exact nothingNew_answered (requeue_nothingNew hP)
    | false => exact hbystander.elim
  | extendLease lease timeout => exact hbystander.elim
  | savePolicy queue policy => exact nothingNew_answered (savePolicy_nothingNew hP)
  | recoverExpiredLeases => exact nothingNew_answered (recoverExpiredLeases_nothingNew hP)
  | processDelayedMessages => exact nothingNew_answered (processDelayedMessages_nothingNew hP)
  | delayMessage messageKey delayMs =>
    exact nothingNew_answered (delayMessage_nothingNew hP h hplain)
  | moveToDlq messageKey reason => exact hbystander.elim
  | reprocessDlqMessage messageKey =>
    exact nothingNew_answered (reprocessDlqMessage_nothingNew hP)

end YirangMQ.FileSystem

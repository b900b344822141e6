import YirangMQ.FileSystem.Fidelity
import YirangMQ.FileSystem.Lifecycle
import Mathlib.Data.List.Perm.Subperm
import Mathlib.Tactic.MkIffOfInductiveProp

namespace YirangMQ.FileSystem

open Program

/-!
# The directory of a message is its state

No file says of itself that its message is leased or delayed: it says so by its directory,
together with a lease file or a delay file that names it.  The names agree as long as no caller
renews a lease, or delays a message, under a second key with the same file name.

* `LiesIn`, `LeaseNames`, `NoteNames`, `Acked` — what the files and the answers so far say;
* `Represents` — they say the same of a message;
* `Proper`, `NamesItself` — the calls, and those that use the published keys;
* `Inventory` — what every run of such calls keeps;
* `representation` — **the files represent the messages**, and `metrics` counts those that have
  not been acknowledged.
-/

variable {published : List MessageEnvelope} {d d' : Disk} {m m' : MessageEnvelope} {env : Env}
  {call : Call} {h : History Disk (Env × Call) Reply}

/-! ### What the files say -/

/-- The message has its file in this directory of its queue. -/
abbrev LiesIn (d : Disk) (m : MessageEnvelope) (dir : SubDir) : Prop :=
  d.lookup (queuePath m.queue dir m.messageId) ≠ none

/-- A lease file names the key of the message with its queue. -/
def LeaseNames (d : Disk) (m : MessageEnvelope) : Prop :=
  ∃ name j, d.lookup (.leaseMeta name) = some (some j) ∧
    j.valueStr "messageKey" "" = some m.key ∧ j.valueStr "queue" "" = some m.queue

/-- A delay file names the key of the message. -/
def NoteNames (d : Disk) (m : MessageEnvelope) : Prop :=
  ∃ name j, d.lookup (.delayedMeta name) = some (some j) ∧
    j.valueStr "messageKey" "" = some m.key

/-- Whether a call has acknowledged a message can be computed. -/
instance (call : Call) (reply : Reply) (m : MessageEnvelope) : Decidable (Acks call reply m) :=
  match call with
  | .ack lease =>
    decidable_of_iff (safeKey lease.messageKey = safeKey m.key ∧ reply.succeeded = true)
      ⟨fun h => ⟨lease, rfl, h⟩, fun ⟨_, hcall, h⟩ => Call.ack.inj hcall ▸ h⟩
  | .enqueue _ | .leaseNext _ _ _ | .nack _ _ _ | .extendLease _ _ | .savePolicy _ _
  | .recoverExpiredLeases | .processDelayedMessages | .delayMessage _ _ | .moveToDlq _ _
  | .reprocessDlqMessage _ => isFalse fun ⟨_, hcall, _⟩ => by cases hcall

/-- An `ack` of the message has succeeded. -/
def Acked (h : History Disk (Env × Call) Reply) (m : MessageEnvelope) : Prop :=
  ∃ r ∈ h, Acks r.input.2 r.output m

/-- Whether a message has been acknowledged in a history can be computed. -/
instance (h : History Disk (Env × Call) Reply) (m : MessageEnvelope) : Decidable (Acked h m) :=
  List.decidableBEx _ h

/-- The files say where the message is, and they all say the same. -/
structure Represents (h : History Disk (Env × Call) Reply) (d : Disk) (m : MessageEnvelope) :
    Prop where
  one : ∃! dir, LiesIn d m dir
  processing : LiesIn d m .processing ↔ LeaseNames d m
  delayed : LiesIn d m .delayed ↔ NoteNames d m
  archive : LiesIn d m .archive ↔ Acked h m

/-! ### The calls -/

/-- The queue a call is given. -/
def Call.queue : Call → Option String
  | .enqueue message => some message.queue
  | .leaseNext queue _ _ | .savePolicy queue _ => some queue
  | _ => none

/-- The identifier under which a call publishes. -/
def Call.publishedId : Call → Option String
  | .enqueue message => some message.messageId
  | _ => none

/-- Nothing fails, queues have valid names, and messages are published under the keys of their
    queues and of fresh identifiers. -/
@[mk_iff] structure Proper (h : History Disk (Env × Call) Reply) (_ : Disk) (i : Env × Call) :
    Prop where
  calm : i.1.faults = []
  queue : ∀ queue ∈ Call.queue i.2, isValidQueueName queue = true ∧ queue ≠ metaDir
  fresh : i.2.Fresh (publishedBy h)
  id : ∀ id ∈ Call.publishedId i.2, id ≠ ""

/-- Whether a call is proper can be computed. -/
instance (h : History Disk (Env × Call) Reply) (d : Disk) (i : Env × Call) :
    Decidable (Proper h d i) :=
  decidable_of_iff _ (proper_iff h d i).symm

/-- No key leads out of its directory or has a NUL character, at which its path would end, and a key
    that the call writes into a lease file or a delay file is the published one. -/
structure NamesItself (h : History Disk (Env × Call) Reply) (d : Disk) (i : Env × Call) : Prop
    extends Proper h d i where
  no_slash : ∀ key ∈ Call.givenKey i.2, '/' ∉ key.toList
  nul_free : Call.NulFree i.2
  exact : Call.Exact (publishedBy h) i.1 d i.2

/-- A valid queue name is the name of a directory. -/
theorem isName_of_valid {queue : String} (h : isValidQueueName queue = true) : IsName queue := by
  rw [isValidQueueName, Bool.and_eq_true, Bool.and_eq_true] at h
  obtain ⟨⟨hne, -⟩, hall⟩ := h
  rw [List.all_eq_true] at hall
  refine ⟨of_decide_eq_true hne, ?_, ?_, ?_⟩
  · rintro rfl
    exact absurd (hall '.' (by simp)) (by decide)
  · rintro rfl
    exact absurd (hall '.' (by simp)) (by decide)
  · intro c hc
    have hchar := hall c hc
    constructor
    · rintro rfl
      revert hchar
      decide
    · intro hzero
      obtain rfl : c = '\x00' := Char.ext (UInt32.toNat.inj hzero)
      revert hchar
      decide

/-- A call that names its messages exactly is plain. -/
theorem NamesItself.plain {i : Env × Call} (ok : NamesItself h d i) : Call.Plain i.2 := by
  obtain ⟨env, call⟩ := i
  cases call with
  | enqueue message => exact ⟨isName_of_valid (ok.queue _ rfl).1, ok.id _ rfl⟩
  | leaseNext queue => exact isName_of_valid (ok.queue queue rfl).1
  | savePolicy | recoverExpiredLeases | processDelayedMessages => trivial
  | ack | nack | extendLease | delayMessage | moveToDlq | reprocessDlqMessage =>
    exact ok.no_slash _ rfl

/-! ### Steps -/

/-- What is published is stored. -/
theorem enqueue_present (hname : '/' ∉ m.key.toList) (hcalm : env.faults = []) :
    Present (adapter.perform env (.enqueue m) d).2 m := by
  have hsat : Sat False (fun _ => True) d (program env (.enqueue m)) fun _ d' => Present d' m := by
    refine Sat.bind (Sat.weaken (R := fun _ d' => Present d' m) ?_ fun _ _ hr => Sat.pure hr)
    by_cases hlater : env.now < m.availableAtMs
    · refine enqueue_sat_delayed trivial hlater hname ?_
      refine ⟨trivial, trivial, trivial, trivial, .delayed, ?_⟩
      rw [lookup_written, if_pos rfl]
      simp
    · refine enqueue_sat_ready trivial hlater ?_
      refine ⟨trivial, trivial, .inbox, ?_⟩
      rw [lookup_written, if_pos rfl]
      simp
  exact (hsat.run (.inr hcalm) trivial).1

/-- An `ack` that succeeds names a published message. -/
theorem ack_names {exact : Prop} (h : Keeps exact published d) (hcalm : env.faults = [])
    {lease : LeaseToken} (hok : (adapter.perform env (.ack lease) d).1.succeeded = true) :
    ∃ m ∈ published, safeKey lease.messageKey = safeKey m.key := by
  have hsat : Sat False (fun _ => True) d (program env (.ack lease))
      fun reply _ => reply.succeeded = true →
        ∃ m ∈ published, safeKey lease.messageKey = safeKey m.key := by
    refine Sat.bind (Sat.weaken (R := fun r _ => (Reply.status r).succeeded = true →
      ∃ m ∈ published, safeKey lease.messageKey = safeKey m.key) ?_ fun _ _ hr => Sat.pure hr)
    refine ack_sat trivial ?_ fun _ e hfailed => by cases hfailed
    intro stored id content hreach _ _
    obtain ⟨m, hm, -, j, -, hheld⟩ := h.reached hreach
    exact ⟨trivial, trivial, fun _ => ⟨m, hm, hheld.names⟩⟩
  exact (hsat.run (.inr hcalm) trivial).1 hok

/-- The disk and the answers after a run: every message is stored, and it is in the archive if it
    has been acknowledged. -/
structure Inventory (h : History Disk (Env × Call) Reply) (d : Disk) : Prop where
  keeps : Keeps True (publishedBy h) d
  present : ∀ m ∈ publishedBy h, Present d m
  archive : ∀ m ∈ publishedBy h, Archived d m ↔ Acked h m
  acks : ∀ r ∈ h, ∀ lease, r.input.2 = .ack lease → r.output.succeeded = true →
    ∃ m ∈ publishedBy h, safeKey lease.messageKey = safeKey m.key

/-- A message has been acknowledged by the last call or before it. -/
theorem acked_cons {r : Step Disk (Env × Call) Reply} :
    Acked (r :: h) m ↔ Acks r.input.2 r.output m ∨ Acked h m := by
  simp [Acked]

/-- A message that has not been published has not been acknowledged. -/
theorem Inventory.not_acked (hinv : Inventory h d) (hfresh : (Call.enqueue m).Fresh (publishedBy h))
    (hnamed : Named m) : ¬Acked h m := by
  rintro ⟨r, hr, lease, hack, hnames, hok⟩
  obtain ⟨m', hm', hnames'⟩ := hinv.acks r hr lease hack hok
  have hid : m.messageId = m'.messageId :=
    hnamed.safeKey_inj (hinv.keeps.named m' hm') (hnames.symm.trans hnames')
  exact hfresh.2.2.2 (List.mem_map.mpr ⟨m', hm', hid.symm⟩)

/-- **Every call keeps the inventory.** -/
theorem Inventory.step {allowed : History Disk (Env × Call) Reply → Disk → Env × Call → Prop}
    (run : Run adapter.machine allowed h d) (hinv : Inventory h d) {i : Env × Call}
    (ok : NamesItself h d i) :
    Inventory (adapter.machine.stepAt d i :: h) (adapter.machine.step d i).2 := by
  obtain ⟨env, call⟩ := i
  have hturns : Turns True (publishedBy h) env call (adapter.perform env call d).1 d
      (adapter.perform env call d).2 :=
    perform_turns hinv.keeps ok.calm ok.fresh ok.plain fun _ => ok.exact
  -- Files are where they were or where a rename has put them, so no message is lost.
  have hstored : ∀ m ∈ publishedBy h, Present (adapter.perform env call d).2 m := by
    have hmem : ∀ message, call = .enqueue message →
        message ∈ call.publishing (publishedBy h) := by
      rintro message rfl
      exact List.mem_cons_self
    have hsecures : Secures _ (publishedBy h) _ _ := @program_secures _ _ env call hmem
    have hsecure : Secure (call.publishing (publishedBy h)) (publishedBy h) d :=
      ⟨(content_kept run).publishing call, hinv.present⟩
    exact (hsecures.run hsecure env.faults).1.present
  refine ⟨hturns.keeps, ?_, ?_, ?_⟩
  · intro m hm
    -- The message just published lies in the inbox or waits its time.
    cases call with
    | enqueue message =>
      rcases List.mem_cons.mp hm with rfl | hm
      · exact enqueue_present (hturns.keeps.named m List.mem_cons_self).no_slash ok.calm
      · exact hstored m hm
    | _ => exact hstored m hm
  · intro m hm
    -- The archive before the call; a fresh message is not in it.
    have hbefore : Archived d m ↔ Acked h m := by
      cases call with
      | enqueue message =>
        rcases List.mem_cons.mp hm with rfl | hm
        · have hnamed := hturns.keeps.named m List.mem_cons_self
          obtain ⟨-, habsent⟩ := hinv.keeps.publish ok.fresh hnamed.queue hnamed.id
          have harchived : ¬Archived d m := by
            rw [Archived, habsent.no_files.1 .archive]
            simp
          exact iff_of_false harchived (hinv.not_acked ok.fresh hnamed)
        · exact hinv.archive m hm
      | _ => exact hinv.archive m hm
    rw [acked_cons, or_comm, ← hbefore]
    exact hturns.archive m hm
  · intro r hr lease hack hok
    -- An acknowledgement that succeeds names a published message.
    rcases List.mem_cons.mp hr with rfl | hr
    · obtain rfl : call = .ack lease := hack
      exact ack_names hinv.keeps ok.calm hok
    · obtain ⟨m, hm, hnames⟩ := hinv.acks r hr lease hack hok
      exact ⟨m, call.publishing_of_mem hm, hnames⟩

/-- Every run keeps the inventory. -/
theorem inventory_of_run (run : Run adapter.machine NamesItself h d) : Inventory h d := by
  induction run with
  | start =>
    refine ⟨⟨trivial, ?_, ?_, ?_, ?_, ?_, ?_⟩, ?_, ?_, ?_⟩ <;>
      simp [publishedBy, Adapter.machine, adapter]
  | step run ok ih => exact ih.step run ok

/-! ### Reading the state off the files -/

/-- The lease files that name a message are its own. -/
theorem leaseNames_iff (h : Keeps True published d) (hm : m ∈ published) :
    LeaseNames d m ↔ d.lookup (leasePath m) ≠ none := by
  constructor
  · rintro ⟨name, j, hfile, hkey, -⟩
    obtain ⟨m', hm', hpath, K, stored, j', hj, -, hexact⟩ := h.leaseFile ⟨name, .inl rfl⟩ hfile
    obtain rfl := Option.some.inj hj
    have hK : K = m.key := Option.some.inj hkey
    have hsame : m' = m := h.well.eq_of_key hm' hm ((hexact trivial).symm.trans hK)
    rw [← hsame, ← hpath, hfile]
    simp
  · intro hlease
    obtain ⟨place, hplace⟩ := h.stands m hm
    cases hplace with
    | absent _ hnone | archived _ hnone | stranded _ _ hnone | waits _ _ _ hnone =>
      exact absurd hnone hlease
    | @leased j available stored K hfile henvelope hstored hkey hexact hqueue =>
      refine ⟨safeKey m.key, stored.toJson K, hstored, ?_, ?_⟩
      · exact congrArg some (hexact trivial)
      · exact congrArg some hqueue

/-- The delay files that name a message are its own. -/
theorem noteNames_iff (h : Keeps True published d) (hm : m ∈ published) :
    NoteNames d m ↔ d.lookup (notePath m) ≠ none := by
  have hnote : ∀ m' ∈ published, d.lookup (notePath m') ≠ none →
      ∃ note : DelayedMeta, d.lookup (notePath m') = some (some note.toJson) ∧
        note.messageKey = m'.key := by
    intro m' hm' hsome
    obtain ⟨place, hplace⟩ := h.stands m' hm'
    cases hplace with
    | absent _ _ hnone | archived _ _ hnone | stranded _ _ _ hnone => exact absurd hnone hsome
    | leased _ _ _ _ _ _ hnone => exact absurd hnone hsome
    | @waits dir j attempt available phase _ _ _ _ hnoted =>
      unfold Noted at hnoted
      split at hnoted
      case isTrue =>
        obtain ⟨note, hfile, -, hkey⟩ := hnoted
        exact ⟨note, hfile, hkey trivial⟩
      case isFalse => exact absurd hnoted hsome
  constructor
  · rintro ⟨name, j, hfile, hkey⟩
    obtain ⟨m', hm', rfl⟩ := h.notes name (by rw [hfile]; simp)
    obtain ⟨note, hfile', hkey'⟩ := hnote m' hm' (by rw [hfile]; simp)
    obtain rfl := Option.some.inj (Option.some.inj (hfile.symm.trans hfile'))
    have hsame : note.messageKey = m.key := Option.some.inj hkey
    rw [← h.well.eq_of_key hm' hm (hkey'.symm.trans hsame), hfile]
    simp
  · intro hsome
    obtain ⟨note, hfile, hkey⟩ := hnote m hm hsome
    exact ⟨safeKey m.key, note.toJson, hfile, congrArg some hkey⟩

/-- A message that is present is in one directory, which tells its lease file and its delay
    file. -/
theorem Keeps.one_directory (h : Keeps True published d) (hm : m ∈ published)
    (hpresent : Present d m) :
    ∃ dir, (∀ dir', LiesIn d m dir' ↔ dir' = dir) ∧
      (d.lookup (leasePath m) ≠ none ↔ dir = .processing) ∧
      (d.lookup (notePath m) ≠ none ↔ dir = .delayed) := by
  have hpath : ∀ dir, queuePath m.queue dir m.messageId = filePath m dir := fun dir =>
    queuePath_of_name (h.named m hm).queue dir m.messageId
  have hlies : ∀ {dir j}, Only d m dir j → ∀ dir', LiesIn d m dir' ↔ dir' = dir := by
    intro dir j honly dir'
    rw [LiesIn, hpath, honly dir']
    split <;> simp_all
  obtain ⟨place, hplace⟩ := h.stands m hm
  -- Where the message stands says which of the notes is there.
  cases hplace with
  | absent hnone =>
    obtain ⟨dir, hfile⟩ := hpresent
    exact absurd (hnone dir) (by rwa [hpath] at hfile)
  | archived honly hlease hnote => exact ⟨.archive, hlies honly, by simp [hlease], by simp [hnote]⟩
  | stranded hloose => exact absurd trivial hloose
  | leased honly _ hlease _ _ _ hnote =>
    exact ⟨.processing, hlies honly, by simp [hlease], by simp [hnote]⟩
  | @waits dir j attempt available phase hphase honly henvelope hlease hnoted =>
    refine ⟨dir, hlies honly, ?_, ?_⟩
    · have hdir : dir ≠ .processing := by
        rintro rfl
        cases hphase
      simp [hlease, hdir]
    · unfold Noted at hnoted
      split at hnoted
      case isTrue hdir =>
        obtain ⟨note, hfile, -⟩ := hnoted
        simp [hfile, hdir]
      case isFalse hdir => simp [hnoted, hdir]

/-- **In the inventory each published message is represented once.** -/
theorem Inventory.represents (hinv : Inventory h d) (hm : m ∈ publishedBy h) :
    Represents h d m := by
  obtain ⟨dir, hlies, hlease, hnote⟩ := hinv.keeps.one_directory hm (hinv.present m hm)
  refine ⟨⟨dir, (hlies dir).mpr rfl, fun dir' => (hlies dir').mp⟩, ?_, ?_, ?_⟩
  · rw [leaseNames_iff hinv.keeps hm, hlease, hlies]
    exact eq_comm
  · rw [noteNames_iff hinv.keeps hm, hnote, hlies]
    exact eq_comm
  · rw [← hinv.archive m hm, Archived, LiesIn,
      queuePath_of_name (hinv.keeps.named m hm).queue .archive m.messageId]

/-! ### Counting -/

/-- `metrics` counts the files of the directories. -/
theorem metrics_eq (queue : String) :
    ((metrics queue).run [] d).1 =
      let count dir := (d.ids (resolve [] queue) dir).length
      ⟨count .inbox, count .processing, count .delayed, count .dlq⟩ := by
  have hlist : ∀ {dir : SubDir} {Q : List String → Disk → Prop},
      (∀ ids : List String, ids.length = (d.ids (resolve [] queue) dir).length → Q ids d) →
      Sat False (fun _ => True) d (listJsonFiles queue dir) Q := by
    intro dir Q hQ
    refine Sat.bind (listDirectory_sat trivial (Sat.pure (hQ _ ?_)))
    rw [List.length_insertionSort]
  have hsat : Sat False (fun _ => True) d (metrics queue) fun r _ => r =
      let count dir := (d.ids (resolve [] queue) dir).length
      ⟨count .inbox, count .processing, count .delayed, count .dlq⟩ := by
    refine Sat.bind (hlist fun ready hready => Sat.bind (hlist fun inflight hinflight => ?_))
    refine Sat.bind (hlist fun delayed hdelayed => Sat.bind (hlist fun dlq hdlq => Sat.pure ?_))
    rw [hready, hinflight, hdelayed, hdlq]
  exact (hsat.run (.inr rfl) trivial).1

/-- A file of a queue is listed once. -/
theorem nodup_ids (d : Disk) (location : Directory) (dir : SubDir) :
    (d.ids location dir).Nodup := by
  refine List.Nodup.filterMap ?_ d.nodupKeys
  intro path path' id hid hid'
  cases path with
  | message l dir₁ id₁ =>
    cases path' with
    | message l' dir₂ id₂ =>
      simp only [Option.mem_def, Option.ite_none_right_eq_some, Option.some.injEq] at hid hid'
      obtain ⟨⟨rfl, rfl, -⟩, rfl⟩ := hid
      obtain ⟨⟨rfl, rfl, -⟩, rfl⟩ := hid'
      rfl
    | _ => cases hid'
  | _ => cases hid

/-- Published identifiers are distinct. -/
theorem nodup_messageIds (hwell : WellPublished published) :
    (published.map MessageEnvelope.messageId).Nodup := by
  induction published with
  | nil => exact List.nodup_nil
  | cons message messages ih => exact List.nodup_cons.mpr ⟨hwell.1.2.2.2, ih hwell.2⟩

/-- The files of a directory are those of the messages that lie in it. -/
theorem Keeps.count_ids {exact : Prop} (h : Keeps exact published d) {queue : String}
    (hqueue : IsName queue) (dir : SubDir) :
    (d.ids (resolve [] queue) dir).length =
      published.countP fun m => m.queue = queue ∧ LiesIn d m dir := by
  have hperm : (d.ids (resolve [] queue) dir).Perm
      ((published.filter fun m => m.queue = queue ∧ LiesIn d m dir).map
        MessageEnvelope.messageId) := by
    have hnodup : ((published.filter fun m => m.queue = queue ∧ LiesIn d m dir).map
        MessageEnvelope.messageId).Nodup :=
      (nodup_messageIds h.well).sublist (List.filter_sublist.map _)
    rw [List.perm_ext_iff_of_nodup (nodup_ids _ _ _) hnodup]
    intro id
    rw [mem_ids, List.mem_map, resolve_name hqueue]
    constructor
    · rintro ⟨hfile, -⟩
      obtain ⟨m, hm, hlocation, rfl⟩ := h.files _ _ _ hfile
      obtain rfl : queue = m.queue := by simpa using hlocation
      refine ⟨m, List.mem_filter.mpr ⟨hm, decide_eq_true ⟨rfl, ?_⟩⟩, rfl⟩
      rwa [LiesIn, queuePath_of_name hqueue]
    · rintro ⟨m, hmem, rfl⟩
      obtain ⟨hm, hthere⟩ := List.mem_filter.mp hmem
      obtain ⟨rfl, hlies⟩ := of_decide_eq_true hthere
      have hfile : d.lookup (queuePath m.queue dir m.messageId) ≠ none := hlies
      rw [queuePath_of_name hqueue] at hfile
      exact ⟨hfile, (h.named m hm).id⟩
  rw [hperm.length_eq, List.length_map, List.countP_eq_length_filter]

/-- Messages that each lie in one directory are counted once. -/
theorem count_directories {P : MessageEnvelope → Prop} [DecidablePred P]
    (hone : ∀ m ∈ published, ∃! dir, LiesIn d m dir) :
    let count dir := published.countP fun m => P m ∧ LiesIn d m dir
    count .inbox + count .processing + count .delayed + count .dlq + count .archive =
      published.countP P := by
  intro count
  induction published with
  | nil => rfl
  | cons m messages ih =>
    have hrest := ih fun m' hm' => hone m' (List.mem_cons_of_mem _ hm')
    obtain ⟨dir, hdir, honly⟩ := hone m List.mem_cons_self
    have hlies : ∀ dir', LiesIn d m dir' ↔ dir' = dir := by
      intro dir'
      exact ⟨honly dir', fun heq => heq ▸ hdir⟩
    simp only [count, List.countP_cons, hlies] at hrest ⊢
    by_cases hP : P m
    · cases dir <;> simp only [hP, true_and, decide_true, decide_false, if_true, if_false,
        reduceCtorEq, Bool.false_eq_true] <;> omega
    · simp only [hP, false_and, decide_false, Bool.false_eq_true, if_false]
      omega

/-! ### The representation -/

/-- The messages published to a queue, and those of them that have been acknowledged. -/
def enqueuedTo (h : History Disk (Env × Call) Reply) (queue : String) : Nat :=
  (publishedBy h).countP (·.queue = queue)

/-- How many messages of a queue have been acknowledged. -/
def ackedFrom (h : History Disk (Env × Call) Reply) (queue : String) : Nat :=
  (publishedBy h).countP fun m => m.queue = queue ∧ Acked h m

/-- **The files represent the messages**, and the counts of `metrics` are those of the messages
    that have not been acknowledged. -/
theorem representation (run : Run adapter.machine NamesItself h d) :
    (∀ m ∈ publishedBy h, Represents h d m) ∧
    (∀ location dir id, d.lookup (.message location dir id) ≠ none →
      ∃ m ∈ publishedBy h, location = resolve [] m.queue ∧ id = m.messageId) ∧
    ∀ queue, isValidQueueName queue = true →
      let counts := ((metrics queue).run [] d).1
      counts.ready + counts.inflight + counts.delayed + counts.dlq + ackedFrom h queue =
        enqueuedTo h queue := by
  have hinv : Inventory h d := inventory_of_run run
  have hrepresents : ∀ m ∈ publishedBy h, Represents h d m := fun m hm => hinv.represents hm
  refine ⟨hrepresents, ?_, ?_⟩
  · intro location dir id hfile
    obtain ⟨m, hm, rfl, hid⟩ := hinv.keeps.files location dir id hfile
    exact ⟨m, hm, (resolve_name (hinv.keeps.named m hm).queue []).symm, hid⟩
  · intro queue hqueue counts
    have hname : IsName queue := isName_of_valid hqueue
    have hacked : ackedFrom h queue =
        (publishedBy h).countP fun m => m.queue = queue ∧ LiesIn d m .archive := by
      refine List.countP_congr fun m hm => ?_
      simp only [(hrepresents m hm).archive]
    have hcounts : counts = _ := metrics_eq queue
    rw [hcounts, hacked]
    simp only [hinv.keeps.count_ids hname]
    exact count_directories fun m hm => (hrepresents m hm).one

/-- A message that is published, leased and acknowledged. -/
theorem representation_acked :
    let env (now : Int) (h : 0 < now) : Env := { now, now_pos := h, guid := "lease" }
    let m : MessageEnvelope :=
      { key := "msg:q:a1", messageId := "a1", queue := "q", payloadJson := "[1]",
        attributesJson := "[]" }
    let calls := [(env 1 (Int.succ_ofNat_pos 0), Call.enqueue m),
      (env 2 (Int.succ_ofNat_pos 1), .leaseNext "q" "c" 30),
      (env 3 (Int.succ_ofNat_pos 2), .extendLease ⟨"lease", "msg:q:a1", "c", 0⟩ 60),
      (env 4 (Int.succ_ofNat_pos 3), .ack ⟨"lease", "msg:q:a1", "c", 0⟩)]
    let M := adapter.machine
    let h := (M.replay calls ([], M.start)).1
    let d := (M.replay calls ([], M.start)).2
    (∀ m ∈ publishedBy h, Represents h d m) ∧ Acked h m ∧ LiesIn d m .archive := by
  intro env m calls M h d
  have hexact : Call.Exact [m] (env 3 (Int.succ_ofNat_pos 2))
      (M.replay (calls.take 2) ([], M.start)).2 (.extendLease ⟨"lease", "msg:q:a1", "c", 0⟩ 60) := by
    intro stored _ _ _ m' hm' _
    rw [List.mem_singleton.mp hm']
  have run : Run M NamesItself h d :=
    run_replay calls ⟨⟨by decide, by decide, by decide, trivial⟩,
      ⟨by decide, by decide, by decide, trivial⟩, ⟨by decide, by decide, by decide, hexact⟩,
      ⟨by decide, by decide, by decide, trivial⟩, trivial⟩
  have hacked : Acked h m := by decide
  exact ⟨(@representation d h run).1, hacked, by decide⟩

/-- A lease renewed under another key of the same file name no longer names its message, and is
    not recovered when it expires. -/
theorem renewed_under_other_key :
    let env (now : Int) (h : 0 < now) : Env := { now, now_pos := h, guid := "lease" }
    let m : MessageEnvelope :=
      { key := "msg:q:a1", messageId := "a1", queue := "q", payloadJson := "[1]",
        attributesJson := "[]" }
    let calls := [(env 1 (Int.succ_ofNat_pos 0), Call.enqueue m),
      (env 2 (Int.succ_ofNat_pos 1), .leaseNext "q" "c" 30),
      (env 3 (Int.succ_ofNat_pos 2), .extendLease ⟨"lease", "msg:q_a1", "c", 0⟩ 60),
      (env 70000 (Int.succ_ofNat_pos 69999), .recoverExpiredLeases)]
    let M := adapter.machine
    let renewed := M.replay (calls.take 3) ([], M.start)
    let swept := M.replay calls ([], M.start)
    Run M Proper renewed.1 renewed.2 ∧ m ∈ publishedBy renewed.1 ∧
      ¬Represents renewed.1 renewed.2 m ∧
      Run M Proper swept.1 swept.2 ∧ LiesIn swept.2 m .processing ∧
      ∀ name, swept.2.lookup (.leaseMeta name) = none := by
  intro env m calls M renewed swept
  have hswept : swept.2.keys = [.message ["q"] .processing "a1"] := by decide
  refine ⟨run_replay _ (by decide), by decide, ?_, run_replay _ (by decide), by decide, ?_⟩
  · intro hrepresents
    obtain ⟨name, j, hfile, hkey, -⟩ := hrepresents.processing.mp (by decide)
    have hname : Path.leaseMeta name ∈ renewed.2.keys := by
      rw [← AList.mem_keys, ← AList.lookup_isSome, hfile]
      rfl
    have hkeys : renewed.2.keys = [.leaseMeta "msg_q_a1", .message ["q"] .processing "a1"] := by
      decide
    obtain rfl : name = "msg_q_a1" := by simpa [hkeys] using hname
    -- the lease file has the key of the token
    have hother : ((renewed.2.lookup (.leaseMeta "msg_q_a1")).bind id).bind
        (·.valueStr "messageKey" "") = some "msg:q_a1" := by decide
    rw [hfile] at hother
    exact absurd (hother.symm.trans hkey) (by decide)
  · intro name
    rw [AList.lookup_eq_none, AList.mem_keys, hswept]
    simp

end YirangMQ.FileSystem

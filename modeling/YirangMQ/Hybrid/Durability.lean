import YirangMQ.Backend.Stops
import YirangMQ.Hybrid.Mending

namespace YirangMQ.Hybrid

open Program Abortable

/-!
# What the Hybrid store never loses

A published message has a row, a value and a payload file.  The rows are committed in transactions;
the payload file is written before them, moved by renames after them, and removed only when the
publication itself fails.

* `crashing_cutMachine` — the machine whose calls may be stopped has the life cycle;
* `Shifted`, `perform_shifts` — what a call that publishes nothing can do to the files, whatever
  fails: it moves the payload of one message or touches none;
* `InPlace` — the payload of a message is in one directory, and in no other;
* `payload_survives` — **a message whose publication was answered keeps its payload file through every
  stop, and its row and value until an acknowledgement takes them away.**
-/

variable {schema : SchemaFile} {env : Env} {s : Store} {files files' : Payloads}
  {published : List MessageEnvelope} {m : MessageEnvelope}

/-! ### Rows -/

/-- The crashing adapter is a machine of cut calls. -/
theorem crashing_cutMachine (schema : SchemaFile) :
    CutMachine (lifecycle schema) (crashing schema) CutCall.call where
  start := rfl
  step {published s} i hinv := by
    obtain ⟨env, call, cut⟩ := i
    cases cut with
    | none =>
      have hrun : (program schema env call).run env.faults s = (adapter schema).perform env call s := by
        cases call <;> rfl
      exact ⟨env, trivial, congrArg Prod.snd hrun, fun reply hreply =>
        (Option.some.inj hreply).symm.trans (congrArg Prod.fst hrun)⟩
    | some n =>
      obtain ⟨faults, hafter⟩ := @afterCut_eq schema _ hinv.saved ⟨env, call, some n⟩
      exact ⟨_, trivial, hafter, fun reply hreply => by cases hreply⟩

/-! ### Files -/

/-- The files are as they were, or the payload of one message has been moved. -/
def Shifted (published : List MessageEnvelope) (files files' : Payloads) : Prop :=
  (∀ path, files'.lookup path = files.lookup path) ∨
  ∃ m ∈ published, ∃ src dest, src ≠ dest ∧ ∀ path, files'.lookup path =
    (moved (payloadPath src m.queue m.messageId) (payloadPath dest m.queue m.messageId)
      files).lookup path

/-- No payload has shifted from a store to itself. -/
theorem Shifted.refl (published : List MessageEnvelope) (files : Payloads) :
    Shifted published files files := .inl fun _ => rfl

/-- A rename that may fail. -/
theorem movePayload_either (src dest : String) :
    Sat True (fun _ => True) s (movePayload src dest) fun _ t =>
      t.saved = s.saved ∧ (t.files = s.files ∨ t.files = moved src dest s.files) := by
  refine Sat.bind (Sat.onFiles ?_ ?_ ?_)
  · intro a files hrename
    apply Sat.pure
    unfold Files.rename at hrename
    unfold moved
    split at hrename
    case h_1 => cases hrename
    case h_2 text htext =>
      simp only [Except.ok.injEq, Prod.mk.injEq] at hrename
      rw [htext, ← hrename.2]
      exact ⟨rfl, .inr rfl⟩
  · exact fun text _ => Sat.pure ⟨rfl, .inl rfl⟩
  · exact fun _ text => Sat.pure ⟨rfl, .inl rfl⟩

/-- Moving the payload of a key's message, if its queue is known. -/
theorem movePayload_shifts (hwell : WellPublished published) {key queue : String}
    {src dest : PayloadDir} (hne : src ≠ dest)
    (hread : ∃ m ∈ published, m.key = key ∧ m.queue = queue) :
    Sat True (fun _ => True) s
      (movePayload (payloadPath src queue (extractMessageIdFromKey key))
        (payloadPath dest queue (extractMessageIdFromKey key)))
      fun _ t => t.saved = s.saved ∧ Shifted published s.files t.files := by
  obtain ⟨m, hm, rfl, rfl⟩ := hread
  rw [extractMessageIdFromKey_of_mem hwell hm]
  refine (movePayload_either _ _).weaken fun _ t ht => ⟨ht.1, ?_⟩
  rcases ht.2 with hsame | hmoved
  · exact .inl fun path => by rw [hsame]
  · exact .inr ⟨m, hm, src, dest, hne, fun path => by rw [hmoved]⟩

/-- A transaction that finds a queue and touches no file. -/
theorem finding_queue {P : String → Prop} {body : Abortable Store String} (hsaved : s.saved = none)
    (hbody : SatE True (fun _ => True) { s with saved := some s.data } body
      (fun q t => t.saved = some s.data ∧ t.files = s.files ∧ P q)
      (fun _ t => t.saved = some s.data ∧ t.files = s.files)) :
    Sat True (fun _ => True) s (transaction body)
      fun r t => t.files = s.files ∧ ∀ q, r = .ok q → P q := by
  refine Sat.transaction hsaved (hbody.weaken ?_ ?_) ?_
  · rintro q t ⟨hopen, hfiles, hP⟩
    refine ⟨hopen, ⟨hfiles, fun q' hq' => Except.ok.inj hq' ▸ hP⟩, fun _ e => ⟨hfiles, ?_⟩⟩
    exact fun q' hq' => by cases hq'
  · rintro e t ⟨hopen, hfiles⟩
    exact ⟨hopen, hfiles, fun q' hq' => by cases hq'⟩
  · exact fun _ e => ⟨rfl, fun q' hq' => by cases hq'⟩

/-- Wherever it fails, an `ack` shifts the payload of its message at most, to the archive. -/
theorem ack_shifts (hsaved : s.saved = none) (hwell : WellPublished published)
    (hknown : Known published s.data) (lease : LeaseToken) :
    Sat True (fun _ => True) s (ack schema lease)
      fun _ t => Shifted published s.files t.files := by
  refine Sat.bind ((finding_queue (P := fun q => ∃ m ∈ published, m.key = lease.messageKey ∧
    m.queue = q) hsaved ?_).weaken fun r t ht => ?_)
  · refine SatE.bind (SatE.step_selecting ?_ (fun _ => ⟨rfl, rfl⟩) fun _ => ⟨rfl, rfl⟩)
    intro q hq
    refine SatE.bind (SatE.execute_always ?_ fun _ _ => ⟨rfl, rfl⟩)
    refine SatE.bind (SatE.execute_always ?_ fun _ _ => ⟨rfl, rfl⟩)
    exact SatE.pure ⟨rfl, rfl, queueInState_known hknown hq⟩
  · obtain ⟨hfiles, hfound⟩ := ht
    rw [← hfiles]
    cases r with
    | error e => exact Sat.pure (.refl _ _)
    | ok q =>
      refine Sat.bind ((movePayload_shifts hwell (show PayloadDir.active ≠ .archive by decide)
        (hfound q rfl)).weaken fun _ u hu => Sat.pure hu.2)

/-- A `nack` shifts it to the DLQ at most. -/
theorem nack_shifts (hsaved : s.saved = none) (hwell : WellPublished published)
    (hknown : Known published s.data) (lease : LeaseToken) (reason : String) (requeue : Bool) :
    Sat True (fun _ => True) s (nack env lease reason requeue)
      fun _ t => Shifted published s.files t.files := by
  refine Sat.transaction hsaved ?_ fun _ _ => .refl _ _
  refine SatE.bind (SatE.step_selecting ?_ (fun _ => ⟨rfl, .refl _ _⟩) fun _ => ⟨rfl, .refl _ _⟩)
  intro q hq
  have hread := queueInState_known hknown hq
  cases requeue with
  | true =>
    exact SatE.execute_always ⟨rfl, .refl _ _, fun _ _ => .refl _ _⟩ fun _ _ => ⟨rfl, .refl _ _⟩
  | false =>
    refine SatE.bind (SatE.execute_always ?_ fun _ _ => ⟨rfl, .refl _ _⟩)
    refine SatE.bind (editKv_sat fun t _ => ?_)
    refine Sat.bind ((movePayload_shifts hwell (show PayloadDir.active ≠ .dlq by decide)
      hread).weaken fun _ u hu => Sat.pure ?_)
    exact ⟨hu.1, hu.2, fun _ _ => hu.2⟩

/-- `move_to_dlq` shifts it to the DLQ at most. -/
theorem moveToDlq_shifts (hsaved : s.saved = none) (hwell : WellPublished published)
    (hknown : Known published s.data) (key reason : String) :
    Sat True (fun _ => True) s (moveToDlq env key reason)
      fun _ t => Shifted published s.files t.files := by
  refine Sat.bind ((finding_queue (P := fun q => q ≠ "" → ∃ m ∈ published, m.key = key ∧
    m.queue = q) hsaved ?_).weaken fun r t ht => ?_)
  -- Whatever queue is found in the transaction, it is that of the message.
  · have hrest : ∀ q : String, (q ≠ "" → ∃ m ∈ published, m.key = key ∧ m.queue = q) →
        SatE True (fun _ => True) { s with saved := some s.data } (do
          execute id <| always <| Tables.updateIndex (fun r => r.messageKey = key)
            fun r => { r with state := .dlq, leaseUntil := none }
          orDefault (execute id (editKv key env.now (withDlqFields reason env.now))) ()
          return q : Abortable Store String)
          (fun q' t => t.saved = some s.data ∧ t.files = s.files ∧
            (q' ≠ "" → ∃ m ∈ published, m.key = key ∧ m.queue = q'))
          (fun _ t => t.saved = some s.data ∧ t.files = s.files) := by
      intro q hq
      refine SatE.bind (SatE.execute_always ?_ fun _ _ => ⟨rfl, rfl⟩)
      exact SatE.bind (editKv_sat fun t _ => SatE.pure ⟨rfl, rfl, hq⟩)
    have hnone : ("" : String) ≠ "" → ∃ m ∈ published, m.key = key ∧ m.queue = "" :=
      fun hne => absurd rfl hne
    refine SatE.bind (SatE.orDefault (SatE.step_selecting ?_ (fun _ => hrest "" hnone) fun _ =>
      hrest "" hnone))
    intro q hq
    refine hrest q fun _ => ?_
    obtain ⟨r, hr, rfl⟩ := Option.map_eq_some_iff.mp hq
    obtain ⟨m, hm, hsame, hqueue⟩ := hknown.rows r (Table.row?_mem hr)
    exact ⟨m, hm, hsame.trans (Table.row?_key hr), hqueue⟩
  -- After it the payload is moved, if a queue was found.
  · obtain ⟨hfiles, hfound⟩ := ht
    rw [← hfiles]
    cases r with
    | error e => exact Sat.pure (.refl _ _)
    | ok q =>
      dsimp only
      split
      case isTrue hne =>
        exact Sat.bind ((movePayload_shifts hwell (show PayloadDir.active ≠ .dlq by decide)
          (hfound q rfl hne)).weaken fun _ u hu => Sat.pure hu.2)
      case isFalse => exact Sat.pure (.refl _ _)

/-- `reprocess_dlq_message` shifts it back at most. -/
theorem reprocessDlqMessage_shifts (hsaved : s.saved = none) (hwell : WellPublished published)
    (hknown : Known published s.data) (key : String) :
    Sat True (fun _ => True) s (reprocessDlqMessage env key)
      fun _ t => Shifted published s.files t.files := by
  refine Sat.bind ((finding_queue (P := fun q => ∃ m ∈ published, m.key = key ∧
    m.queue = q) hsaved ?_).weaken fun r t ht => ?_)
  · refine SatE.bind (SatE.step_selecting ?_ (fun _ => ⟨rfl, rfl⟩) fun _ => ⟨rfl, rfl⟩)
    intro q hq
    refine SatE.bind (SatE.execute_always ?_ fun _ _ => ⟨rfl, rfl⟩)
    exact SatE.bind (editKv_sat fun t _ => SatE.pure ⟨rfl, rfl, queueInState_known hknown hq⟩)
  · obtain ⟨hfiles, hfound⟩ := ht
    rw [← hfiles]
    cases r with
    | error e => exact Sat.pure (.refl _ _)
    | ok q =>
      dsimp only
      split
      case isTrue =>
        exact Sat.bind ((movePayload_shifts hwell (show PayloadDir.dlq ≠ .active by decide)
          (hfound q rfl)).weaken fun _ u hu => Sat.pure hu.2)
      case isFalse => exact Sat.pure (.refl _ _)

/-- What an operation does to the files, as its call does it. -/
theorem shifts_of_sat {α : Type} {call : Call} {op : Program Store α} {answer : α → Reply}
    (hprogram : program schema env call = do return answer (← op))
    (h : Sat True (fun _ => True) s op fun _ t => Shifted published s.files t.files) :
    Shifted published s.files ((adapter schema).perform env call s).2.files := by
  have hcall : Sat True (fun _ => True) s (program schema env call)
      fun _ t => Shifted published s.files t.files := by
    rw [hprogram]
    exact Sat.bind (h.weaken fun _ _ ht => Sat.pure ht)
  exact (hcall.run (.inl trivial) trivial).1

/-- **Whatever fails, a call that publishes nothing moves the payload of one message or touches no
    file.** -/
theorem perform_shifts (hsaved : s.saved = none) (hwell : WellPublished published)
    (hknown : Known published s.data) {call : Call} (hcall : ∀ m, call ≠ .enqueue m) :
    Shifted published s.files ((adapter schema).perform env call s).2.files := by
  cases call with
  | enqueue message => exact absurd rfl (hcall message)
  | leaseNext queue c timeout =>
    exact .inl (lookup_of_leaves
      (Guards.bind (leaseNext_leaves queue c timeout) fun _ _ => Guards.done))
  | ack lease => exact shifts_of_sat rfl (ack_shifts hsaved hwell hknown lease)
  | nack lease reason requeue =>
    exact shifts_of_sat rfl (nack_shifts hsaved hwell hknown lease reason requeue)
  | extendLease lease timeout =>
    exact .inl (lookup_of_leaves
      (Guards.bind ((execute_leaves _).weaken fun _ _ => trivial) fun _ _ => Guards.done))
  | savePolicy queue policy =>
    exact .inl (lookup_of_leaves
      (Guards.bind (savePolicy_leaves queue policy) fun _ _ => Guards.done))
  | recoverExpiredLeases =>
    exact .inl (lookup_of_leaves
      (Guards.bind (updateCounting_leaves _ _ _) fun _ _ => Guards.done))
  | processDelayedMessages =>
    exact .inl (lookup_of_leaves
      (Guards.bind (updateCounting_leaves _ _ _) fun _ _ => Guards.done))
  | delayMessage key delayMs =>
    exact .inl (lookup_of_leaves
      (Guards.bind ((execute_leaves _).weaken fun _ _ => trivial) fun _ _ => Guards.done))
  | moveToDlq key reason =>
    exact shifts_of_sat rfl (moveToDlq_shifts hsaved hwell hknown key reason)
  | reprocessDlqMessage key =>
    exact shifts_of_sat rfl (reprocessDlqMessage_shifts hsaved hwell hknown key)

/-- A write that reports success has written. -/
theorem atomicWrite_writes (path : String) (content : JsonText) :
    Sat True (fun _ => True) s (atomicWrite path content) fun r t => r = .ok () →
      t.files = Files.renamed (path ++ ".tmp") path content
        (s.files.insert (path ++ ".tmp") content) := by
  refine Sat.bind (Sat.onFiles ?_ (by simp [Files.create]) fun _ _ => Sat.pure (by simp))
  rintro _ _ ⟨rfl, rfl⟩
  have hundo : ∀ {t : Store}, Sat True (fun _ => True) t
      (do
        let removed ← removeFile (path ++ ".tmp")
        return .error ("rename failed: " ++ Files.errorMessage removed) :
          Program Store (Except String Unit))
      fun r t => r = .ok () → t.files = Files.renamed (path ++ ".tmp") path content
        (s.files.insert (path ++ ".tmp") content) :=
    Sat.bind (removeFile_sat fun _ _ _ _ => Sat.pure (by simp))
  refine Sat.bind (Sat.onFiles ?_ (fun _ _ => hundo) fun _ _ => hundo)
  intro _ files hrename
  simp only [Files.rename, AList.lookup_insert, Except.ok.injEq, Prod.mk.injEq] at hrename
  obtain ⟨-, rfl⟩ := hrename
  exact Sat.pure fun _ => rfl

/-- A publication that succeeds has written the payload. -/
theorem enqueue_writes (hsaved : s.saved = none) :
    Sat True (fun _ => True) s (enqueue schema env m)
      fun reply t => reply = .status (.ok ()) → t.files = written m s.files := by
  have hfailed : ∀ {e : Option String} {t : Store},
      Reply.status (.error e) = .status (.ok ()) → t.files = written m s.files :=
    fun h => by cases h
  have hundo : ∀ (e : Option String) {t : Store}, Sat True (fun _ => True) t
      (undoEnqueue (buildPayloadPath m.queue m.messageId) e)
      fun reply t => reply = .status (.ok ()) → t.files = written m s.files := fun e t =>
    undoEnqueue_sat fun reply _ hrefusal _ hok => by
      obtain ⟨_, hcontra⟩ := (hok ▸ hrefusal : (Reply.status (.ok ())).IsRefusal)
      cases hcontra
  refine Sat.bind (Sat.onFiles ?_ (fun _ _ => Sat.pure hfailed) fun _ _ => Sat.pure hfailed)
  rintro _ _ ⟨rfl, rfl⟩
  refine Sat.bind (Sat.prim ?_ (fun _ _ => Sat.pure hfailed) fun _ _ => Sat.pure hfailed)
  intro _ t hbegun
  simp only [Conn.begun, hsaved, Option.isSome_none, Bool.false_eq_true, if_false,
    Except.ok.injEq, Prod.mk.injEq] at hbegun
  obtain ⟨-, rfl⟩ := hbegun
  refine ⟨trivial, Sat.bind ((atomicWrite_writes _ _).weaken fun r t ht => ?_)⟩
  cases r with
  | error e => exact Sat.bind (Sat.modify trivial (Sat.pure hfailed))
  | ok u =>
    have hfiles : t.files = written m s.files := ht rfl
    refine Sat.bind (Sat.weaken (@insertMessage_sat True schema env _ m) fun r t' ht' => ?_)
    cases r with
    | error e => exact hundo e
    | ok u =>
      obtain ⟨-, rfl⟩ := ht'
      refine Sat.bind (Sat.prim ?_ (fun e _ => hundo (some e)) fun _ e => hundo (some e))
      intro _ u hcommitted
      unfold Conn.committed at hcommitted
      split at hcommitted
      case isTrue =>
        simp only [Except.ok.injEq, Prod.mk.injEq] at hcommitted
        obtain ⟨-, rfl⟩ := hcommitted
        exact ⟨trivial, Sat.pure fun _ => hfiles⟩
      case isFalse => cases hcommitted

/-! ### Payloads in place -/

/-- The payload of a message is in this directory, and in no other. -/
def InPlace (m : MessageEnvelope) (files : Payloads) (dir : PayloadDir) : Prop :=
  ∀ dir', files.lookup (payloadPath dir' m.queue m.messageId) =
    if dir' = dir then some (some (payloadJson m)) else none

/-- A payload stays in place while its paths keep their files. -/
theorem InPlace.same {dir : PayloadDir} (h : InPlace m files dir)
    (hsame : ∀ dir', files'.lookup (payloadPath dir' m.queue m.messageId) =
      files.lookup (payloadPath dir' m.queue m.messageId)) : InPlace m files' dir :=
  fun dir' => (hsame dir').trans (h dir')

/-- Moving a payload leaves every payload in one place. -/
theorem InPlace.shifted (hwell : WellPublished published) (hm : m ∈ published) {dir : PayloadDir}
    (h : InPlace m files dir) (hshifted : Shifted published files files') :
    ∃ dir', InPlace m files' dir' := by
  have hid : '/' ∉ m.messageId.toList := not_slash_of_guid (hwell.formed m hm).2
  rcases hshifted with hsame | ⟨m', hm', src, dest, hne, hmoved⟩
  · exact ⟨dir, h.same fun dir' => hsame _⟩
  · unfold moved at hmoved
    cases hsrc : files.lookup (payloadPath src m'.queue m'.messageId) with
    | none =>
      rw [hsrc] at hmoved
      exact ⟨dir, h.same fun dir' => hmoved _⟩
    | some text =>
      rw [hsrc] at hmoved
      by_cases hother : m' = m
      · subst hother
        -- the file that is moved is the one there is
        rw [h src] at hsrc
        split at hsrc
        case isFalse => cases hsrc
        case isTrue hdir =>
          subst hdir
          obtain rfl := Option.some.inj hsrc
          refine ⟨dest, fun dir' => ?_⟩
          rw [hmoved, Files.lookup_renamed]
          by_cases hdest : dir' = dest
          · rw [hdest, if_pos rfl, if_pos rfl]
          · rw [if_neg (payloadPath_ne_dir hid hdest), if_neg hdest]
            by_cases hback : dir' = src
            · rw [hback, if_pos rfl]
            · rw [if_neg (payloadPath_ne_dir hid hback), h dir', if_neg hback]
      · refine ⟨dir, h.same fun dir' => ?_⟩
        have hapart : ∀ dir'', payloadPath dir' m.queue m.messageId ≠
            payloadPath dir'' m'.queue m'.messageId :=
          fun dir'' => payloadPath_ne hwell hm' hm (Ne.symm hother) dir'' dir'
        rw [hmoved, Files.lookup_renamed, if_neg (hapart dest), if_neg (hapart src)]

/-- Writing the payload of a new message. -/
theorem inPlace_written (hid : '/' ∉ m.messageId.toList)
    (hnone : ∀ dir, files.lookup (payloadPath dir m.queue m.messageId) = none) :
    InPlace m (written m files) .active := by
  intro dir'
  rw [lookup_written, if_neg (payloadPath_ne_temp _ _ _ _)]
  by_cases hactive : dir' = .active
  · rw [hactive, if_pos rfl, if_pos rfl]
  · rw [if_neg (payloadPath_ne_dir hid hactive), hnone, if_neg hactive]

/-! ### What survives -/

variable {h : History Store CutCall (Option Reply)}

/-- A run that may be stopped anywhere is one the life cycle admits. -/
theorem admitsStop_of_stoppable (run : Run (crashing schema) Stoppable h s) :
    Run (crashing schema) ((lifecycle schema).AdmitsStop CutCall.call) h s :=
  run.mono fun _ _ _ _ ok => ⟨ok.plain, ok.fresh⟩

/-- What a call with failing primitives leaves of a payload that is in place, and of the payload it
    publishes. -/
theorem inPlace_perform (hsurvived : Survived published s) {call : Call}
    (hfresh : call.Fresh published) (hplain : call.Plain)
    (hm : m ∈ call.publishing published)
    (hthere : call = .enqueue m ∧ ((adapter schema).perform env call s).2.data.row? m.key ≠ none ∨
      m ∈ published ∧ ∃ dir, InPlace m s.files dir) :
    ∃ dir, InPlace m ((adapter schema).perform env call s).2.files dir := by
  have hwell : WellPublished (call.publishing published) := hsurvived.well.publishing hfresh
  have hid : '/' ∉ m.messageId.toList := not_slash_of_guid (hwell.formed m hm).2
  rcases hthere with ⟨rfl, hrow⟩ | ⟨hold, dir, hplace⟩
  · -- the row is there, so the publication has succeeded
    have hperforms := (@perform_performs True schema env s hsurvived.keeps.saved (.inl trivial)
      (.enqueue m)).2
    have hreply : ((adapter schema).perform env (.enqueue m) s).1 = .status (.ok ()) := by
      rcases hperforms with ⟨-, hsame, -⟩ | heffect
      · rw [hsame] at hrow
        obtain ⟨r, hr⟩ := Option.ne_none_iff_exists'.mp hrow
        obtain ⟨m', hm', hkey, -⟩ := hsurvived.known.rows r (Table.row?_mem hr)
        have hsame' : m'.key = m.key := hkey.trans (Table.row?_key hr)
        exact absurd hfresh (hsurvived.well.not_fresh (hsame' ▸ List.mem_map_of_mem hm'))
      · exact heffect.1
    have hwrites : Sat True (fun _ => True) s (enqueue schema env m)
        fun reply t => reply = .status (.ok ()) → t.files = written m s.files :=
      enqueue_writes hsurvived.keeps.saved
    have hfiles : ((adapter schema).perform env (.enqueue m) s).2.files = written m s.files :=
      (hwrites.run (.inl trivial) trivial).1 hreply
    rw [hfiles]
    exact ⟨.active, inPlace_written hid (hsurvived.filed.fresh hsurvived.well hfresh)⟩
  · by_cases hcall : ∃ message, call = .enqueue message
    · obtain ⟨message, rfl⟩ := hcall
      have hleaves : Guards (Leaves (PathOf message) s) (program schema env (.enqueue message))
          fun _ => True := enqueue_leaves message
      refine ⟨dir, hplace.same fun dir' => ?_⟩
      refine (hleaves.run (Leaves.refl _ s) env.faults).1.files _ fun hpath => ?_
      -- the path of a published message is not one of the new message
      rcases hpath with ⟨dir'', heq⟩ | heq
      · exact PathOf.not_fresh hsurvived.well hold (.inl ⟨dir', heq.symm⟩) hfresh
      · exact payloadPath_ne_temp _ _ _ _ heq
    · exact hplace.shifted hsurvived.well hold
        (perform_shifts hsurvived.keeps.saved hsurvived.well hsurvived.known
          fun message heq => hcall ⟨message, heq⟩)

/-- **In every run with stops, a message that has a row or whose publication was answered has its
    payload in one directory.** -/
theorem payload_inPlace (run : Run (crashing schema) Stoppable h s) (hm : m ∈ given h)
    (hthere : s.data.row? m.key ≠ none ∨ Answered CutCall.call h m) :
    ∃ dir, InPlace m s.files dir := by
  induction run with
  | start => cases hm
  | @step h s i run ok ih =>
    have hsurvived := survived_of_run run
    have hcut := crashing_cutMachine schema
    obtain ⟨env, -, hafter, -⟩ := hcut.step i hsurvived.keeps
    show ∃ dir, InPlace m ((crashing schema).step s i).2.files dir
    have hnew : i.call = .enqueue m → m ∉ given h := by
      intro hcall hold
      have hfresh := ok.fresh
      rw [hcall] at hfresh
      exact hsurvived.well.not_fresh (List.mem_map_of_mem hold) hfresh
    -- an answered publication of this step has a row
    have hrow : i.call = .enqueue m → ((crashing schema).step s i).2.data.row? m.key ≠ none := by
      intro hcall
      rcases hthere with hrow | ⟨r, hr, hcall', hout⟩
      · exact hrow
      · rcases List.mem_cons.mp hr with rfl | hr
        · exact mt slot_eq_none.mpr
            (hcut.there_of_answered hsurvived.keeps ok.plain ok.fresh hcall hout)
        · exact absurd (CutMachine.mem_givenBy hr hcall') (hnew hcall)
    rw [hafter] at hrow ⊢
    refine inPlace_perform hsurvived ok.fresh ok.plain hm ?_
    by_cases hcall : i.call = .enqueue m
    · exact .inl ⟨hcall, hrow hcall⟩
    · have hold : m ∈ given h := by
        have hm' : m ∈ i.call.publishing (given h) := hm
        generalize i.call = call at hcall hm'
        cases call with
        | enqueue message =>
          rcases List.mem_cons.mp hm' with rfl | hold
          · exact absurd rfl hcall
          · exact hold
        | _ => exact hm'
      refine .inr ⟨hold, ih hold ?_⟩
      rcases hthere with hrow | ⟨r, hr, hcall', hout⟩
      · by_contra hnot
        push Not at hnot
        exact hrow (row_gone hsurvived ok.plain ok.fresh (List.mem_map_of_mem hold) hnot.1)
      · rcases List.mem_cons.mp hr with rfl | hr
        · exact absurd hcall' hcall
        · exact .inr ⟨r, hr, hcall', hout⟩

/-- **An answered publication survives every stop.**  In every run with failing primitives and
    stops, a message whose publication was answered with success has its payload in one directory;
    and it is in the tables, with the envelope that was published, until an acknowledgement takes it
    away for good. -/
theorem payload_survives (run : Run (crashing schema) Stoppable h s)
    (hanswered : Answered CutCall.call h m) :
    (∃ dir, InPlace m s.files dir) ∧
    ((AckCommitted h m.key ∧ s.data.row? m.key = none) ∨
      (¬AckCommitted h m.key ∧ ∃ row value, s.data.row? m.key = some row ∧
        s.data.value? m.key = some value ∧ row.queue = m.queue ∧
        row.targetConsumerId = m.targetConsumerId ∧ leasedEnvelope row value =
          some { m with payloadJson := "", attributesJson := "", attempt := row.attempt + 1
                        availableAtMs := 0, targetConsumerId := "" })) := by
  have hcut := crashing_cutMachine schema
  have hstops := admitsStop_of_stoppable run
  have hsurvived := survived_of_run run
  obtain ⟨r, hr, hcall, hout⟩ := hanswered
  have hm : m ∈ given h := CutMachine.mem_givenBy hr hcall
  have hanswered : Answered CutCall.call h m := ⟨r, hr, hcall, hout⟩
  -- On this adapter a key is taken exactly by an acknowledgement that was committed.
  have htaken : (lifecycle schema).Taken CutCall.call h m.key ↔ AckCommitted h m.key := by
    constructor
    · rintro ⟨r, hr, lease, hcall, hkey, hbefore, hafter⟩
      exact ⟨r, hr, lease, hcall, hkey, mt slot_eq_none.mpr hbefore, slot_eq_none.mp hafter⟩
    · rintro ⟨r, hr, lease, hcall, hkey, hbefore, hafter⟩
      exact ⟨r, hr, lease, hcall, hkey, mt slot_eq_none.mp hbefore, slot_eq_none.mpr hafter⟩
  refine ⟨payload_inPlace run hm (.inr hanswered), ?_⟩
  by_cases hacked : AckCommitted h m.key
  · exact .inl ⟨hacked, (acked_gone run hacked).1⟩
  -- No recovery takes a row away, whatever stops it.
  · have hrecovers : ∀ r ∈ h, r.input.call = .recoverExpiredLeases →
        (lifecycle schema).slot r.before m.key ≠ none →
        (lifecycle schema).slot r.after m.key ≠ none := by
      intro r hr hcall hbefore
      obtain ⟨older, run', -, hstep⟩ := hstops.allowed_of_mem r hr
      have hinv := (hcut.inv_of_stops run').1
      obtain ⟨env, -, hafter, -⟩ := hcut.step r.input hinv
      rw [hstep]
      show Tables.slot ((crashing schema).step r.before r.input).2.data m.key ≠ none
      rw [hafter, hcall]
      exact slot_recovered hinv.saved hbefore
    -- So the row of an unacknowledged message is there, with the value that was published.
    have hthere := (hcut.durable hstops hrecovers hanswered).mpr (mt htaken.mp hacked)
    obtain ⟨row, hrow⟩ := Option.ne_none_iff_exists'.mp (mt slot_eq_none.mpr hthere)
    obtain ⟨j, hj, hcarries⟩ := hsurvived.content row (Table.row?_mem hrow)
    obtain ⟨m', hm', hdescribes, henvelope⟩ := hcarries.leasedEnvelope
    have hkey : row.messageKey = m.key := Table.row?_key hrow
    obtain rfl : m' = m := hsurvived.well.eq_of_key hm' hm (hdescribes.key.symm.trans hkey)
    rw [hkey] at hj
    exact .inr ⟨hacked, row, some j, hrow, hj, hdescribes.queue, hdescribes.target, henvelope⟩

/-- A message that is published and leased, and whose acknowledgement is stopped after its commit
    and before it moves the payload. -/
theorem payload_survives_ack :
    let env : Env := ⟨1, Int.one_pos, "", []⟩
    let M := crashing .mainMq
    let published := M.stepAt M.start ⟨env, .enqueue letter, none⟩
    let leased := M.stepAt published.after ⟨env, .leaseNext "q" "c" 30, none⟩
    let stopped := M.stepAt leased.after ⟨env, .ack ⟨"", "msg:q:a", "c", 30001⟩, some 5⟩
    let h := [stopped, leased, published]
    Answered CutCall.call h letter ∧ (∃ dir, InPlace letter stopped.after.files dir) ∧
      ((AckCommitted h letter.key ∧ stopped.after.data.row? letter.key = none) ∨
        (¬AckCommitted h letter.key ∧ ∃ row value, stopped.after.data.row? letter.key = some row ∧
          stopped.after.data.value? letter.key = some value ∧ row.queue = letter.queue ∧
          row.targetConsumerId = letter.targetConsumerId ∧ leasedEnvelope row value =
            some { letter with payloadJson := "", attributesJson := "", attempt := row.attempt + 1
                               availableAtMs := 0, targetConsumerId := "" })) := by
  intro env M published leased stopped h
  have hnames : ∀ m ∈ [letter], m.messageId ≠ "" ∧ IsName m.queue :=
    List.forall_mem_singleton.mpr (by decide)
  have run : Run M Stoppable [published] published.after :=
    Run.start.stepAt _ (Stoppable.of_names (by decide) (by decide) hnames)
  have run : Run M Stoppable [leased, published] leased.after :=
    run.stepAt _ (Stoppable.of_names (by decide) trivial hnames)
  have run : Run M Stoppable h stopped.after :=
    run.stepAt _ (Stoppable.of_names (by decide) trivial hnames)
  have hanswered : Answered CutCall.call h letter :=
    ⟨published, by simp [h], rfl, congrArg some (Reply.succeeded_iff.mp (by decide +kernel))⟩
  exact ⟨hanswered, payload_survives run hanswered⟩

end YirangMQ.Hybrid

import YirangMQ.Hybrid.Confinement
import YirangMQ.Hybrid.Fidelity
import YirangMQ.Hybrid.Repair

namespace YirangMQ.Hybrid

open Program Abortable

/-!
# Where payload files are while nothing fails

The state of a row says in which directory `lease_next` and `check_consistency` look for its
payload, but each operation moves the file by code of its own.

* `filesAfter`, `perform_files` — what every call makes of the files when nothing fails;
* `home` — the directory in which the payload of a key belongs;
* `Housed` — every file is where its row says, and there is no other;
* `Spares` — the call does not bring a dead row back without its file;
* `Apart` — queue strings that lead to directories of their own;
* `Checkable` — the queue strings a check is asked for;
* `WellPlaced`, `payloads_placed` — **runs of such calls keep rows and payloads together**;
* `delayed_dead` — a delay of a dead message, after which its payload is not found.
-/

variable {schema : SchemaFile} {env : Env} {s : Store} {t t' : Tables} {files files' : Payloads}
  {published : List MessageEnvelope} {m : MessageEnvelope} {key path : String}

/-! ### Files -/

/-- The files after one has been renamed, if it is there. -/
def moved (src dest : String) (files : Payloads) : Payloads :=
  match files.lookup src with
  | none => files
  | some text => Files.renamed src dest text files

/-- The files after the payload of a key has been moved within its queue, if that is known. -/
def relocated (queue : Option String) (src dest : PayloadDir) (key : String) (files : Payloads) :
    Payloads :=
  match queue with
  | none => files
  | some queue =>
    let messageId := extractMessageIdFromKey key
    moved (payloadPath src queue messageId) (payloadPath dest queue messageId) files

/-- The files after the payload of a message has been written. -/
def written (message : MessageEnvelope) (files : Payloads) : Payloads :=
  let path := buildPayloadPath message.queue message.messageId
  let text := some (payloadJson message)
  Files.renamed (path ++ ".tmp") path text (files.insert (path ++ ".tmp") text)

/-- The files after a call in which nothing fails. -/
def filesAfter (call : Call) (t : Tables) (files : Payloads) : Payloads :=
  match call with
  | .enqueue message => written message files
  | .ack lease =>
    let queue := queueInState lease.messageKey .inflight t
    relocated queue .active .archive lease.messageKey files
  | .nack lease _ false =>
    let queue := queueInState lease.messageKey .inflight t
    relocated queue .active .dlq lease.messageKey files
  | .moveToDlq key _ =>
    -- a row without a queue string keeps its file where it is
    let queue := ((t.row? key).map IndexRow.queue).filter (· ≠ "")
    relocated queue .active .dlq key files
  | .reprocessDlqMessage key =>
    let queue := (queueInState key .dlq t).filter (· ≠ "")
    relocated queue .dlq .active key files
  | _ => files

/-- Moving a payload does just that, when nothing fails. -/
theorem movePayload_moves (src dest : String) :
    Sat False (fun _ => True) s (movePayload src dest)
      fun _ t => t = { s with files := moved src dest s.files } := by
  refine Sat.bind (Sat.onFiles ?_ ?_ False.elim)
  · intro a files hrename
    apply Sat.pure
    unfold Files.rename at hrename
    unfold moved
    split at hrename
    case h_1 => cases hrename
    case h_2 text htext =>
      simp only [Except.ok.injEq, Prod.mk.injEq] at hrename
      rw [htext, ← hrename.2]
  · intro text hrename
    apply Sat.pure
    unfold Files.rename at hrename
    unfold moved
    split at hrename
    case h_1 hnone => rw [hnone]
    case h_2 => cases hrename

/-- A transaction that finds a queue and moves no file. -/
theorem finding_files (queue : Option String) {body : Abortable Store String}
    (hsaved : s.saved = none)
    (hbody : SatE False (fun _ => True) { s with saved := some s.data } body
      (fun q t => t.saved = some s.data ∧ t.files = s.files ∧ queue = some q)
      (fun _ t => t.saved = some s.data ∧ t.files = s.files ∧ queue = none)) :
    Sat False (fun _ => True) s (transaction body)
      fun r t => t.files = s.files ∧ r.toOption = queue := by
  refine Sat.transaction hsaved (hbody.weaken ?_ ?_) False.elim
  · rintro q t ⟨hopen, hfiles, hqueue⟩
    exact ⟨hopen, ⟨hfiles, hqueue.symm⟩, False.elim⟩
  · rintro e t ⟨hopen, hfiles, hqueue⟩
    exact ⟨hopen, hfiles, hqueue.symm⟩

/-- Editing a value moves no file. -/
theorem editKv_keeps {time : Int} {edit : Json String → Json String} {Q : Unit → Store → Prop}
    {E : Option String → Store → Prop} (h : ∀ t : Tables, Q () { s with data := t }) :
    SatE False (fun _ => True) s (orDefault (execute id (editKv key time edit)) ()) Q E :=
  editKv_sat fun t _ => h t

/-- Enqueueing a message that is not refused writes its payload file. -/
theorem enqueue_files (hsaved : s.saved = none)
    (hnew : ¬Refuses schema env (.enqueue m) s.data) :
    Sat False (fun _ => True) s (enqueue schema env m)
      fun _ t => t.files = written m s.files := by
  refine Sat.bind (Sat.onFiles ?_ (by simp) False.elim)
  rintro _ _ ⟨rfl, rfl⟩
  refine Sat.bind (Sat.prim ?_ ?_ False.elim)
  · intro _ t hbegun
    simp only [Conn.begun, hsaved, Option.isSome_none, Bool.false_eq_true, if_false,
      Except.ok.injEq, Prod.mk.injEq] at hbegun
    obtain ⟨-, rfl⟩ := hbegun
    refine ⟨trivial, Sat.bind (Sat.bind (Sat.onFiles ?_ (by simp [Files.create]) False.elim))⟩
    rintro _ _ ⟨rfl, rfl⟩
    refine Sat.bind (Sat.onFiles ?_ ?_ False.elim)
    · intro _ files hrename
      simp only [Files.rename, AList.lookup_insert, Except.ok.injEq, Prod.mk.injEq] at hrename
      obtain ⟨-, rfl⟩ := hrename
      refine Sat.pure (Sat.bind (Sat.weaken (insertMessage_sat m) fun r t ht => ?_))
      cases r with
      | error e => exact absurd (ht.2.2.resolve_left False.elim) hnew
      | ok u =>
        obtain ⟨-, rfl⟩ := ht
        refine Sat.bind (Sat.prim ?_ (by simp [Conn.committed]) False.elim)
        intro _ t hcommitted
        simp only [Conn.committed, Option.isSome_some, if_true, Except.ok.injEq,
          Prod.mk.injEq] at hcommitted
        obtain ⟨-, rfl⟩ := hcommitted
        exact ⟨trivial, Sat.pure rfl⟩
    · intro text hrename
      simp [Files.rename, AList.lookup_insert] at hrename
  · intro text hbegun
    simp [Conn.begun, hsaved] at hbegun

/-- The query for a key in a state. -/
theorem queueInState_finds {state : MessageState} {error : Option String}
    {Q : String → Store → Prop} {E : Option String → Store → Prop}
    (hsome : ∀ queue, queueInState key state s.data = some queue → Q queue s)
    (hnone : queueInState key state s.data = none → E error s) :
    SatE False (fun _ => True) s (query error (queueInState key state)) Q E :=
  SatE.step_selecting hsome hnone False.elim

/-- Acknowledging moves the payload of the row to the archive. -/
theorem ack_files (hsaved : s.saved = none) (lease : LeaseToken) :
    Sat False (fun _ => True) s (ack schema lease)
      fun _ t => t.files = filesAfter (.ack lease) s.data s.files := by
  let queue := queueInState lease.messageKey .inflight s.data
  show Sat _ _ _ _ fun _ (t : Store) =>
    t.files = relocated queue .active .archive lease.messageKey s.files
  refine Sat.bind ((finding_files queue hsaved ?_).weaken fun r t ht => ?_)
  · refine SatE.bind (queueInState_finds ?_ fun hnone => ⟨rfl, rfl, hnone⟩)
    intro q hq
    refine SatE.bind (SatE.execute_always ?_ False.elim)
    refine SatE.bind (SatE.execute_always ?_ False.elim)
    exact SatE.pure ⟨rfl, rfl, hq⟩
  · obtain ⟨hfiles, hqueue⟩ := ht
    rw [← hqueue, ← hfiles]
    cases r with
    | error e => exact Sat.pure rfl
    | ok q => exact Sat.bind ((movePayload_moves _ _).weaken fun _ _ hmoved => Sat.pure (hmoved ▸ rfl))

/-- A nack without another delivery moves it to the DLQ. -/
theorem nack_files (hsaved : s.saved = none) (lease : LeaseToken) (reason : String)
    (requeue : Bool) :
    Sat False (fun _ => True) s (nack env lease reason requeue)
      fun _ t => t.files = filesAfter (.nack lease reason requeue) s.data s.files := by
  cases requeue with
  | true =>
    refine Sat.transaction hsaved ?_ False.elim
    refine SatE.bind (queueInState_finds ?_ fun _ => ⟨rfl, rfl⟩)
    intro q hq
    exact SatE.execute_always ⟨rfl, rfl, False.elim⟩ False.elim
  | false =>
    refine Sat.transaction hsaved ?_ False.elim
    show SatE _ _ _ _ (fun _ (t : Store) => _ ∧ t.files =
      relocated (queueInState lease.messageKey .inflight s.data) .active .dlq lease.messageKey
        s.files ∧ _) (fun _ (t : Store) => _ ∧ t.files =
      relocated (queueInState lease.messageKey .inflight s.data) .active .dlq lease.messageKey
        s.files)
    refine SatE.bind (queueInState_finds ?_ ?_)
    · intro q hq
      rw [show queueInState lease.messageKey .inflight s.data = some q from hq]
      refine SatE.bind (SatE.execute_always ?_ False.elim)
      refine SatE.bind (editKv_keeps fun t => ?_)
      refine Sat.bind ((movePayload_moves _ _).weaken fun _ u hmoved => Sat.pure ?_)
      exact ⟨hmoved ▸ rfl, hmoved ▸ rfl, False.elim⟩
    · intro hnone
      rw [show queueInState lease.messageKey .inflight s.data = none from hnone]
      exact ⟨rfl, rfl⟩

/-- Moving to the DLQ moves it to the DLQ. -/
theorem moveToDlq_files (hsaved : s.saved = none) (key reason : String) :
    Sat False (fun _ => True) s (moveToDlq env key reason)
      fun _ t => t.files = filesAfter (.moveToDlq key reason) s.data s.files := by
  let queue := (s.data.row? key).map IndexRow.queue
  show Sat _ _ _ _ fun _ (t : Store) =>
    t.files = relocated (queue.filter (· ≠ "")) .active .dlq key s.files
  -- the transaction goes on with an empty queue where there is no row
  refine Sat.bind ((finding_files (some (queue.getD "")) hsaved ?_).weaken fun r t ht => ?_)
  · have hrest : ∀ q : String, SatE False (fun _ => True) { s with saved := some s.data } (do
        execute id <| always <| Tables.updateIndex (fun r => r.messageKey = key)
          fun r => { r with state := .dlq, leaseUntil := none }
        orDefault (execute id (editKv key env.now (withDlqFields reason env.now))) ()
        return q : Abortable Store String)
        (fun q' t => t.saved = some s.data ∧ t.files = s.files ∧ some q = some q')
        (fun _ t => t.saved = some s.data ∧ t.files = s.files ∧ some q = none) := by
      intro q
      refine SatE.bind (SatE.execute_always ?_ False.elim)
      exact SatE.bind (editKv_keeps fun t => SatE.pure ⟨rfl, rfl, rfl⟩)
    refine SatE.bind (SatE.orDefault (SatE.step_selecting ?_ ?_ False.elim))
    · intro q hq
      rw [show queue = some q from hq]
      exact hrest q
    · intro hnone
      rw [show queue = none from hnone]
      exact hrest ""
  · obtain ⟨hfiles, hqueue⟩ := ht
    cases r with
    | error e => cases hqueue
    | ok q =>
      have hq : q = queue.getD "" := Option.some.inj hqueue
      dsimp only
      split
      case isTrue hne =>
        have hsome : queue.filter (· ≠ "") = some q := by
          cases hrow : queue with
          | none => exact absurd (hq.trans (by rw [hrow]; rfl)) hne
          | some q' =>
            obtain rfl : q = q' := by rw [hq, hrow]; rfl
            rw [Option.filter_some, if_pos (decide_eq_true hne)]
        rw [hsome, ← hfiles]
        exact Sat.bind ((movePayload_moves _ _).weaken fun _ _ hmoved =>
          Sat.pure (hmoved ▸ rfl))
      case isFalse hempty =>
        have hnone : queue.filter (· ≠ "") = none := by
          cases hrow : queue with
          | none => rfl
          | some q' =>
            obtain rfl : q = q' := by rw [hq, hrow]; rfl
            rw [Option.filter_some, if_neg (by simpa using hempty)]
        rw [hnone]
        exact Sat.pure hfiles

/-- Reprocessing moves it back. -/
theorem reprocessDlqMessage_files (hsaved : s.saved = none) (key : String) :
    Sat False (fun _ => True) s (reprocessDlqMessage env key)
      fun _ t => t.files = filesAfter (.reprocessDlqMessage key) s.data s.files := by
  let queue := queueInState key .dlq s.data
  show Sat _ _ _ _ fun _ (t : Store) =>
    t.files = relocated (queue.filter (· ≠ "")) .dlq .active key s.files
  refine Sat.bind ((finding_files queue hsaved ?_).weaken fun r t ht => ?_)
  · refine SatE.bind (queueInState_finds ?_ fun hnone => ⟨rfl, rfl, hnone⟩)
    intro q hq
    refine SatE.bind (SatE.execute_always ?_ False.elim)
    exact SatE.bind (editKv_keeps fun t => SatE.pure ⟨rfl, rfl, hq⟩)
  · obtain ⟨hfiles, hqueue⟩ := ht
    rw [← hqueue]
    cases r with
    | error e => exact Sat.pure hfiles
    | ok q =>
      dsimp only
      split
      case isTrue hne =>
        rw [show (Except.toOption (.ok q : Except (Option String) String)).filter (· ≠ "") = some q
          from if_pos (decide_eq_true hne), ← hfiles]
        exact Sat.bind ((movePayload_moves _ _).weaken fun _ _ hmoved =>
          Sat.pure (hmoved ▸ rfl))
      case isFalse hempty =>
        rw [show (Except.toOption (.ok q : Except (Option String) String)).filter (· ≠ "") = none
          from if_neg (mt of_decide_eq_true hempty)]
        exact Sat.pure hfiles

/-- A sweep touches no payload file. -/
theorem updateCounting_leaves (P : String → Prop) (p : IndexRow → Bool)
    (f : IndexRow → IndexRow) :
    Guards (Leaves P s) (updateCounting p f) fun _ => True := by
  refine Guards.bind (Guards.prim (Q := fun _ => True) ?_) fun r _ => ?_
  · rintro s a t hs ⟨rfl, rfl⟩
    exact ⟨hs, trivial⟩
  · split
    · exact Guards.done
    · exact Guards.done
    · refine Guards.bind (execute_leaves _) fun r _ => ?_
      cases r with
      | error e => exact Guards.done
      | ok u => exact Guards.done

/-- A call that moves no file. -/
theorem lookup_of_leaves {call : Call}
    (h : Guards (Leaves (fun _ => False) s) (program schema env call) fun _ => True)
    (path : String) :
    ((adapter schema).perform env call s).2.files.lookup path = s.files.lookup path :=
  (h.run (Leaves.refl _ s) env.faults).1.files path id

/-- What an operation does to the files when nothing fails, as its call does it. -/
theorem files_of_sat {α : Type} {call : Call} {op : Program Store α} {answer : α → Reply}
    (hcalm : env.faults = [])
    (hprogram : program schema env call = do return answer (← op))
    (h : Sat False (fun _ => True) s op fun _ t => t.files = files) :
    ((adapter schema).perform env call s).2.files = files := by
  have hcall : Sat False (fun _ => True) s (program schema env call) fun _ t => t.files = files := by
    rw [hprogram]
    exact Sat.bind (h.weaken fun _ _ ht => Sat.pure ht)
  exact (hcall.run (.inr hcalm) trivial).1

/-- **What every call makes of the files when nothing fails.** -/
theorem perform_files (hsaved : s.saved = none) (hcalm : env.faults = []) {call : Call}
    (hnew : ∀ m, call = .enqueue m → ¬Refuses schema env call s.data) (path : String) :
    ((adapter schema).perform env call s).2.files.lookup path =
      (filesAfter call s.data s.files).lookup path := by
  cases call with
  | enqueue m =>
    exact congrArg (AList.lookup path)
      ((enqueue_files hsaved (hnew m rfl)).run (.inr hcalm) trivial).1
  | leaseNext queue c timeout =>
    exact lookup_of_leaves
      (Guards.bind (leaseNext_leaves queue c timeout) fun _ _ => Guards.done) path
  | ack lease =>
    exact congrArg (AList.lookup path) (files_of_sat hcalm rfl (ack_files hsaved lease))
  | nack lease reason requeue =>
    have hfiles : Sat False (fun _ => True) s (nack env lease reason requeue) _ :=
      nack_files hsaved lease reason requeue
    exact congrArg (AList.lookup path) (@files_of_sat schema env s _ _ _ _ _ hcalm rfl hfiles)
  | extendLease lease timeout =>
    exact lookup_of_leaves
      (Guards.bind ((execute_leaves _).weaken fun _ _ => trivial) fun _ _ => Guards.done) path
  | savePolicy queue policy =>
    exact lookup_of_leaves
      (Guards.bind (savePolicy_leaves queue policy) fun _ _ => Guards.done) path
  | recoverExpiredLeases =>
    exact lookup_of_leaves
      (Guards.bind (updateCounting_leaves _ _ _) fun _ _ => Guards.done) path
  | processDelayedMessages =>
    exact lookup_of_leaves
      (Guards.bind (updateCounting_leaves _ _ _) fun _ _ => Guards.done) path
  | delayMessage key delayMs =>
    exact lookup_of_leaves
      (Guards.bind ((execute_leaves _).weaken fun _ _ => trivial) fun _ _ => Guards.done) path
  | moveToDlq key reason =>
    exact congrArg (AList.lookup path) (files_of_sat hcalm rfl (moveToDlq_files hsaved key reason))
  | reprocessDlqMessage key =>
    exact congrArg (AList.lookup path)
      (files_of_sat hcalm rfl (reprocessDlqMessage_files hsaved key))

/-! ### What a lease reads -/

/-- What reading the payload of an envelope gives when nothing fails. -/
def payloadOf (files : Payloads) (envelope : MessageEnvelope) : Except String JsonText :=
  (Files.read (buildPayloadPath envelope.queue envelope.messageId) files).map Prod.fst

/-- What is read of a message is its envelope with the payload that lies there. -/
theorem readMessage_reads (row : IndexRow) (value : JsonText) :
    Sat False (fun _ => True) s (readMessage row value) fun r _ =>
      r = (leasedEnvelope row value).bind fun e => withPayload e (payloadOf s.files e) := by
  unfold readMessage
  cases henvelope : leasedEnvelope row value with
  | none => exact Sat.pure rfl
  | some envelope =>
    refine Sat.bind (Sat.onFiles ?_ ?_ False.elim)
    · intro text files hread
      apply Sat.pure
      show _ = withPayload envelope (payloadOf s.files envelope)
      rw [payloadOf, hread]
      rfl
    · intro text hread
      apply Sat.pure
      show _ = withPayload envelope (payloadOf s.files envelope)
      rw [payloadOf, hread]
      rfl

/-- A message that is leased is read from a ready row, its value, and its payload file. -/
theorem leaseNext_reads (hsaved : s.saved = none) (hcalm : env.faults = []) {queue c : String}
    {timeout : Int}
    (hleased : ((adapter schema).perform env (.leaseNext queue c timeout) s).1.failed = false) :
    ∃ row value given token, s.data.readyRow? schema queue c env.now = some row ∧
      s.data.value? row.messageKey = some value ∧
      ((adapter schema).perform env (.leaseNext queue c timeout) s).1.granted =
        some (given, token) ∧
      ((leasedEnvelope row value).bind fun e => withPayload e (payloadOf s.files e)) =
        some given := by
  have hprogram : Sat False (fun _ => True) s (program schema env (.leaseNext queue c timeout))
      fun reply _ => reply.failed = false →
        ∃ row value given token, s.data.readyRow? schema queue c env.now = some row ∧
          s.data.value? row.messageKey = some value ∧ reply.granted = some (given, token) ∧
          ((leasedEnvelope row value).bind fun e => withPayload e (payloadOf s.files e)) =
            some given := by
    refine Sat.bind (Sat.bind ((leaseRow_sat hsaved queue c _ _).weaken fun r t ht => ?_))
    obtain ⟨-, hfiles, ht⟩ := ht
    rcases r with e | ⟨row, value⟩
    · exact Sat.pure (Sat.pure fun hleased => by cases hleased)
    · obtain ⟨hrow, hvalue, -⟩ := ht
      refine Sat.bind ((readMessage_reads row value).weaken fun message u hread => ?_)
      rw [hfiles] at hread
      cases message with
      | none => exact Sat.pure (Sat.pure fun hleased => by cases hleased)
      | some given =>
        exact Sat.pure (Sat.pure fun _ => ⟨row, value, given, _, hrow, hvalue, rfl, hread.symm⟩)
  exact (hprogram.run (.inr hcalm) trivial).1 hleased

/-! ### Homes -/

/-- The directory of the payload of a row in a state. -/
def homeOf : MessageState → Option PayloadDir
  | .ready | .inflight | .delayed => some .active
  | .dlq => some .dlq
  | .archived => none

/-- The directory in which the payload of a key belongs. -/
def home (t : Tables) (key : String) : Option PayloadDir := (t.row? key).bind (homeOf ·.state)

/-- A directory is the home of the states it stands for. -/
theorem homeOf_iff {state : MessageState} {dir : PayloadDir} :
    homeOf state = some dir ↔ state ∈ statesOf dir := by
  cases state <;> cases dir <;> decide

/-- The home of a key is that of its row's state. -/
theorem home_of_row {r : IndexRow} (hrow : t.row? key = some r) : home t key = homeOf r.state := by
  rw [home, hrow, Option.bind_some]

/-- The home of a key after an update that keeps keys. -/
theorem home_updateIndex {p : IndexRow → Bool} {f : IndexRow → IndexRow}
    (hkey : ∀ r, (f r).messageKey = r.messageKey) :
    home (t.updateIndex p f) key =
      (t.row? key).bind fun r => homeOf (if p r then f r else r).state := by
  rw [home, Tables.row?_updateIndex hkey, Option.bind_map]
  rfl

/-- An update that leaves every payload where it belongs. -/
theorem home_kept {p : IndexRow → Bool} {f : IndexRow → IndexRow}
    (hkey : ∀ r, (f r).messageKey = r.messageKey)
    (hkept : ∀ r ∈ t.index, p r = true → homeOf (f r).state = homeOf r.state) :
    home (t.updateIndex p f) key = home t key := by
  rw [home_updateIndex hkey, home]
  cases hrow : t.row? key with
  | none => rfl
  | some r =>
    show homeOf (if p r then f r else r).state = homeOf r.state
    by_cases hp : p r = true
    · rw [if_pos hp]
      exact hkept r (Table.row?_mem hrow) hp
    · rw [if_neg hp]

/-- An update of the row of a key puts its payload elsewhere, and no other. -/
theorem home_set (state : MessageState) {K : String} {f : IndexRow → IndexRow} {r : IndexRow}
    (hrow : t.row? K = some r) (hkey : ∀ r, (f r).messageKey = r.messageKey)
    (hstate : ∀ r, (f r).state = state) :
    home (t.updateIndex (fun r => r.messageKey = K) f) key =
      if key = K then homeOf state else home t key := by
  rw [home_updateIndex hkey]
  by_cases hk : key = K
  · subst hk
    rw [hrow, if_pos rfl]
    show homeOf (if decide (r.messageKey = key) = true then f r else r).state = homeOf state
    rw [if_pos (decide_eq_true (Table.row?_key hrow)), hstate]
  · rw [if_neg hk, home]
    cases hrow' : t.row? key with
    | none => rfl
    | some r' =>
      have hne : ¬decide (r'.messageKey = K) = true := by
        rw [show r'.messageKey = key from Table.row?_key hrow']
        exact mt of_decide_eq_true hk
      show homeOf (if decide (r'.messageKey = K) = true then f r' else r').state = _
      rw [if_neg hne]
      rfl

/-- Editing a value changes no home. -/
theorem home_editsValue {time : Int} {edit : Json String → Option (Json String)} {K : String}
    (hedits : EditsValue K time edit t t') (key : String) : home t' key = home t key := by
  rw [home, Tables.row?_editsValue hedits, home]

/-- Every message has its payload file where its row says, and no other that is looked for. -/
structure Homed (published : List MessageEnvelope) (t : Tables) (files : Payloads) : Prop where
  homes : ∀ m ∈ published, ∀ dir, dir ≠ .archive →
    files.lookup (payloadPath dir m.queue m.messageId) =
      if home t m.key = some dir then some (some (payloadJson m)) else none

/-- Every payload file is where its row says, with the payload that was published. -/
structure Housed (published : List MessageEnvelope) (t : Tables) (files : Payloads) : Prop
    extends Homed published t files where
  paths : ∀ path text, files.lookup path = some text →
    ∃ m ∈ published, ∃ dir, path = payloadPath dir m.queue m.messageId

/-- Payloads stay at home where neither homes nor files change. -/
theorem Homed.same (h : Homed published t files) (hhome : ∀ k, home t' k = home t k)
    (hfiles : ∀ m ∈ published, ∀ dir, dir ≠ .archive →
      files'.lookup (payloadPath dir m.queue m.messageId) =
        files.lookup (payloadPath dir m.queue m.messageId)) : Homed published t' files' := by
  constructor
  intro m hm dir hdir
  rw [hfiles m hm dir hdir, hhome]
  exact h.homes m hm dir hdir

/-- The files are as they were. -/
theorem Homed.kept (h : Homed published t files) (hhome : ∀ k, home t' k = home t k) :
    Homed published t' files :=
  h.same hhome fun _ _ _ _ => rfl

/-- The paths of different messages differ. -/
theorem payloadPath_ne (hwell : WellPublished published) {m' : MessageEnvelope}
    (hm : m ∈ published) (hm' : m' ∈ published) (hne : m' ≠ m) (dir dir' : PayloadDir) :
    payloadPath dir' m'.queue m'.messageId ≠ payloadPath dir m.queue m.messageId := by
  intro heq
  have hid : '/' ∉ m.messageId.toList := not_slash_of_guid (hwell.formed m hm).2
  have hid' : '/' ∉ m'.messageId.toList := not_slash_of_guid (hwell.formed m' hm').2
  exact hne (hwell.eq_of_id hm' hm (payloadPath_inj hid' hid heq).2.2)

/-- The paths of one message in different directories differ. -/
theorem payloadPath_ne_dir (hid : '/' ∉ m.messageId.toList) {dir dir' : PayloadDir}
    (hne : dir' ≠ dir) :
    payloadPath dir' m.queue m.messageId ≠ payloadPath dir m.queue m.messageId :=
  fun heq => hne (payloadPath_inj hid hid heq).1

/-- Moving the payload of a message together with its row. -/
theorem Homed.relocate (hwell : WellPublished published) (h : Homed published t files)
    (hm : m ∈ published) {src dest : PayloadDir} (hsrc : src ≠ .archive) (hne : dest ≠ src)
    (hhome : home t m.key = some src)
    (hafter : home t' m.key = if dest = .archive then none else some dest)
    (hothers : ∀ k, k ≠ m.key → home t' k = home t k) :
    Homed published t' (relocated (some m.queue) src dest m.key files) := by
  have hid : '/' ∉ m.messageId.toList := not_slash_of_guid (hwell.formed m hm).2
  -- The payload was in the directory of its state, and it is moved from there.
  have hfile : files.lookup (payloadPath src m.queue m.messageId) =
      some (some (payloadJson m)) := by
    rw [h.homes m hm src hsrc, if_pos hhome]
  have hmoved : relocated (some m.queue) src dest m.key files =
      Files.renamed (payloadPath src m.queue m.messageId)
        (payloadPath dest m.queue m.messageId) (some (payloadJson m)) files := by
    show moved _ _ files = _
    rw [extractMessageIdFromKey_of_mem hwell hm, moved, hfile]
  rw [hmoved]
  constructor
  intro m' hm' dir hdir
  rw [Files.lookup_renamed]
  by_cases hsame : m' = m
  -- The message itself: its file is at the destination and nowhere else.
  · subst hsame
    rw [hafter]
    by_cases hdest : dir = dest
    · subst hdest
      rw [if_pos rfl, if_neg hdir, if_pos rfl]
    · rw [if_neg (payloadPath_ne_dir hid hdest)]
      have hnot : (if dest = .archive then none else some dest) ≠ some dir := by
        split
        · simp
        · exact fun heq => hdest (Option.some.inj heq).symm
      rw [if_neg hnot]
      by_cases hback : dir = src
      · subst hback
        rw [if_pos rfl]
      · rw [if_neg (payloadPath_ne_dir hid hback), h.homes m' hm' dir hdir, hhome,
          if_neg fun heq => hback (Option.some.inj heq).symm]
  -- Another message: neither its key nor its paths are concerned.
  · have hkey : m'.key ≠ m.key := fun heq => hsame (hwell.eq_of_key hm' hm heq)
    rw [if_neg (payloadPath_ne hwell hm hm' hsame _ _),
      if_neg (payloadPath_ne hwell hm hm' hsame _ _), hothers _ hkey]
    exact h.homes m' hm' dir hdir

/-- What is written for an enqueued message, and what is left of the rest. -/
theorem lookup_written : (written m files).lookup path =
    if path = payloadPath .active m.queue m.messageId then some (some (payloadJson m))
    else if path = payloadPath .active m.queue m.messageId ++ ".tmp" then none
    else files.lookup path := by
  have hwritten : written m files =
      Files.renamed (payloadPath .active m.queue m.messageId ++ ".tmp")
        (payloadPath .active m.queue m.messageId) (some (payloadJson m))
        (files.insert (payloadPath .active m.queue m.messageId ++ ".tmp")
          (some (payloadJson m))) := rfl
  rw [hwritten, Files.lookup_renamed, Files.lookup_insert']
  by_cases htemp : path = payloadPath .active m.queue m.messageId ++ ".tmp"
  · rw [if_pos htemp, if_pos htemp]
  · rw [if_neg htemp, if_neg htemp, if_neg htemp]

/-- Writing the payload of a new message. -/
theorem Homed.write (hwell : WellPublished (m :: published)) (h : Homed published t files)
    (hnone : ∀ dir, files.lookup (payloadPath dir m.queue m.messageId) = none)
    (hafter : home t' m.key = some .active)
    (hothers : ∀ k, k ≠ m.key → home t' k = home t k) :
    Homed (m :: published) t' (written m files) := by
  have hmem : m ∈ m :: published := List.mem_cons_self
  have hid : '/' ∉ m.messageId.toList := not_slash_of_guid (hwell.1.2.2.1)
  constructor
  intro m' hm' dir hdir
  rw [lookup_written, if_neg (payloadPath_ne_temp _ _ _ _)]
  rcases List.mem_cons.mp hm' with rfl | hold
  · rw [hafter]
    by_cases hactive : dir = .active
    · subst hactive
      rw [if_pos rfl, if_pos rfl]
    · rw [if_neg (payloadPath_ne_dir hid hactive), hnone,
        if_neg fun heq => hactive (Option.some.inj heq).symm]
  · have hsame : m' ≠ m := fun heq => hwell.1.2.2.2 (heq ▸ List.mem_map_of_mem hold)
    have hkey : m'.key ≠ m.key := fun heq => hsame (hwell.eq_of_key hm' hmem heq)
    rw [if_neg (payloadPath_ne hwell hmem hm' hsame _ _), hothers _ hkey]
    exact h.homes m' hold dir hdir

/-! ### One call -/

/-- The call leaves a dead row dead, unless it brings its payload back too; and it moves the
    payload of a row that has a queue string. -/
def Spares (call : Call) (t : Tables) : Prop :=
  match call with
  | .delayMessage key _ => queueInState key .dlq t = none
  | .moveToDlq key _ => ∀ r, t.row? key = some r → r.state ≠ .dlq → r.queue ≠ ""
  | .reprocessDlqMessage key => queueInState key .dlq t ≠ some ""
  | _ => True

/-- The queue that a query finds is that of the key's row. -/
theorem Invariant.row_of_query (h : Invariant t) {state : MessageState} {queue : String}
    (hquery : Hybrid.queueInState key state t = some queue) :
    ∃ r, t.row? key = some r ∧ r.state = state ∧ r.queue = queue := by
  obtain ⟨r, hfind, hqueue⟩ := Option.map_eq_some_iff.mp hquery
  have hr := List.find?_some hfind
  simp only [decide_eq_true_eq] at hr
  have hrow := h.row?_of_mem (List.mem_of_find?_eq_some hfind)
  exact ⟨r, hr.1 ▸ hrow, hr.2, hqueue⟩

/-- A row that lives has its payload in `active/`. -/
theorem Invariant.homeOf_live (h : Invariant t) {r : IndexRow} (hr : r ∈ t.index)
    (hlive : r.state ≠ .dlq) : homeOf r.state = some .active := by
  have hnot := (h.rows r hr).state
  cases hstate : r.state with
  | dlq => exact absurd hstate hlive
  | archived => exact absurd hstate hnot
  | _ => rfl

/-- Moving the payload of a row together with it. -/
theorem Homed.settle (hwell : WellPublished published) (hknown : Known published t)
    (h : Homed published t files) {r : IndexRow} (hrow : t.row? key = some r)
    {src dest : PayloadDir} (hsrc : src ≠ .archive) (hne : dest ≠ src)
    (hhome : homeOf r.state = some src)
    (hafter : ∀ k, home t' k =
      if k = key then if dest = .archive then none else some dest else home t k) :
    Homed published t' (relocated (some r.queue) src dest key files) := by
  obtain ⟨m, hm, hkey, hqueue⟩ := hknown.rows r (Table.row?_mem hrow)
  obtain rfl : m.key = key := hkey.trans (Table.row?_key hrow)
  rw [← hqueue]
  refine h.relocate hwell hm hsrc hne ((home_of_row hrow).trans hhome) ?_ ?_
  · rw [hafter, if_pos rfl]
  · intro k hk
    rw [hafter, if_neg hk]

/-- The payload of a row is not moved from where it is not. -/
theorem Homed.stays (hwell : WellPublished published) (hknown : Known published t)
    (h : Homed published t files) {r : IndexRow} (hrow : t.row? key = some r)
    {src dest : PayloadDir} (hsrc : src ≠ .archive) (hhome : homeOf r.state ≠ some src) :
    relocated (some r.queue) src dest key files = files := by
  obtain ⟨m, hm, hkey, hqueue⟩ := hknown.rows r (Table.row?_mem hrow)
  obtain rfl : m.key = key := hkey.trans (Table.row?_key hrow)
  have hnone : files.lookup (payloadPath src m.queue m.messageId) = none := by
    rw [h.homes m hm src hsrc, home_of_row hrow, if_neg hhome]
  show moved _ _ files = files
  rw [extractMessageIdFromKey_of_mem hwell hm, ← hqueue, moved, hnone]

/-- A fresh message is not refused. -/
theorem Known.accepts (h : Known published t) (hwell : WellPublished published)
    (hfresh : (Call.enqueue m).Fresh published) : ¬Refuses schema env (.enqueue m) t := by
  have hnew : m.key ∉ published.map MessageEnvelope.key := fun hknown =>
    hwell.not_fresh hknown hfresh
  rintro (hkv | hindex)
  · obtain ⟨r, hr, hkey⟩ := List.mem_map.mp hkv
    rcases h.values r hr with hold | ⟨q, hpolicy⟩
    · exact hnew (hkey ▸ hold)
    · exact policyKey_ne q m.queue m.messageId (hpolicy.symm.trans (hkey.trans hfresh.1))
  · obtain ⟨r, hr, hkey⟩ := List.mem_map.mp hindex
    obtain ⟨m', hm', hsame, -⟩ := h.rows r hr
    exact hnew (hkey ▸ hsame ▸ List.mem_map_of_mem hm')

/-- A new message has its home in `active/`; the others keep theirs. -/
theorem home_enqueued (h : Invariant t) (hnew : m.key ∉ t.kv.map KvRow.key) :
    home (enqueued env m t) key = if key = m.key then some .active else home t key := by
  have hstate : homeOf (newRow m env.now).state = some .active := by
    show homeOf (if env.now < m.availableAtMs then .delayed else .ready) = some .active
    split
    · rfl
    · rfl
  have hrow : (enqueued env m t).row? key =
      (t.row? key).or (if m.key = key then some (newRow m env.now) else none) := Table.row?_append
  rw [home, hrow]
  by_cases hk : key = m.key
  · subst hk
    have hnone : t.row? m.key = none := Table.row?_eq_none.mpr (h.not_mem_indexKeys hnew)
    rw [hnone, Option.none_or, if_pos rfl, if_pos rfl, Option.bind_some, hstate]
  · rw [if_neg (Ne.symm hk), if_neg hk, Option.or_none, home]

/-- A row of a key in which a query found a state has that state. -/
theorem Invariant.state_of_mem (h : Invariant t) {state : MessageState}
    (hquery : Hybrid.queueInState key state t ≠ none) {r : IndexRow} (hr : r ∈ t.index)
    (hkey : r.messageKey = key) : r.state = state :=
  h.state_of_query hquery (hkey ▸ h.row?_of_mem hr)

section CallByCall

variable {reply : Reply} (hwell : WellPublished published) (hinv : Invariant t)
  (hknown : Known published t) (h : Homed published t files)

include hwell hinv hknown h

/-- An acknowledged row goes, and its payload to the archive. -/
theorem Homed.acked {lease : LeaseToken}
    (heffect : Effect schema env files' (.ack lease) reply t t') :
    Homed published t' (filesAfter (.ack lease) t files) := by
  obtain ⟨-, hquery, rfl⟩ := heffect
  obtain ⟨queue, hqueue⟩ := Option.ne_none_iff_exists'.mp hquery
  obtain ⟨r, hrow, hstate, rfl⟩ := hinv.row_of_query hqueue
  show Homed published _ (relocated (queueInState lease.messageKey .inflight t) _ _ _ _)
  rw [hqueue]
  apply h.settle hwell hknown hrow (by decide) (by decide) (hstate ▸ rfl)
  intro k
  rw [acked_eq, home]
  by_cases hk : k = lease.messageKey
  · rw [if_pos hk, if_pos rfl, hk, Tables.deleteKv_self.2]
    rfl
  · rw [if_neg hk, (Tables.deleteKv_of_ne hk).2, home]

/-- A nacked row stays at home, or goes to the DLQ with its payload. -/
theorem Homed.nacked {lease : LeaseToken} {reason : String} {requeue : Bool}
    (heffect : Effect schema env files' (.nack lease reason requeue) reply t t') :
    Homed published t' (filesAfter (.nack lease reason requeue) t files) := by
  obtain ⟨-, hquery, heffect⟩ := heffect
  cases requeue with
  | true =>
    rw [if_pos rfl] at heffect
    rw [heffect]
    apply h.kept
    intro k
    refine home_kept (fun _ => rfl) ?_
    intro r hr hp
    rw [hinv.state_of_mem hquery hr (of_decide_eq_true hp)]
    rfl
  | false =>
    rw [if_neg Bool.false_ne_true] at heffect
    obtain ⟨queue, hqueue⟩ := Option.ne_none_iff_exists'.mp hquery
    obtain ⟨r, hrow, hstate, rfl⟩ := hinv.row_of_query hqueue
    show Homed published _ (relocated (queueInState lease.messageKey .inflight t) _ _ _ _)
    rw [hqueue]
    apply h.settle hwell hknown hrow (by decide) (by decide) (hstate ▸ rfl)
    intro k
    rw [home_editsValue heffect]
    exact home_set .dlq hrow (fun _ => rfl) fun _ => rfl

omit hwell hknown in
/-- A delayed row stays at home: it was not a dead one. -/
theorem Homed.delayed {delayMs : Int} (hspares : Spares (.delayMessage key delayMs) t)
    (heffect : Effect schema env files' (.delayMessage key delayMs) reply t t') :
    Homed published t' files := by
  obtain ⟨-, rfl⟩ := heffect
  apply h.kept
  intro k
  refine home_kept (fun _ => rfl) ?_
  intro r hr hp
  have hlive : r.state ≠ .dlq := by
    intro hdead
    have hkey : r.messageKey = key := of_decide_eq_true hp
    exact hinv.queueInState.mpr ⟨r, hkey ▸ hinv.row?_of_mem hr, hdead⟩ hspares
  rw [hinv.homeOf_live hr hlive]
  show homeOf (if 0 < delayMs then .delayed else .ready) = some .active
  split
  · rfl
  · rfl

/-- A row that is moved to the DLQ takes its payload along, unless both are there already. -/
theorem Homed.deadLettered {reason : String} (hspares : Spares (.moveToDlq key reason) t)
    (heffect : Effect schema env files' (.moveToDlq key reason) reply t t') :
    Homed published t' (filesAfter (.moveToDlq key reason) t files) := by
  obtain ⟨-, hedits⟩ := heffect
  show Homed published _ (relocated (((t.row? key).map IndexRow.queue).filter _) _ _ _ _)
  cases hrow : t.row? key with
  | none =>
    apply h.kept
    intro k
    rw [home_editsValue hedits]
    refine home_kept (fun _ => rfl) ?_
    intro r hr hp
    have hkey : r.messageKey = key := of_decide_eq_true hp
    exact absurd (List.mem_map_of_mem hr) (Table.row?_eq_none.mp (hkey ▸ hrow))
  | some r =>
    have hafter : ∀ k, home t' k = if k = key then some .dlq else home t k := by
      intro k
      rw [home_editsValue hedits]
      exact home_set .dlq hrow (fun _ => rfl) fun _ => rfl
    by_cases hdead : r.state = .dlq
    · have hdlq : homeOf r.state = some .dlq := by
        rw [hdead]
        rfl
      have hfiles : relocated ((some r.queue).filter (· ≠ "")) .active .dlq key files = files := by
        rw [Option.filter_some]
        split
        case isTrue =>
          -- the payload is not in `active/`, and the rename finds nothing
          exact h.stays hwell hknown hrow (by decide) (by rw [hdlq]; decide)
        case isFalse => rfl
      refine h.same (fun k => ?_) fun m _ dir _ => congrArg (AList.lookup _) hfiles
      rw [hafter]
      by_cases hk : k = key
      · rw [if_pos hk, hk, home_of_row hrow, hdlq]
      · rw [if_neg hk]
    · have hne : r.queue ≠ "" := hspares r hrow hdead
      rw [Option.map_some, Option.filter_some, if_pos (decide_eq_true hne)]
      exact h.settle hwell hknown hrow (by decide) (by decide)
        (hinv.homeOf_live (Table.row?_mem hrow) hdead) hafter

/-- A reprocessed row comes back with its payload. -/
theorem Homed.reprocessed (hspares : Spares (.reprocessDlqMessage key) t)
    (heffect : Effect schema env files' (.reprocessDlqMessage key) reply t t') :
    Homed published t' (filesAfter (.reprocessDlqMessage key) t files) := by
  obtain ⟨-, hquery, hedits⟩ := heffect
  obtain ⟨queue, hqueue⟩ := Option.ne_none_iff_exists'.mp hquery
  obtain ⟨r, hrow, hstate, rfl⟩ := hinv.row_of_query hqueue
  have hne : r.queue ≠ "" := fun hempty => hspares (hempty ▸ hqueue)
  show Homed published _ (relocated ((queueInState key .dlq t).filter _) _ _ _ _)
  rw [hqueue, Option.filter_some, if_pos (decide_eq_true hne)]
  apply h.settle hwell hknown hrow (by decide) (by decide) (hstate ▸ rfl)
  intro k
  rw [home_editsValue hedits]
  exact home_set .ready hrow (fun _ => rfl) fun _ => rfl

end CallByCall

/-- **What a call makes of the rows agrees with what it makes of the files**, if it spares dead
    rows. -/
theorem Homed.effect (hwell : WellPublished published) (hinv : Invariant t)
    (hknown : Known published t) (h : Homed published t files) {call : Call}
    (hfresh : call.Fresh published)
    (hnone : ∀ m, call = .enqueue m → ∀ dir,
      files.lookup (payloadPath dir m.queue m.messageId) = none)
    (hspares : Spares call t) {reply : Reply}
    (heffect : Effect schema env files' call reply t t') :
    Homed (call.publishing published) t' (filesAfter call t files) := by
  cases call with
  | enqueue m =>
    obtain ⟨-, hnew, rfl⟩ := heffect
    apply Homed.write ⟨hfresh, hwell⟩ h (hnone m rfl)
    · rw [home_enqueued hinv hnew, if_pos rfl]
    · intro k hk
      rw [home_enqueued hinv hnew, if_neg hk]
  | leaseNext queue c timeout =>
    obtain ⟨row, -, -, hready, -, -, -, rfl⟩ := heffect
    obtain ⟨hmem, hcond⟩ := Tables.readyRow?_some hready
    simp only [Tables.isReadyFor, decide_eq_true_eq] at hcond
    apply h.kept
    intro k
    refine home_kept (fun _ => rfl) ?_
    intro r hr hp
    -- a key has one row, so the updated rows are the one that was ready
    have hrow : r = row := List.inj_on_of_nodup_map hinv.indexKeyed hr hmem (of_decide_eq_true hp)
    rw [hrow, hcond.2.1]
    rfl
  | ack lease => exact h.acked hwell hinv hknown heffect
  | nack lease reason requeue => exact h.nacked hwell hinv hknown heffect
  | extendLease lease timeout =>
    obtain ⟨-, rfl⟩ := heffect
    exact h.kept fun k => home_kept (fun _ => rfl) fun _ _ _ => rfl
  | savePolicy queue policy =>
    obtain ⟨-, rfl⟩ := heffect
    apply h.kept
    intro k
    unfold Tables.upsertKv
    split
    · rfl
    · rfl
  | recoverExpiredLeases =>
    obtain ⟨-, rfl⟩ := heffect
    apply h.kept
    intro k
    refine home_kept (fun _ => rfl) ?_
    intro r _ hp
    simp only [Tables.isExpired, decide_eq_true_eq] at hp
    rw [hp.1]
    rfl
  | processDelayedMessages =>
    obtain ⟨-, rfl⟩ := heffect
    apply h.kept
    intro k
    refine home_kept (fun _ => rfl) ?_
    intro r _ hp
    rw [(of_decide_eq_true hp).1]
    rfl
  | delayMessage key delayMs => exact h.delayed hinv hspares heffect
  | moveToDlq key reason => exact h.deadLettered hwell hinv hknown hspares heffect
  | reprocessDlqMessage key => exact h.reprocessed hwell hinv hknown hspares heffect

/-- There are only payload files of published messages. -/
def OnlyPayloads (published : List MessageEnvelope) (files : Payloads) : Prop :=
  ∀ path text, files.lookup path = some text →
    ∃ m ∈ published, ∃ dir, path = payloadPath dir m.queue m.messageId

/-- Moving the payload of a published message keeps to payload paths. -/
theorem OnlyPayloads.relocated (hwell : WellPublished published) (h : OnlyPayloads published files)
    {queue : Option String}
    (hqueue : ∀ q, queue = some q → ∃ m ∈ published, m.key = key ∧ m.queue = q)
    (src dest : PayloadDir) : OnlyPayloads published (relocated queue src dest key files) := by
  cases queue with
  | none => exact h
  | some q =>
    obtain ⟨m, hm, rfl, rfl⟩ := hqueue q rfl
    show OnlyPayloads published (moved _ _ files)
    rw [extractMessageIdFromKey_of_mem hwell hm]
    unfold moved
    split
    · exact h
    · intro path text hlookup
      rw [Files.lookup_renamed] at hlookup
      by_cases hdest : path = payloadPath dest m.queue m.messageId
      · exact ⟨m, hm, dest, hdest⟩
      · rw [if_neg hdest] at hlookup
        split at hlookup
        case isTrue => cases hlookup
        case isFalse => exact h path text hlookup

/-- **A call keeps to payload paths.** -/
theorem OnlyPayloads.filesAfter (hwell : WellPublished published) (hknown : Known published t)
    (h : OnlyPayloads published files) (call : Call) :
    OnlyPayloads (call.publishing published) (filesAfter call t files) := by
  have hquery : ∀ {key : String} {state : MessageState} (q : String),
      queueInState key state t = some q → ∃ m ∈ published, m.key = key ∧ m.queue = q := fun q hq =>
    queueInState_known hknown hq
  cases call with
  | enqueue m =>
    intro path text hlookup
    have hlookup : (written m files).lookup path = some text := hlookup
    rw [lookup_written] at hlookup
    by_cases hactive : path = payloadPath .active m.queue m.messageId
    · exact ⟨m, List.mem_cons_self, .active, hactive⟩
    · rw [if_neg hactive] at hlookup
      split at hlookup
      case isTrue => cases hlookup
      case isFalse =>
        obtain ⟨m', hm', hpath⟩ := h path text hlookup
        exact ⟨m', List.mem_cons_of_mem _ hm', hpath⟩
  | ack lease => exact h.relocated hwell hquery _ _
  | nack lease reason requeue =>
    cases requeue with
    | true => exact h
    | false => exact h.relocated hwell hquery _ _
  | moveToDlq key reason =>
    refine h.relocated hwell (fun q hq => ?_) _ _
    obtain ⟨r, hrow, rfl⟩ := Option.map_eq_some_iff.mp (Option.filter_eq_some_iff.mp hq).1
    obtain ⟨m, hm, hkey, hqueue⟩ := hknown.rows r (Table.row?_mem hrow)
    exact ⟨m, hm, hkey.trans (Table.row?_key hrow), hqueue⟩
  | reprocessDlqMessage key =>
    exact h.relocated hwell (fun q hq => hquery q (Option.filter_eq_some_iff.mp hq).1) _ _
  | _ => exact h

/-- What is refused names no row in the state asked for. -/
theorem filesAfter_refused {call : Call} (hrefused : Refuses schema env call t)
    (hpublish : ∀ m, call ≠ .enqueue m) : filesAfter call t files = files := by
  cases call with
  | enqueue m => exact absurd rfl (hpublish m)
  | ack lease =>
    show relocated (queueInState lease.messageKey .inflight t) _ _ _ _ = files
    rw [hrefused]
    rfl
  | nack lease reason requeue =>
    cases requeue with
    | true => rfl
    | false =>
      show relocated (queueInState lease.messageKey .inflight t) _ _ _ _ = files
      rw [hrefused]
      rfl
  | reprocessDlqMessage key =>
    show relocated ((queueInState key .dlq t).filter _) _ _ _ _ = files
    rw [hrefused]
    rfl
  | leaseNext queue c timeout => rfl
  | _ => exact hrefused.elim

/-- A payload file of a fresh message is no file of a published one. -/
theorem PathOf.not_fresh (hwell : WellPublished published) {m' : MessageEnvelope}
    (hm' : m' ∈ published) {dir : PayloadDir}
    (hpath : PathOf m' (payloadPath dir m.queue m.messageId)) :
    ¬(Call.enqueue m).Fresh published := by
  intro hfresh
  have hid : '/' ∉ m.messageId.toList := not_slash_of_guid hfresh.2.2.1
  have hid' : '/' ∉ m'.messageId.toList := not_slash_of_guid (hwell.formed m' hm').2
  rcases hpath with ⟨dir', heq⟩ | heq
  · have hsame := (payloadPath_inj hid hid' heq).2.2
    exact hfresh.2.2.2 (hsame ▸ List.mem_map_of_mem hm')
  · exact payloadPath_ne_temp _ _ _ _ heq

/-- **A call in which nothing fails keeps every payload where its row says**, if it spares dead
    rows. -/
theorem Housed.perform (hwell : WellPublished published) (hkeeps : Keeps published s)
    (hknown : Known published s.data) (h : Housed published s.data s.files)
    (hcalm : env.faults = []) {call : Call} (hfresh : call.Fresh published)
    (hspares : Spares call s.data) :
    Housed (call.publishing published) ((adapter schema).perform env call s).2.data
      ((adapter schema).perform env call s).2.files := by
  have haccepts : ∀ m, call = .enqueue m → ¬Refuses schema env call s.data := by
    rintro m rfl
    exact hknown.accepts hwell hfresh
  have hfiles : ∀ path, ((adapter schema).perform env call s).2.files.lookup path =
      (filesAfter call s.data s.files).lookup path := perform_files hkeeps.saved hcalm haccepts
  obtain ⟨-, hperforms⟩ := @perform_performs False schema env s hkeeps.saved (.inr hcalm) call
  generalize ((adapter schema).perform env call s).2 = after at hfiles hperforms ⊢
  generalize ((adapter schema).perform env call s).1 = reply at hperforms
  have hpaths : OnlyPayloads published s.files := h.paths
  have hhomed : Homed (call.publishing published) after.data (filesAfter call s.data s.files) := by
    rcases hperforms with ⟨-, hsame, hwhy⟩ | heffect
    · have hrefused : Refuses schema env call s.data := hwhy.resolve_left False.elim
      have hpublish : ∀ m, call ≠ .enqueue m := fun m heq => haccepts m heq hrefused
      have hlist : call.publishing published = published := by
        cases call with
        | enqueue m => exact absurd rfl (hpublish m)
        | _ => rfl
      rw [hsame, filesAfter_refused hrefused hpublish, hlist]
      exact h.toHomed
    · refine h.effect hwell hkeeps.invariant hknown hfresh ?_ hspares heffect
      rintro m rfl dir
      by_contra hfile
      obtain ⟨text, htext⟩ := Option.ne_none_iff_exists'.mp hfile
      obtain ⟨m', hm', dir', heq⟩ := hpaths _ _ htext
      exact PathOf.not_fresh hwell hm' (.inl ⟨dir', heq⟩) hfresh
  constructor
  · exact hhomed.same (fun _ => rfl) fun m _ dir _ => hfiles _
  · intro path text hlookup
    rw [hfiles] at hlookup
    exact hpaths.filesAfter hwell hknown call path text hlookup

/-! ### Queue strings -/

/-- The string names a queue: that of a message, or a directory under the root. -/
def NamesQueue (published : List MessageEnvelope) (queue : String) : Prop :=
  queue ∈ published.map MessageEnvelope.queue ∨ IsName queue

/-- The check takes the string for what it is: it asks for all queues, or names one and stands in
    the statements. -/
def Checkable (published : List MessageEnvelope) (queue : String) : Prop :=
  queue = "" ∨ NamesQueue published queue ∧ IsPlain queue

/-- Nothing else that names a queue leads to the directory of a message's queue. -/
def Apart (published : List MessageEnvelope) : Prop :=
  ∀ m ∈ published, ∀ queue, NamesQueue published queue →
    queueDirectory queue = queueDirectory m.queue → queue = m.queue

/-- Names lead to directories of their own. -/
theorem apart_of_names (hnames : ∀ m ∈ published, IsName m.queue) : Apart published := by
  intro m hm queue hqueue hsame
  have hname : IsName queue := by
    rcases hqueue with hqueue | hname
    · obtain ⟨m', hm', rfl⟩ := List.mem_map.mp hqueue
      exact hnames m' hm'
    · exact hname
  rw [queueDirectory_of_name hname, queueDirectory_of_name (hnames m hm)] at hsame
  exact (List.cons.inj hsame).1

/-! ### What follows from the places -/

/-- A row whose state belongs to a directory. -/
theorem row_of_home {dir : PayloadDir} (h : home t key = some dir) :
    ∃ r ∈ t.index, r.messageKey = key ∧ r.state ∈ statesOf dir := by
  obtain ⟨r, hrow, hstate⟩ := Option.bind_eq_some_iff.mp h
  exact ⟨r, Table.row?_mem hrow, Table.row?_key hrow, homeOf_iff.mp hstate⟩

/-- The payload of a row is where its state says. -/
theorem Housed.lookup_of_row (hinv : Invariant t) (h : Housed published t files)
    (hm : m ∈ published) {r : IndexRow} (hr : r ∈ t.index) (hkey : r.messageKey = m.key)
    {dir : PayloadDir} (hstate : r.state ∈ statesOf dir) :
    files.lookup (payloadPath dir m.queue m.messageId) = some (some (payloadJson m)) := by
  have hdir : dir ≠ .archive := by
    rintro rfl
    cases hstate
  have hhome : home t m.key = some dir := by
    rw [home_of_row (hkey ▸ hinv.row?_of_mem hr), homeOf_iff]
    exact hstate
  rw [h.homes m hm dir hdir, if_pos hhome]

/-- The row of a payload file. -/
theorem Housed.row_of_lookup (h : Housed published t files) (hm : m ∈ published)
    {dir : PayloadDir} (hdir : dir ≠ .archive)
    (hfile : files.lookup (payloadPath dir m.queue m.messageId) ≠ none) :
    ∃ r ∈ t.index, r.messageKey = m.key ∧ r.state ∈ statesOf dir := by
  rw [h.homes m hm dir hdir] at hfile
  by_cases hhome : home t m.key = some dir
  · exact row_of_home hhome
  · rw [if_neg hhome] at hfile
    exact absurd rfl hfile

/-- The keys of the rows are made of their queues and identifiers. -/
theorem Known.wellKeyed (hwell : WellPublished published) (h : Known published t) :
    ∀ r ∈ t.index, WellKeyed r := by
  intro r hr
  obtain ⟨m, hm, hkey, hqueue⟩ := h.rows r hr
  rw [WellKeyed, ← hkey, ← hqueue, extractMessageIdFromKey_of_mem hwell hm]
  exact (hwell.formed m hm).1

/-- Rows and files of every queue match. -/
theorem Housed.matches (hwell : WellPublished published) (hinv : Invariant t)
    (hknown : Known published t) (hids : ∀ m ∈ published, m.messageId ≠ "")
    (h : Housed published t files) (queue : String) : Matches t files queue := by
  intro dir hdir id
  rw [mem_listPayloadFiles, mem_indexedIds (hknown.wellKeyed hwell)]
  constructor
  · rintro ⟨-, hslash, hpath⟩
    obtain ⟨text, htext⟩ := Option.isSome_iff_exists.mp (AList.lookup_isSome.mpr hpath)
    obtain ⟨m, hm, dir', heq⟩ := h.paths _ _ htext
    obtain ⟨hkey, hguid⟩ := hwell.formed m hm
    obtain ⟨rfl, rfl, rfl⟩ := payloadPath_inj hslash (not_slash_of_guid hguid) heq
    obtain ⟨r, hr, hsame, hstate⟩ := h.row_of_lookup hm hdir (htext ▸ Option.some_ne_none _)
    exact ⟨fun hmem => (isGuidChar_ne (hguid _ hmem)).1 rfl, r, hr, hsame.trans hkey, hstate⟩
  · rintro ⟨hcolon, r, hr, hkey, hstate⟩
    obtain ⟨m, hm, hsame, -⟩ := hknown.rows r hr
    obtain ⟨hformed, hguid⟩ := hwell.formed m hm
    have hcolon' : ':' ∉ m.messageId.toList := fun hmem => (isGuidChar_ne (hguid _ hmem)).1 rfl
    have hkeys : messageKey queue id = messageKey m.queue m.messageId :=
      hkey.symm.trans (hsame.symm.trans hformed)
    obtain ⟨rfl, rfl⟩ := messageKey_inj_of_colon hcolon hcolon' hkeys
    refine ⟨hids m hm, not_slash_of_guid hguid, AList.lookup_isSome.mp ?_⟩
    rw [h.lookup_of_row hinv hm hr hsame.symm hstate]
    rfl

/-- Rows and payload files agree. -/
structure WellPlaced (published : List MessageEnvelope) (s : Store) : Prop where
  /-- The payload that was published is where the state of the row says. -/
  filed : ∀ r ∈ s.data.index, ∀ dir, r.state ∈ statesOf dir →
    ∃ m ∈ published, m.key = r.messageKey ∧
      s.files.lookup (payloadPath dir m.queue m.messageId) = some (some (payloadJson m))
  /-- There is no other file in these directories. -/
  alone : ∀ path ∈ s.files.keys, ∀ queue, NamesQueue published queue →
    ∀ dir, dir ≠ .archive → (resolve [] path).drop 1 = resolve [] (directoryText queue dir) →
    ∃ r ∈ s.data.index, r.queue = queue ∧ r.state ∈ statesOf dir ∧
      path = payloadPath dir queue (extractMessageIdFromKey r.messageKey)
  /-- The check of a queue, and that of all queues, finds neither orphans nor missing payloads. -/
  clean : ∀ now lastWrite queue, Checkable published queue →
    (checkConsistency now lastWrite s.data s.files queue).orphanPayloads = 0 ∧
    (checkConsistency now lastWrite s.data s.files queue).missingPayloads = 0

/-- Payloads that are housed are well placed, for a consistency check as well as for a lease. -/
theorem Housed.wellPlaced (hwell : WellPublished published) (hinv : Invariant s.data)
    (hknown : Known published s.data) (hids : ∀ m ∈ published, m.messageId ≠ "")
    (hapart : Apart published) (h : Housed published s.data s.files) :
    WellPlaced published s := by
  constructor
  · intro r hr dir hstate
    obtain ⟨m, hm, hkey, -⟩ := hknown.rows r hr
    exact ⟨m, hm, hkey, h.lookup_of_row hinv hm hr hkey.symm hstate⟩
  · intro path hpath queue hqueue dir hdir hplace
    obtain ⟨text, htext⟩ := Option.isSome_iff_exists.mp (AList.lookup_isSome.mpr hpath)
    obtain ⟨m, hm, dir', rfl⟩ := h.paths _ _ htext
    have hid : '/' ∉ m.messageId.toList := not_slash_of_guid (hwell.formed m hm).2
    rw [resolve_payloadPath dir' m.queue hid, resolve_directoryText, List.drop_one,
      List.tail_cons] at hplace
    obtain ⟨hname, hdirectory⟩ := List.cons.inj hplace
    obtain rfl : dir' = dir := by
      cases dir' <;> cases dir <;> first | rfl | exact absurd hname (by decide)
    obtain rfl : queue = m.queue := hapart m hm queue hqueue hdirectory.symm
    obtain ⟨r, hr, hkey, hstate⟩ := h.row_of_lookup hm hdir (htext ▸ Option.some_ne_none _)
    obtain ⟨m', hm', hkey', hqueue'⟩ := hknown.rows r hr
    obtain rfl : m' = m := hwell.eq_of_key hm' hm (hkey'.trans hkey)
    refine ⟨r, hr, hqueue'.symm, hstate, ?_⟩
    rw [hkey, extractMessageIdFromKey_of_mem hwell hm]
  · intro now lastWrite queue _
    exact clean_iff.mpr fun q _ => h.matches hwell hinv hknown hids q

/-- The payload file of a message gives back its payload and attributes. -/
theorem withPayload_payloadJson (message m : MessageEnvelope) :
    withPayload message (.ok (some (payloadJson m))) =
      some { message with payloadJson := m.payloadJson, attributesJson := m.attributesJson } := by
  have hpayload : (payloadJson m).valueStr "payload" "\x7b\x7d" = some m.payloadJson :=
    Json.valueStr_of_get? _ rfl
  have hattributes : (payloadJson m).valueStr "attributes" "\x7b\x7d" = some m.attributesJson :=
    Json.valueStr_of_get? _ rfl
  simp only [withPayload, Option.bind_eq_bind, Option.bind_some, hpayload, hattributes]
  rfl

/-- What is leased has the payload that was published. -/
theorem Housed.leased (hcarried : s.data.Backed (Carries published)) (hinv : Invariant s.data)
    (h : Housed published s.data s.files) (hsaved : s.saved = none) (hcalm : env.faults = [])
    {queue c : String} {timeout : Int}
    (hleased : ((adapter schema).perform env (.leaseNext queue c timeout) s).1.failed = false) :
    ∃ m ∈ published, ∃ given token,
      ((adapter schema).perform env (.leaseNext queue c timeout) s).1.granted =
        some (given, token) ∧
      given.key = m.key ∧ given.payloadJson = m.payloadJson ∧
      given.attributesJson = m.attributesJson := by
  obtain ⟨row, value, given, token, hrow, hvalue, hgiven, hread⟩ := leaseNext_reads hsaved hcalm hleased
  obtain ⟨hmem, hcond⟩ := Tables.readyRow?_some hrow
  simp only [Tables.isReadyFor, decide_eq_true_eq] at hcond
  obtain ⟨j, hj, hcarries⟩ := hcarried row hmem
  obtain ⟨m, hm, hdescribes, henvelope⟩ := hcarries.leasedEnvelope
  obtain rfl : value = some j := Option.some.inj (hvalue.symm.trans hj)
  have hready : row.state ∈ statesOf .active := by
    rw [hcond.2.1]
    decide
  have hfile : s.files.lookup (buildPayloadPath m.queue m.messageId) =
      some (some (payloadJson m)) := h.lookup_of_row hinv hm hmem hdescribes.key hready
  rw [henvelope, Option.bind_some, payloadOf, Files.read, hfile] at hread
  have hfilled := (withPayload_payloadJson _ m).symm.trans hread
  obtain rfl := Option.some.inj hfilled
  exact ⟨m, hm, _, token, hgiven, rfl, rfl, rfl⟩

/-! ### Runs -/

/-- Nothing fails, the strings of the call stand in its statements, it publishes under a fresh
    identifier and in a directory of its own, and it spares dead rows. -/
structure Careful (h : History Store (Env × Call) Reply) (s : Store) (i : Env × Call) : Prop where
  calm : i.1.faults = []
  plain : i.2.Plain
  fresh : i.2.Fresh (publishedBy h)
  identified : ∀ m ∈ i.2.publishing (publishedBy h), m.messageId ≠ ""
  apart : Apart (i.2.publishing (publishedBy h))
  spares : Spares i.2 s.data

/-- What a run of careful calls keeps. -/
theorem housed_of_careful {h : History Store (Env × Call) Reply} {s : Store}
    (run : Run (adapter schema).machine Careful h s) :
    Housed (publishedBy h) s.data s.files ∧ (∀ m ∈ publishedBy h, m.messageId ≠ "") ∧
      Apart (publishedBy h) := by
  induction run with
  | start =>
    refine ⟨⟨⟨by simp [publishedBy]⟩, ?_⟩, by simp [publishedBy], by simp [Apart, publishedBy]⟩
    intro path text hlookup
    cases hlookup
  | @step h s i run ok ih =>
    obtain ⟨env, call⟩ := i
    have hadmitted : Run (adapter schema).machine (lifecycle schema).Admitted h s :=
      run.mono fun _ _ _ _ ok => ⟨trivial, ok.plain, ok.fresh⟩
    have hkeeps : Keeps (publishedBy h) s := ((lifecycle schema).inv_of_run hadmitted).1
    obtain ⟨hwell, howned⟩ := owned_of_run (fun _ _ _ ok => ok.fresh) run
    refine ⟨?_, ok.identified, ok.apart⟩
    exact ih.1.perform hwell hkeeps howned.data ok.calm ok.fresh ok.spares

/-- **Runs of careful calls keep rows and payload files together**: rows have their payloads, the
    check finds nothing, and what is leased has the payload that was published. -/
theorem payloads_placed {h : History Store (Env × Call) Reply} {s : Store}
    (run : Run (adapter schema).machine Careful h s) :
    WellPlaced (publishedBy h) s ∧
    ∀ env queue c timeout, Careful h s (env, .leaseNext queue c timeout) →
      let reply := ((adapter schema).perform env (.leaseNext queue c timeout) s).1
      reply.failed = false →
      ∃ m ∈ publishedBy h, ∃ given token, reply.granted = some (given, token) ∧
        given.key = m.key ∧ given.payloadJson = m.payloadJson ∧
        given.attributesJson = m.attributesJson := by
  have hadmitted : Run (adapter schema).machine (lifecycle schema).Admitted h s :=
    run.mono fun _ _ _ _ ok => ⟨trivial, ok.plain, ok.fresh⟩
  have hkeeps : Keeps (publishedBy h) s := ((lifecycle schema).inv_of_run hadmitted).1
  obtain ⟨hwell, howned⟩ := owned_of_run (fun _ _ _ ok => ok.fresh) run
  obtain ⟨hhoused, hids, hapart⟩ := housed_of_careful run
  constructor
  · exact hhoused.wellPlaced hwell hkeeps.invariant howned.data hids hapart
  · intro env queue c timeout ok reply hleased
    exact hhoused.leased (content_kept hadmitted) hkeeps.invariant hkeeps.saved ok.calm hleased

section Example

variable {h : History Store (Env × Call) Reply} {call : Call}

/-- A call of names is careful, where it spares the payloads of others. -/
theorem Careful.of_names (hcalm : env.faults = []) (hplain : call.Plain)
    (hfresh : call.Fresh (publishedBy h)) (hspares : Spares call s.data)
    (hnames : ∀ m ∈ call.publishing (publishedBy h), m.messageId ≠ "" ∧ IsName m.queue) :
    Careful h s (env, call) where
  calm := hcalm
  plain := hplain
  fresh := hfresh
  identified m hm := (hnames m hm).1
  apart := apart_of_names fun m hm => (hnames m hm).2
  spares := hspares

/-- A message of the examples. -/
def letter : MessageEnvelope := ⟨"msg:q:a", "a", "q", "1", "2", 0, 0, 0, 0, ""⟩

/-- A message that comes back from the dead letters is leased with its payload. -/
theorem payloads_placed_letter :
    let M := (adapter .mainMq).machine
    let env : Env := ⟨1, Int.one_pos, "", []⟩
    let r₁ := M.stepAt M.start (env, .enqueue letter)
    let r₂ := M.stepAt r₁.after (env, .leaseNext "q" "c" 30)
    let r₃ := M.stepAt r₂.after (env, .nack ⟨"", "msg:q:a", "c", 30001⟩ "bad" false)
    let r₄ := M.stepAt r₃.after (env, .reprocessDlqMessage "msg:q:a")
    let reply := (M.step r₄.after (env, .leaseNext "q" "c" 30)).1
    WellPlaced [letter] r₄.after ∧ ∃ given token, reply.granted = some (given, token) ∧
      given.payloadJson = "1" := by
  intro M env r₁ r₂ r₃ r₄ reply
  have hnames : ∀ m ∈ [letter], m.messageId ≠ "" ∧ IsName m.queue :=
    List.forall_mem_singleton.mpr (by decide)
  have hqueue : queueInState "msg:q:a" .dlq r₃.after.data ≠ some "" := by decide +kernel
  have hleased : reply.failed = false := by decide +kernel
  have run₁ : Run M Careful [r₁] r₁.after :=
    Run.start.stepAt _ (Careful.of_names rfl (by decide) (by decide) trivial hnames)
  have run₂ : Run M Careful [r₂, r₁] r₂.after :=
    run₁.stepAt _ (Careful.of_names rfl (by decide) trivial trivial hnames)
  have run₃ : Run M Careful [r₃, r₂, r₁] r₃.after :=
    run₂.stepAt _ (Careful.of_names rfl (by decide) trivial trivial hnames)
  have run₄ : Run M Careful [r₄, r₃, r₂, r₁] r₄.after :=
    run₃.stepAt _ (Careful.of_names rfl (by decide) trivial hqueue hnames)
  have hcareful : Careful [r₄, r₃, r₂, r₁] r₄.after (env, .leaseNext "q" "c" 30) :=
    Careful.of_names rfl (by decide) trivial trivial hnames
  obtain ⟨hplaced, hlease⟩ := payloads_placed run₄
  have h := hlease env "q" "c" 30 hcareful hleased
  obtain ⟨m, hm, given, token, hgiven, -, hpayload, -⟩ := h
  have hm : m = letter := List.mem_singleton.mp hm
  exact ⟨hplaced, given, token, hgiven, hpayload.trans (hm ▸ rfl)⟩

/-- A delay of a message that has been moved to the dead letters, as a sweep makes it that has
    listed the expired lease before: the row is ready, the payload is in `dlq/`, the check reports
    both, and the message is leased with an empty payload. -/
theorem delayed_dead :
    let M := (adapter .mainMq).machine
    let env : Env := ⟨1, Int.one_pos, "", []⟩
    let r₁ := M.stepAt M.start (env, .enqueue letter)
    let r₂ := M.stepAt r₁.after (env, .leaseNext "q" "c" 30)
    let r₃ := M.stepAt r₂.after (env, .nack ⟨"", "msg:q:a", "c", 30001⟩ "bad" false)
    let r₄ := M.stepAt r₃.after (env, .delayMessage "msg:q:a" 0)
    let report := checkConsistency 3 (fun _ => none) r₄.after.data r₄.after.files ""
    let reply := (M.step r₄.after (env, .leaseNext "q" "c" 30)).1
    Run M (fun h _ i => i.1.faults = [] ∧ i.2.Plain ∧ i.2.Fresh (publishedBy h))
      [r₄, r₃, r₂, r₁] r₄.after ∧
    ¬WellPlaced [letter] r₄.after ∧ (report.orphanPayloads = 1 ∧ report.missingPayloads = 1) ∧
    reply.failed = false ∧ reply.granted.map (·.1.payloadJson) = some "" := by
  intro M env r₁ r₂ r₃ r₄ report reply
  have hreport : report.orphanPayloads = 1 ∧ report.missingPayloads = 1 := by decide +kernel
  have hreply : reply.failed = false ∧ reply.granted.map (·.1.payloadJson) = some "" := by
    decide +kernel
  have run₁ : Run M (fun h _ i => i.1.faults = [] ∧ i.2.Plain ∧ i.2.Fresh (publishedBy h))
      [r₁] r₁.after := Run.start.stepAt _ ⟨rfl, by decide, by decide⟩
  have run₂ := run₁.stepAt (env, .leaseNext "q" "c" 30) ⟨rfl, by decide, trivial⟩
  have run₃ := run₂.stepAt (env, .nack ⟨"", "msg:q:a", "c", 30001⟩ "bad" false)
    ⟨rfl, by decide, trivial⟩
  refine ⟨run₃.stepAt _ ⟨rfl, by decide, trivial⟩, ?_, hreport, hreply⟩
  intro hplaced
  have hzero : report.orphanPayloads = 0 := (hplaced.clean 3 (fun _ => none) "" (.inl rfl)).1
  rw [hreport.1] at hzero
  cases hzero

end Example

end YirangMQ.Hybrid

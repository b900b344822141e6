import YirangMQ.Hybrid.Fidelity
import YirangMQ.Hybrid.Payloads
import YirangMQ.Library.Plan

namespace YirangMQ.Hybrid

open Program Abortable

/-!
# Which Hybrid calls are atomic on failure

A rollback brings the tables back, but not the payload files beside them, and what has been
committed stays committed.

* `Unchanged` — the tables and the payload files are as they were;
* `Torn` — what makes a failing call leave a trace;
* `failure_atomic_iff` — **a call that reports failure has changed nothing, exactly when it is
  not torn**, whatever the payload files hold;
* `torn_nack`, `torn_leaseNext` — the two kinds of torn calls.
-/

variable {schema : SchemaFile} {env : Env} {s t : Store} {α : Type}

/-- The tables and every payload file are as they were. -/
def Unchanged (s t : Store) : Prop :=
  t.data = s.data ∧ ∀ dir queue id,
    t.files.lookup (payloadPath dir queue id) = s.files.lookup (payloadPath dir queue id)

/-- A store is unchanged against itself. -/
theorem Unchanged.refl (s : Store) : Unchanged s s := ⟨rfl, fun _ _ _ => rfl⟩

/-- The value of the row does not parse, or its payload file is read and does not parse. -/
def Unreadable (env : Env) (files : Payloads) (row : IndexRow) (value : JsonText) : Prop :=
  ∀ envelope, leasedEnvelope row value = some envelope →
    fault env.faults 5 = none ∧
    ∃ text, files.lookup (buildPayloadPath envelope.queue envelope.messageId) = some text ∧
      withPayload envelope (.ok text) = none

/-- A failing call leaves a trace: `lease_next` commits and then cannot read the message; `nack`
    moves the payload to the dead letters and its COMMIT fails; a statement of `enqueue` fails, and
    so does the removal of the payload it has written. -/
def Torn (schema : SchemaFile) (env : Env) : Call → Store → Prop
  | .leaseNext queue c _, s =>
    (∀ n < 5, fault env.faults n = none) ∧
    ∃ row value, s.data.readyRow? schema queue c env.now = some row ∧
      s.data.value? row.messageKey = some value ∧ Unreadable env s.files row value
  | .nack lease _ false, s =>
    (∀ n < 3, fault env.faults n = none) ∧ fault env.faults 4 = none ∧
    fault env.faults 5 ≠ none ∧
    ∃ queue, queueInState lease.messageKey .inflight s.data = some queue ∧
      s.files.lookup (buildPayloadPath queue (extractMessageIdFromKey lease.messageKey)) ≠ none
  | .enqueue _, _ =>
    (∀ n < 4, fault env.faults n = none) ∧
    ∃ n, 4 ≤ n ∧ n < 7 ∧ (∀ k < n, fault env.faults k = none) ∧
      fault env.faults n ≠ none ∧ fault env.faults (n + 1) ≠ none
  | _, _ => False

/-! ### Calls that are never torn -/

/-- A transaction without file operations: an error leaves the tables and the files as they
    were. -/
theorem untorn_sat {body : Abortable Store α} (hsaved : s.saved = none)
    (hbody : SatE True (fun _ => True) { s with saved := some s.data } body
      (fun _ t => t.saved = some s.data ∧ t.files = s.files)
      (fun _ t => t.saved = some s.data ∧ t.files = s.files)) :
    Sat True (fun _ => True) s (transaction body) fun r t =>
      ∀ e, r = .error e → t.data = s.data ∧ t.files = s.files := by
  refine Sat.transaction hsaved (hbody.weaken ?_ ?_) ?_
  · rintro a t ⟨hopen, hfiles⟩
    exact ⟨hopen, by simp, fun _ _ _ _ => ⟨rfl, hfiles⟩⟩
  · rintro e t ⟨hopen, hfiles⟩
    exact ⟨hopen, fun _ _ => ⟨rfl, hfiles⟩⟩
  · exact fun _ _ _ _ => ⟨rfl, rfl⟩

/-- A statement changes neither the open transaction nor the files. -/
theorem execute_files {describe : String → String} {f : Tables → Except String (α × Tables)}
    {d : Option Tables} {files : Payloads} (ht : t.saved = d ∧ t.files = files) :
    SatE True (fun _ => True) t (execute describe f)
      (fun _ u => u.saved = d ∧ u.files = files) (fun _ u => u.saved = d ∧ u.files = files) :=
  SatE.execute (fun _ _ _ => ht) (fun _ _ => ht) fun _ _ => ht

/-- A query changes neither the saved tables nor the files, done or failed. -/
theorem query_files {error : Option String} {g : Tables → Option α} {d : Option Tables}
    {files : Payloads} (ht : t.saved = d ∧ t.files = files) :
    SatE True (fun _ => True) t (query error g)
      (fun _ u => u.saved = d ∧ u.files = files) (fun _ u => u.saved = d ∧ u.files = files) :=
  SatE.step_selecting (fun _ _ => ht) (fun _ => ht) fun _ => ht

/-- Neither does an edit of a value, for its failure is passed over. -/
theorem editKv_files {key : String} {now : Int} {edit : Json String → Json String}
    {d : Option Tables} {files : Payloads} (ht : t.saved = d ∧ t.files = files) :
    SatE True (fun _ => True) t (orDefault (execute id (editKv key now edit)) ())
      (fun _ u => u.saved = d ∧ u.files = files) (fun _ u => u.saved = d ∧ u.files = files) :=
  SatE.orDefault (execute_files ht)

/-- What an operation that answers with a status does when it fails. -/
def Untorn (s : Store) (m : Program Store Status) : Prop :=
  Sat True (fun _ => True) s m fun r t => ∀ e, r = .error e → t.data = s.data ∧ t.files = s.files

/-- An operation that goes on after its transaction only when that succeeds. -/
theorem untorn_bind {m : Program Store (Except (Option String) α)}
    {f : Except (Option String) α → Program Store Status}
    (hm : Sat True (fun _ => True) s m fun r t =>
      ∀ e, r = .error e → t.data = s.data ∧ t.files = s.files)
    (herror : ∀ e, f (.error e) = pure (.error e))
    (hok : ∀ a t, Sat True (fun _ => True) t (f (.ok a)) fun r _ => ∀ e, r ≠ .error e) :
    Untorn s (m >>= f) := by
  refine Sat.bind (hm.weaken fun r t ht => ?_)
  cases r with
  | error e =>
    rw [herror]
    exact Sat.pure fun _ _ => ht e rfl
  | ok a => exact (hok a t).weaken fun r _ hr e he => absurd he (hr e)

/-- Moving a payload and reporting success. -/
theorem moved_sat (src dest : String) :
    Sat True (fun _ => True) t (do movePayload src dest; return (.ok ()) : Program Store Status)
      fun r _ => ∀ e, r ≠ .error e :=
  Sat.bind (movePayload_sat fun _ _ => Sat.pure (by simp))

/-- **A failed `ack` leaves no trace:** the payload is moved after the transaction. -/
theorem ack_untorn (hsaved : s.saved = none) (lease : LeaseToken) :
    Untorn s (ack schema lease) := by
  refine untorn_bind (untorn_sat hsaved ?_) (fun _ => rfl) fun _ _ => moved_sat _ _
  refine SatE.bind ((query_files ⟨rfl, rfl⟩).weaken (fun _ _ ht => ?_) fun _ _ ht => ht)
  refine SatE.bind ((execute_files ht).weaken (fun _ _ ht => ?_) fun _ _ ht => ht)
  refine SatE.bind ((execute_files ht).weaken (fun _ _ ht => ?_) fun _ _ ht => ht)
  exact SatE.pure ht

/-- A nack for another delivery moves no payload, so it leaves no trace when it fails. -/
theorem requeue_untorn (hsaved : s.saved = none) (lease : LeaseToken) (reason : String) :
    Untorn s (nack env lease reason true) := by
  refine untorn_sat hsaved ?_
  exact SatE.bind ((query_files ⟨rfl, rfl⟩).weaken (fun _ _ ht => execute_files ht)
    fun _ _ ht => ht)

/-- A failed `move_to_dlq` leaves no trace. -/
theorem moveToDlq_untorn (hsaved : s.saved = none) (key reason : String) :
    Untorn s (moveToDlq env key reason) := by
  refine untorn_bind (untorn_sat hsaved ?_) (fun _ => rfl) fun queue t => ?_
  · refine SatE.bind ((SatE.orDefault (query_files ⟨rfl, rfl⟩)).weaken (fun _ _ ht => ?_)
      fun _ _ ht => ht)
    refine SatE.bind ((execute_files ht).weaken (fun _ _ ht => ?_) fun _ _ ht => ht)
    refine SatE.bind ((editKv_files ht).weaken (fun _ _ ht => ?_) fun _ _ ht => ht)
    exact SatE.pure ht
  · dsimp only
    split
    · exact moved_sat _ _
    · exact Sat.pure (by simp)

/-- A failed `reprocess_dlq_message` leaves no trace. -/
theorem reprocessDlqMessage_untorn (hsaved : s.saved = none) (key : String) :
    Untorn s (reprocessDlqMessage env key) := by
  refine untorn_bind (untorn_sat hsaved ?_) (fun _ => rfl) fun queue t => ?_
  · refine SatE.bind ((query_files ⟨rfl, rfl⟩).weaken (fun _ _ ht => ?_) fun _ _ ht => ht)
    refine SatE.bind ((execute_files ht).weaken (fun _ _ ht => ?_) fun _ _ ht => ht)
    refine SatE.bind ((editKv_files ht).weaken (fun _ _ ht => ?_) fun _ _ ht => ht)
    exact SatE.pure ht
  · dsimp only
    split
    · exact moved_sat _ _
    · exact Sat.pure (by simp)

/-- A statement outside a transaction. -/
theorem execute_untorn (f : Tables → Tables) :
    Untorn s (ExceptT.run (execute id (always f))) :=
  Sat.weaken (SatE.execute_always (Q := fun _ _ => True)
    (E := fun _ t => t.data = s.data ∧ t.files = s.files) trivial fun _ _ => ⟨rfl, rfl⟩) (by
      rintro (e | u) t ht e' he
      · exact ht
      · cases he)

/-- A failed `save_policy` leaves no trace. -/
theorem savePolicy_untorn (queue : String) (policy : QueuePolicy) :
    Untorn s (savePolicy env queue policy) := by
  refine Sat.bind (Sat.onFiles ?_ (by simp) fun _ _ => execute_untorn _)
  rintro _ _ ⟨rfl, rfl⟩
  exact execute_untorn _

/-- An operation that is never torn, as its call. -/
theorem Untorn.status {m : Program Store Status} (h : Untorn s m) :
    Sat True (fun _ => True) s (do return Reply.status (← m)) fun reply t =>
      reply.failed = true → Unchanged s t := by
  refine Sat.bind (h.weaken fun r t ht => Sat.pure fun hfailed => ?_)
  cases r with
  | ok u => cases hfailed
  | error e =>
    obtain ⟨hdata, hfiles⟩ := ht e rfl
    exact ⟨hdata, fun _ _ _ => by rw [hfiles]⟩

/-- A failed sweep leaves no trace: it has one update. -/
theorem updateCounting_untorn (p : IndexRow → Bool) (f : IndexRow → IndexRow) :
    Sat True (fun _ => True) s (do return Reply.ofCount (← updateCounting p f)) fun reply t =>
      reply.failed = true → Unchanged s t := by
  refine Sat.bind (Sat.bind (Sat.prim ?_ (by simp [Conn.reading]) ?_))
  · rintro n t ⟨rfl, rfl⟩
    refine ⟨trivial, ?_⟩
    split
    case h_1 => exact Sat.pure (Sat.pure fun _ => Unchanged.refl s)
    case h_2 => exact Sat.pure (Sat.pure fun _ => Unchanged.refl s)
    case h_3 =>
      refine Sat.bind ((execute_untorn _).weaken fun r t ht => ?_)
      cases r with
      | error e =>
        obtain ⟨hdata, hfiles⟩ := ht e rfl
        exact Sat.pure (Sat.pure fun _ => ⟨hdata, fun _ _ _ => by rw [hfiles]⟩)
      | ok u => exact Sat.pure (Sat.pure fun hfailed => by cases hfailed)
  · exact fun _ _ => Sat.pure (Sat.pure fun _ => Unchanged.refl s)

/-! ### Primitives under a plan -/

section Plan

variable {faults : List (Option String)} {n : Nat} {Q : Nat → α → Store → Prop}
  {E : Nat → Option String → Store → Prop}

/-- The rule of a statement under a plan of faults. -/
theorem PlannedE.execute {describe : String → String} {f : Tables → Except String (α × Tables)}
    (hfault : fault faults n ≠ none → ∀ e, E (n + 1) e s)
    (hok : fault faults n = none → ∀ a data, f s.data = .ok (a, data) →
      Q (n + 1) a { s with data })
    (herr : fault faults n = none → ∀ text, f s.data = .error text →
      E (n + 1) (some (describe text)) s) :
    PlannedE faults n s (Hybrid.execute describe f) Q E :=
  Planned.bind <| Planned.onData
    (fun text h => Planned.pure (hfault (by simp [h]) (some (describe text))))
    (fun h a data hf => Planned.pure (hok h a data hf))
    (fun h text hf => Planned.pure (herr h text hf))

/-- The rule of a query under a plan of faults. -/
theorem PlannedE.query {error : Option String} {g : Tables → Option α}
    (hfault : fault faults n ≠ none → E (n + 1) error s)
    (hsome : fault faults n = none → ∀ a, g s.data = some a → Q (n + 1) a s)
    (hnone : fault faults n = none → g s.data = none → E (n + 1) error s) :
    PlannedE faults n s (Hybrid.query error g) Q E := by
  refine PlannedE.attemptOr hfault ?_ ?_
  · intro h a t hresult
    cases hg : g s.data with
    | none => simp [Conn.onData, selecting, hg, Except.map] at hresult
    | some b =>
      simp only [Conn.onData, selecting, hg, Except.map, Except.ok.injEq, Prod.mk.injEq] at hresult
      obtain ⟨rfl, rfl⟩ := hresult
      exact hsome h _ hg
  · intro h text hresult
    cases hg : g s.data with
    | none => exact hnone h hg
    | some b => simp [Conn.onData, selecting, hg, Except.map] at hresult

/-- The rule of a move, which a fault or a missing file keeps from happening. -/
theorem movePayload_planned {src dest : String} {Q : Nat → Unit → Store → Prop}
    (hstays : fault faults n ≠ none ∨ s.files.lookup src = none → Q (n + 1) () s)
    (hmoved : fault faults n = none → ∀ text, s.files.lookup src = some text →
      Q (n + 1) () { s with files := Files.renamed src dest text s.files }) :
    Planned faults n s (movePayload src dest) Q := by
  refine Planned.bind (Planned.onFiles ?_ ?_ ?_)
  · exact fun text h => Planned.pure (hstays (.inl (by simp [h])))
  · intro h a files hrename
    unfold Files.rename at hrename
    split at hrename
    case h_1 => cases hrename
    case h_2 text htext =>
      simp only [Except.ok.injEq, Prod.mk.injEq] at hrename
      obtain ⟨-, rfl⟩ := hrename
      exact Planned.pure (hmoved h text htext)
  · intro h text hrename
    unfold Files.rename at hrename
    split at hrename
    case h_1 hnone => exact Planned.pure (hstays (.inr hnone))
    case h_2 => cases hrename

/-- A write that fails leaves every file but the temporary one as it was. -/
theorem atomicWrite_planned {path : String} {text : JsonText}
    {Q : Nat → Except String Unit → Store → Prop}
    (hfailed : ∀ k e files, fault faults n ≠ none ∨ fault faults (n + 1) ≠ none →
      (∀ p, p ≠ path ++ ".tmp" → files.lookup p = s.files.lookup p) →
      Q k (.error e) { s with files })
    (hok : fault faults n = none → fault faults (n + 1) = none → ∀ files : Payloads,
      (∀ p, p ≠ path ++ ".tmp" →
        files.lookup p = if p = path then some text else s.files.lookup p) →
      Q (n + 2) (.ok ()) { s with files }) :
    Planned faults n s (atomicWrite path text) Q := by
  refine Planned.bind (Planned.onFiles ?_ ?_ (by simp [Files.create]))
  · exact fun e hfault => Planned.pure (hfailed _ _ _ (.inl (by simp [hfault])) fun _ _ => rfl)
  rintro hcreate _ _ ⟨rfl, rfl⟩
  refine Planned.bind (Planned.onFiles ?_ ?_ ?_)
  · intro e hfault
    have hwhy : fault faults n ≠ none ∨ fault faults (n + 1) ≠ none := .inr (by simp [hfault])
    refine Planned.bind (Planned.onFiles ?_ ?_ (by simp [Files.remove]))
    · intro _ _
      refine Planned.pure (hfailed _ _ _ hwhy fun p hp => ?_)
      rw [Files.lookup_insert', if_neg hp]
    · rintro _ _ _ ⟨rfl, rfl⟩
      refine Planned.pure (hfailed _ _ _ hwhy fun p hp => ?_)
      rw [Files.lookup_erase', if_neg hp, Files.lookup_insert', if_neg hp]
  · intro hrename a files hrenamed
    simp only [Files.rename, AList.lookup_insert, Except.ok.injEq, Prod.mk.injEq] at hrenamed
    obtain ⟨-, rfl⟩ := hrenamed
    refine Planned.pure (hok hcreate hrename _ fun p hp => ?_)
    rw [Files.lookup_renamed, if_neg hp, Files.lookup_insert', if_neg hp]
  · intro _ e hrenamed
    simp [Files.rename] at hrenamed

end Plan

/-! ### The torn calls -/

/-- A payload in `active/` is not the one in `dlq/`. -/
theorem active_ne_dlq (queue id : String) :
    payloadPath .active queue id ≠ payloadPath .dlq queue id := by
  intro heq
  have hlist := congrArg String.toList heq
  rw [toList_payloadPath, toList_payloadPath] at hlist
  have hdir := List.append_cancel_left hlist
  rw [List.append_assoc, List.append_assoc] at hdir
  simpa [PayloadDir.name] using List.append_cancel_left hdir

/-- A payload that has been moved to the dead letters is not where it was. -/
theorem not_unchanged_moved {queue id : String} {text : JsonText}
    (hfile : s.files.lookup (payloadPath .active queue id) = some text) {t : Store}
    (hfiles : t.files = Files.renamed (payloadPath .active queue id) (payloadPath .dlq queue id)
      text s.files) : ¬Unchanged s t := by
  rintro ⟨-, hsame⟩
  have hlookup := hsame .active queue id
  rw [hfiles, Files.lookup_renamed, if_neg (active_ne_dlq queue id), if_pos rfl, hfile] at hlookup
  cases hlookup

/-- The call has left a trace after a failure exactly when it is torn. -/
def Judged (schema : SchemaFile) (env : Env) (call : Call) (s : Store) (failed : Bool)
    (t : Store) : Prop :=
  (failed = true → Unchanged s t) ↔ ¬Torn schema env call s

/-- What leaves no trace is judged right where it must leave none. -/
theorem Judged.unchanged {call : Call} {failed : Bool} (hsame : Unchanged s t)
    (huntorn : ¬Torn schema env call s) : Judged schema env call s failed t :=
  ⟨fun _ => huntorn, fun _ _ => hsame⟩

/-- What succeeds is judged right where it must. -/
theorem Judged.done {call : Call} (huntorn : ¬Torn schema env call s) :
    Judged schema env call s false t :=
  ⟨fun _ => huntorn, fun _ hfailed => by cases hfailed⟩

/-- What leaves a trace is judged right where it must leave one. -/
theorem Judged.torn {call : Call} (htrace : ¬Unchanged s t) (htorn : Torn schema env call s) :
    Judged schema env call s true t :=
  ⟨fun hsame => absurd (hsame rfl) htrace, fun huntorn => absurd htorn huntorn⟩

/-- A call whose untouched tables and files are as they were. -/
theorem Unchanged.of_eq (hdata : t.data = s.data) (hfiles : t.files = s.files) : Unchanged s t :=
  ⟨hdata, fun _ _ _ => by rw [hfiles]⟩

/-- How `nack` without requeueing is judged. -/
theorem bury_planned (hsaved : s.saved = none) (lease : LeaseToken) (reason : String) :
    Planned env.faults 0 s (nack env lease reason false) fun _ r t =>
      Judged schema env (.nack lease reason false) s (Reply.status r).failed t := by
  have hcalm : ∀ n, n < 3 ∨ n = 4 → fault env.faults n ≠ none →
      ¬Torn schema env (.nack lease reason false) s := by
    rintro n hn hfault ⟨hearly, hmove, -⟩
    rcases hn with hn | rfl
    · exact hfault (hearly n hn)
    · exact hfault hmove
  have hsame : ∀ {t : Store}, t.data = s.data → t.files = s.files →
      ¬Torn schema env (.nack lease reason false) s → ∀ failed,
      Judged schema env (.nack lease reason false) s failed t :=
    fun hdata hfiles huntorn _ => .unchanged (.of_eq hdata hfiles) huntorn
  refine Planned.transaction hsaved (fun hfault e => ?_) fun hbegin => ?_
  · exact hsame rfl rfl (hcalm 0 (by omega) hfault) _
  refine PlannedE.bind (PlannedE.query ?_ ?_ ?_)
  · exact fun hfault => ⟨rfl, hsame rfl rfl (hcalm 1 (by omega) hfault) _⟩
  · intro hquery queue hqueue
    refine PlannedE.bind (PlannedE.execute ?_ ?_ (by simp [always]))
    · exact fun hfault e => ⟨rfl, hsame rfl rfl (hcalm 2 (by omega) hfault) _⟩
    · rintro hupdate _ _ ⟨rfl, rfl⟩
      have hearly : ∀ n < 3, fault env.faults n = none := by
        intro n hn
        obtain rfl | rfl | rfl : n = 0 ∨ n = 1 ∨ n = 2 := by omega
        · exact hbegin
        · exact hquery
        · exact hupdate
      -- whatever becomes of the edited value, the payload is moved next and then the COMMIT comes
      have hmove : ∀ data : Tables, PlannedE env.faults 4 { s with data, saved := some s.data }
          (ExceptT.lift (movePayload
            (buildPayloadPath queue (extractMessageIdFromKey lease.messageKey))
            (buildDlqPath queue (extractMessageIdFromKey lease.messageKey))))
          (fun k u t => t.saved = some s.data ∧
            (fault env.faults k = none → Judged schema env (.nack lease reason false) s
              (Reply.status (.ok u)).failed { t with saved := none }) ∧
            (fault env.faults k ≠ none → ∀ e, Judged schema env (.nack lease reason false) s
              (Reply.status (.error e)).failed { t with data := s.data, saved := none }))
          (fun k e t => t.saved = some s.data ∧ Judged schema env (.nack lease reason false) s
            (Reply.status (.error e)).failed { t with data := s.data, saved := none }) := by
        intro data
        refine PlannedE.lift (movePayload_planned ?_ ?_)
        · intro hstays
          have huntorn : ¬Torn schema env (.nack lease reason false) s := by
            rintro ⟨-, hmove, -, queue', hqueue', hfile⟩
            obtain rfl := Option.some.inj (hqueue.symm.trans hqueue')
            rcases hstays with hfault | hnone
            · exact hfault hmove
            · exact hfile hnone
          exact ⟨rfl, fun _ => .done huntorn, fun _ _ => hsame rfl rfl huntorn _⟩
        · intro hmoved text htext
          refine ⟨rfl, fun hcommit => .done ?_, fun hcommit e => .torn ?_ ?_⟩
          · rintro ⟨-, -, hfault, -⟩
            exact hfault hcommit
          · exact not_unchanged_moved (s := s) htext rfl
          · refine ⟨hearly, hmoved, hcommit, queue, hqueue, ?_⟩
            rw [htext]
            exact Option.some_ne_none _
      refine PlannedE.bind (PlannedE.orDefault (PlannedE.execute ?_ ?_ ?_))
      · exact fun _ _ => hmove _
      · exact fun _ _ data _ => hmove data
      · exact fun _ _ _ => hmove _
  · intro _ hnone
    refine ⟨rfl, hsame rfl rfl ?_ _⟩
    rintro ⟨-, -, -, queue, hqueue, -⟩
    rw [hnone] at hqueue
    cases hqueue

/-- Leasing changes the row. -/
theorem leased_ne {data : Tables} {queue c : String} {now u : Int} {row : IndexRow}
    (hrow : data.readyRow? schema queue c now = some row) : leased row u data ≠ data := by
  intro heq
  obtain ⟨hmem, hready⟩ := Tables.readyRow?_some hrow
  have hstate : row.state = .ready := by
    simp only [Tables.isReadyFor, decide_eq_true_eq] at hready
    exact hready.2.1
  rw [← heq] at hmem
  obtain ⟨r, -, hr⟩ := List.mem_map.mp hmem
  by_cases hkey : r.messageKey = row.messageKey
  · rw [if_pos (by simpa using hkey)] at hr
    rw [← hr] at hstate
    cases hstate
  · rw [if_neg (by simpa using hkey)] at hr
    exact hkey (congrArg IndexRow.messageKey hr)

/-- How the transaction of `lease_next` ends. -/
theorem leaseRow_planned (hsaved : s.saved = none) (queue c : String) (timeout : Int) :
    Planned env.faults 0 s
      (transaction (leaseRow schema queue c env.now (env.now + timeout * 1000))) fun k r t =>
      match r with
      | .error _ => Unchanged s t ∧ ¬Torn schema env (.leaseNext queue c timeout) s
      | .ok (row, value) => k = 5 ∧ (∀ n < 5, fault env.faults n = none) ∧
        s.data.readyRow? schema queue c env.now = some row ∧
        s.data.value? row.messageKey = some value ∧
        t.data = leased row (env.now + timeout * 1000) s.data ∧ t.files = s.files := by
  -- A fault in one of the five statements rules out what `Torn` says.
  have hcalm : ∀ n < 5, fault env.faults n ≠ none →
      ¬Torn schema env (.leaseNext queue c timeout) s := fun n hn hfault htorn => hfault (htorn.1 n hn)
  refine Planned.transaction hsaved (fun hfault e => ?_) fun hbegin => ?_
  · exact ⟨Unchanged.refl s, hcalm 0 (by omega) hfault⟩
  refine PlannedE.bind (PlannedE.query ?_ ?_ ?_)
  · exact fun hfault => ⟨rfl, .of_eq rfl rfl, hcalm 1 (by omega) hfault⟩
  · intro hselect row hrow
    -- A row is selected and updated.
    refine PlannedE.bind (PlannedE.execute ?_ ?_ (by simp [always]))
    · exact fun hfault e => ⟨rfl, .of_eq rfl rfl, hcalm 2 (by omega) hfault⟩
    · rintro hupdate _ _ ⟨rfl, rfl⟩
      refine PlannedE.bind (PlannedE.query ?_ ?_ ?_)
      · exact fun hfault => ⟨rfl, .of_eq rfl rfl, hcalm 3 (by omega) hfault⟩
      · intro hvalue value hfound
        -- The value is found, so only the commit can fail.
        refine PlannedE.pure ⟨rfl, fun hcommit => ?_, fun hfault e => ?_⟩
        · refine ⟨rfl, fun n hn => ?_, hrow, hfound, rfl, rfl⟩
          obtain rfl | rfl | rfl | rfl | rfl : n = 0 ∨ n = 1 ∨ n = 2 ∨ n = 3 ∨ n = 4 := by omega
          · exact hbegin
          · exact hselect
          · exact hupdate
          · exact hvalue
          · exact hcommit
        · exact ⟨.of_eq rfl rfl, hcalm 4 (by omega) hfault⟩
      -- No value under the key: the error is reported whatever faults there are.
      · intro _ hnone
        refine ⟨rfl, .of_eq rfl rfl, ?_⟩
        rintro ⟨-, row', value, hrow', hvalue, -⟩
        obtain rfl := Option.some.inj (hrow.symm.trans hrow')
        have hsome : s.data.value? row.messageKey = none := hnone
        rw [hsome] at hvalue
        cases hvalue
  -- No row is ready, and there is nothing to tear.
  · intro _ hnone
    refine ⟨rfl, .of_eq rfl rfl, ?_⟩
    rintro ⟨-, row, value, hrow, -⟩
    have hsome : s.data.readyRow? schema queue c env.now = none := hnone
    rw [hsome] at hrow
    cases hrow

/-- How `lease_next` is judged. -/
theorem leaseNext_planned (hsaved : s.saved = none) (queue c : String) (timeout : Int) :
    Planned env.faults 0 s (leaseNext schema env queue c timeout) fun _ r t =>
      Judged schema env (.leaseNext queue c timeout) s (Reply.lease r).failed t := by
  refine Planned.bind ((leaseRow_planned hsaved queue c timeout).weaken fun k r t ht => ?_)
  rcases r with e | ⟨row, value⟩
  · exact Planned.pure (.unchanged ht.1 ht.2)
  · obtain ⟨rfl, hearly, hrow, hvalue, hdata, hfiles⟩ := ht
    have htrace : ∀ {u : Store}, u.data = t.data → ¬Unchanged s u := by
      intro u hu hsame
      exact leased_ne hrow (hdata.symm.trans (hu.symm.trans hsame.1))
    -- the transaction has committed; what follows depends on the texts only
    have huntorn : ¬Unreadable env s.files row value →
        ¬Torn schema env (.leaseNext queue c timeout) s := by
      rintro hreadable ⟨-, row', value', hrow', hvalue', hunreadable⟩
      obtain rfl := Option.some.inj (hrow.symm.trans hrow')
      obtain rfl := Option.some.inj (hvalue.symm.trans hvalue')
      exact hreadable hunreadable
    refine Planned.bind ?_
    unfold readMessage
    split
    case h_1 hnone =>
      refine Planned.pure (Planned.pure (.torn (htrace rfl) ?_))
      exact ⟨hearly, row, value, hrow, hvalue, fun envelope h => by simp [hnone] at h⟩
    case h_2 envelope henvelope =>
      refine Planned.bind (Planned.onFiles ?_ ?_ ?_)
      · intro text hfault
        refine Planned.pure (Planned.pure (.done (huntorn fun h => ?_)))
        rw [(h envelope henvelope).1] at hfault
        cases hfault
      · intro hread text files hresult
        unfold Files.read at hresult
        split at hresult
        case h_1 => cases hresult
        case h_2 content hcontent =>
          simp only [Except.ok.injEq, Prod.mk.injEq] at hresult
          obtain ⟨rfl, rfl⟩ := hresult
          rw [hfiles] at hcontent
          refine Planned.pure ?_
          cases hpayload : withPayload envelope (.ok content) with
          | none =>
            refine Planned.pure (.torn (htrace rfl) ?_)
            refine ⟨hearly, row, value, hrow, hvalue, fun envelope' h => ?_⟩
            obtain rfl := Option.some.inj (henvelope.symm.trans h)
            exact ⟨hread, content, hcontent, hpayload⟩
          | some message =>
            refine Planned.pure (.done (huntorn fun h => ?_))
            obtain ⟨-, text, htext, hnone⟩ := h envelope henvelope
            obtain rfl := Option.some.inj (hcontent.symm.trans htext)
            rw [hpayload] at hnone
            cases hnone
      · intro _ text hresult
        unfold Files.read at hresult
        split at hresult
        case h_1 hmissing =>
          rw [hfiles] at hmissing
          refine Planned.pure (Planned.pure (.done (huntorn fun h => ?_)))
          obtain ⟨-, text, htext, -⟩ := h envelope henvelope
          rw [hmissing] at htext
          cases htext
        case h_2 => cases hresult

/-! ### Publishing -/

/-- Nothing in the store is in the way of the message. -/
structure Vacant (m : MessageEnvelope) (s : Store) : Prop where
  value : m.key ∉ s.data.kv.map KvRow.key
  row : m.key ∉ s.data.index.map IndexRow.messageKey
  file : s.files.lookup (payloadPath .active m.queue m.messageId) = none

variable {m : MessageEnvelope}

/-- A statement of `enqueue` has failed after the payload has been written: everything is rolled
    back and the payload removed. -/
theorem undo_planned (hvacant : Vacant m s) {n : Nat} (hn : 4 ≤ n ∧ n < 7)
    (hearly : ∀ k < n, fault env.faults k = none) (hfault : fault env.faults n ≠ none)
    (hopen : t.saved = some s.data)
    (hfiles : ∀ dir queue id, t.files.lookup (payloadPath dir queue id) =
      if payloadPath dir queue id = payloadPath .active m.queue m.messageId
      then some (some (payloadJson m)) else s.files.lookup (payloadPath dir queue id))
    (e : Option String) :
    Planned env.faults (n + 1) t (undoEnqueue (buildPayloadPath m.queue m.messageId) e)
      fun _ reply u => Judged schema env (.enqueue m) s reply.failed u := by
  refine Planned.bind (Planned.modify (Planned.bind ?_))
  have hback : t.rolledBack.data = s.data := by simp [Conn.rolledBack, hopen]
  refine Planned.onFiles ?_ ?_ (by simp [Files.remove])
  · intro text hremove
    refine Planned.pure (.torn ?_ ?_)
    · rintro ⟨-, hsame⟩
      have hleft := hfiles .active m.queue m.messageId
      rw [if_pos rfl] at hleft
      have hlookup : t.files.lookup (payloadPath .active m.queue m.messageId) = none :=
        (hsame .active m.queue m.messageId).trans hvacant.file
      rw [hleft] at hlookup
      cases hlookup
    · refine ⟨fun k hk => hearly k (by omega), n, hn.1, hn.2, hearly, hfault, ?_⟩
      rw [hremove]
      exact Option.some_ne_none _
  · rintro hremove _ _ ⟨rfl, rfl⟩
    refine Planned.pure (.unchanged ⟨hback, fun dir queue id => ?_⟩ ?_)
    · show AList.lookup _ (t.files.erase _) = _
      rw [Files.lookup_erase', hfiles]
      split
      case isTrue heq =>
        have hpath : payloadPath dir queue id = payloadPath .active m.queue m.messageId := heq
        rw [hpath, hvacant.file]
      case isFalse hne => exact if_neg hne
    · rintro ⟨-, n', hlow, hhigh, hearly', hfault', hremove'⟩
      -- the failure is the first one in both
      obtain rfl : n' = n := by
        rcases Nat.lt_trichotomy n' n with hlt | heq | hgt
        · exact absurd (hearly n' hlt) hfault'
        · exact heq
        · exact absurd (hearly' n hgt) hfault
      exact hremove' hremove

/-- The two inserts of a vacant message fail only under the plan. -/
theorem insertMessage_planned (hvacant : Vacant m s) {files : Payloads} :
    PlannedE env.faults 4 { s with saved := some s.data, files } (insertMessage schema env m)
      (fun k _ t => k = 6 ∧ fault env.faults 4 = none ∧ fault env.faults 5 = none ∧
        t.saved = some s.data ∧ t.files = files)
      (fun k _ t => ∃ n, k = n + 1 ∧ (4 ≤ n ∧ n < 6) ∧
        (∀ j, 4 ≤ j → j < n → fault env.faults j = none) ∧ fault env.faults n ≠ none ∧
        t.saved = some s.data ∧ t.files = files) := by
  refine PlannedE.bind (PlannedE.execute ?_ ?_ ?_)
  · exact fun hfault e => ⟨4, rfl, by omega, by omega, hfault, rfl, rfl⟩
  · intro hkv _ data hinserted
    obtain ⟨-, rfl⟩ := Tables.insertKv_ok hinserted
    refine PlannedE.execute ?_ ?_ ?_
    · refine fun hfault e => ⟨5, rfl, by omega, fun j hj hlt => ?_, hfault, rfl, rfl⟩
      obtain rfl : j = 4 := by omega
      exact hkv
    · exact fun hindex _ _ _ => ⟨rfl, hkv, hindex, rfl, rfl⟩
    · intro _ text hrefused
      rcases Tables.insertIndex_error hrefused with hfk | hpk
      · simp [newRow] at hfk
      · exact absurd hpk hvacant.row
  · exact fun _ text hrefused => absurd (Tables.insertKv_error hrefused) hvacant.value

/-- How `enqueue` of a vacant message is judged. -/
theorem enqueue_planned (hsaved : s.saved = none) (hvacant : Vacant m s) :
    Planned env.faults 0 s (enqueue schema env m) fun _ reply t =>
      Judged schema env (.enqueue m) s reply.failed t := by
  -- The first four primitives leave no row, so a fault in one of them tears nothing.
  have hcalm : ∀ n < 4, fault env.faults n ≠ none → ¬Torn schema env (.enqueue m) s :=
    fun n hn hfault htorn => hfault (htorn.1 n hn)
  have htemp : ∀ dir queue id, payloadPath dir queue id ≠
      payloadPath .active m.queue m.messageId ++ ".tmp" :=
    fun dir queue id => payloadPath_ne_temp _ _ _ _
  refine Planned.bind (Planned.onFiles ?_ ?_ (by simp))
  · exact fun text hfault => Planned.pure
      (.unchanged (Unchanged.refl s) (hcalm 0 (by omega) (by simp [hfault])))
  rintro hdirs _ _ ⟨rfl, rfl⟩
  refine Planned.bind (Planned.prim ?_ ?_ ?_)
  · exact fun text hfault => Planned.pure
      (.unchanged (.of_eq rfl rfl) (hcalm 1 (by omega) (by simp [hfault])))
  · intro hbegin _ t hbegun
    simp only [Conn.begun, hsaved, Option.isSome_none, Bool.false_eq_true, if_false,
      Except.ok.injEq, Prod.mk.injEq] at hbegun
    obtain ⟨-, rfl⟩ := hbegun
    refine Planned.bind (atomicWrite_planned ?_ ?_)
    -- The payload is not written.
    · intro k e files hwhy hfiles
      refine Planned.bind (Planned.modify (Planned.pure (.unchanged ?_ ?_)))
      · exact ⟨rfl, fun dir queue id => hfiles _ (htemp dir queue id)⟩
      · rcases hwhy with hfault | hfault
        · exact hcalm 2 (by omega) hfault
        · exact hcalm 3 (by omega) hfault
    -- It is written: from here on a failure goes through the clean-up.
    · intro hcreate hrename files hfiles
      have hwritten : ∀ dir queue id, files.lookup (payloadPath dir queue id) =
          if payloadPath dir queue id = payloadPath .active m.queue m.messageId
          then some (some (payloadJson m)) else s.files.lookup (payloadPath dir queue id) :=
        fun dir queue id => hfiles _ (htemp dir queue id)
      have hearly : ∀ k < 4, fault env.faults k = none := by
        intro k hk
        obtain rfl | rfl | rfl | rfl : k = 0 ∨ k = 1 ∨ k = 2 ∨ k = 3 := by omega
        · exact hdirs
        · exact hbegin
        · exact hcreate
        · exact hrename
      refine Planned.bind (Planned.weaken (insertMessage_planned hvacant) fun k r t ht => ?_)
      cases r with
      -- An insertion fails: the clean-up removes the payload file.
      | error e =>
        obtain ⟨n, rfl, hn, hcalm', hfault, hopen, hsame⟩ := ht
        refine undo_planned hvacant (by omega) (fun k hk => ?_) hfault hopen
          (fun dir queue id => by rw [hsame]; exact hwritten dir queue id) e
        by_cases hk4 : k < 4
        · exact hearly k hk4
        · exact hcalm' k (by omega) hk
      | ok u =>
        obtain ⟨rfl, hkv, hindex, hopen, hsame⟩ := ht
        refine Planned.bind (Planned.prim ?_ ?_ ?_)
        -- The commit fails: the clean-up does the same.
        · intro text hfault
          refine undo_planned hvacant (by omega) (fun k hk => ?_) (by simp [hfault]) hopen
            (fun dir queue id => by rw [hsame]; exact hwritten dir queue id) (some text)
          by_cases hk4 : k < 4
          · exact hearly k hk4
          · obtain rfl | rfl : k = 4 ∨ k = 5 := by omega
            · exact hkv
            · exact hindex
        -- Nothing has failed.
        · intro hcommit _ u _
          refine Planned.pure (.done ?_)
          rintro ⟨-, n, hlow, hhigh, -, hfault, -⟩
          obtain rfl | rfl | rfl : n = 4 ∨ n = 5 ∨ n = 6 := by omega
          · exact hfault hkv
          · exact hfault hindex
          · exact hfault hcommit
        · intro _ text hcommitted
          simp [Conn.committed, hopen] at hcommitted
  · intro _ text hbegun
    simp [Conn.begun, hsaved] at hbegun

/-! ### Every call -/

/-- Nothing is in the way of a fresh message. -/
theorem vacant_of_fresh {published : List MessageEnvelope} (hwell : WellPublished published)
    (howned : Owned published s) {files : Payloads}
    (hfiles : ∀ path, files.lookup path ≠ none → s.files.lookup path ≠ none)
    (hfresh : (Call.enqueue m).Fresh published) : Vacant m { s with files } := by
  obtain ⟨hkey, -, hid, hnew⟩ := hfresh
  have hunused : ∀ m' ∈ published, m'.key ≠ m.key := by
    intro m' hm' heq
    obtain ⟨hkey', hid'⟩ := hwell.formed m' hm'
    have hsame := (messageKey_inj hid' hid (hkey'.symm.trans (heq.trans hkey))).2
    exact hnew (hsame ▸ List.mem_map_of_mem hm')
  refine ⟨fun hmem => ?_, fun hmem => ?_, ?_⟩
  · obtain ⟨r, hr, hrkey⟩ := List.mem_map.mp hmem
    rcases howned.data.values r hr with hpublished | ⟨q, hpolicy⟩
    · obtain ⟨m', hm', heq⟩ := List.mem_map.mp hpublished
      exact hunused m' hm' (heq.trans hrkey)
    · exact policyKey_ne q m.queue m.messageId (hpolicy.symm.trans (hrkey.trans hkey))
  · obtain ⟨r, hr, hrkey⟩ := List.mem_map.mp hmem
    obtain ⟨m', hm', heq, -⟩ := howned.data.rows r hr
    exact hunused m' hm' (heq.trans hrkey)
  · by_contra hfile
    obtain ⟨text, htext⟩ := Option.ne_none_iff_exists'.mp (hfiles _ hfile)
    obtain ⟨m', hm', -, hpath⟩ := howned.files _ _ htext
    have hslash : '/' ∉ m'.messageId.toList := not_slash_of_guid (hwell.formed m' hm').2
    rcases hpath with ⟨dir, heq⟩ | heq
    · have hsame := (payloadPath_inj (not_slash_of_guid hid) hslash heq).2.2
      exact hnew (hsame ▸ List.mem_map_of_mem hm')
    · exact absurd heq (payloadPath_ne_temp _ _ _ _)

/-- An operation that is never torn, as its call. -/
theorem Judged.of_sat {call : Call} {m : Program Store Reply} (huntorn : ¬Torn schema env call s)
    (hsat : Sat True (fun _ => True) s m fun reply t => reply.failed = true → Unchanged s t) :
    Judged schema env call s (m.run env.faults s).1.failed (m.run env.faults s).2 :=
  ⟨fun _ => huntorn, fun _ => (hsat.run (.inl trivial) trivial).1⟩

/-- An operation that is judged under its plan, as its call. -/
theorem Judged.of_planned {call : Call} {m : Program Store Status}
    (hplanned : Planned env.faults 0 s m fun _ r t =>
      Judged schema env call s (Reply.status r).failed t) :
    Judged schema env call s
      ((do return Reply.status (← m) : Program Store Reply).run env.faults s).1.failed
      ((do return Reply.status (← m) : Program Store Reply).run env.faults s).2 := by
  obtain ⟨_, hjudged⟩ := hplanned.run
  exact hjudged

/-- **A call that reports failure has changed nothing, exactly when it is not torn**, in every
    store that calls can reach, whatever the payload files hold and whichever primitives fail. -/
theorem failure_atomic_iff {h : History Store (Env × Call) Reply} {s : Store}
    (run : Run (adapter schema).machine (lifecycle schema).Admitted h s) {files : Payloads}
    (hfiles : ∀ path, files.lookup path ≠ none → s.files.lookup path ≠ none) {env : Env}
    {call : Call} (hadmitted : (lifecycle schema).Admitted h s (env, call)) :
    (((adapter schema).perform env call { s with files }).1.failed = true →
      Unchanged { s with files } ((adapter schema).perform env call { s with files }).2) ↔
    ¬Torn schema env call { s with files } := by
  have hkeeps : Keeps (publishedBy h) s := ((lifecycle schema).inv_of_run run).1
  obtain ⟨hwell, howned⟩ := owned_of_run (fun _ _ _ ok => ok.fresh) run
  have hsaved : ({ s with files } : Store).saved = none := hkeeps.saved
  suffices hjudged : Judged schema env call { s with files }
      ((adapter schema).perform env call { s with files }).1.failed
      ((adapter schema).perform env call { s with files }).2 from hjudged
  -- Only `enqueue`, `lease_next` and a `nack` into the DLQ can be torn.
  cases call with
  | enqueue message =>
    have hvacant := vacant_of_fresh hwell howned hfiles hadmitted.fresh
    obtain ⟨_, hj⟩ := (enqueue_planned hsaved hvacant).run
    exact hj
  | leaseNext queue c timeout =>
    obtain ⟨_, hj⟩ := (leaseNext_planned hsaved queue c timeout).run
    exact hj
  | nack lease reason requeue =>
    cases requeue with
    | true => exact .of_sat (fun h => h) (requeue_untorn hsaved lease reason).status
    | false => exact .of_planned (bury_planned hsaved lease reason)
  | ack lease => exact .of_sat (fun h => h) (ack_untorn hsaved lease).status
  | extendLease lease timeout => exact .of_sat (fun h => h) (execute_untorn _).status
  | savePolicy queue policy => exact .of_sat (fun h => h) (savePolicy_untorn queue policy).status
  | recoverExpiredLeases => exact .of_sat (fun h => h) (updateCounting_untorn _ _)
  | processDelayedMessages => exact .of_sat (fun h => h) (updateCounting_untorn _ _)
  | delayMessage key delayMs => exact .of_sat (fun h => h) (execute_untorn _).status
  | moveToDlq key reason => exact .of_sat (fun h => h) (moveToDlq_untorn hsaved key reason).status
  | reprocessDlqMessage key =>
    exact .of_sat (fun h => h) (reprocessDlqMessage_untorn hsaved key).status

/-! ### Two torn calls -/

section Example

/-- The store after one message has been published. -/
def onePublished : Store :=
  ((adapter .mainMq).perform ⟨1, by decide, "", []⟩
    (.enqueue ⟨"msg:q:a", "a", "q", "1", "", 0, 0, 0, 0, ""⟩) (adapter .mainMq).start).2

/-- The COMMIT of `nack` fails: the rows are as before, but the payload of the message, which is
    still leased, lies among the dead letters. -/
theorem torn_nack :
    let leased := ((adapter .mainMq).perform ⟨2, by decide, "", []⟩ (.leaseNext "q" "c" 30)
      onePublished).2
    let failing := (adapter .mainMq).perform
      ⟨3, by decide, "", List.replicate 5 none ++ [some "disk I/O error"]⟩
      (.nack ⟨"", "msg:q:a", "c", 30002⟩ "bad" false) leased
    failing.1.failed = true ∧
      failing.2.data.slot "msg:q:a" = some ⟨"q", "", 1, .inflight 30002⟩ ∧
      (leased.files.lookup "./data/payloads/q/active/a.json").isSome = true ∧
      (failing.2.files.lookup "./data/payloads/q/active/a.json").isSome = false ∧
      (failing.2.files.lookup "./data/payloads/q/dlq/a.json").isSome = true := by
  decide

/-- A payload file that does not parse: `lease_next` commits, reports failure and has changed the
    store. -/
theorem torn_leaseNext :
    let broken : Store :=
      { onePublished with files := AList.insert "./data/payloads/q/active/a.json" none ∅ }
    ¬(((adapter .mainMq).perform ⟨2, by decide, "", []⟩ (.leaseNext "q" "c" 30) broken).1.failed =
        true → Unchanged broken
          ((adapter .mainMq).perform ⟨2, by decide, "", []⟩ (.leaseNext "q" "c" 30) broken).2) := by
  intro broken hunchanged
  have hpublish : Call.Plain (.enqueue ⟨"msg:q:a", "a", "q", "1", "", 0, 0, 0, 0, ""⟩) := by decide
  have hlease : Call.Plain (.leaseNext "q" "c" 30) := by decide
  have hrun : Run (adapter .mainMq).machine (lifecycle .mainMq).Admitted
      [(adapter .mainMq).machine.stepAt (adapter .mainMq).start (⟨1, by decide, "", []⟩,
        .enqueue ⟨"msg:q:a", "a", "q", "1", "", 0, 0, 0, 0, ""⟩)] onePublished :=
    .step .start ⟨trivial, hpublish, by decide⟩
  have hfiles : ∀ path, broken.files.lookup path ≠ none → onePublished.files.lookup path ≠ none := by
    intro path hpath
    by_cases heq : path = "./data/payloads/q/active/a.json"
    · rw [heq]
      decide
    · exact absurd (by rw [Files.lookup_insert', if_neg heq]; rfl) hpath
  -- the row and its value are there, and the text of the file does not parse
  have htorn : Torn .mainMq ⟨2, by decide, "", []⟩ (.leaseNext "q" "c" 30) broken := by
    refine ⟨fun n _ => rfl, _, _, rfl, rfl, fun envelope henvelope => ?_⟩
    obtain rfl := Option.some.inj henvelope
    exact ⟨rfl, none, rfl, rfl⟩
  exact (failure_atomic_iff hrun hfiles ⟨trivial, hlease, trivial⟩).mp hunchanged htorn

end Example

end YirangMQ.Hybrid

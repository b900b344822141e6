import YirangMQ.Backends.Priority
import YirangMQ.Hybrid.Placement
import YirangMQ.Library.Serving

namespace YirangMQ

open Program

/-!
# How a queue is emptied

Calls of `lease_next` on one queue, by one consumer or by several, are requests to a server that
serves well: the backend gives each consumer the first of the messages that wait for it, in the
order of the backend, and answers that there is none only where there is none.

* `BackendType.Before` — the order in which a backend gives messages away;
* `leaseNext_serves` — one call of `lease_next`;
* `queue_shared` — **consumers that share a queue are not given a message twice, and none of them
  goes away empty while a message waits for it**;
* `queue_drained` — **a consumer that goes on asking is given every message that waits for it, in
  order, and then none.**
-/

/-! ### The order of rows -/

section Rows

variable {t : Tables} {queue c k k' : String} {now : Int} {published : List MessageEnvelope}

/-- The row of the first key comes before that of the second. -/
def Tables.Before (t : Tables) (k k' : String) : Prop :=
  ∃ r r', t.row? k = some r ∧ t.row? k' = some r' ∧ precedes r r' = true

/-- An update that keeps the columns of the order keeps the order, and the times of the rows. -/
theorem Tables.order_updateIndex {p : IndexRow → Bool} {f : IndexRow → IndexRow}
    (hkey : ∀ r, (f r).messageKey = r.messageKey) (hpriority : ∀ r, (f r).priority = r.priority)
    (htime : ∀ r, (f r).availableAt = r.availableAt) :
    (∀ k k', (t.updateIndex p f).Before k k' ↔ t.Before k k') ∧
    ∀ key now, (∀ row, (t.updateIndex p f).row? key = some row → row.availableAt ≤ now) ↔
      ∀ row, t.row? key = some row → row.availableAt ≤ now := by
  have hcolumns : ∀ r, (if p r then f r else r).priority = r.priority ∧
      (if p r then f r else r).availableAt = r.availableAt := by
    intro r
    split
    · exact ⟨hpriority r, htime r⟩
    · exact ⟨rfl, rfl⟩
  have hrow : ∀ key, (t.updateIndex p f).row? key =
      (t.row? key).map fun r => if p r then f r else r := fun key => Tables.row?_updateIndex hkey
  constructor
  · intro k k'
    unfold Tables.Before
    rw [hrow, hrow]
    cases t.row? k with
    | none => simp
    | some r =>
      cases t.row? k' with
      | none => simp
      | some r' => simp [precedes, hcolumns r, hcolumns r']
  · intro key now
    rw [hrow]
    cases t.row? key with
    | none => simp
    | some r => simp [hcolumns r]

/-- Leasing a row keeps the order and the times. -/
theorem Tables.order_leased {t' : Tables}
    (h : t' = t ∨ ∃ (row : IndexRow) (leaseUntil : Int),
      t' = t.updateIndex (fun r => r.messageKey = row.messageKey) fun r => { r with
        state := .inflight, leaseUntil := some leaseUntil, attempt := row.attempt + 1 }) :
    (∀ k k', t'.Before k k' ↔ t.Before k k') ∧
    ∀ key now, (∀ row, t'.row? key = some row → row.availableAt ≤ now) ↔
      ∀ row, t.row? key = some row → row.availableAt ≤ now := by
  rcases h with rfl | ⟨row, leaseUntil, rfl⟩
  · exact ⟨fun _ _ => Iff.rfl, fun _ _ => Iff.rfl⟩
  · exact Tables.order_updateIndex (fun _ => rfl) (fun _ => rfl) fun _ => rfl

end Rows

/-! ### What the backends give away -/

/-- Nothing fails in the call; on the Hybrid backend payload files stay with their rows, too. -/
def BackendType.Careful (schema : SchemaFile) : (backend : BackendType) →
    History backend.Store (Env × Call) Reply → backend.Store → Env × Call → Prop
  | .fileSystem => fun h s i => FileSystem.nulFree.Admitted h s i
  | .sqlite => fun h s i => (SQLite.lifecycle schema).Admitted h s i ∧ i.1.faults = []
  | .hybrid => fun h s i => Hybrid.Careful h s i

/-- The order in which a backend gives messages away: by file name, or by the priority of the row,
    the largest first, and then by its time. -/
def BackendType.Before : (backend : BackendType) → backend.Store → MessageEnvelope →
    MessageEnvelope → Prop
  | .fileSystem, _, m, m' => m.messageId ++ ".json" < m'.messageId ++ ".json"
  | .sqlite, s, m, m' | .hybrid, s, m, m' => s.data.Before m.key m'.key

/-- The message of `queue` is ready and due. -/
@[mk_iff] structure BackendType.Waiting (backend : BackendType) (schema : SchemaFile)
    (published : List MessageEnvelope) (s : backend.Store) (queue : String) (now : Int)
    (m : MessageEnvelope) : Prop where
  mem : m ∈ published
  queue : m.queue = queue
  ready : ∃ found, (backend.lifecycle schema).slot s m.key = some found ∧ found.phase = .ready
  due : backend.Due s now m.key

/-- The consumer may receive the message. -/
def MayReceive (c : String) (m : MessageEnvelope) : Prop :=
  m.targetConsumerId = "" ∨ m.targetConsumerId = c

section Lease

variable {backend : BackendType} {schema : SchemaFile} {published : List MessageEnvelope}
  {h : History backend.Store (Env × Call) Reply} {s : backend.Store} {env : Env}
  {queue c : String} {now timeout : Int} {message m : MessageEnvelope} {token : LeaseToken}

theorem BackendType.waits_iff_waiting :
    backend.Waits schema published s queue c now m ↔
      backend.Waiting schema published s queue now m ∧ MayReceive c m := by
  rw [BackendType.waits_iff, BackendType.waiting_iff, MayReceive]
  tauto

theorem admitted_of_careful (run : Run (backend.adapter schema).machine (backend.Careful schema) h s) :
    Run (backend.adapter schema).machine (backend.lifecycle schema).Admitted h s := by
  refine run.mono fun h s i _ ok => ?_
  cases backend with
  | fileSystem => exact ok
  | sqlite => exact ok.1
  | hybrid =>
    have hcareful : Hybrid.Careful h s i := ok
    exact ⟨trivial, hcareful.plain, hcareful.fresh⟩

/-- In a state that careful calls reach, a lease that does not fail is careful. -/
theorem careful_leaseNext
    (run : Run (backend.adapter schema).machine (backend.Careful schema) h s)
    (hcalm : env.faults = [])
    (hadmits : (backend.lifecycle schema).Admits (.leaseNext queue c timeout)) :
    backend.Careful schema h s (env, .leaseNext queue c timeout) := by
  cases backend with
  | fileSystem => exact ⟨hcalm, hadmits, trivial⟩
  | sqlite => exact ⟨⟨trivial, hadmits, trivial⟩, hcalm⟩
  | hybrid =>
    obtain ⟨-, hids, hapart⟩ := Hybrid.housed_of_careful run
    exact ⟨hcalm, hadmits, trivial, hids, hapart, trivial⟩

/-- With a row that is ready for the consumer, the Hybrid `lease_next` leases a message, whose
    payload file is there. -/
theorem Hybrid.leaseNext_granted {h : History Hybrid.Store (Env × Call) Reply} {s : Hybrid.Store}
    (run : Run (Hybrid.adapter schema).machine Hybrid.Careful h s) (hcalm : env.faults = [])
    {row : IndexRow} (hrow : row ∈ s.data.index)
    (hready : Tables.isReadyFor queue c env.now row = true) :
    ((Hybrid.adapter schema).perform env (.leaseNext queue c timeout) s).1.granted ≠ none := by
  have hadmitted : Run (Hybrid.adapter schema).machine (Hybrid.lifecycle schema).Admitted h s :=
    run.mono fun _ _ _ _ ok => ⟨trivial, ok.plain, ok.fresh⟩
  have hkeeps : Hybrid.Keeps (publishedBy h) s := ((Hybrid.lifecycle schema).inv_of_run hadmitted).1
  have hhoused := (Hybrid.housed_of_careful run).1
  have hcarried := Hybrid.content_kept hadmitted
  have hsat : Sat False (fun _ => True) s (Hybrid.program schema env (.leaseNext queue c timeout))
      fun reply _ => reply.granted ≠ none := by
    refine Sat.bind (Sat.bind ((Hybrid.leaseRow_sat hkeeps.saved queue c _ _).weaken
      fun r t ht => ?_))
    obtain ⟨-, hfiles, ht⟩ := ht
    rcases r with e | ⟨selected, value⟩
    · -- a ready row is selected, and it has a value
      obtain ⟨-, hfaulty | ⟨-, hnone⟩ | ⟨selected, hselected, hvalue⟩⟩ := ht
      · exact hfaulty.elim
      · rw [Tables.readyRow?_eq_none.mp hnone row hrow] at hready
        cases hready
      · obtain ⟨j, hj, -⟩ := hcarried selected (Tables.readyRow?_some hselected).1
        rw [hvalue] at hj
        cases hj
    · obtain ⟨hselected, hvalue, -⟩ := ht
      obtain ⟨hmem, hcond⟩ := Tables.readyRow?_some hselected
      simp only [Tables.isReadyFor, decide_eq_true_eq] at hcond
      obtain ⟨j, hj, hcarries⟩ := hcarried selected hmem
      obtain ⟨m, hm, hdescribes, henvelope⟩ := hcarries.leasedEnvelope
      obtain rfl : value = some j := Option.some.inj (hvalue.symm.trans hj)
      have hstate : selected.state ∈ Hybrid.statesOf .active := by
        rw [hcond.2.1]
        decide
      have hfile : s.files.lookup (Hybrid.buildPayloadPath m.queue m.messageId) =
          some (some (Hybrid.payloadJson m)) :=
        hhoused.lookup_of_row hkeeps.invariant hm hmem hdescribes.key hstate
      refine Sat.bind ((Hybrid.readMessage_reads selected (some j)).weaken fun given u hread => ?_)
      rw [hfiles, henvelope, Option.bind_some, Hybrid.payloadOf, Files.read, hfile] at hread
      have hfilled := hread.trans (Hybrid.withPayload_payloadJson _ m)
      subst hfilled
      exact Sat.pure (Sat.pure (by simp [Reply.granted]))
  exact (hsat.run (.inr hcalm) trivial).1

/-- **`lease_next` gives nothing away only when no message waits for the consumer.** -/
theorem none_waits (run : Run (backend.adapter schema).machine (backend.Careful schema) h s)
    (hcalm : env.faults = [])
    (hadmits : (backend.lifecycle schema).Admits (.leaseNext queue c timeout))
    (hnone : ((backend.adapter schema).perform env (.leaseNext queue c timeout) s).1.granted = none) :
    ∀ m, ¬backend.Waits schema (publishedBy h) s queue c env.now m := by
  obtain ⟨hinv, hwell⟩ := (backend.lifecycle schema).inv_of_run (admitted_of_careful run)
  intro m hm
  obtain ⟨found, hslot, hphase⟩ := hm.ready
  cases backend with
  | fileSystem =>
    have hkeeps : FileSystem.Keeps False (publishedBy h) s := hinv
    exact FileSystem.leaseNext_granted hkeeps hcalm hadmits.1 hm.mem hm.queue hm.target hslot hphase
      hnone
  | sqlite =>
    obtain ⟨time, hinvariant⟩ := hinv.invariant
    obtain ⟨hsaved, hbacked⟩ := SQLite.content_kept (admitted_of_careful run)
    have hdescribed : s.data.Described (publishedBy h) := SQLite.described_of_backed hbacked
    obtain ⟨row, hrow, -, hready⟩ :=
      (Tables.offers_iff hinvariant.toIntegrity hdescribed hwell hm.mem).mpr
        ⟨hm.queue, hm.target, hm.ready, hm.due⟩
    have hkeeps : SQLite.Keeps (publishedBy h) s := hinv
    have hreadable : SQLite.Call.Readable (.leaseNext queue c timeout) := hadmits
    exact SQLite.leaseNext_granted hinvariant hsaved hcalm (hkeeps.readable hreadable) hrow hready
      hnone
  | hybrid =>
    have hkeeps : Hybrid.Keeps (publishedBy h) s := hinv
    have hbacked := Hybrid.content_kept (admitted_of_careful run)
    have hdescribed : s.data.Described (publishedBy h) := Hybrid.described_of_backed hbacked
    obtain ⟨row, hrow, -, hready⟩ :=
      (Tables.offers_iff hkeeps.invariant.toIntegrity hdescribed hwell hm.mem).mpr
        ⟨hm.queue, hm.target, hm.ready, hm.due⟩
    exact Hybrid.leaseNext_granted run hcalm hrow hready hnone

/-- The selected row is of a message that waits for the consumer, and before which none comes that
    does. -/
theorem Tables.first_selected {t : Tables} (hinteg : t.Integrity) {row : IndexRow}
    (hrow : t.readyRow? schema queue c now = some row) (hdescribes : row.Describes m) :
    t.Offers queue c now m ∧ ∀ m', t.Offers queue c now m' → ¬t.Before m'.key m.key := by
  obtain ⟨hmem, hready⟩ := Tables.readyRow?_some hrow
  refine ⟨⟨row, hmem, hdescribes, hready⟩, ?_⟩
  rintro m' ⟨r, hr, hdescribes', hready'⟩ ⟨r', row', hr', hrow', hbefore⟩
  have hsame : r' = r := by
    have hrowOf := hinteg.row?_of_mem hr
    rw [hdescribes'.key, hr'] at hrowOf
    exact Option.some.inj hrowOf
  have hsame' : row' = row := by
    have hrowOf := hinteg.row?_of_mem hmem
    rw [hdescribes.key, hrow'] at hrowOf
    exact Option.some.inj hrowOf
  rw [hsame, hsame', Tables.readyRow?_least hrow hr hready'] at hbefore
  cases hbefore

/-- **What `lease_next` gives away waits for the consumer, and comes first of what does.** -/
theorem first_waiting (run : Run (backend.adapter schema).machine (backend.Careful schema) h s)
    (hcalm : env.faults = [])
    (hadmits : (backend.lifecycle schema).Admits (.leaseNext queue c timeout))
    (hgranted : ((backend.adapter schema).perform env (.leaseNext queue c timeout) s).1.granted =
      some (message, token)) :
    ∃ m, message.key = m.key ∧ backend.Waits schema (publishedBy h) s queue c env.now m ∧
      ∀ m', backend.Waits schema (publishedBy h) s queue c env.now m' → ¬backend.Before s m' m := by
  obtain ⟨hinv, hwell⟩ := (backend.lifecycle schema).inv_of_run (admitted_of_careful run)
  cases backend with
  | fileSystem =>
    -- The directory is listed by file name, and the first message that may be leased is taken.
    have hkeeps : FileSystem.Keeps False (publishedBy h) s := hinv
    obtain ⟨m, hm, hqueue, htarget, hkey, -, hready, hfirst⟩ :=
      FileSystem.leaseNext_first hkeeps hcalm hadmits.1 hgranted
    refine ⟨m, hkey, ⟨hm, hqueue, htarget, hready, trivial⟩, fun m' hm' hbefore => ?_⟩
    obtain ⟨found, hslot, hphase⟩ := hm'.ready
    obtain ⟨attempt, available, hinbox⟩ := hkeeps.inbox_of_ready hm'.mem hslot hphase
    rw [hm'.queue] at hinbox
    have hleast := hfirst m'.messageId _ (hkeeps.named m' hm'.mem).id hinbox hm'.target
    exact absurd hbefore (String.not_lt.mpr hleast)
  | sqlite =>
    -- The row that stands first in the order is that of the message which waits before the others.
    have hkeeps : SQLite.Keeps (publishedBy h) s := hinv
    have hreadable : SQLite.Call.Readable (.leaseNext queue c timeout) := hadmits
    have hgiven : Run (SQLite.adapter schema).machine (BackendType.sqlite.Given schema) h s :=
      (admitted_of_careful run).mono fun _ _ _ _ ok => ok.fresh
    obtain ⟨hinteg, hdescribed, row, hrow, m, hm, hdescribes, hkey, -⟩ :=
      SQLite.leaseNext_served hgiven (hkeeps.readable hreadable) hgranted
    obtain ⟨hoffers, hfirst⟩ := Tables.first_selected hinteg hrow hdescribes
    have hwaits : ∀ m', BackendType.sqlite.Waits schema (publishedBy h) s queue c env.now m' ↔
        m' ∈ publishedBy h ∧ s.data.Offers queue c env.now m' := fun m' =>
      (BackendType.waits_iff _ _ _ _ _ _ _ m').trans
        (and_congr_right fun hm' => (Tables.offers_iff hinteg hdescribed hwell hm').symm)
    exact ⟨m, hkey, (hwaits m).mpr ⟨hm, hoffers⟩, fun m' hm' =>
      hfirst m' ((hwaits m').mp hm').2⟩
  | hybrid =>
    obtain ⟨hinteg, hdescribed, row, hrow, m, hm, hdescribes, hkey, -⟩ :=
      Hybrid.leaseNext_served (admitted_of_careful run) hgranted
    obtain ⟨hoffers, hfirst⟩ := Tables.first_selected hinteg hrow hdescribes
    have hwaits : ∀ m', BackendType.hybrid.Waits schema (publishedBy h) s queue c env.now m' ↔
        m' ∈ publishedBy h ∧ s.data.Offers queue c env.now m' := fun m' =>
      (BackendType.waits_iff _ _ _ _ _ _ _ m').trans
        (and_congr_right fun hm' => (Tables.offers_iff hinteg hdescribed hwell hm').symm)
    exact ⟨m, hkey, (hwaits m).mpr ⟨hm, hoffers⟩, fun m' hm' =>
      hfirst m' ((hwaits m').mp hm').2⟩

/-! ### What a lease leaves -/

/-- After a call of `lease_next` a message is ready when it was so and has not been given away. -/
theorem Moves.ready_iff {names revives : String → Prop} {key : String} {reply : Reply}
    {slot slot' : Option Slot}
    (hmoves : Moves names revives key now (.leaseNext queue c timeout) reply slot slot') :
    (∃ found, slot' = some found ∧ found.phase = .ready) ↔
      (∃ found, slot = some found ∧ found.phase = .ready) ∧
        reply.granted.map (·.1.key) ≠ some key := by
  cases hmoves with
  | stay hidle =>
    refine ⟨fun hready => ⟨hready, fun hkey => hidle ?_⟩, And.left⟩
    obtain ⟨⟨message, token⟩, hgranted, hkey⟩ := Option.map_eq_some_iff.mp hkey
    exact .leased hgranted hkey
  | lease hgranted hkey =>
    constructor
    · rintro ⟨found, hfound, hphase⟩
      obtain rfl := Option.some.inj hfound
      cases hphase
    · rintro ⟨-, hother⟩
      rw [hgranted] at hother
      exact absurd (congrArg some hkey) hother

/-- A lease keeps the order of the messages and their times. -/
theorem leaseNext_order (hinv : (backend.lifecycle schema).Inv published s) :
    (∀ m m', backend.Before ((backend.adapter schema).perform env (.leaseNext queue c timeout) s).2
      m m' ↔ backend.Before s m m') ∧
    ∀ now key, backend.Due ((backend.adapter schema).perform env (.leaseNext queue c timeout) s).2
      now key ↔ backend.Due s now key := by
  cases backend with
  | fileSystem => exact ⟨fun _ _ => Iff.rfl, fun _ _ => Iff.rfl⟩
  | sqlite =>
    have hkeeps : SQLite.Keeps published s := hinv
    obtain ⟨-, hperforms⟩ := @SQLite.perform_performs True schema env s hkeeps.saved (.inl trivial)
      (.leaseNext queue c timeout)
    have horder := Tables.order_leased (hperforms.imp (·.2.1) fun ⟨row, value, _, _, _, hleased⟩ =>
      ⟨row, _, hleased⟩)
    exact ⟨fun m m' => horder.1 m.key m'.key, fun now key => horder.2 key now⟩
  | hybrid =>
    have hkeeps : Hybrid.Keeps published s := hinv
    obtain ⟨-, hperforms⟩ := @Hybrid.perform_performs True schema env s hkeeps.saved (.inl trivial)
      (.leaseNext queue c timeout)
    have horder := Tables.order_leased (hperforms.imp (·.2.1)
      fun ⟨row, value, content, _, _, _, _, hleased⟩ => ⟨row, _, hleased⟩)
    exact ⟨fun m m' => horder.1 m.key m'.key, fun now key => horder.2 key now⟩

/-- **A call of `lease_next` is a request that is served well.** -/
theorem leaseNext_serves
    (run : Run (backend.adapter schema).machine (backend.Careful schema) h s)
    (hcalm : env.faults = [])
    (hadmits : (backend.lifecycle schema).Admits (.leaseNext queue c timeout)) :
    let after := (backend.adapter schema).perform env (.leaseNext queue c timeout) s
    ∃ answer : Option MessageEnvelope,
      after.1.granted.map (·.1.key) = answer.map MessageEnvelope.key ∧
      Serves MayReceive (backend.Before s)
        (backend.Waiting schema (publishedBy h) s queue env.now) c answer
        (backend.Waiting schema (publishedBy h) after.2 queue env.now) := by
  intro after
  obtain ⟨hinv, hwell⟩ := (backend.lifecycle schema).inv_of_run (admitted_of_careful run)
  -- The call belongs to the run, so what a step keeps holds after it.
  have hadmitted : (backend.lifecycle schema).Admitted h s (env, .leaseNext queue c timeout) := by
    have hcareful := run.step (careful_leaseNext run hcalm hadmits)
    exact (admitted_of_careful hcareful).last.2.1
  have hmoves := ((backend.lifecycle schema).perform hinv hadmitted.calm hadmits trivial).2
  -- Whatever the answer is, exactly that message no longer waits.
  have hleft : ∀ answer : Option MessageEnvelope, (∀ m, answer = some m → m ∈ publishedBy h) →
      after.1.granted.map (·.1.key) = answer.map MessageEnvelope.key → ∀ m,
      backend.Waiting schema (publishedBy h) after.2 queue env.now m ↔
        backend.Waiting schema (publishedBy h) s queue env.now m ∧ answer ≠ some m := by
    intro answer hknown hanswer m
    rw [BackendType.waiting_iff, BackendType.waiting_iff, (hmoves m.key).ready_iff,
      (leaseNext_order hinv).2, show _ = answer.map MessageEnvelope.key from hanswer]
    have hother : m ∈ publishedBy h →
        (answer.map MessageEnvelope.key ≠ some m.key ↔ answer ≠ some m) := by
      intro hm
      refine not_congr ⟨fun hkey => ?_, fun hsame => by rw [hsame, Option.map_some]⟩
      obtain ⟨m', hm', hsame⟩ := Option.map_eq_some_iff.mp hkey
      rw [hm', hwell.eq_of_key (hknown m' hm') hm hsame]
    tauto
  cases hgranted : after.1.granted with
  | none =>
    -- Nothing is granted: nobody waits who may receive it.
    refine ⟨none, rfl, ⟨fun _ m hm hmay => ?_, fun m hm => (by cases hm), hleft none (by simp) ?_⟩⟩
    · exact none_waits run hcalm hadmits hgranted m (BackendType.waits_iff_waiting.mpr ⟨hm, hmay⟩)
    · rw [hgranted]
      rfl
  | some grant =>
    obtain ⟨message, token⟩ := grant
    -- What is granted stands first among those that wait.
    obtain ⟨m, hkey, hwaits, hfirst⟩ := first_waiting run hcalm hadmits hgranted
    have hwaiting := BackendType.waits_iff_waiting.mp hwaits
    refine ⟨some m, congrArg some hkey, ⟨fun hm => (by cases hm), ?_, hleft (some m) ?_ ?_⟩⟩
    · intro m' hm'
      obtain rfl := Option.some.inj hm'
      exact ⟨hwaiting.1, hwaiting.2, fun b hb hmay =>
        hfirst b (BackendType.waits_iff_waiting.mpr ⟨hb, hmay⟩)⟩
    · intro m' hm'
      obtain rfl := Option.some.inj hm'
      exact hwaits.mem
    · rw [hgranted]
      exact congrArg some hkey

/-! ### Calls one after another -/

/-- A call of `lease_next` on a queue. -/
structure LeaseRequest where
  env : Env
  consumerId : String
  timeout : Int

/-- The keys of the messages that consecutive calls of `lease_next` give away. -/
def Adapter.leaseAll {σ : Type} (adapter : Adapter σ) (queue : String) :
    List LeaseRequest → σ → List (Option String)
  | [], _ => []
  | r :: requests, s =>
    let (reply, after) := adapter.perform r.env (.leaseNext queue r.consumerId r.timeout) s
    reply.granted.map (·.1.key) :: adapter.leaseAll queue requests after

/-- The calls are made at one time, nothing fails in them, and the backend takes their texts. -/
structure BackendType.Asks (backend : BackendType) (schema : SchemaFile) (queue : String)
    (now : Int) (r : LeaseRequest) : Prop where
  calm : r.env.faults = []
  time : r.env.now = now
  admits : (backend.lifecycle schema).Admits (.leaseNext queue r.consumerId r.timeout)

/-- Consecutive calls are served well. -/
theorem leaseAll_serves
    (run : Run (backend.adapter schema).machine (backend.Careful schema) h s)
    {requests : List LeaseRequest} (hasks : ∀ r ∈ requests, backend.Asks schema queue now r) :
    ∃ (answers : List (String × Option MessageEnvelope)) (waits' : MessageEnvelope → Prop),
      answers.map Prod.fst = requests.map LeaseRequest.consumerId ∧
      (backend.adapter schema).leaseAll queue requests s =
        answers.map (fun answer => answer.2.map MessageEnvelope.key) ∧
      ServesAll MayReceive (backend.Before s)
        (backend.Waiting schema (publishedBy h) s queue now) answers waits' := by
  induction requests generalizing h s with
  | nil => exact ⟨[], _, rfl, rfl, .nil⟩
  | cons r requests ih =>
    rw [List.forall_mem_cons] at hasks
    obtain ⟨⟨hcalm, rfl, hadmits⟩, hasks⟩ := hasks
    obtain ⟨hinv, -⟩ := (backend.lifecycle schema).inv_of_run (admitted_of_careful run)
    obtain ⟨answer, hanswer, hserves⟩ := leaseNext_serves run hcalm hadmits
    have hrun := run.step (careful_leaseNext run hcalm hadmits)
    obtain ⟨answers, waits', hconsumers, hkeys, hrest⟩ := ih hrun hasks
    have horder : backend.Before ((backend.adapter schema).perform r.env
        (.leaseNext queue r.consumerId r.timeout) s).2 = backend.Before s :=
      funext fun m => funext fun m' => propext ((leaseNext_order hinv).1 m m')
    refine ⟨(r.consumerId, answer) :: answers, waits', ?_, ?_, .cons hserves (horder ▸ hrest)⟩
    · rw [List.map_cons, List.map_cons, hconsumers]
    · rw [List.map_cons]
      exact congrArg₂ List.cons hanswer hkeys

/-- The keys that have been given are those of the messages. -/
theorem mem_keys_iff {answers : List (String × Option MessageEnvelope)} {key : String} :
    some key ∈ answers.map (fun answer => answer.2.map MessageEnvelope.key) ↔
      ∃ m ∈ givenIn answers, m.key = key := by
  simp only [givenIn, List.mem_map, List.mem_filterMap, Option.map_eq_some_iff]
  constructor
  · rintro ⟨p, hp, m, hm, hkey⟩
    exact ⟨m, ⟨p, hp, hm⟩, hkey⟩
  · rintro ⟨m, ⟨p, hp, hm⟩, hkey⟩
    exact ⟨p, hp, m, hm, hkey⟩

end Lease

end YirangMQ

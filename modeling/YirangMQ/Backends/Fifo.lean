import YirangMQ.Backends.Priority

namespace YirangMQ

/-!
# First in, first out

Among messages of one priority the two backends over SQLite serve the one that has been
available longest, and the FileSystem backend the one whose file name comes first, which is a
random identifier.

* `Lifecycle.Untouched` — a message that was never leased, delayed or dead-lettered;
* `Lifecycle.untouched_time` — such a message is still available from when it was published for;
* `BackendType.Precedes` — the order in which a backend serves two messages;
* `served_in_turn` — **in this order they are served**, with `older_overtaken`, where it is not the
  order of their publication.
-/

/-! ### Messages since their publication -/

section Untouched

variable {σ : Type} {adapter : Adapter σ} (cycle : Lifecycle adapter)

/-- The step delays the message of the key. -/
def Lifecycle.Delays (key : String) (r : Step σ (Env × Call) Reply) : Prop :=
  ∃ messageKey delayMs, r.input.2 = .delayMessage messageKey delayMs ∧
    cycle.address messageKey = cycle.address key ∧ r.output.succeeded = true ∧
    cycle.slot r.before key ≠ none

/-- The message of the key was never leased, delayed or dead-lettered. -/
structure Lifecycle.Untouched (h : History σ (Env × Call) Reply) (key : String) : Prop where
  ready : ∀ r ∈ h, ∀ found, cycle.slot r.after key = some found → found.phase = .ready
  undelayed : ∀ r ∈ h, ¬cycle.Delays key r

variable {cycle} {h : History σ (Env × Call) Reply} {s : σ}
  {allowed : History σ (Env × Call) Reply → σ → Env × Call → Prop}

/-- What was untouched to the end was untouched before. -/
theorem Lifecycle.Untouched.tail {r : Step σ (Env × Call) Reply} {key : String}
    (huntouched : cycle.Untouched (r :: h) key) : cycle.Untouched h key where
  ready r' hr' := huntouched.ready r' (List.mem_cons_of_mem _ hr')
  undelayed r' hr' := huntouched.undelayed r' (List.mem_cons_of_mem _ hr')

/-- An untouched message is ready in the state reached. -/
theorem Lifecycle.Untouched.ready_now {key : String} (huntouched : cycle.Untouched h key)
    (run : Run adapter.machine allowed h s) {found : Slot}
    (hslot : cycle.slot s key = some found) : found.phase = .ready := by
  cases run with
  | start =>
    have hthere : cycle.slot adapter.start key ≠ none := by
      rw [show cycle.slot adapter.start key = some found from hslot]
      exact Option.some_ne_none found
    exact absurd (cycle.known cycle.start hthere) (by simp)
  | step run ok => exact huntouched.ready _ List.mem_cons_self found hslot

/-- **The time of an untouched message is that of its publication**, when every call keeps the
    times of ready messages that it neither publishes nor delays. -/
theorem Lifecycle.untouched_time (hsustains : cycle.Sustains allowed)
    (time : σ → String → Option Int) (available : MessageEnvelope → Int → Int)
    (hthere : ∀ s key, time s key ≠ none → cycle.slot s key ≠ none)
    (hstep : ∀ {published s env call}, cycle.Inv published s → ∀ key n,
        time (adapter.perform env call s).2 key = some n →
          (∃ m, call = .enqueue m ∧ m.key = key ∧ n = available m env.now) ∨
          time s key = some n ∨
          (∃ found, cycle.slot s key = some found ∧ found.phase ≠ .ready) ∨
          cycle.Delays key (adapter.machine.stepAt s (env, call)))
    (run : Run adapter.machine allowed h s) :
    ∀ r ∈ h, ∀ m, r.input.2 = .enqueue m → cycle.Untouched h m.key →
      ∀ n, time s m.key = some n → n = available m r.input.1.now := by
  induction run with
  | start => simp
  | @step h s i run ok ih =>
    obtain ⟨env, call⟩ := i
    obtain ⟨hinv, hwell⟩ := hsustains.inv_of_run run
    have hfresh : call.Fresh (publishedBy h) := hsustains.fresh ok
    intro r hr m hpublish huntouched n hn
    have hnow := hstep hinv m.key n hn
    rcases List.mem_cons.mp hr with rfl | hold
    · -- the last step publishes the message, which was nowhere before it
      obtain rfl : call = .enqueue m := hpublish
      have hnew : cycle.slot s m.key = none := by
        by_contra hsome
        exact hwell.not_fresh (cycle.known hinv hsome) hfresh
      rcases hnow with ⟨m', hm', -, rfl⟩ | hbefore | ⟨found, hfound, -⟩ | hdelays
      · obtain rfl := Call.enqueue.inj hm'
        rfl
      · exact absurd hnew (hthere s m.key (by simp [hbefore]))
      · rw [hnew] at hfound
        cases hfound
      · exact absurd hdelays (huntouched.undelayed _ List.mem_cons_self)
    · rcases hnow with ⟨m', rfl, hkey, -⟩ | hbefore | ⟨found, hfound, hphase⟩ | hdelays
      · have hknown : m ∈ publishedBy h := mem_publishedBy hold hpublish
        exact absurd hfresh (hwell.not_fresh (hkey ▸ List.mem_map_of_mem hknown))
      · exact ih r hold m hpublish huntouched.tail n hbefore
      · exact absurd (huntouched.tail.ready_now run hfound) hphase
      · exact absurd hdelays (huntouched.undelayed _ List.mem_cons_self)

end Untouched

/-! ### The time of a row -/

section Times

variable {schema : SchemaFile} {env : Env} {call : Call} {reply : Reply} {t t' : Tables}
  {k : String} {r' : IndexRow}

/-- Where the time of the row of `k` after a call comes from: the row is new, or it has the time it
    had, or it was not ready, or it has been delayed. -/
def TimeFrom (available : MessageEnvelope → Int → Int) (env : Env) (call : Call) (reply : Reply)
    (t : Tables) (k : String) (r' : IndexRow) : Prop :=
  (∃ m, call = .enqueue m ∧ m.key = k ∧ r'.availableAt = available m env.now) ∨
  ∃ r, t.row? k = some r ∧ (r'.availableAt = r.availableAt ∨ r.state ≠ .ready ∨
    reply.succeeded = true ∧ ∃ delayMs, call = .delayMessage k delayMs)

variable {available : MessageEnvelope → Int → Int}

/-- A row that has not changed has its time from where it had it. -/
theorem TimeFrom.same (h : t.row? k = some r') : TimeFrom available env call reply t k r' :=
  .inr ⟨r', h, .inl rfl⟩

/-- An update that leaves the time of ready rows alone. -/
theorem TimeFrom.updated {p : IndexRow → Bool} {f : IndexRow → IndexRow}
    (h : (t.updateIndex p f).row? k = some r') (hf : ∀ r, (f r).messageKey = r.messageKey)
    (hready : ∀ r, t.row? k = some r → p r = true → (f r).availableAt = r.availableAt ∨
      r.state ≠ .ready) : TimeFrom available env call reply t k r' := by
  obtain ⟨r, hrow, rfl | ⟨hp, rfl⟩⟩ := Tables.row?_updated hf h
  · exact .same hrow
  · exact .inr ⟨r, hrow, (hready r hrow hp).imp_right .inl⟩

/-- A delay changes the time of its own row. -/
theorem TimeFrom.delayed {key : String} {delayMs : Int} {f : IndexRow → IndexRow}
    (h : (t.updateIndex (fun r => r.messageKey = key) f).row? k = some r')
    (hf : ∀ r, (f r).messageKey = r.messageKey) :
    TimeFrom available env (.delayMessage key delayMs) (.status (.ok ())) t k r' := by
  obtain ⟨r, hrow, rfl | ⟨hp, rfl⟩⟩ := Tables.row?_updated hf h
  · exact .same hrow
  · have hkey : key = k := by
      rw [← Table.row?_key hrow]
      exact (by simpa using hp : r.messageKey = key).symm
    exact .inr ⟨r, hrow, .inr (.inr ⟨rfl, delayMs, by rw [hkey]⟩)⟩

/-- The same, told by the slot of the key. -/
theorem TimeFrom.of_slot (h : TimeFrom available env call reply t k r') :
    (∃ m, call = .enqueue m ∧ m.key = k ∧ r'.availableAt = available m env.now) ∨
    (t.row? k).map IndexRow.availableAt = some r'.availableAt ∨
    (∃ found, t.slot k = some found ∧ found.phase ≠ .ready) ∨
    ∃ messageKey delayMs, call = .delayMessage messageKey delayMs ∧ messageKey = k ∧
      reply.succeeded = true ∧ t.slot k ≠ none := by
  rcases h with hnew | ⟨r, hrow, htime | hstate | ⟨hok, delayMs, rfl⟩⟩
  · exact .inl hnew
  · exact .inr (.inl (by rw [hrow, htime, Option.map_some]))
  · refine .inr (.inr (.inl ⟨r.slot, ?_, fun hphase => ?_⟩))
    · rw [Tables.slot, hrow, Option.map_some]
    · exact hstate (IndexRow.slot_ready_iff.mp hphase)
  · refine .inr (.inr (.inr ⟨k, delayMs, rfl, rfl, hok, ?_⟩))
    rw [Tables.slot, hrow, Option.map_some]
    exact Option.some_ne_none _

/-- The time of a row is that of its message, or was set by a call about it. -/
theorem SQLite.Effect.timeFrom (heffect : SQLite.Effect schema env call reply t t')
    (hrow : t'.row? k = some r') : TimeFrom SQLite.availableFrom env call reply t k r' := by
  cases call with
  | enqueue message =>
    obtain ⟨-, -, rfl⟩ := heffect
    rcases Tables.row?_inserted hrow with hold | ⟨-, hkey, rfl⟩
    · exact .same hold
    · exact .inl ⟨message, rfl, hkey, rfl⟩
  | leaseNext queue c timeout =>
    obtain ⟨row, value, -, -, -, rfl⟩ := heffect
    exact .updated hrow (fun _ => rfl) fun _ _ _ => .inl rfl
  | ack lease =>
    obtain ⟨-, rfl⟩ := heffect
    rw [SQLite.acked_eq] at hrow
    exact .same (Tables.row?_deleted hrow)
  | nack lease reason requeue =>
    obtain ⟨-, heffect⟩ := heffect
    cases requeue with
    | true =>
      simp only [if_true] at heffect
      subst heffect
      -- A requeued row was inflight and is available from now on.
      refine .updated hrow (fun _ => rfl) fun r _ hp => .inr ?_
      simp only [decide_eq_true_eq] at hp
      simp [hp.2]
    | false =>
      simp only [Bool.false_eq_true, if_false] at heffect
      rw [Tables.row?_editsValue heffect] at hrow
      exact .updated hrow (fun _ => rfl) fun _ _ _ => .inl rfl
  | extendLease lease timeout =>
    obtain ⟨-, rfl⟩ := heffect
    exact .updated hrow (fun _ => rfl) fun _ _ _ => .inl rfl
  | savePolicy queue policy =>
    obtain ⟨-, rfl⟩ := heffect
    exact .same (@Tables.row?_deleted t ("policy:" ++ queue) k r' hrow)
  | recoverExpiredLeases =>
    obtain ⟨-, rfl⟩ := heffect
    exact .updated hrow (fun _ => rfl) fun _ _ _ => .inl rfl
  | processDelayedMessages =>
    obtain ⟨-, rfl⟩ := heffect
    exact .updated hrow (fun _ => rfl) fun _ _ _ => .inl rfl
  | delayMessage key delayMs =>
    obtain ⟨rfl, rfl⟩ := heffect
    -- The only call that puts a later time into the row.
    exact .delayed hrow fun _ => rfl
  | moveToDlq key reason =>
    obtain ⟨-, heffect⟩ := heffect
    rw [Tables.row?_editsValue heffect] at hrow
    exact .updated hrow (fun _ => rfl) fun _ _ _ => .inl rfl
  | reprocessDlqMessage key =>
    obtain ⟨-, heffect⟩ := heffect
    rw [Tables.row?_editsValue heffect] at hrow
    -- A dead letter becomes available from now on.
    refine .updated hrow (fun _ => rfl) fun r _ hp => .inr ?_
    simp only [decide_eq_true_eq] at hp
    simp [hp.2]

/-- So it is on the hybrid adapter. -/
theorem Hybrid.Effect.timeFrom {files : Hybrid.Payloads} (hinv : Hybrid.Invariant t)
    (heffect : Hybrid.Effect schema env files call reply t t') (hrow : t'.row? k = some r') :
    TimeFrom (fun m _ => m.availableAtMs) env call reply t k r' := by
  -- a row in which the query found a state other than ready
  have hfound : ∀ {key state}, Hybrid.queueInState key state t ≠ none → state ≠ .ready →
      ∀ r, t.row? k = some r → decide (r.messageKey = key) = true → r.state ≠ .ready := by
    intro key state hquery hstate r hr hp
    have hkey : key = k := (by simpa using hp : r.messageKey = key).symm.trans (Table.row?_key hr)
    rw [hinv.state_of_query hquery (hkey ▸ hr)]
    exact hstate
  cases call with
  | enqueue message =>
    obtain ⟨-, -, rfl⟩ := heffect
    rcases Tables.row?_inserted hrow with hold | ⟨-, hkey, rfl⟩
    · exact .same hold
    · exact .inl ⟨message, rfl, hkey, rfl⟩
  | leaseNext queue c timeout =>
    obtain ⟨row, value, content, -, -, -, -, rfl⟩ := heffect
    exact .updated hrow (fun _ => rfl) fun _ _ _ => .inl rfl
  | ack lease =>
    obtain ⟨-, -, rfl⟩ := heffect
    rw [Hybrid.acked_eq] at hrow
    exact .same (Tables.row?_deleted hrow)
  | nack lease reason requeue =>
    obtain ⟨-, hquery, heffect⟩ := heffect
    cases requeue with
    | true =>
      simp only [if_true] at heffect
      subst heffect
      exact .updated hrow (fun _ => rfl) fun r hr hp => .inr (hfound hquery (by simp) r hr hp)
    | false =>
      simp only [Bool.false_eq_true, if_false] at heffect
      rw [Tables.row?_editsValue heffect] at hrow
      exact .updated hrow (fun _ => rfl) fun _ _ _ => .inl rfl
  | extendLease lease timeout =>
    obtain ⟨-, rfl⟩ := heffect
    exact .updated hrow (fun _ => rfl) fun _ _ _ => .inl rfl
  | savePolicy queue policy =>
    obtain ⟨-, rfl⟩ := heffect
    refine .same ?_
    unfold Tables.upsertKv at hrow
    split at hrow <;> exact hrow
  | recoverExpiredLeases =>
    obtain ⟨-, rfl⟩ := heffect
    refine .updated hrow (fun _ => rfl) fun r _ hp => .inr ?_
    simp only [Tables.isExpired, decide_eq_true_eq] at hp
    simp [hp.1]
  | processDelayedMessages =>
    obtain ⟨-, rfl⟩ := heffect
    exact .updated hrow (fun _ => rfl) fun _ _ _ => .inl rfl
  | delayMessage key delayMs =>
    obtain ⟨rfl, rfl⟩ := heffect
    exact .delayed hrow fun _ => rfl
  | moveToDlq key reason =>
    obtain ⟨-, heffect⟩ := heffect
    rw [Tables.row?_editsValue heffect] at hrow
    exact .updated hrow (fun _ => rfl) fun _ _ _ => .inl rfl
  | reprocessDlqMessage key =>
    obtain ⟨-, hquery, heffect⟩ := heffect
    rw [Tables.row?_editsValue heffect] at hrow
    exact .updated hrow (fun _ => rfl) fun r hr hp => .inr (hfound hquery (by simp) r hr hp)

end Times

/-! ### The order of service -/

/-- The order in which a backend serves two messages of one priority, published at these times. -/
def BackendType.Precedes : BackendType → MessageEnvelope × Int → MessageEnvelope × Int → Prop
  | .fileSystem, (m, _), (m', _) => m.messageId ++ ".json" < m'.messageId ++ ".json"
  | .sqlite, (m, time), (m', time') => SQLite.availableFrom m time < SQLite.availableFrom m' time'
  | .hybrid, (m, _), (m', _) => m.availableAtMs < m'.availableAtMs

/-- The message of `queue`, published at this time, is ready, consumer `c` may receive it, and it
    was never leased, delayed or dead-lettered. -/
structure BackendType.InLine (backend : BackendType) (schema : SchemaFile)
    (h : History backend.Store (Env × Call) Reply) (s : backend.Store) (queue c : String)
    (m : MessageEnvelope) (time : Int) : Prop where
  published : ∃ r ∈ h, r.input.2 = .enqueue m ∧ r.input.1.now = time
  queue : m.queue = queue
  target : m.targetConsumerId = "" ∨ m.targetConsumerId = c
  ready : ∃ found, (backend.lifecycle schema).slot s m.key = some found ∧ found.phase = .ready
  untouched : (backend.lifecycle schema).Untouched h m.key

section Service

variable {schema : SchemaFile} {env : Env} {queue c : String} {timeout : Int}
  {message : MessageEnvelope} {token : LeaseToken} {m m' : MessageEnvelope} {time time' : Int}

/-- The selected row is not of a message that has been available for less time. -/
theorem Tables.not_selected {published : List MessageEnvelope} {t : Tables} {now : Int}
    (hdescribed : t.Described published) (hwell : WellPublished published)
    (hm : m ∈ published) (hqueue : m.queue = queue)
    (htarget : m.targetConsumerId = "" ∨ m.targetConsumerId = c) {found : Slot}
    (hslot : t.slot m.key = some found) (hphase : found.phase = .ready) {row : IndexRow}
    (hrow : t.readyRow? schema queue c now = some row) (hpriority : m.priority = row.priority)
    (htime : ∀ n, (t.row? m.key).map IndexRow.availableAt = some n → n < row.availableAt) :
    False := by
  obtain ⟨r, hr, -, rfl⟩ := Tables.row?_of_slot hslot
  have hbefore : r.availableAt < row.availableAt := htime _ (by rw [hr]; rfl)
  have hdescribes := hdescribed.describes hwell hm hr
  have hready : Tables.isReadyFor queue c now r = true := by
    have hselected := (Tables.readyRow?_some hrow).2
    simp only [Tables.isReadyFor, decide_eq_true_eq] at hselected ⊢
    have hdue : r.availableAt ≤ now := by omega
    exact ⟨hdescribes.queue.trans hqueue, IndexRow.slot_ready_iff.mp hphase, hdue,
      hdescribes.target ▸ htarget⟩
  have hlongest := Tables.readyRow?_availableAt hrow (Table.row?_mem hr) hready
    (hdescribes.priority.trans hpriority)
  omega

/-- The row of an untouched message has the time it was published with. -/
theorem SQLite.untouched_time {h : History SQLite.Store (Env × Call) Reply} {s : SQLite.Store}
    (run : Run (SQLite.adapter schema).machine (BackendType.sqlite.Reaching schema) h s)
    (hline : BackendType.sqlite.InLine schema h s queue c m time) {n : Int}
    (hn : (s.data.row? m.key).map IndexRow.availableAt = some n) :
    n = SQLite.availableFrom m time := by
  obtain ⟨r, hr, hpublish, rfl⟩ := hline.published
  refine Lifecycle.untouched_time (SQLite.sustains_fresh schema)
    (fun (s : SQLite.Store) key => (s.data.row? key).map IndexRow.availableAt)
    SQLite.availableFrom ?_ ?_ run r hr m hpublish hline.untouched n hn
  · intro s key htime hslot
    exact htime (by rw [Option.map_eq_none_iff.mp hslot, Option.map_none])
  · intro published s env call hkeeps key n htime
    have hkept : SQLite.Keeps published s := hkeeps
    obtain ⟨-, hperforms⟩ :=
      @SQLite.perform_performs True schema env s hkept.saved (.inl trivial) call
    rcases hperforms with ⟨-, hsame, -⟩ | heffect
    · exact .inr (.inl (by rw [hsame] at htime; exact htime))
    · obtain ⟨r', hr', rfl⟩ := Option.map_eq_some_iff.mp htime
      exact (heffect.timeFrom hr').of_slot

/-- So it is on the hybrid adapter. -/
theorem Hybrid.untouched_time {h : History Hybrid.Store (Env × Call) Reply} {s : Hybrid.Store}
    (run : Run (Hybrid.adapter schema).machine (Hybrid.lifecycle schema).Admitted h s)
    (hline : BackendType.hybrid.InLine schema h s queue c m time) {n : Int}
    (hn : (s.data.row? m.key).map IndexRow.availableAt = some n) : n = m.availableAtMs := by
  obtain ⟨r, hr, hpublish, rfl⟩ := hline.published
  refine Lifecycle.untouched_time (Hybrid.lifecycle schema).sustains_admitted
    (fun (s : Hybrid.Store) key => (s.data.row? key).map IndexRow.availableAt)
    (fun m _ => m.availableAtMs) ?_ ?_ run r hr m hpublish hline.untouched n hn
  · intro s key htime hslot
    exact htime (by rw [Option.map_eq_none_iff.mp hslot, Option.map_none])
  · intro published s env call hkeeps key n htime
    have hkept : Hybrid.Keeps published s := hkeeps
    obtain ⟨-, hperforms⟩ :=
      @Hybrid.perform_performs True schema env s hkept.saved (.inl trivial) call
    rcases hperforms with ⟨-, hsame, -⟩ | heffect
    · exact .inr (.inl (by rw [hsame] at htime; exact htime))
    · obtain ⟨r', hr', rfl⟩ := Option.map_eq_some_iff.mp htime
      exact (Hybrid.Effect.timeFrom hkept.invariant heffect hr').of_slot

/-- **Of two messages in line the one that comes first for the backend is not passed over.** -/
theorem not_overtaken {backend : BackendType} {h : History backend.Store (Env × Call) Reply}
    {s : backend.Store}
    (run : Run (backend.adapter schema).machine (backend.Reaching schema) h s)
    (hcalm : (backend.lifecycle schema).Calm env)
    (hadmits : backend = .sqlite ∨ (backend.lifecycle schema).Admits (.leaseNext queue c timeout))
    (hm : backend.InLine schema h s queue c m time)
    (hm' : backend.InLine schema h s queue c m' time') (hpriority : m.priority = m'.priority)
    (hprecedes : backend.Precedes (m, time) (m', time'))
    (hgranted : ((backend.adapter schema).perform env (.leaseNext queue c timeout) s).1.granted =
      some (message, token)) : message.key ≠ m'.key := by
  intro hkey
  obtain ⟨hinv, hwell⟩ := (backend.sustains_reaching schema).inv_of_run run
  obtain ⟨r, hr, hpublish, -⟩ := hm.published
  obtain ⟨r', hr', hpublish', -⟩ := hm'.published
  have hmem := mem_publishedBy hr hpublish
  have hmem' := mem_publishedBy hr' hpublish'
  obtain ⟨found, hslot, hphase⟩ := hm.ready
  cases backend with
  | sqlite =>
    have hkeeps : SQLite.Keeps (publishedBy h) s := hinv
    obtain ⟨hformed, hguid⟩ := hwell.formed m' hmem'
    -- the key that is leased has been read, so it is not that of a queue with a NUL character
    have hreadable : SQLite.Call.Readable (.leaseNext queue c timeout) := by
      have hkeyless : '\x00' ∉ message.key.toList :=
        SQLite.nul_not_mem_granted hkeeps.saved hgranted
      rw [hkey, hformed, nul_mem_messageKey hguid, hm'.queue] at hkeyless
      exact hkeyless
    obtain ⟨hinteg, hdescribed, row, hrow, served, hserved, hdescribes, hsame, -⟩ :=
      SQLite.leaseNext_served run (hkeeps.readable hreadable) hgranted
    obtain rfl := hwell.eq_of_key hserved hmem' (hsame.symm.trans hkey)
    have hrow' : s.data.row? served.key = some row :=
      hdescribes.key ▸ hinteg.row?_of_mem (Tables.readyRow?_some hrow).1
    have htime' := SQLite.untouched_time run hm' (n := row.availableAt) (by rw [hrow']; rfl)
    refine Tables.not_selected hdescribed hwell hmem hm.queue hm.target hslot hphase hrow
      (hpriority.trans hdescribes.priority.symm) fun n hn => ?_
    rw [SQLite.untouched_time run hm hn, htime']
    exact hprecedes
  | hybrid =>
    obtain ⟨hinteg, hdescribed, row, hrow, served, hserved, hdescribes, hsame, -⟩ :=
      Hybrid.leaseNext_served run hgranted
    obtain rfl := hwell.eq_of_key hserved hmem' (hsame.symm.trans hkey)
    have hrow' : s.data.row? served.key = some row :=
      hdescribes.key ▸ hinteg.row?_of_mem (Tables.readyRow?_some hrow).1
    have htime' := Hybrid.untouched_time run hm' (n := row.availableAt) (by rw [hrow']; rfl)
    refine Tables.not_selected hdescribed hwell hmem hm.queue hm.target hslot hphase hrow
      (hpriority.trans hdescribes.priority.symm) fun n hn => ?_
    rw [Hybrid.untouched_time run hm hn, htime']
    exact hprecedes
  | fileSystem =>
    have hkeeps : FileSystem.Keeps False (publishedBy h) s := hinv
    obtain ⟨served, hserved, -, -, hsame, -, -, hfirst⟩ :=
      FileSystem.leaseNext_first hkeeps hcalm (hadmits.resolve_left (by simp)).1 hgranted
    obtain rfl := hwell.eq_of_key hserved hmem' (hsame.symm.trans hkey)
    obtain ⟨attempt, available, hinbox⟩ := hkeeps.inbox_of_ready hmem hslot hphase
    rw [hm.queue] at hinbox
    have hleast := hfirst m.messageId _ (hkeeps.named m hmem).id hinbox hm.target
    exact absurd (hprecedes : m.messageId ++ ".json" < served.messageId ++ ".json")
      (String.not_lt.mpr hleast)

/-- **In which order messages are served.** In every state that calls can reach, of two messages of
    one priority in line for a consumer, `lease_next` does not give away the second in the order of
    the backend, be it the one published later or not. -/
theorem served_in_turn {backend : BackendType} {h : History backend.Store (Env × Call) Reply}
    {s : backend.Store}
    (run : Run (backend.adapter schema).machine (backend.Reaching schema) h s)
    (hcalm : (backend.lifecycle schema).Calm env)
    (hadmits : backend = .sqlite ∨ (backend.lifecycle schema).Admits (.leaseNext queue c timeout))
    (hm : backend.InLine schema h s queue c m time)
    (hm' : backend.InLine schema h s queue c m' time') (hpriority : m.priority = m'.priority)
    (hgranted : ((backend.adapter schema).perform env (.leaseNext queue c timeout) s).1.granted =
      some (message, token)) :
    (backend.Precedes (m, time) (m', time') → message.key ≠ m'.key) ∧
    (backend.Precedes (m', time') (m, time) → message.key ≠ m.key) := by
  constructor
  · intro hprecedes
    exact not_overtaken run hcalm hadmits hm hm' hpriority hprecedes hgranted
  · intro hprecedes
    exact not_overtaken run hcalm hadmits hm' hm hpriority.symm hprecedes hgranted

/-- A message of which the two steps so far made only one that is ready. -/
theorem untouched_of_two {σ : Type} {adapter : Adapter σ} {cycle : Lifecycle adapter}
    {first second : Step σ (Env × Call) Reply} {key : String} {m m' : MessageEnvelope}
    (hfirst : first.input.2 = .enqueue m) (hsecond : second.input.2 = .enqueue m')
    (hready : (cycle.slot first.after key).all (·.phase = .ready) = true)
    (hready' : (cycle.slot second.after key).all (·.phase = .ready) = true) :
    cycle.Untouched [second, first] key := by
  constructor
  · intro r hr found hslot
    rcases List.mem_pair.mp hr with rfl | rfl
    · simpa [hslot] using hready'
    · simpa [hslot] using hready
  · rintro r hr ⟨messageKey, delayMs, hdelay, -⟩
    rcases List.mem_pair.mp hr with rfl | rfl
    · rw [hsecond] at hdelay
      cases hdelay
    · rw [hfirst] at hdelay
      cases hdelay

/-- Of two messages published on SQLite the later one is not served first. -/
theorem served_in_turn_two :
    let env (n : Nat) : Env := { now := n + 1, now_pos := Int.succ_ofNat_pos n }
    let older : MessageEnvelope :=
      { key := messageKey "q" "b", messageId := "b", queue := "q", payloadJson := "{}"
        attributesJson := "{}", availableAtMs := 1 }
    let newer : MessageEnvelope :=
      { key := messageKey "q" "a", messageId := "a", queue := "q", payloadJson := "{}"
        attributesJson := "{}", availableAtMs := 2 }
    let M := (BackendType.sqlite.adapter .mainMq).machine
    let first := M.stepAt M.start (env 1, .enqueue older)
    let second := M.stepAt first.after (env 2, .enqueue newer)
    messageKey "q" "b" ≠ newer.key ∧
      (M.step second.after (env 3, .leaseNext "q" "c" 30)).1.granted.map (·.1.key) =
        some (messageKey "q" "b") := by
  intro env older newer M first second
  have run : Run M (BackendType.sqlite.Reaching .mainMq) [second, first] second.after :=
    Run.stepAt (Run.stepAt .start _ (by decide : Call.Fresh [] (.enqueue older)))
      _ (by decide : Call.Fresh [older] (.enqueue newer))
  have hline : ∀ m ∈ [older, newer], BackendType.sqlite.InLine .mainMq [second, first] second.after
      "q" "c" m (if m = older then 2 else 3) := by
    intro m hm
    rcases List.mem_pair.mp hm with rfl | rfl
    · exact ⟨⟨first, by simp, rfl, rfl⟩, rfl, .inl rfl, ⟨⟨"q", "", 0, .ready⟩, by decide, rfl⟩,
        untouched_of_two rfl rfl (by decide) (by decide)⟩
    · exact ⟨⟨second, by simp, rfl, rfl⟩, rfl, .inl rfl, ⟨⟨"q", "", 0, .ready⟩, by decide, rfl⟩,
        untouched_of_two rfl rfl (by decide) (by decide)⟩
  have hgranted : (M.step second.after (env 3, .leaseNext "q" "c" 30)).1.granted =
      some (⟨messageKey "q" "b", "b", "q", "{}", "{}", 0, 1, 2, 0, ""⟩,
        ⟨"", messageKey "q" "b", "c", 30004⟩) := by decide
  have hserved := served_in_turn run trivial (.inl rfl) (hline older (by simp)) (hline newer (by simp))
    rfl hgranted
  exact ⟨hserved.1 (by decide : SQLite.availableFrom older 2 < SQLite.availableFrom newer 3),
    by rw [hgranted]; rfl⟩

/-- **An older message is overtaken.** On the FileSystem backend a message is published at time 2
    and another at time 3, whose identifier happens to sort first; the later one is served. -/
theorem older_overtaken :
    let env (n : Nat) : Env := { now := n + 1, now_pos := Int.succ_ofNat_pos n }
    let older : MessageEnvelope :=
      { key := messageKey "q" "b", messageId := "b", queue := "q", payloadJson := "{}"
        attributesJson := "{}", availableAtMs := 1 }
    let newer : MessageEnvelope :=
      { key := messageKey "q" "a", messageId := "a", queue := "q", payloadJson := "{}"
        attributesJson := "{}", availableAtMs := 2 }
    let M := (BackendType.fileSystem.adapter .mainMq).machine
    let first := M.stepAt M.start (env 1, .enqueue older)
    let second := M.stepAt first.after (env 2, .enqueue newer)
    Run M (BackendType.fileSystem.Reaching .mainMq) [second, first] second.after ∧
      BackendType.fileSystem.InLine .mainMq [second, first] second.after "q" "c" older 2 ∧
      BackendType.fileSystem.InLine .mainMq [second, first] second.after "q" "c" newer 3 ∧
      older.priority = newer.priority ∧
      (M.step second.after (env 3, .leaseNext "q" "c" 30)).1.granted.map (·.1.key) =
        some newer.key := by
  intro env older newer M first second
  have hplain : FileSystem.Call.Plain (.enqueue older) := by decide
  have hplain' : FileSystem.Call.Plain (.enqueue newer) := by decide
  refine ⟨?_, ?_, ?_, rfl, by decide⟩
  · exact Run.stepAt (Run.stepAt .start _
      ⟨rfl, hplain, (by decide : Call.Fresh [] (.enqueue older))⟩)
      _ ⟨rfl, hplain', (by decide : Call.Fresh [older] (.enqueue newer))⟩
  · exact ⟨⟨first, by simp, rfl, rfl⟩, rfl, .inl rfl, ⟨⟨"q", "", 0, .ready⟩, by decide, rfl⟩,
      untouched_of_two rfl rfl (by decide) (by decide)⟩
  · exact ⟨⟨second, by simp, rfl, rfl⟩, rfl, .inl rfl, ⟨⟨"q", "", 0, .ready⟩, by decide, rfl⟩,
      untouched_of_two rfl rfl (by decide) (by decide)⟩

end Service

end YirangMQ

import YirangMQ.Backends.Conservation

namespace YirangMQ

open Program

/-!
# What `metrics` reports

On the backends over SQLite, `metrics` groups the rows of a queue by their state.  Through the life
cycle this is a count of messages: of those published to the queue, by the phase they are in.

* `Hybrid.metrics` — the operation of the Hybrid adapter;
* `countP_index` — rows are counted as the published messages they belong to;
* `metrics_counts` — **the counts are those of the messages in each phase, and together those of
  the messages whose publication and not their acknowledgement was answered with success.**
-/

/-! ### The Hybrid operation -/

/-- The queue is a text that can stand in the statement. -/
def Hybrid.metrics (queue : String) : Program Hybrid.Store (QueueMetrics × Option String) := do
  match ← prim (Conn.reading fun t => (SQLite.stateCounts queue t).filter (0 < ·.2)) with
  | .error e => return ({}, some e)
  | .ok groups =>
    let count (state : MessageState) := (groups.lookup state).getD 0
    return (⟨count .ready, count .inflight, count .delayed, count .dlq⟩, none)

/-- The counts `metrics` answers when the query does not fail. -/
theorem Hybrid.metrics_eq (queue : String) (s : Hybrid.Store) :
    let count (state : MessageState) :=
      s.data.index.countP fun r => r.queue = queue ∧ r.state = state
    ((Hybrid.metrics queue).run [] s).1 =
      (⟨count .ready, count .inflight, count .delayed, count .dlq⟩, none) := by
  intro count
  have hsat : Sat False (fun _ => True) s (Hybrid.metrics queue) fun r _ =>
      r = (⟨count .ready, count .inflight, count .delayed, count .dlq⟩, none) := by
    refine Sat.bind (Sat.prim ?_ (by simp [Conn.reading]) (by simp))
    rintro groups u ⟨rfl, rfl⟩
    refine ⟨trivial, Sat.pure ?_⟩
    simp only [SQLite.stateCounts, SQLite.lookup_groups]
    rfl
  exact (hsat.run (.inr rfl) trivial).1

/-- `metrics` of a backend over SQLite, when no statement fails. -/
def BackendType.metrics : (backend : BackendType) → String → backend.Store → QueueMetrics
  | .fileSystem, queue, s => ((FileSystem.metrics queue).run [] s).1
  | .sqlite, queue, s => ((SQLite.metrics queue).run [] s).1.1
  | .hybrid, queue, s => ((Hybrid.metrics queue).run [] s).1.1

/-! ### Rows and messages -/

/-- The state of the rows whose message is in a phase. -/
def Phase.state : Phase → MessageState
  | .ready => .ready
  | .inflight _ => .inflight
  | .delayed _ => .delayed
  | .dlq => .dlq

theorem Phase.state_cases (phase : Phase) : phase.state = .ready ∨ phase.state = .inflight ∨
    phase.state = .delayed ∨ phase.state = .dlq := by
  cases phase <;> simp [Phase.state]

@[simp] theorem IndexRow.slot_queue (r : IndexRow) : r.slot.queue = r.queue := rfl

theorem IndexRow.slot_state {r : IndexRow} (hstate : r.state ≠ .archived) :
    r.slot.phase.state = r.state := by
  unfold IndexRow.slot Phase.state
  cases hs : r.state with
  | archived => exact absurd hs hstate
  | _ => rfl

/-- **Rows are counted as the published messages they belong to.** -/
theorem Tables.countP_index {t : Tables} (hkeyed : Table.Keyed IndexRow.messageKey t.index)
    {published : List MessageEnvelope} (hwell : WellPublished published)
    (hknown : ∀ key, t.slot key ≠ none → key ∈ published.map MessageEnvelope.key)
    (p : Slot → Bool) :
    t.index.countP (fun r => p r.slot) = published.countP fun m => (t.slot m.key).any p := by
  have hslot : ∀ r ∈ t.index, t.slot r.messageKey = some r.slot := by
    intro r hr
    rw [Tables.slot, Tables.row?, hkeyed.row?_of_mem hr]
    rfl
  have hperm : ((t.index.filter fun r => p r.slot).map IndexRow.messageKey).Perm
      ((published.filter fun m => (t.slot m.key).any p).map MessageEnvelope.key) := by
    have hrows : ((t.index.filter fun r => p r.slot).map IndexRow.messageKey).Nodup :=
      hkeyed.sublist (List.filter_sublist.map _)
    have hmessages : ((published.filter fun m => (t.slot m.key).any p).map
        MessageEnvelope.key).Nodup := hwell.nodup_keys.sublist (List.filter_sublist.map _)
    rw [List.perm_ext_iff_of_nodup hrows hmessages]
    intro key
    simp only [List.mem_map, List.mem_filter]
    constructor
    · rintro ⟨r, ⟨hr, hp⟩, rfl⟩
      have hsome := hslot r hr
      obtain ⟨m, hm, hkey⟩ := List.mem_map.mp (hknown r.messageKey (by simp [hsome]))
      exact ⟨m, ⟨hm, by rw [hkey, hsome]; exact hp⟩, hkey⟩
    · rintro ⟨m, ⟨hm, hp⟩, rfl⟩
      obtain ⟨found, hfound, hp⟩ := (Option.any_eq_true _ _).mp hp
      obtain ⟨r, hrow, hkey, rfl⟩ := Tables.row?_of_slot hfound
      exact ⟨r, ⟨Table.row?_mem hrow, hp⟩, hkey⟩
  rw [List.countP_eq_length_filter, List.countP_eq_length_filter,
    ← List.length_map (f := IndexRow.messageKey), hperm.length_eq, List.length_map]

/-- The message is in this queue, in a phase of this state. -/
def Slot.counts (queue : String) (state : MessageState) (found : Slot) : Bool :=
  found.queue = queue ∧ found.phase.state = state

/-- A message of the queue is in one of the four states. -/
theorem countP_phases {α : Type} (slot : α → Option Slot) (queue : String) (l : List α) :
    l.countP (fun m => (slot m).any (Slot.counts queue .ready)) +
        l.countP (fun m => (slot m).any (Slot.counts queue .inflight)) +
        l.countP (fun m => (slot m).any (Slot.counts queue .delayed)) +
        l.countP (fun m => (slot m).any (Slot.counts queue .dlq)) =
      l.countP fun m => (slot m).any (·.queue = queue) := by
  induction l with
  | nil => rfl
  | cons m l ih =>
    simp only [List.countP_cons]
    cases hslot : slot m with
    | none =>
      simp only [Option.any_none, Bool.false_eq_true, if_false]
      omega
    | some found =>
      simp only [Option.any_some, Slot.counts]
      by_cases hqueue : found.queue = queue
      · rcases found.phase.state_cases with hs | hs | hs | hs <;> simp only [hqueue, hs, true_and,
          reduceCtorEq, decide_true, decide_false, if_true, if_false, Bool.false_eq_true] <;> omega
      · simp only [hqueue, false_and, decide_false, Bool.false_eq_true, if_false]
        omega

/-! ### The report -/

variable {backend : BackendType} {schema : SchemaFile} {policies : String → Option QueuePolicy}
  {h : DaemonHistory backend.Store} {s : Daemon backend.Store}

/-- `metrics` of a backend over SQLite counts slots. -/
theorem metrics_slots (hbackend : backend ≠ .fileSystem)
    (hkept : (backend.lifecycle schema).Kept (published h) s) (queue : String) :
    let count (state : MessageState) := (published h).countP fun m =>
      ((backend.lifecycle schema).slot s.store m.key).any (Slot.counts queue state)
    backend.metrics queue s.store = ⟨count .ready, count .inflight, count .delayed, count .dlq⟩ := by
  intro count
  cases backend with
  | fileSystem => exact absurd rfl hbackend
  | sqlite =>
    obtain ⟨time, hinv⟩ := hkept.inv.invariant
    have hcount : ∀ state, count state =
        s.store.data.index.countP fun r => r.queue = queue ∧ r.state = state := by
      intro state
      refine (Tables.countP_index hinv.indexKeyed hkept.well hkept.inv.known _).symm.trans ?_
      refine List.countP_congr fun r hr => ?_
      have hstate : r.state ≠ .archived := by
        rcases (hinv.rows r hr).state with hs | hs | hs | hs <;> simp [hs]
      simp [Slot.counts, IndexRow.slot_state hstate]
    simp only [hcount, BackendType.metrics]
    rw [SQLite.metrics_eq queue s.store]
  | hybrid =>
    have hinv := hkept.inv.invariant
    have hcount : ∀ state, count state =
        s.store.data.index.countP fun r => r.queue = queue ∧ r.state = state := by
      intro state
      refine (Tables.countP_index hinv.indexKeyed hkept.well hkept.inv.known _).symm.trans ?_
      refine List.countP_congr fun r hr => ?_
      simp [Slot.counts, IndexRow.slot_state (hinv.rows r hr).state]
    simp only [hcount, BackendType.metrics]
    rw [Hybrid.metrics_eq queue s.store]

/-- **The counts of `metrics`** are those of the published messages in each phase, and add up to the
    messages of the queue whose publication and not their acknowledgement was answered with success.
    The name of the queue stands in the statement of the Hybrid adapter. -/
theorem metrics_counts (hbackend : backend ≠ .fileSystem)
    (run : Run (daemon (backend.adapter schema) policies) (backend.lifecycle schema).Proper h s)
    (queue : String) (_hplain : backend = .hybrid → IsPlain queue) :
    let count (state : MessageState) := (published h).countP fun m =>
      ((backend.lifecycle schema).slot s.store m.key).any (Slot.counts queue state)
    let counts := backend.metrics queue s.store
    counts = ⟨count .ready, count .inflight, count .delayed, count .dlq⟩ ∧
    counts.ready + counts.inflight + counts.delayed + counts.dlq =
      (published h).countP fun m =>
        m.queue = queue ∧ (backend.lifecycle schema).stored m.key h = true := by
  intro count counts
  have hkept := (backend.lifecycle schema).keeps (fun _ _ _ ok => ok) run
  have hcounts : counts = ⟨count .ready, count .inflight, count .delayed, count .dlq⟩ :=
    metrics_slots hbackend hkept queue
  refine ⟨hcounts, ?_⟩
  rw [hcounts]
  refine (countP_phases _ queue _).trans (List.countP_congr fun m hm => ?_)
  obtain ⟨hstored, horigin⟩ := messages_conserved backend schema policies run
    (fun hfile => absurd hfile hbackend) m.key
  rw [← hstored]
  cases hslot : (backend.lifecycle schema).slot s.store m.key with
  | none => simp
  | some found =>
    obtain ⟨m', hm', hkey, hqueue, -⟩ := horigin found hslot
    obtain rfl : m' = m := hkept.well.eq_of_key hm' hm hkey
    simp [hqueue]

/-- Three messages on the Hybrid backend, of which one is leased and one acknowledged. -/
theorem metrics_counts_leased :
    let env (n : Nat) : Env := { now := n + 1, now_pos := Int.succ_ofNat_pos n }
    let message (id : String) : MessageEnvelope :=
      { key := messageKey "q" id, messageId := id, queue := "q", payloadJson := "{}"
        attributesJson := "{}" }
    let M := daemon (BackendType.hybrid.adapter .mainMq) fun _ => none
    let ticks : List Tick := [.call (env 1) (.enqueue (message "a")),
      .call (env 2) (.enqueue (message "b")), .call (env 3) (.enqueue (message "c")),
      .call (env 4) (.leaseNext "q" "worker" 30),
      .call (env 5) (.ack ⟨"", messageKey "q" "a", "worker", 0⟩),
      .call (env 6) (.leaseNext "q" "worker" 30)]
    let h := (M.replay ticks ([], M.start)).1
    let counts := BackendType.hybrid.metrics "q" (M.replay ticks ([], M.start)).2.store
    counts = ⟨1, 1, 0, 0⟩ ∧ counts.ready + counts.inflight + counts.delayed + counts.dlq =
      (published h).countP fun m =>
        m.queue = "q" ∧ (BackendType.hybrid.lifecycle .mainMq).stored m.key h = true := by
  intro env message M ticks h counts
  have proper : ∀ n c h s, Call.Plain c → c.Fresh (published h) →
      (BackendType.hybrid.lifecycle .mainMq).Proper h s (.call (env n) c) := by
    intro n c h s hplain hfresh
    exact .call trivial hfresh hplain
  have run : Run M (BackendType.hybrid.lifecycle .mainMq).Proper h (M.replay ticks ([], M.start)).2 :=
    run_replay ticks ⟨proper _ _ _ _ (by decide) (by decide), proper _ _ _ _ (by decide) (by decide),
      proper _ _ _ _ (by decide) (by decide), proper _ _ _ _ (by decide) trivial,
      proper _ _ _ _ (by decide) trivial, proper _ _ _ _ (by decide) trivial, trivial⟩
  exact ⟨by decide +kernel, (metrics_counts (by decide) run "q" fun _ => by decide).2⟩

end YirangMQ

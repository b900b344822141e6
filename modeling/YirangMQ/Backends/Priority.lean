import YirangMQ.Backends.Addressing
import YirangMQ.FileSystem.Inbox
import YirangMQ.Hybrid.Fidelity
import YirangMQ.SQLite.Fidelity
import Mathlib.Tactic.MkIffOfInductiveProp

namespace YirangMQ

/-!
# Which priority is served first

The README calls 0 the highest priority.  The two backends over SQLite serve the largest number
first, and the FileSystem backend does not look at priorities but at file names.

* `BackendType.Waits` — the messages `lease_next` may choose from;
* `BackendType.Prefers` — what a backend looks at when it chooses;
* `Tables.best_served`, `FileSystem.leaseNext_first` — what the backends serve;
* `priority_served` — **which message is served, and when it has the best priority**, with
  `largest_number_first`, where it has not.
-/

/-- The message of `queue` is ready and due, and consumer `c` may receive it. -/
@[mk_iff] structure BackendType.Waits (backend : BackendType) (schema : SchemaFile)
    (published : List MessageEnvelope) (s : backend.Store) (queue c : String) (now : Int)
    (m : MessageEnvelope) : Prop where
  mem : m ∈ published
  queue : m.queue = queue
  target : m.targetConsumerId = "" ∨ m.targetConsumerId = c
  ready : ∃ found, (backend.lifecycle schema).slot s m.key = some found ∧ found.phase = .ready
  due : backend.Due s now m.key

/-- The backend serves the first of two waiting messages, if one of them: over SQLite that with the
    larger number, on files that whose name comes first. -/
def BackendType.Prefers : BackendType → MessageEnvelope → MessageEnvelope → Prop
  | .sqlite, m, m' | .hybrid, m, m' => m'.priority ≤ m.priority
  | .fileSystem, m, m' => m.messageId ++ ".json" ≤ m'.messageId ++ ".json"

/-- The messages that wait are such that the one the backend serves has the best priority: over
    SQLite all have the same, and on files the first by name has the least number. -/
def BackendType.InOrder : BackendType → (MessageEnvelope → Prop) → Prop
  | .sqlite, waits | .hybrid, waits => ∀ m m', waits m → waits m' → m.priority = m'.priority
  | .fileSystem, waits => ∀ m, waits m →
    (∀ m', waits m' → m.messageId ++ ".json" ≤ m'.messageId ++ ".json") →
    ∀ m', waits m' → m.priority ≤ m'.priority

/-! ### The index -/

section Index

variable {published : List MessageEnvelope} {t : Tables} {queue c : String} {now : Int}

/-- Every row has the columns of a published message. -/
def Tables.Described (published : List MessageEnvelope) (t : Tables) : Prop :=
  ∀ r ∈ t.index, ∃ m ∈ published, r.Describes m

/-- The message has a row that is ready for the consumer. -/
def Tables.Offers (t : Tables) (queue c : String) (now : Int) (m : MessageEnvelope) : Prop :=
  ∃ r ∈ t.index, r.Describes m ∧ isReadyFor queue c now r = true

/-- Rows that carry the content of published messages on SQLite are described by them. -/
theorem SQLite.described_of_backed (h : t.Backed (SQLite.Carries published)) :
    t.Described published := by
  intro r hr
  obtain ⟨_, -, m, hm, hdescribes, -⟩ := h r hr
  exact ⟨m, hm, hdescribes⟩

/-- So are rows that carry the envelope of published messages on Hybrid. -/
theorem Hybrid.described_of_backed (h : t.Backed (Hybrid.Carries published)) :
    t.Described published := by
  intro r hr
  obtain ⟨_, -, m, hm, hdescribes, -⟩ := h r hr
  exact ⟨m, hm, hdescribes⟩

/-- The row of a published message describes it. -/
theorem Tables.Described.describes (h : t.Described published) (hwell : WellPublished published)
    {m : MessageEnvelope} (hm : m ∈ published) {r : IndexRow} (hrow : t.row? m.key = some r) :
    r.Describes m := by
  obtain ⟨m', hm', hdescribes⟩ := h r (Table.row?_mem hrow)
  have hkey : m'.key = m.key := hdescribes.key.symm.trans (Table.row?_key hrow)
  rw [← hwell.eq_of_key hm' hm hkey]
  exact hdescribes

/-- A message waits exactly when its row is ready for the consumer. -/
theorem Tables.offers_iff (hinteg : t.Integrity) (h : t.Described published)
    (hwell : WellPublished published) {m : MessageEnvelope} (hm : m ∈ published) :
    t.Offers queue c now m ↔ m.queue = queue ∧
      (m.targetConsumerId = "" ∨ m.targetConsumerId = c) ∧
      (∃ found, t.slot m.key = some found ∧ found.phase = .ready) ∧
      ∀ row, t.row? m.key = some row → row.availableAt ≤ now := by
  constructor
  · rintro ⟨r, hr, hdescribes, hready⟩
    simp only [isReadyFor, decide_eq_true_eq] at hready
    obtain ⟨hqueue, hstate, havailable, htarget⟩ := hready
    have hrow : t.row? m.key = some r := hdescribes.key ▸ hinteg.row?_of_mem hr
    refine ⟨hdescribes.queue.symm.trans hqueue, hdescribes.target ▸ htarget, ⟨r.slot, ?_, ?_⟩, ?_⟩
    · rw [Tables.slot, hrow]
      rfl
    · exact IndexRow.slot_ready_iff.mpr hstate
    · intro row hrow'
      obtain rfl := Option.some.inj (hrow.symm.trans hrow')
      exact havailable
  · rintro ⟨hqueue, htarget, ⟨found, hslot, hphase⟩, hdue⟩
    obtain ⟨r, hrow, -, rfl⟩ := Tables.row?_of_slot hslot
    have hdescribes := h.describes hwell hm hrow
    refine ⟨r, Table.row?_mem hrow, hdescribes, ?_⟩
    simp only [isReadyFor, decide_eq_true_eq]
    exact ⟨hdescribes.queue.trans hqueue, IndexRow.slot_ready_iff.mp hphase, hdue r hrow,
      hdescribes.target ▸ htarget⟩

/-- The selected row is of a waiting message with the largest number. -/
theorem Tables.largest_served (hinteg : t.Integrity) (h : t.Described published)
    (hwell : WellPublished published) {row : IndexRow}
    (hrow : t.readyRow? schema queue c now = some row) {served : MessageEnvelope}
    (hmem : served ∈ published) (hserved : row.Describes served)
    {waits : MessageEnvelope → Prop}
    (hwaits : ∀ m, waits m ↔ m ∈ published ∧ m.queue = queue ∧
      (m.targetConsumerId = "" ∨ m.targetConsumerId = c) ∧
      (∃ found, t.slot m.key = some found ∧ found.phase = .ready) ∧
      ∀ row, t.row? m.key = some row → row.availableAt ≤ now) :
    waits served ∧ ∀ m, waits m → m.priority ≤ served.priority := by
  have hoffers : ∀ m, waits m ↔ m ∈ published ∧ t.Offers queue c now m := by
    intro m
    rw [hwaits]
    exact and_congr_right fun hm => (Tables.offers_iff hinteg h hwell hm).symm
  obtain ⟨hrowMem, hready⟩ := Tables.readyRow?_some hrow
  refine ⟨(hoffers served).mpr ⟨hmem, row, hrowMem, hserved, hready⟩, fun m hm => ?_⟩
  obtain ⟨-, r, hr, hdescribes, hready'⟩ := (hoffers m).mp hm
  rw [← hdescribes.priority, ← hserved.priority]
  exact Tables.readyRow?_priority hrow hr hready'

/-- The largest number is the least exactly when there is only one. -/
theorem largest_least_iff {waits : MessageEnvelope → Prop} {served : MessageEnvelope}
    (hserved : waits served) (hlargest : ∀ m, waits m → m.priority ≤ served.priority) :
    (∀ m, waits m → served.priority ≤ m.priority) ↔
      ∀ m m', waits m → waits m' → m.priority = m'.priority := by
  constructor
  · intro hbest m m' hm hm'
    have hsame : ∀ n, waits n → n.priority = served.priority := fun n hn =>
      le_antisymm (hlargest n hn) (hbest n hn)
    rw [hsame m hm, hsame m' hm']
  · intro hall m hm
    exact (hall served m hserved hm).le

end Index

/-! ### What the backends serve -/

variable {schema : SchemaFile} {env : Env} {queue c : String} {timeout : Int}
  {message : MessageEnvelope} {token : LeaseToken}

/-- The key of a message leased on SQLite has been read from a row. -/
theorem SQLite.nul_not_mem_granted {s : SQLite.Store} (hsaved : s.saved = none)
    (hgranted : ((SQLite.adapter schema).perform env (.leaseNext queue c timeout) s).1.granted =
      some (message, token)) : '\x00' ∉ message.key.toList := by
  obtain ⟨-, hperforms⟩ :=
    @SQLite.perform_performs True schema env s hsaved (.inl trivial) (.leaseNext queue c timeout)
  rcases hperforms with ⟨hrefusal, -⟩ | ⟨row, value, hrow, -, hreply, -⟩
  · rw [hrefusal.granted] at hgranted
    cases hgranted
  · obtain ⟨selected, -, rfl⟩ := Option.map_eq_some_iff.mp hrow
    rw [hreply, SQLite.leaseReply] at hgranted
    split at hgranted
    case h_1 => cases hgranted
    case h_2 given hgiven =>
      simp only [Reply.granted, Option.some.injEq, Prod.mk.injEq] at hgranted
      obtain ⟨rfl, -⟩ := hgranted
      simp only [SQLite.leasedMessage, Option.bind_eq_bind, Option.bind_eq_some_iff,
        Option.pure_def, Option.some.injEq] at hgiven
      obtain ⟨_, -, _, -, _, -, _, -, _, -, _, -, rfl⟩ := hgiven
      exact SQLite.nul_not_mem_columnText _

/-- The SQLite adapter serves the message of the selected row, when its key is read as it is. -/
theorem SQLite.leaseNext_served {h : History SQLite.Store (Env × Call) Reply} {s : SQLite.Store}
    (run : Run (SQLite.adapter schema).machine (BackendType.sqlite.Given schema) h s)
    (hlegible : s.data.Legible queue c env.now)
    (hgranted : ((SQLite.adapter schema).perform env (.leaseNext queue c timeout) s).1.granted =
      some (message, token)) :
    s.data.Integrity ∧ s.data.Described (publishedBy h) ∧
      ∃ row, s.data.readyRow? schema queue c env.now = some row ∧
        ∃ m ∈ publishedBy h, row.Describes m ∧ message.key = m.key ∧
          message.priority = m.priority := by
  obtain ⟨hsaved, hbacked⟩ := SQLite.content_kept run
  have hkeeps : SQLite.Keeps (publishedBy h) s :=
    ((BackendType.sqlite.sustains_given schema).inv_of_run run).1
  obtain ⟨time, hinv⟩ := hkeeps.invariant
  have hdescribed : s.data.Described (publishedBy h) := SQLite.described_of_backed hbacked
  obtain ⟨-, hperforms⟩ :=
    @SQLite.perform_performs True schema env s hsaved (.inl trivial) (.leaseNext queue c timeout)
  rcases hperforms with ⟨hrefusal, -⟩ | ⟨row, value, hrow, hvalue, hreply, -⟩
  · rw [hrefusal.granted] at hgranted
    cases hgranted
  -- The selected row is read as it is and carries a published message.
  · rw [hlegible.nextRow?_eq] at hrow
    obtain ⟨j, hj, m, hm, hdescribes, hcontent⟩ := hbacked row (Tables.readyRow?_some hrow).1
    refine ⟨hinv.toIntegrity, hdescribed, row, hrow, m, hm, hdescribes, ?_⟩
    obtain ⟨-, -, -, given, hgiven, -⟩ :=
      SQLite.Carries.leasedMessage ⟨m, hm, hdescribes, hcontent⟩ queue
    rw [hj, Option.some.injEq] at hvalue
    rw [hreply, SQLite.leaseReply, ← hvalue, hgiven] at hgranted
    simp only [Reply.granted, Option.some.injEq, Prod.mk.injEq] at hgranted
    obtain ⟨rfl, -⟩ := hgranted
    simp only [SQLite.leasedMessage, Option.bind_eq_bind, Option.bind_some,
      Option.bind_eq_some_iff, Option.pure_def, Option.some.injEq] at hgiven
    obtain ⟨_, -, _, -, _, -, _, -, _, -, rfl⟩ := hgiven
    exact ⟨hdescribes.key, hdescribes.priority⟩

/-- The Hybrid adapter serves the message of the selected row. -/
theorem Hybrid.leaseNext_served {h : History Hybrid.Store (Env × Call) Reply} {s : Hybrid.Store}
    (run : Run (Hybrid.adapter schema).machine (Hybrid.lifecycle schema).Admitted h s)
    (hgranted : ((Hybrid.adapter schema).perform env (.leaseNext queue c timeout) s).1.granted =
      some (message, token)) :
    s.data.Integrity ∧ s.data.Described (publishedBy h) ∧
      ∃ row, s.data.readyRow? schema queue c env.now = some row ∧
        ∃ m ∈ publishedBy h, row.Describes m ∧ message.key = m.key ∧
          message.priority = m.priority := by
  have hbacked := Hybrid.content_kept run
  have hkeeps : Hybrid.Keeps (publishedBy h) s := ((Hybrid.lifecycle schema).inv_of_run run).1
  have hdescribed : s.data.Described (publishedBy h) := Hybrid.described_of_backed hbacked
  obtain ⟨-, hperforms⟩ := @Hybrid.perform_performs True schema env s hkeeps.saved (.inl trivial)
    (.leaseNext queue c timeout)
  rcases hperforms with ⟨hrefusal, -⟩ | ⟨row, value, content, hrow, hvalue, -, hreply, -⟩
  · rw [hrefusal.granted] at hgranted
    cases hgranted
  · obtain ⟨j, hj, hcarries⟩ := hbacked row (Tables.readyRow?_some hrow).1
    obtain ⟨m, hm, hdescribes, hread⟩ := hcarries.leasedEnvelope
    refine ⟨hkeeps.invariant.toIntegrity, hdescribed, row, hrow, m, hm, hdescribes, ?_⟩
    rw [hj, Option.some.injEq] at hvalue
    rw [hreply, Hybrid.leaseReply, ← hvalue, hread, Option.bind_some] at hgranted
    split at hgranted
    case h_1 => cases hgranted
    case h_2 given hgiven =>
      simp only [Reply.granted, Option.some.injEq, Prod.mk.injEq] at hgranted
      obtain ⟨rfl, -⟩ := hgranted
      obtain ⟨_, _, rfl⟩ := Hybrid.withPayload_some hgiven
      exact ⟨rfl, rfl⟩

/-! ### The best priority -/

variable {backend : BackendType} {h : History backend.Store (Env × Call) Reply}
  {s : backend.Store}

/-- **Which message is served.** What `lease_next` gives away in a state that calls can reach is the
    message the backend prefers among those that wait for the consumer.  It has the best priority,
    the least number, of them exactly when these are in the order of the backend. -/
theorem priority_served
    (run : Run (backend.adapter schema).machine (backend.Given schema) h s)
    (hcalm : (backend.lifecycle schema).Calm env)
    (hadmits : (backend.lifecycle schema).Admits (.leaseNext queue c timeout))
    (hgranted : ((backend.adapter schema).perform env (.leaseNext queue c timeout) s).1.granted =
      some (message, token)) :
    let waits := backend.Waits schema (publishedBy h) s queue c env.now
    (∃ served, waits served ∧ served.key = message.key ∧ served.priority = message.priority ∧
      ∀ m, waits m → backend.Prefers served m) ∧
    ((∀ m, waits m → message.priority ≤ m.priority) ↔ backend.InOrder waits) := by
  intro waits
  obtain ⟨hinv, hwell⟩ := (backend.sustains_given schema).inv_of_run run
  cases backend with
  | sqlite =>
    have hkeeps : SQLite.Keeps (publishedBy h) s := hinv
    have hreadable : SQLite.Call.Readable (.leaseNext queue c timeout) := hadmits
    obtain ⟨hinteg, hdescribed, row, hrow, served, hmem, hserved, hkey, hpriority⟩ :=
      SQLite.leaseNext_served run (hkeeps.readable hreadable) hgranted
    have hlargest : waits served ∧ ∀ m, waits m → m.priority ≤ served.priority :=
      Tables.largest_served hinteg hdescribed hwell hrow hmem hserved
        fun m => BackendType.waits_iff _ _ _ _ _ _ _ m
    obtain ⟨hwaits, hlargest⟩ := hlargest
    refine ⟨⟨served, hwaits, hkey.symm, hpriority.symm, hlargest⟩, ?_⟩
    rw [hpriority]
    exact largest_least_iff hwaits hlargest
  | hybrid =>
    obtain ⟨hinteg, hdescribed, row, hrow, served, hmem, hserved, hkey, hpriority⟩ :=
      Hybrid.leaseNext_served run hgranted
    have hlargest : waits served ∧ ∀ m, waits m → m.priority ≤ served.priority :=
      Tables.largest_served hinteg hdescribed hwell hrow hmem hserved
        fun m => BackendType.waits_iff _ _ _ _ _ _ _ m
    obtain ⟨hwaits, hlargest⟩ := hlargest
    refine ⟨⟨served, hwaits, hkey.symm, hpriority.symm, hlargest⟩, ?_⟩
    rw [hpriority]
    exact largest_least_iff hwaits hlargest
  | fileSystem =>
    have hkeeps : FileSystem.Keeps False (publishedBy h) s := hinv
    obtain ⟨served, hmem, hqueue, htarget, hkey, hpriority, hready, hfirst⟩ :=
      FileSystem.leaseNext_first hkeeps hcalm hadmits.1 hgranted
    have hwaits : waits served := ⟨hmem, hqueue, htarget, hready, trivial⟩
    have hleast : ∀ m, waits m → served.messageId ++ ".json" ≤ m.messageId ++ ".json" := by
      intro m hm
      obtain ⟨found, hslot, hphase⟩ := hm.ready
      obtain ⟨attempt, available, hinbox⟩ := hkeeps.inbox_of_ready hm.mem hslot hphase
      rw [hm.queue] at hinbox
      exact hfirst m.messageId _ (hkeeps.named m hm.mem).id hinbox hm.target
    refine ⟨⟨served, hwaits, hkey.symm, hpriority.symm, hleast⟩, ?_⟩
    rw [hpriority]
    constructor
    · intro hbest m hm hfirst' m' hm'
      -- two messages that are first by name are one message
      have hnames := String.le_antisymm (hfirst' served hwaits) (hleast m hm)
      have hid : m.messageId = served.messageId := by
        have hlists := congrArg String.toList hnames
        rw [String.toList_append, String.toList_append, List.append_left_inj] at hlists
        exact String.toList_inj.mp hlists
      rw [hwell.eq_of_id hm.mem hmem hid]
      exact hbest m' hm'
    · intro horder m hm
      exact horder served hwaits hleast m hm

/-- The only message of a Hybrid backend is the best one. -/
theorem priority_served_leased :
    let env (n : Nat) : Env := { now := n + 1, now_pos := Int.succ_ofNat_pos n }
    let message : MessageEnvelope :=
      { key := messageKey "q" "a", messageId := "a", queue := "q", payloadJson := "{}"
        attributesJson := "{}", priority := 5 }
    let M := (BackendType.hybrid.adapter .mainMq).machine
    let stored := M.stepAt M.start (env 1, .enqueue message)
    ∀ m, BackendType.hybrid.Waits .mainMq [message] stored.after "q" "c" 3 m → 5 ≤ m.priority := by
  intro env message M stored
  have hplain : Call.Plain (.enqueue message) := by decide
  have hlease : Call.Plain (.leaseNext "q" "c" 30) := by decide
  have hadmitted : (BackendType.hybrid.lifecycle .mainMq).Admitted [] M.start
      (env 1, .enqueue message) := ⟨trivial, hplain, by decide⟩
  have run : Run M (BackendType.hybrid.Given .mainMq) [stored] stored.after :=
    Run.stepAt .start _ hadmitted
  have hgranted : ((BackendType.hybrid.adapter .mainMq).perform (env 2) (.leaseNext "q" "c" 30)
      stored.after).1.granted =
      some ({ message with attempt := 1 }, ⟨"", message.key, "c", 30003⟩) := by decide
  have hserved := @priority_served .mainMq (env 2) "q" "c" 30 _ _ .hybrid _ _ run trivial hlease
    hgranted
  refine hserved.2.mpr fun m m' hm hm' => ?_
  obtain rfl := List.mem_singleton.mp hm.mem
  obtain rfl := List.mem_singleton.mp hm'.mem
  rfl

/-- Of two messages with priorities 0 and 5, SQLite serves 5 first, and the FileSystem backend,
    given the same calls, 0. -/
theorem largest_number_first :
    let env (n : Nat) : Env := { now := n + 1, now_pos := Int.succ_ofNat_pos n }
    let best : MessageEnvelope :=
      { key := messageKey "q" "a", messageId := "a", queue := "q", payloadJson := "{}"
        attributesJson := "{}", priority := 0 }
    let other : MessageEnvelope :=
      { key := messageKey "q" "b", messageId := "b", queue := "q", payloadJson := "{}"
        attributesJson := "{}", priority := 5 }
    let calls := [(env 1, Call.enqueue best), (env 2, Call.enqueue other)]
    let M := (BackendType.sqlite.adapter .mainMq).machine
    let N := (BackendType.fileSystem.adapter .mainMq).machine
    let given (reply : Reply) := reply.granted.map fun grant => grant.1.priority
    Run M (BackendType.sqlite.Given .mainMq) (M.replay calls ([], M.start)).1
        (M.replay calls ([], M.start)).2 ∧
      BackendType.sqlite.Waits .mainMq [other, best] (M.replay calls ([], M.start)).2 "q" "c" 4
        best ∧
      given (M.step (M.replay calls ([], M.start)).2 (env 3, .leaseNext "q" "c" 30)).1 = some 5 ∧
      given (N.step (N.replay calls ([], N.start)).2 (env 3, .leaseNext "q" "c" 30)).1 =
        some 0 := by
  intro env best other calls M N given
  refine ⟨run_replay calls ⟨?_, ?_, trivial⟩, ?_, ?_, ?_⟩
  · show Call.Fresh [] (.enqueue best)
    decide
  · show Call.Fresh [best] (.enqueue other)
    decide
  · have hslot : (BackendType.sqlite.lifecycle .mainMq).slot (M.replay calls ([], M.start)).2
        best.key = some ⟨"q", "", 0, .ready⟩ := by decide
    have hrow : Tables.row? (M.replay calls ([], M.start)).2.data best.key =
        some (SQLite.newRow best 2) := by decide
    refine ⟨by simp, rfl, .inl rfl, ⟨_, hslot, rfl⟩, fun row hrow' => ?_⟩
    obtain rfl := Option.some.inj (hrow.symm.trans hrow')
    decide
  · decide
  · decide

end YirangMQ

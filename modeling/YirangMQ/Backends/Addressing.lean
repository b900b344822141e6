import YirangMQ.Backends.Leases
import YirangMQ.FileSystem.Inbox

namespace YirangMQ

/-!
# Direct addressing

On the SQLite and the FileSystem backend, a message with a target goes to no other consumer, and
does not keep messages behind it from theirs.

* `BackendType.Due` — the time of a ready message has come, as `lease_next` asks on SQLite;
* `due_of_later` — ready messages are due as long as the clock has not gone back;
* `addressed_delivery` — **who is given what**;
* `leased_by_another` — a queue with a NUL character in its name.
-/

/-! ### Ready messages are due -/

/-- The time of a message has come at `now`.  Only the index has a time for ready messages. -/
def BackendType.Due : (backend : BackendType) → backend.Store → Int → String → Prop
  | .fileSystem, _, _, _ => True
  | .sqlite, s, now, key | .hybrid, s, now, key =>
    ∀ row, s.data.row? key = some row → row.availableAt ≤ now

variable {backend : BackendType} {schema : SchemaFile} {policies : String → Option QueuePolicy}
  {h : DaemonHistory backend.Store} {s : Daemon backend.Store}

/-- The invariant of the SQLite store after every run, at every time not earlier than it. -/
theorem sqlite_invariant {h : DaemonHistory SQLite.Store} {s : Daemon SQLite.Store}
    (run : Run (daemon (SQLite.adapter schema) policies) (SQLite.lifecycle schema).Proper h s)
    {now : Int} (hnow : ∀ r ∈ h, r.input.now ≤ now) : SQLite.Invariant now s.store.data := by
  induction run with
  | start => exact SQLite.invariant_empty now
  | @step h s tick run ok ih =>
    have hbefore : SQLite.Invariant now s.store.data :=
      ih fun r hr => hnow r (List.mem_cons_of_mem _ hr)
    have hle : tick.now ≤ now := hnow _ List.mem_cons_self
    have hkept := (SQLite.lifecycle schema).keeps (fun _ _ _ ok => ok) run
    have hdoes := daemon_does (SQLite.adapter schema) policies s tick
    generalize ((daemon (SQLite.adapter schema) policies).step s tick).1 = out at hdoes
    generalize ((daemon (SQLite.adapter schema) policies).step s tick).2 = after at hdoes
    cases hdoes with
    | called env call =>
      obtain ⟨hfresh, hadmits⟩ := ok.2 env call rfl
      exact hbefore.perform hkept.inv.saved hle hfresh.formed (hkept.inv.readable hadmits)
    | settled env info rest call hpending hcall =>
      have hsettles := sweepCall_settles hcall
      have hreadable : SQLite.Readable env s.store.data call := by
        cases hsettles with
        | delay => trivial
        | dead => trivial
      exact hbefore.perform hkept.inv.saved hle (hsettles.fresh []).1.formed hreadable
    | listed | dropped | unlisted | done => exact hbefore

/-- On SQLite, ready messages are due as long as the clock has not gone back. -/
theorem due_of_later (hbackend : backend ≠ .hybrid)
    (run : Run (daemon (backend.adapter schema) policies) (backend.lifecycle schema).Proper h s)
    {now : Int} (hnow : ∀ r ∈ h, r.input.now ≤ now) {key : String} {found : Slot}
    (hslot : (backend.lifecycle schema).slot s.store key = some found)
    (hphase : found.phase = .ready) : backend.Due s.store now key := by
  cases backend with
  | hybrid => exact absurd rfl hbackend
  | fileSystem => trivial
  | sqlite =>
    intro row hrow
    have hinv := sqlite_invariant run hnow
    have hslot' : s.store.data.slot key = some row.slot := by
      rw [Tables.slot, hrow]
      rfl
    obtain rfl : found = row.slot := Option.some.inj (hslot.symm.trans hslot')
    have hstate : row.state = .ready := IndexRow.slot_ready_iff.mp hphase
    exact (hinv.rows row (Table.row?_mem hrow)).available (.inl hstate)

/-! ### Addressing -/

/-- **Direct addressing.** After every run, `lease_next` gives a message only to a consumer that
    all messages published under its key allow; and it does lease a message whenever one of the
    queue that the consumer may be given is ready and due, as every ready one is while the clock
    has not gone back. -/
theorem addressed_delivery (hbackend : backend ≠ .hybrid)
    (run : Run (daemon (backend.adapter schema) policies) (backend.lifecycle schema).Proper h s)
    (env : Env) (queue c : String) (timeout : Int) (hcalm : env.faults = [])
    (hadmits : (backend.lifecycle schema).Admits (.leaseNext queue c timeout)) :
    let reply := ((backend.adapter schema).perform env (.leaseNext queue c timeout) s.store).1
    let ready (m : MessageEnvelope) := m ∈ published h ∧ m.queue = queue ∧
      (m.targetConsumerId = "" ∨ m.targetConsumerId = c) ∧
      ∃ found, (backend.lifecycle schema).slot s.store m.key = some found ∧ found.phase = .ready
    (∀ message token, reply.granted = some (message, token) →
      (∃ m ∈ published h, m.key = message.key) ∧
      ∀ m ∈ published h, m.key = message.key →
        m.targetConsumerId = "" ∨ m.targetConsumerId = c) ∧
    (∀ m, ready m → backend.Due s.store env.now m.key → reply.granted ≠ none) ∧
    (∀ m, ready m → (∀ r ∈ h, r.input.now ≤ env.now) → backend.Due s.store env.now m.key) := by
  intro reply ready
  have hkept := (backend.lifecycle schema).keeps (fun _ _ _ ok => ok) run
  -- The two adapters ask different things of the failing steps: only FileSystem needs none.
  have hproper : (backend.lifecycle schema).Calm env := by
    cases backend with
    | hybrid => exact absurd rfl hbackend
    | fileSystem => exact hcalm
    | sqlite => trivial
  refine ⟨?_, ?_, ?_⟩
  -- What is granted: the step on the granted key is a lease, which looks at the target.
  · intro message token hgranted
    obtain ⟨-, hmoves⟩ := (backend.lifecycle schema).perform hkept.inv hproper hadmits trivial
    have hmove := hmoves message.key
    generalize hslot : (backend.lifecycle schema).slot s.store message.key = slot at hmove
    generalize (backend.lifecycle schema).slot _ message.key = slot' at hmove
    cases hmove with
    | stay hidle => exact absurd (.leased hgranted rfl) hidle
    | @lease _ _ _ _ found message' token' hgranted' hkey _ _ _ _ _ htarget =>
      obtain ⟨m, hm, hmkey, -, hmtarget⟩ := hkept.origin _ found hslot
      refine ⟨⟨m, hm, hmkey⟩, fun m' hm' hmkey' => ?_⟩
      have hsame : m' = m := hkept.well.eq_of_key hm' hm (hmkey'.trans hmkey.symm)
      rw [hsame, hmtarget]
      exact htarget
  -- What is ready is not passed over.
  · rintro m ⟨hm, hqueue, htarget, found, hslot, hphase⟩ hdue
    cases backend with
    | hybrid => exact absurd rfl hbackend
    | fileSystem =>
      exact FileSystem.leaseNext_granted hkept.inv hcalm hadmits.1 hm hqueue htarget hslot hphase
    | sqlite =>
      obtain ⟨time, hinv⟩ := hkept.inv.invariant
      obtain ⟨row, hrow, -, rfl⟩ := Tables.row?_of_slot hslot
      obtain ⟨m', hm', hmkey', hmqueue', hmtarget'⟩ := hkept.origin _ _ hslot
      -- The row of the key is the one that the publication made, since keys are fresh.
      have hsame : m' = m := hkept.well.eq_of_key hm' hm hmkey'
      subst hsame
      have hreadable : SQLite.Call.Readable (.leaseNext queue c timeout) := hadmits
      have hlegible : s.store.data.Legible queue c env.now := hkept.inv.readable hreadable
      refine SQLite.leaseNext_granted hinv hkept.inv.saved hcalm hlegible (Table.row?_mem hrow) ?_
      simp only [Tables.isReadyFor, decide_eq_true_eq]
      have hrowQueue : row.queue = queue := hmqueue'.symm.trans hqueue
      have hrowTarget : row.targetConsumerId = m'.targetConsumerId := hmtarget'.symm
      exact ⟨hrowQueue, IndexRow.slot_ready_iff.mp hphase, hdue row hrow, hrowTarget ▸ htarget⟩
  -- The last part is about the run alone.
  · rintro m ⟨-, -, -, found, hslot, hphase⟩ hnow
    exact due_of_later hbackend run hnow hslot hphase

/-- On the FileSystem backend, a message published to consumer `c` is leased to `c`. -/
theorem addressed_delivery_leased :
    let env (n : Nat) : Env := { now := n + 1, now_pos := Int.succ_ofNat_pos n }
    let message : MessageEnvelope :=
      { key := messageKey "q" "a", messageId := "a", queue := "q", payloadJson := "{}"
        attributesJson := "{}", targetConsumerId := "c" }
    let M := daemon (BackendType.fileSystem.adapter .mainMq) fun _ => none
    let stored := M.stepAt M.start (.call (env 1) (.enqueue message))
    ((BackendType.fileSystem.adapter .mainMq).perform (env 2) (.leaseNext "q" "c" 30)
      stored.after.store).1.granted ≠ none := by
  intro env message M stored
  have hstore : FileSystem.nulFree.Admits (.enqueue message) :=
    FileSystem.nulFree_admits (by decide) (by decide)
  have run : Run M (BackendType.fileSystem.lifecycle .mainMq).Proper [stored] stored.after :=
    Run.stepAt .start _ (.call rfl (by decide) hstore)
  have hlease : FileSystem.nulFree.Admits (.leaseNext "q" "c" 30) :=
    FileSystem.nulFree_admits (by decide) (by decide)
  have hslot : (BackendType.fileSystem.lifecycle .mainMq).slot stored.after.store message.key =
      some ⟨"q", "c", 0, .ready⟩ := by decide
  have haddressed := @addressed_delivery .fileSystem .mainMq (fun _ => none) _ _ (by simp) run
    (env 2) "q" "c" 30 rfl hlease
  exact haddressed.2.1 message ⟨List.mem_cons_self, rfl, .inr rfl, _, hslot, rfl⟩ trivial

/-- **A message for `bob` is given to `mallory`**, who asks for a queue with a NUL character in its
    name: the key of the message there is read as that of the other one. -/
theorem leased_by_another :
    let env (n : Nat) : Env := { now := n + 1, now_pos := Int.succ_ofNat_pos n }
    let message : MessageEnvelope :=
      { key := messageKey "q" "a", messageId := "a", queue := "q", payloadJson := "{}"
        attributesJson := "{}", targetConsumerId := "bob" }
    let other : MessageEnvelope :=
      { key := messageKey "q:a\x00" "b", messageId := "b", queue := "q:a\x00", payloadJson := "{}"
        attributesJson := "{}" }
    let adapter := BackendType.sqlite.adapter .mainMq
    let s := (adapter.machine.replay [(env 1, .enqueue message), (env 2, .enqueue other)]
      ([], adapter.start)).2
    ∃ given token, (adapter.perform (env 3) (.leaseNext "q:a\x00" "mallory" 30) s).1.granted =
        some (given, token) ∧ given.key = message.key ∧ message.targetConsumerId = "bob" := by
  intro env message other adapter s
  have hgranted : (adapter.perform (env 3) (.leaseNext "q:a\x00" "mallory" 30) s).1.granted =
      some ({ message with attempt := 1, createdAtMs := 2, targetConsumerId := "" },
        ⟨"", message.key, "mallory", 30004⟩) := by decide +kernel
  exact ⟨_, _, hgranted, rfl, rfl⟩

end YirangMQ

import YirangMQ.Backends.Types
import YirangMQ.FileSystem.Fidelity
import YirangMQ.SQLite.Fidelity

namespace YirangMQ

/-!
# Payload fidelity

* `BackendType.Takes` — the calls the FileSystem adapter is modelled for;
* `payload_fidelity` — **on the SQLite and the FileSystem backend, consumers are given what was
  published**, in every run of such calls and whatever fails;
* `other_priority_leased` — under a key with a NUL character, another message is.
-/

/-- The call has texts that are read as they are: names of files have no slash and no NUL character,
    and keys that are read from the index have no NUL character. -/
def BackendType.Takes : BackendType → Call → Prop
  | .fileSystem, call => FileSystem.nulFree.Admits call ∧
    ∀ message, call = .enqueue message →
      ('/' ∉ message.key.toList ∧ '/' ∉ message.messageId.toList) ∧
      '\x00' ∉ message.key.toList ∧ '\x00' ∉ message.messageId.toList
  | .sqlite, call => SQLite.Call.Legible call
  | .hybrid, _ => True

/-- Calls that publish under new keys and identifiers. -/
def BackendType.Publishes (backend : BackendType)
    (h : History backend.Store (Env × Call) Reply) (_ : backend.Store) (i : Env × Call) : Prop :=
  i.2.New (publishedBy h) ∧ backend.Takes i.2

/-- Then no key in the index has a NUL character. -/
theorem SQLite.legible_of_publishes {schema : SchemaFile}
    {h : History SQLite.Store (Env × Call) Reply} {s : SQLite.Store}
    (run : Run (SQLite.adapter schema).machine BackendType.sqlite.Publishes h s) (queue c : String)
    (now : Int) : s.data.Legible queue c now := by
  obtain ⟨-, hbacked⟩ := SQLite.content_kept run
  intro r hr _
  obtain ⟨_, -, m, hm, hdescribes, -⟩ := hbacked r hr
  obtain ⟨step, hstep, hpublish⟩ := exists_of_mem_publishedBy hm
  obtain ⟨_, _, ok, _⟩ := run.allowed_of_mem step hstep
  have hlegible : SQLite.Call.Legible step.input.2 := ok.2
  rw [hpublish] at hlegible
  rw [hdescribes.key]
  exact hlegible

/-- **Payload fidelity.** What a `lease_next` gives away in a run of calls has the content of a
    published message, and of every one that has its key or its identifier. -/
theorem payload_fidelity {backend : BackendType} {schema : SchemaFile} (hbackend : backend ≠ .hybrid)
    {h : History backend.Store (Env × Call) Reply} {s : backend.Store}
    (run : Run (backend.adapter schema).machine backend.Publishes h s)
    {r : Step backend.Store (Env × Call) Reply} {older : History backend.Store (Env × Call) Reply}
    (hlast : h = r :: older) {queue c : String} {timeout : Int}
    (hcall : r.input.2 = .leaseNext queue c timeout) {message : MessageEnvelope}
    {token : LeaseToken} (hgranted : r.output.granted = some (message, token)) :
    (∃ m ∈ publishedBy older, SameContent m message) ∧
    ∀ m ∈ publishedBy older, m.key = message.key ∨ m.messageId = message.messageId →
      SameContent m message := by
  subst hlast
  obtain ⟨hbefore, -, hstep, -⟩ := run.last
  have hdistinct : Distinct (publishedBy older) := distinct_of_run (fun _ _ _ ok => ok.1) hbefore
  have hreply : ((backend.adapter schema).perform r.input.1 (.leaseNext queue c timeout)
      r.before).1.granted = some (message, token) := by
    rw [← hgranted, ← hcall, hstep]
    rfl
  have hleased : ∃ m ∈ publishedBy older, SameContent m message := by
    cases backend with
    | hybrid => exact absurd rfl hbackend
    | sqlite =>
      obtain ⟨hsaved, hbacked⟩ := SQLite.content_kept hbefore
      have hlegible := SQLite.legible_of_publishes hbefore queue c r.input.1.now
      obtain ⟨m, hm, -, hcontent⟩ := SQLite.leased_content hsaved hbacked hlegible hreply
      exact ⟨m, hm, hcontent⟩
    | fileSystem => exact FileSystem.leased_content (FileSystem.content_kept hbefore) hreply
  refine ⟨hleased, fun m hm hsame => ?_⟩
  obtain ⟨m', hm', hcontent⟩ := hleased
  rw [hcontent.key, hcontent.messageId] at hsame
  rw [hdistinct.eq hm hm' hsame]
  exact hcontent

/-- A message that is published, leased, dead-lettered, reprocessed and leased again on SQLite. -/
theorem payload_fidelity_leased :
    let env (n : Nat) : Env := { now := n + 1, now_pos := Int.succ_ofNat_pos n }
    let message : MessageEnvelope :=
      { key := messageKey "q" "a", messageId := "a", queue := "q", payloadJson := "[1]"
        attributesJson := "{}", priority := 3, createdAtMs := 7 }
    let calls := [(env 1, Call.enqueue message), (env 2, .leaseNext "q" "c" 30),
      (env 3, .nack ⟨"", message.key, "c", 30003⟩ "no" false),
      (env 4, .reprocessDlqMessage message.key)]
    let M := (BackendType.sqlite.adapter .mainMq).machine
    let r := M.stepAt (M.replay calls ([], M.start)).2 (env 5, .leaseNext "q" "c" 30)
    ∃ given token, r.output.granted = some (given, token) ∧ SameContent message given := by
  intro env message calls M r
  have hpermits : M.Permits BackendType.sqlite.Publishes calls ([], M.start) :=
    ⟨⟨⟨by simp [publishedBy], by simp [publishedBy]⟩, (by decide : '\x00' ∉ message.key.toList)⟩,
      ⟨trivial, trivial⟩,
      ⟨trivial, trivial⟩, ⟨trivial, trivial⟩, trivial⟩
  have run := (run_replay calls hpermits).stepAt (env 5, .leaseNext "q" "c" 30)
    ⟨trivial, trivial⟩
  have hgranted : r.output.granted =
      some ({ message with attempt := 1 }, ⟨"", message.key, "c", 30006⟩) := by decide
  have hfidelity := @payload_fidelity .sqlite .mainMq (by simp) _ _ run _ _ rfl "q" "c" 30 rfl _ _
    hgranted
  exact ⟨_, _, hgranted, hfidelity.2 message List.mem_cons_self (.inl rfl)⟩

/-- A message of the queue `q:a` followed by a NUL character has a key that is read as that of
    another one, which is leased with its priority. -/
theorem other_priority_leased :
    let env (n : Nat) : Env := { now := n + 1, now_pos := Int.succ_ofNat_pos n }
    let message : MessageEnvelope :=
      { key := messageKey "q" "a", messageId := "a", queue := "q", payloadJson := "[1]"
        attributesJson := "{}", priority := 3, createdAtMs := 7 }
    let other : MessageEnvelope :=
      { key := messageKey "q:a\x00" "b", messageId := "b", queue := "q:a\x00", payloadJson := "[2]"
        attributesJson := "{}", priority := 9, createdAtMs := 8 }
    let M := (BackendType.sqlite.adapter .mainMq).machine
    let published := M.replay [(env 1, .enqueue message), (env 2, .enqueue other)] ([], M.start)
    let r := M.stepAt published.2 (env 3, .leaseNext "q:a\x00" "c" 30)
    Distinct (publishedBy published.1) ∧ ∃ given token, r.output.granted = some (given, token) ∧
      given.key = message.key ∧ ¬SameContent message given := by
  intro env message other M published r
  have hgranted : r.output.granted = some ({ message with attempt := 1, priority := 9 },
      ⟨"", message.key, "c", 30004⟩) := by decide +kernel
  refine ⟨⟨by decide, by decide⟩, _, _, hgranted, rfl, fun hsame => ?_⟩
  exact absurd hsame.priority (by decide)

end YirangMQ

import YirangMQ.Backends.Answers
import YirangMQ.FileSystem.Owners

namespace YirangMQ

/-!
# Tokens of other consumers

A lease whose end has passed is recovered and granted to somebody else, and its former holder may
call late.  Only `ack` and `extend_lease` of the FileSystem adapter look at the consumer of the
token: the tables of the other two backends have no column for it, and `nack` of the FileSystem
adapter reads the lease file without comparing.

* `Call.token` — the token of a call on a lease;
* `BackendType.ChecksOwner` — the calls that look at it;
* `ownership_iff` — **a call with the token of another consumer is turned down exactly when it is
  one of these**;
* `late_ack_deletes` — a consumer whose lease was recovered deletes the message that another one
  works on.
-/

/-- The token of a call on a lease. -/
def Call.token : Call → Option LeaseToken
  | .ack lease | .nack lease _ _ | .extendLease lease _ => some lease
  | _ => none

/-- The adapter compares the consumer of the token with that of the lease. -/
def BackendType.ChecksOwner : BackendType → Call → Prop
  | .fileSystem, .ack _ | .fileSystem, .extendLease _ _ => True
  | _, _ => False

variable {key consumer : String} {env : Env} {call : Call} {token : LeaseToken}
  {published : List MessageEnvelope}

/-- On SQLite a call on a lease succeeds when no statement fails. -/
theorem SQLite.token_succeeds {schema : SchemaFile} {s : SQLite.Store}
    (h : SQLite.Keeps published s) (htoken : call.token = some token) (hfaults : env.faults = []) :
    ((SQLite.adapter schema).perform env call s).1 = .status (.ok ()) := by
  obtain ⟨-, hperforms⟩ :=
    @SQLite.perform_performs False schema env s h.saved (.inr hfaults) call
  rcases hperforms with ⟨-, -, hf | hrefuses⟩ | heffect
  · exact hf.elim
  · cases call with
    | enqueue | leaseNext => cases htoken
    | _ => exact hrefuses.elim
  · cases call with
    | ack | nack | extendLease => exact heffect.1
    | _ => cases htoken

/-- On Hybrid a call on a lease succeeds when nothing fails and the message is leased. -/
theorem Hybrid.token_succeeds {schema : SchemaFile} {s : Hybrid.Store}
    (h : Hybrid.Keeps published s) (htoken : call.token = some token)
    {found : Slot} {u : Int} (hslot : s.data.slot token.messageKey = some found)
    (hphase : found.phase = .inflight u) (hfaults : env.faults = []) :
    ((Hybrid.adapter schema).perform env call s).1 = .status (.ok ()) := by
  obtain ⟨r, hrow, -, rfl⟩ := Tables.row?_of_slot hslot
  have hstate : r.state = .inflight :=
    ((IndexRow.slot_inflight_iff (h.invariant.rows r (Table.row?_mem hrow)).lease).mp hphase).1
  have hqueue : Hybrid.queueInState token.messageKey .inflight s.data ≠ none :=
    h.invariant.queueInState.mpr ⟨r, hrow, hstate⟩
  obtain ⟨-, hperforms⟩ :=
    @Hybrid.perform_performs False schema env s h.saved (.inr hfaults) call
  rcases hperforms with ⟨-, -, hf | hrefuses⟩ | heffect
  · exact hf.elim
  · cases call with
    | ack | nack =>
      obtain rfl := Option.some.inj htoken
      exact absurd hrefuses hqueue
    | extendLease => exact hrefuses.elim
    | _ => cases htoken
  · cases call with
    | ack | nack | extendLease => exact heffect.1
    | _ => cases htoken

namespace FileSystem

variable {d : Disk} {h : History Disk (Env × Call) Reply} {found : Slot} {u : Int}

/-- A leased message has a lease file with the consumer to whom it was leased. -/
theorem owner_of_slot (run : Run adapter.machine lifecycle.Admitted h d)
    (hgrant : lastGrant h key = some consumer) (hslot : d.slot key = some found)
    (hphase : found.phase = .inflight u) :
    ∃ m ∈ publishedBy h, m.key = key ∧ ∃ stored, d.lease key = some stored ∧
      stored.consumerId = consumer := by
  have hkeeps : Keeps False (publishedBy h) d := (lifecycle.inv_of_run run).1
  have hthere : d.slot key ≠ none := by
    rw [hslot]
    exact Option.some_ne_none found
  obtain ⟨m, hm, rfl⟩ := hkeeps.known hthere
  obtain ⟨place, hplace⟩ := hkeeps.stands m hm
  rw [hplace.slot_eq (hkeeps.named m hm)] at hslot
  cases hplace with
  | absent | archived | stranded => cases hslot
  | @waits dir j attempt available phase hwaiting =>
    obtain rfl := Option.some.inj hslot
    simp only at hphase
    subst hphase
    cases dir <;> cases hwaiting
  | @leased j available stored K honly henvelope hstored =>
    have hlease : d.lease m.key = some stored := by
      rw [Disk.lease, hstored, Option.bind_some, ofJson_toJson]
    have howner := owned_of_run run m hm stored hlease
    exact ⟨m, hm, rfl, stored, hlease, Option.some.inj (howner.symm.trans hgrant)⟩

/-- The calls that check the owner turn other consumers down, whatever fails. -/
theorem other_turned_down (run : Run adapter.machine lifecycle.Admitted h d)
    (hgrant : lastGrant h key = some consumer) (hslot : d.slot key = some found)
    (hphase : found.phase = .inflight u) (htoken : call.token = some token)
    (hkey : token.messageKey = key) (hother : token.consumerId ≠ consumer)
    (hchecks : BackendType.ChecksOwner .fileSystem call) :
    (adapter.perform env call d).1.failed = true ∧ (adapter.perform env call d).2 = d := by
  obtain ⟨m, -, -, stored, hstored, howner⟩ := owner_of_slot run hgrant hslot hphase
  have hstranger : ∀ stored, d.lease token.messageKey = some stored →
      stored.consumerId ≠ token.consumerId := by
    intro stored' hstored'
    rw [hkey, hstored, Option.some.injEq] at hstored'
    rw [← hstored', howner]
    exact hother.symm
  have hanswer : ∀ r d', TurnedDown d r d' → (Reply.status r).failed = true ∧ d' = d := by
    rintro _ _ ⟨⟨e, rfl⟩, hsame⟩
    exact ⟨rfl, hsame⟩
  cases call with
  | ack lease =>
    obtain rfl := Option.some.inj htoken
    exact hanswer _ _ ((@ack_refuses d env lease hstranger).run (.inl trivial) trivial).1
  | extendLease lease timeout =>
    obtain rfl := Option.some.inj htoken
    exact hanswer _ _ ((@extendLease_refuses d env lease timeout hstranger).run
      (.inl trivial) trivial).1
  | _ => exact hchecks.elim

/-- `nack` succeeds for everybody when nothing fails. -/
theorem nack_succeeds (run : Run adapter.machine lifecycle.Admitted h d)
    (hgrant : lastGrant h key = some consumer) (hslot : d.slot key = some found)
    (hphase : found.phase = .inflight u) (hkey : token.messageKey = key)
    (hfaults : env.faults = []) (reason : String) (requeue : Bool) :
    (adapter.perform env (.nack token reason requeue) d).1.failed = false := by
  have hkeeps : Keeps False (publishedBy h) d := (lifecycle.inv_of_run run).1
  obtain ⟨m, hm, hmkey, stored, hstored, -⟩ := owner_of_slot run hgrant hslot hphase
  have hnamed := hkeeps.named m hm
  obtain ⟨hok, -⟩ | ⟨-, -, hnone⟩ :=
    ((@nack_outcome _ _ env hkeeps token reason requeue).run (.inr hfaults) trivial).1
  · have hreply : (adapter.perform env (.nack token reason requeue) d).1 = .status (.ok ()) :=
      congrArg Reply.status hok
    rw [hreply]
    rfl
  · refine absurd ⟨?_, ?_, stored, ?_⟩ (hnone m hm)
    · rw [hkey, hmkey]
    · rw [hkey, ← hmkey, hnamed.key, messageIdOf_messageKey (not_mem_of_guid hnamed.guid).1]
    · rw [hmkey]
      exact hstored

end FileSystem

/-- **A call on the current lease of a message with the token of another consumer is turned down,
    and leaves everything as it is, where the adapter checks the owner — and only there when
    nothing fails.** -/
theorem ownership_iff (schema : SchemaFile) (backend : BackendType)
    {h : History backend.Store (Env × Call) Reply} {s : backend.Store}
    (run : Run (backend.adapter schema).machine (backend.Reaching schema) h s)
    {key consumer : String} (hgrant : lastGrant h key = some consumer) {found : Slot} {u : Int}
    (hslot : (backend.lifecycle schema).slot s key = some found)
    (hphase : found.phase = .inflight u) {call : Call} {token : LeaseToken}
    (htoken : call.token = some token) (hkey : token.messageKey = key)
    (hother : token.consumerId ≠ consumer) (env : Env) :
    let reply := ((backend.adapter schema).perform env call s).1
    let turnedDown := reply.failed = true ∧
      backend.Unchanged s ((backend.adapter schema).perform env call s).2
    (backend.ChecksOwner call → turnedDown) ∧
      (env.faults = [] → (turnedDown ↔ backend.ChecksOwner call)) := by
  obtain ⟨hinv, -⟩ := (backend.sustains_reaching schema).inv_of_run run
  cases backend with
  | sqlite =>
    -- No call of this adapter looks at the owner: each succeeds.
    refine ⟨fun hchecks => hchecks.elim, fun hfaults => ⟨?_, fun hchecks => hchecks.elim⟩⟩
    rintro ⟨hfailed, -⟩
    have hkeeps : SQLite.Keeps (publishedBy h) s := hinv
    have hok : ((BackendType.sqlite.adapter schema).perform env call s).1 = .status (.ok ()) :=
      SQLite.token_succeeds hkeeps htoken hfaults
    rw [hok] at hfailed
    cases hfailed
  | hybrid =>
    refine ⟨fun hchecks => hchecks.elim, fun hfaults => ⟨?_, fun hchecks => hchecks.elim⟩⟩
    rintro ⟨hfailed, -⟩
    have hkeeps : Hybrid.Keeps (publishedBy h) s := hinv
    have hok : ((BackendType.hybrid.adapter schema).perform env call s).1 = .status (.ok ()) :=
      Hybrid.token_succeeds hkeeps htoken (hkey ▸ hslot) hphase hfaults
    rw [hok] at hfailed
    cases hfailed
  | fileSystem =>
    -- Here `ack` and `extend_lease` do, and `nack` succeeds for anybody.
    have hdown := fun hchecks => @FileSystem.other_turned_down key consumer env call token s h
      found u run hgrant hslot hphase htoken hkey hother hchecks
    refine ⟨hdown, fun hfaults => ⟨?_, hdown⟩⟩
    rintro ⟨hfailed, -⟩
    cases call with
    | nack lease reason requeue =>
      obtain rfl := Option.some.inj htoken
      have hok : ((BackendType.fileSystem.adapter schema).perform env
          (.nack lease reason requeue) s).1.failed = false :=
        FileSystem.nack_succeeds run hgrant hslot hphase hkey hfaults reason requeue
      rw [hok] at hfailed
      cases hfailed
    | ack | extendLease => exact trivial
    | _ => cases htoken

/-! ### A late call -/

section Example

/-- A message published and leased on FileSystem: a renewal by another consumer is turned down. -/
theorem ownership_iff_leased :
    let message : MessageEnvelope :=
      { key := "msg:q:a", messageId := "a", queue := "q", payloadJson := "1", attributesJson := "" }
    let M := (BackendType.fileSystem.adapter .mainMq).machine
    let published := M.stepAt M.start (⟨1, Int.one_pos, "", []⟩, .enqueue message)
    let leased := M.stepAt published.after (⟨2, by decide, "", []⟩, .leaseNext "q" "c" 30)
    ((BackendType.fileSystem.adapter .mainMq).perform ⟨3, by decide, "", []⟩
      (.extendLease ⟨"", "msg:q:a", "other", 30002⟩ 30) leased.after).1.failed = true := by
  intro message M published leased
  have hpublish : FileSystem.Call.Plain (.enqueue message) := by decide
  have hlease : FileSystem.Call.Plain (.leaseNext "q" "c" 30) := by decide
  have run : Run M (BackendType.fileSystem.Reaching .mainMq) [] M.start := .start
  have run := run.stepAt (⟨1, Int.one_pos, "", []⟩, .enqueue message)
    ⟨rfl, hpublish, by decide⟩
  have run := run.stepAt (⟨2, by decide, "", []⟩, .leaseNext "q" "c" 30) ⟨rfl, hlease, trivial⟩
  have hgrant : lastGrant [leased, published] "msg:q:a" = some "c" := by decide
  have hslot : FileSystem.Disk.slot leased.after "msg:q:a" =
      some ⟨"q", "", 1, .inflight 30002⟩ := by decide
  have htoken : Call.token (.extendLease ⟨"", "msg:q:a", "other", 30002⟩ 30) =
      some ⟨"", "msg:q:a", "other", 30002⟩ := rfl
  exact ((ownership_iff .mainMq .fileSystem run hgrant hslot rfl htoken rfl (by decide)
    ⟨3, by decide, "", []⟩).1 trivial).1

/-- On SQLite the lease of `first` runs out, is recovered and granted to `second`.  The late
    acknowledgement of `first` deletes the message on which `second` works. -/
theorem late_ack_deletes :
    let message : MessageEnvelope :=
      { key := "msg:q:a", messageId := "a", queue := "q", payloadJson := "1", attributesJson := "" }
    let M := (BackendType.sqlite.adapter .mainMq).machine
    let inputs : List (Env × Call) := [(⟨1, by decide, "", []⟩, .enqueue message),
      (⟨2, by decide, "", []⟩, .leaseNext "q" "first" 1),
      (⟨2000, by decide, "", []⟩, .recoverExpiredLeases),
      (⟨2001, by decide, "", []⟩, .leaseNext "q" "second" 60)]
    let h := (M.replay inputs ([], M.start)).1
    let s := (M.replay inputs ([], M.start)).2
    let late := (BackendType.sqlite.adapter .mainMq).perform ⟨2002, by decide, "", []⟩
      (.ack ⟨"", "msg:q:a", "first", 1002⟩) s
    Run M (BackendType.sqlite.Reaching .mainMq) h s ∧
      lastGrant h "msg:q:a" = some "second" ∧
      (BackendType.sqlite.lifecycle .mainMq).slot s "msg:q:a" =
        some ⟨"q", "", 2, .inflight 62001⟩ ∧
      late.1.failed = false ∧ (BackendType.sqlite.lifecycle .mainMq).slot late.2 "msg:q:a" = none := by
  intro message M inputs h s late
  refine ⟨run_replay inputs ⟨?_, ?_, ?_, ?_, trivial⟩, by decide, by decide, by decide, by decide⟩
  · exact (by decide : Call.Fresh [] (.enqueue message))
  · exact trivial
  · exact trivial
  · exact trivial

end Example

end YirangMQ

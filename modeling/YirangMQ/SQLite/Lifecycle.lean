import YirangMQ.SQLite.Invariant
import YirangMQ.Sql.Slots

namespace YirangMQ.SQLite

open Table

/-!
# The life cycle on the SQLite store

* `Call.Readable` — the calls whose messages have keys that are read as they are;
* `Keeps` — the store has the published messages: the store invariant, at some time;
* `effect_moves` — a performed call moves every message as the life cycle says;
* `Keeps.kept` — every other call keeps the store as well;
* `leaseNext_granted` — a ready message for the consumer is enough for a lease;
* `lifecycle` — the adapter has the life cycle, with failing statements, arbitrary calls but for
  leases on queues with a NUL character in their names, and an arbitrary clock.
-/

variable {schema : SchemaFile} {env : Env} {now : Int} {t t' : Tables} {key : String}

/-- The queue of a lease has no NUL character in its name. -/
def Call.Readable : Call → Prop
  | .leaseNext queue _ _ => '\x00' ∉ queue.toList
  | _ => True

/-- Whether a call is readable can be computed. -/
instance : (call : Call) → Decidable (Call.Readable call)
  | .leaseNext queue _ _ => inferInstanceAs (Decidable ('\x00' ∉ queue.toList))
  | .enqueue _ | .ack _ | .nack _ _ _ | .extendLease _ _ | .savePolicy _ _
  | .recoverExpiredLeases | .processDelayedMessages | .delayMessage _ _ | .moveToDlq _ _
  | .reprocessDlqMessage _ => inferInstanceAs (Decidable True)

/-- The key of a message has a NUL character exactly when the name of its queue has, and only
    messages whose keys have none are leased. -/
structure SlotLegible (key : String) (found : Slot) : Prop where
  same : '\x00' ∈ key.toList ↔ '\x00' ∈ found.queue.toList
  leased : ∀ u, found.phase = .inflight u → '\x00' ∉ key.toList

/-- The store holds only published messages and is as its invariant says at some time. -/
structure Keeps (published : List MessageEnvelope) (s : Store) : Prop where
  saved : s.saved = none
  invariant : ∃ now, Invariant now s.data
  known : ∀ k, s.data.slot k ≠ none → k ∈ published.map MessageEnvelope.key
  legible : ∀ k found, s.data.slot k = some found → SlotLegible k found

/-- What is read of a text has no NUL character. -/
theorem nul_not_mem_columnText (text : Option String) : '\x00' ∉ (Tables.columnText text).toList := by
  intro hmem
  rw [Tables.columnText, String.toList_ofList] at hmem
  simpa using List.mem_takeWhile_imp hmem

/-- A move keeps this, when leases are asked of queues without a NUL character. -/
theorem SlotLegible.moves {names revives : String → Prop} {published : List MessageEnvelope}
    {call : Call} {reply : Reply} {slot slot' : Option Slot} {k : String}
    (hmoves : Moves names revives k now call reply slot slot') (hfresh : call.Fresh published)
    (hreadable : Call.Readable call) (h : ∀ found, slot = some found → SlotLegible k found) :
    ∀ found', slot' = some found' → SlotLegible k found' := by
  intro found' hfound'
  cases hmoves with
  | stay => exact h found' hfound'
  | publish hkey =>
    obtain rfl := Option.some.inj hfound'
    refine ⟨?_, ?_⟩
    -- The key has a NUL exactly if the queue has, since identifiers have none.
    · rw [← hkey, hfresh.1]
      exact nul_mem_messageKey hfresh.2.2.1
    · intro u hphase
      simp only [MessageEnvelope.slot] at hphase
      split at hphase
      · cases hphase
      · cases hphase
  | lease _ _ _ _ _ _ hqueue =>
    obtain rfl := Option.some.inj hfound'
    refine ⟨(h _ rfl).same, fun u _ => ?_⟩
    rw [(h _ rfl).same, hqueue]
    exact hreadable
  | extend _ _ hphase =>
    obtain rfl := Option.some.inj hfound'
    exact ⟨(h _ rfl).same, fun _ _ => (h _ rfl).leased _ hphase⟩
  | ack | strand => cases hfound'
  | delay _ _ hphase =>
    obtain rfl := Option.some.inj hfound'
    refine ⟨(h _ rfl).same, fun u hinflight => ?_⟩
    rcases hphase with hdelayed | ⟨-, hready⟩
    · rw [hdelayed] at hinflight
      cases hinflight
    · rw [hready] at hinflight
      cases hinflight
  | _ =>
    obtain rfl := Option.some.inj hfound'
    exact ⟨(h _ rfl).same, fun _ hinflight => by cases hinflight⟩

/-- The rows a lease can find have keys that are read as they are. -/
theorem Keeps.readable {published : List MessageEnvelope} {s : Store} (h : Keeps published s)
    {call : Call} (hreadable : Call.Readable call) : Readable env s.data call := by
  cases call with
  | leaseNext queue c timeout =>
    intro r hr hready
    obtain ⟨_, hinv⟩ := h.invariant
    simp only [Tables.isReadyFor, decide_eq_true_eq] at hready
    have hslot : s.data.slot r.messageKey = some r.slot := by
      rw [Tables.slot, hinv.row?_of_mem hr]
      rfl
    rw [(h.legible _ _ hslot).same]
    show '\x00' ∉ r.queue.toList
    rw [hready.1]
    exact hreadable
  | _ => trivial

/-- An inflight row has the lease time its slot shows. -/
theorem Invariant.inflight_slot (h : Invariant now t) {r : IndexRow} {k : String}
    (hrow : t.row? k = some r) (hstate : r.state = .inflight) :
    ∃ u, r.leaseUntil = some u ∧ r.slot.phase = .inflight u := by
  have hlease := (h.rows r (row?_mem hrow)).lease
  obtain ⟨u, hu⟩ := Option.isSome_iff_exists.mp (hlease.mpr hstate)
  exact ⟨u, hu, (IndexRow.slot_inflight_iff hlease).mpr ⟨hstate, hu⟩⟩

/-- Inflight rows are read as they are. -/
theorem Keeps.legible_inflight {published : List MessageEnvelope} {s : Store}
    (h : Keeps published s) : ∀ r ∈ s.data.index, r.state = .inflight → r.Legible := by
  intro r hr hstate
  obtain ⟨_, hinv⟩ := h.invariant
  obtain ⟨u, -, hphase⟩ := hinv.inflight_slot (hinv.row?_of_mem hr) hstate
  have hslot : s.data.slot r.messageKey = some r.slot := by
    rw [Tables.slot, hinv.row?_of_mem hr]
    rfl
  have hlegible := h.legible _ _ hslot
  have hkey : '\x00' ∉ r.messageKey.toList := hlegible.leased u hphase
  exact ⟨hkey, fun hqueue => hkey (hlegible.same.mpr hqueue)⟩

/-- The row of an enqueued message is its slot. -/
theorem slot_newRow (message : MessageEnvelope) :
    (newRow message env.now).slot = message.slot env.now := by
  have hpos := env.now_pos
  unfold newRow IndexRow.slot MessageEnvelope.slot availableFrom
  by_cases havailable : 0 < message.availableAtMs
  · simp only [if_pos havailable]
    by_cases hlater : env.now < message.availableAtMs
    · simp [hlater]
    · simp [hlater]
  · -- a message without a time is ready, since the clock is positive
    have hlater : ¬env.now < message.availableAtMs := by omega
    simp [havailable, hlater]

/-! ### Performed calls -/

/-- The moves of message `k` by a call on its own key. -/
abbrev MovesKey (k : String) (env : Env) (call : Call) (reply : Reply) (t t' : Tables) : Prop :=
  Moves (· = k) (· = k) k env.now call reply (t.slot k) (t'.slot k)

/-- Enqueueing moves the message to where a new one is, and no other. -/
theorem enqueue_moves (h : Invariant now t) {message : MessageEnvelope}
    (hnew : message.key ∉ t.kv.map KvRow.key) (k : String) :
    MovesKey k env (.enqueue message) (.status (.ok ())) t (enqueued env message t) := by
  have hfresh : message.key ∉ t.indexKeys := h.not_mem_indexKeys hnew
  rw [MovesKey, enqueued, Tables.slot_append hfresh, slot_newRow]
  by_cases hk : message.key = k
  · subst hk
    have hnone : t.slot message.key = none := by
      by_contra hne
      exact hfresh (Tables.slot_ne_none hne)
    rw [hnone, show (newRow message env.now).messageKey = message.key from rfl, if_pos rfl]
    exact .publish rfl rfl
  · rw [show (newRow message env.now).messageKey = message.key from rfl, if_neg hk]
    refine .stay ?_
    rintro (⟨hkey, -⟩ | ⟨hgranted, -⟩)
    · exact hk hkey
    · cases hgranted

/-- The answer of a performed `lease_next` grants the selected row's message. -/
theorem Invariant.leaseReply_granted (h : Invariant now t) (env : Env) (queue c : String) (u : Int)
    {row : IndexRow} {value : JsonText} (hrow : row ∈ t.index)
    (hvalue : t.value? row.messageKey = some value) :
    ∃ m, (Reply.lease (leaseReply env queue c u row value)).granted =
        some (m, ⟨env.guid, row.messageKey, c, u⟩) ∧
      m.key = row.messageKey ∧ m.attempt = row.attempt + 1 := by
  obtain ⟨j, hj, henvelope⟩ := h.envelopes row hrow
  obtain ⟨m, hm, hkey, hattempt, -⟩ := henvelope.leasedMessage (q := queue)
  rw [hj, Option.some.injEq] at hvalue
  subst hvalue
  refine ⟨m, ?_, hkey, hattempt⟩
  rw [leaseReply, hm]
  rfl

/-- Leasing moves the leased message, and no other, where the keys that are ready can be read. -/
theorem lease_moves (h : Invariant now t) {queue c : String} {timeout : Int} {reply : Reply}
    (hlegible : t.Legible queue c env.now)
    (heffect : Effect schema env (.leaseNext queue c timeout) reply t t') (k : String) :
    MovesKey k env (.leaseNext queue c timeout) reply t t' := by
  obtain ⟨row, value, hrow, hvalue, rfl, rfl⟩ := heffect
  rw [hlegible.nextRow?_eq] at hrow
  obtain ⟨hmem, hready⟩ := Tables.readyRow?_some hrow
  obtain ⟨m, hgranted, hkey, hattempt⟩ := h.leaseReply_granted env queue c
    (env.now + timeout * 1000) hmem hvalue
  simp only [Tables.isReadyFor, decide_eq_true_eq] at hready
  obtain ⟨hqueue, hstate, -, htarget⟩ := hready
  refine moves_updateIndex (fun _ => rfl) ?_ ?_
  · intro r hr hp
    -- the updated row is the selected one
    obtain rfl : r = row :=
      List.inj_on_of_nodup_map h.indexKeyed (row?_mem hr) hmem (by simpa using hp)
    have hk : r.messageKey = k := row?_key hr
    refine Moves.lease hgranted (hkey.trans hk) hattempt hk rfl rfl hqueue htarget ?_
    simp [IndexRow.slot, hstate]
  · rintro (_ | ⟨hgranted', hkey'⟩)
    rw [hgranted, Option.some.injEq, Prod.mk.injEq] at hgranted'
    obtain ⟨rfl, -⟩ := hgranted'
    have hk : row.messageKey = k := hkey.symm.trans hkey'
    exact ⟨row, hk ▸ h.row?_of_mem hmem, by simp⟩

/-- A nack moves the message of the lease, and no other. -/
theorem nack_moves (h : Invariant now t) {lease : LeaseToken} {reason : String} {requeue : Bool}
    {reply : Reply} (heffect : Effect schema env (.nack lease reason requeue) reply t t') (k : String) :
    MovesKey k env (.nack lease reason requeue) reply t t' := by
  obtain ⟨rfl, heffect⟩ := heffect
  -- A nack that must succeed finds its row inflight.
  have howed : Owes (· = k) (· = k) k (.nack lease reason requeue) (.status (.ok ())) (t.slot k) →
      ∃ r, t.row? k = some r ∧ decide (r.messageKey = lease.messageKey ∧ r.state = .inflight) =
        true := by
    intro howes
    generalize hslot : t.slot k = slot at howes
    cases howes with
    | leased hgranted => cases hgranted
    | nacked hnames hok hphase =>
      obtain ⟨r, hr, hk, rfl⟩ := Tables.row?_of_slot hslot
      exact ⟨r, hr, by simp [hk, hnames, IndexRow.state_of_inflight hphase]⟩
  cases requeue with
  | true =>
    simp only [if_true] at heffect
    subst heffect
    refine moves_updateIndex (fun _ => rfl) ?_ howed
    intro r hr hp
    simp only [decide_eq_true_eq] at hp
    obtain ⟨u, -, hphase⟩ := h.inflight_slot hr hp.2
    exact .requeue (hp.1.symm.trans (row?_key hr)) rfl hphase
  | false =>
    simp only [Bool.false_eq_true, if_false] at heffect
    rw [MovesKey, Tables.slot_editsValue heffect]
    refine moves_updateIndex (fun _ => rfl) ?_ howed
    intro r hr hp
    simp only [decide_eq_true_eq] at hp
    obtain ⟨u, -, hphase⟩ := h.inflight_slot hr hp.2
    exact .bury (hp.1.symm.trans (row?_key hr)) rfl hphase

/-- Delaying moves the message of the key, and no other. -/
theorem delay_moves {delayMs : Int} {reply : Reply}
    (heffect : Effect schema env (.delayMessage key delayMs) reply t t') (k : String) :
    MovesKey k env (.delayMessage key delayMs) reply t t' := by
  obtain ⟨rfl, rfl⟩ := heffect
  refine moves_updateIndex (fun _ => rfl) ?_ fun howes => ?_
  · intro r hr hp
    have hkey : r.messageKey = key := by simpa using hp
    exact .delay (hkey.symm.trans (row?_key hr)) rfl (.inl rfl)
  · generalize hslot : t.slot k = slot at howes
    cases howes with
    | leased hgranted => cases hgranted
    | delayed hnames =>
      obtain ⟨r, hr, hk, -⟩ := Tables.row?_of_slot hslot
      exact ⟨r, hr, by simp [hk, hnames]⟩

/-- Moving to the DLQ moves the message of the key, and no other. -/
theorem dead_moves {reason : String} {reply : Reply}
    (heffect : Effect schema env (.moveToDlq key reason) reply t t') (k : String) :
    MovesKey k env (.moveToDlq key reason) reply t t' := by
  obtain ⟨rfl, hedits⟩ := heffect
  rw [MovesKey, Tables.slot_editsValue hedits]
  refine moves_updateIndex (fun _ => rfl) ?_ fun howes => ?_
  · intro r hr hp
    have hkey : r.messageKey = key := by simpa using hp
    exact .dead (hkey.symm.trans (row?_key hr)) rfl
  · generalize hslot : t.slot k = slot at howes
    cases howes with
    | leased hgranted => cases hgranted
    | dead hnames =>
      obtain ⟨r, hr, hk, -⟩ := Tables.row?_of_slot hslot
      exact ⟨r, hr, by simp [hk, hnames]⟩

/-- Reprocessing moves the message of the key, and no other. -/
theorem revive_moves (h : Invariant now t) {reply : Reply}
    (heffect : Effect schema env (.reprocessDlqMessage key) reply t t') (k : String) :
    MovesKey k env (.reprocessDlqMessage key) reply t t' := by
  obtain ⟨rfl, hedits⟩ := heffect
  rw [MovesKey, Tables.slot_editsValue hedits]
  refine moves_updateIndex (fun _ => rfl) ?_ fun howes => ?_
  · intro r hr hp
    simp only [decide_eq_true_eq] at hp
    obtain ⟨hkey, hstate⟩ := hp
    exact .revive (hkey.symm.trans (row?_key hr)) rfl (by simp [IndexRow.slot, hstate])
  · generalize hslot : t.slot k = slot at howes
    cases howes with
    | leased hgranted => cases hgranted
    | revived hrevives hok hphase =>
      obtain ⟨r, hr, hk, rfl⟩ := Tables.row?_of_slot hslot
      have hstate : r.state = .dlq := by
        rcases (h.rows r (row?_mem hr)).state with hs | hs | hs | hs
        · simp [IndexRow.slot, hs] at hphase
        · simp [IndexRow.slot, hs] at hphase
        · simp [IndexRow.slot, hs] at hphase
        · exact hs
      exact ⟨r, hr, by simp [hk, hrevives, hstate]⟩

/-- **A performed call moves every message as the life cycle says.** -/
theorem effect_moves (h : Invariant now t) {call : Call} {reply : Reply}
    (hreadable : Readable env t call) (heffect : Effect schema env call reply t t') (k : String) :
    MovesKey k env call reply t t' := by
  cases call with
  | enqueue message =>
    obtain ⟨rfl, hnew, rfl⟩ := heffect
    exact enqueue_moves h hnew k
  | leaseNext queue c timeout => exact lease_moves h hreadable heffect k
  | ack lease =>
    obtain ⟨rfl, rfl⟩ := heffect
    rw [MovesKey, acked_eq, Tables.slot_deleteKv]
    by_cases hk : k = lease.messageKey
    · subst hk
      rw [if_pos rfl]
      cases t.slot lease.messageKey with
      | none => exact .stay (not_owes_none (by simp) rfl)
      | some slot => exact .ack rfl rfl
    · rw [if_neg hk]
      refine .stay fun howes => ?_
      generalize t.slot k = slot at howes
      cases howes with
      | leased hgranted => cases hgranted
      | acked hnames => exact hk hnames.symm
  | nack lease reason requeue => exact nack_moves h heffect k
  | extendLease lease timeout =>
    obtain ⟨rfl, rfl⟩ := heffect
    refine moves_updateIndex (fun _ => rfl) ?_ fun howes =>
      absurd howes (not_owes_quiet (by trivial) rfl _)
    intro r hr hp
    simp only [decide_eq_true_eq] at hp
    obtain ⟨u, -, hphase⟩ := h.inflight_slot hr hp.2.1
    have hslot : ({ r with leaseUntil := some (env.now + timeout * 1000) } : IndexRow).slot =
        { r.slot with phase := .inflight (env.now + timeout * 1000) } := by
      simp [IndexRow.slot, hp.2.1]
    rw [hslot]
    exact .extend (hp.1.symm.trans (row?_key hr)) rfl hphase
  | savePolicy queue policy =>
    obtain ⟨rfl, rfl⟩ := heffect
    have hslot : (t.deleteKv ("policy:" ++ queue)).slot k = t.slot k := by
      rw [Tables.slot_deleteKv]
      split
      case isTrue hk =>
        -- no message has a policy's key
        by_contra hne
        obtain ⟨q, id, hformed⟩ := h.formed k (Tables.slot_ne_none (Ne.symm hne))
        exact policyKey_ne queue q id (hk ▸ hformed)
      case isFalse => rfl
    have hreplaced : (t.replaceKv ⟨"policy:" ++ queue, some policy.toJson, "policy", env.now,
        env.now⟩).slot k = (t.deleteKv ("policy:" ++ queue)).slot k := rfl
    rw [MovesKey, hreplaced, hslot]
    exact .stay (not_owes_quiet (by trivial) rfl _)
  | recoverExpiredLeases =>
    obtain ⟨⟨n, rfl⟩, rfl⟩ := heffect
    refine moves_updateIndex (fun _ => rfl) ?_ fun howes =>
      absurd howes (not_owes_quiet (by trivial) rfl _)
    intro r hr hp
    simp only [Tables.isExpired, decide_eq_true_eq] at hp
    obtain ⟨u, hu, hphase⟩ := h.inflight_slot hr hp.1
    exact .recover rfl hphase (by simpa [hu] using hp.2)
  | processDelayedMessages =>
    obtain ⟨⟨n, rfl⟩, rfl⟩ := heffect
    refine moves_updateIndex (fun _ => rfl) ?_ fun howes =>
      absurd howes (not_owes_quiet (by trivial) rfl _)
    intro r hr hp
    simp only [decide_eq_true_eq] at hp
    exact .promote (a := r.availableAt) rfl (by simp [IndexRow.slot, hp.1]) hp.2
  | delayMessage key delayMs => exact delay_moves heffect k
  | moveToDlq key reason => exact dead_moves heffect k
  | reprocessDlqMessage key => exact revive_moves h heffect k

/-! ### The life cycle -/

/-- **A readable call keeps the invariant and moves each message as the life cycle says.** -/
theorem Keeps.perform {published : List MessageEnvelope} {s : Store} (h : Keeps published s)
    {call : Call} (hreadable : Call.Readable call) (hfresh : call.Fresh published) :
    Keeps (call.publishing published) ((adapter schema).perform env call s).2 ∧
    ∀ k, MovesKey k env call ((adapter schema).perform env call s).1 s.data
      ((adapter schema).perform env call s).2.data := by
  obtain ⟨time, hinv⟩ := h.invariant
  obtain ⟨hopen, hperforms⟩ := @perform_performs True schema env s h.saved (.inl trivial) call
  have hmoves : ∀ k, MovesKey k env call ((adapter schema).perform env call s).1 s.data
      ((adapter schema).perform env call s).2.data := by
    intro k
    rcases hperforms with ⟨hrefusal, hsame, -⟩ | heffect
    · rw [MovesKey, hsame]
      exact .stay (not_owes_of_failed hrefusal.succeeded hrefusal.granted _)
    · exact effect_moves hinv (h.readable hreadable) heffect k
  refine ⟨⟨hopen, ⟨max time env.now, ?_⟩, fun k hk => ?_, fun k => ?_⟩, hmoves⟩
  · have hlater : Invariant (max time env.now) s.data := hinv.later (le_max_left _ _)
    rcases hperforms with ⟨-, hsame, -⟩ | heffect
    · exact hsame ▸ hlater
    · exact hlater.effect (le_max_right _ _) hfresh.formed (h.readable hreadable) heffect
  · exact (hmoves k).known hk (h.known k)
  · exact SlotLegible.moves (hmoves k) hfresh hreadable (h.legible k)

/-- A lease of some other key than was asked for: the message may not be available yet, but the
    store is as its invariant says at a later time. -/
theorem Keeps.leasedAs {published : List MessageEnvelope} {s s' : Store} (h : Keeps published s)
    {row : IndexRow} (hrow : '\x00' ∉ row.messageKey.toList) {leaseUntil : Int}
    (hsaved : s'.saved = none) (hdata : s'.data = leased row leaseUntil s.data) :
    Keeps published s' := by
  obtain ⟨time, hinv⟩ := h.invariant
  -- The update is about the rows of one key.
  have hslot : ∀ k, s'.data.slot k = (s.data.row? k).map fun r =>
      (if r.messageKey = row.messageKey then { r with
        state := .inflight, leaseUntil := some leaseUntil, attempt := row.attempt + 1 }
      else r : IndexRow).slot := by
    intro k
    rw [hdata, leased, Tables.slot_updateIndex (by intro r; rfl)]
    simp only [decide_eq_true_eq]
  refine ⟨hsaved, ?_, ?_, ?_⟩
  -- The invariant speaks of some time, which must not be before that of the row leased.
  · obtain ⟨later, hle, hlater⟩ : ∃ later, time ≤ later ∧
        ∀ r, s.data.row? row.messageKey = some r → r.availableAt ≤ later := by
      cases hfound : s.data.row? row.messageKey with
      | none => exact ⟨time, le_refl _, by simp⟩
      | some r =>
        refine ⟨max time r.availableAt, le_max_left _ _, ?_⟩
        rintro _ ⟨⟩
        exact le_max_right _ _
    refine ⟨later, ?_⟩
    rw [hdata]
    refine (hinv.later hle).updateIndex (fun _ => rfl) (fun _ => rfl) fun r hr hkey _ => ?_
    have hfound : s.data.row? row.messageKey = some r := by
      rw [← (by simpa using hkey : r.messageKey = row.messageKey)]
      exact hinv.row?_of_mem hr
    exact ⟨.inr (.inl rfl), by simp, fun _ => hlater r hfound⟩
  · intro k hk
    apply h.known
    intro hnone
    rw [hslot, Option.map_eq_none_iff.mp hnone] at hk
    exact hk rfl
  · intro k found hfound
    rw [hslot] at hfound
    obtain ⟨r, hr, rfl⟩ := Option.map_eq_some_iff.mp hfound
    have hkey : r.messageKey = k := row?_key hr
    have hold : SlotLegible k r.slot := h.legible k r.slot (by rw [Tables.slot, hr, Option.map_some])
    -- The key of the row leased has no NUL, so it is read as it is.
    by_cases hsame : r.messageKey = row.messageKey
    · rw [if_pos hsame]
      exact ⟨hold.same, fun _ _ => hkey ▸ hsame ▸ hrow⟩
    · rw [if_neg hsame]
      exact hold

/-- **Every call keeps the store**, also a lease on a queue with a NUL character in its name. -/
theorem Keeps.kept {published : List MessageEnvelope} {s : Store} (h : Keeps published s)
    {call : Call} (hfresh : call.Fresh published) :
    Keeps (call.publishing published) ((adapter schema).perform env call s).2 := by
  by_cases hreadable : Call.Readable call
  · exact (h.perform hreadable hfresh).1
  · cases call with
    | leaseNext queue c timeout =>
      obtain ⟨hopen, hperforms⟩ :=
        @perform_performs True schema env s h.saved (.inl trivial) (.leaseNext queue c timeout)
      rcases hperforms with ⟨-, hsame, -⟩ | ⟨row, value, hrow, -, -, hleased⟩
      · exact ⟨hopen, hsame ▸ h.invariant, hsame ▸ h.known, hsame ▸ h.legible⟩
      · have hkey : '\x00' ∉ row.messageKey.toList := by
          obtain ⟨selected, -, rfl⟩ := Option.map_eq_some_iff.mp hrow
          exact nul_not_mem_columnText _
        exact h.leasedAs hkey hopen hleased
    | _ => exact absurd trivial hreadable

/-- A recovery of expired leases loses no message. -/
theorem slot_recovered {s : Store} (hsaved : s.saved = none) {key : String}
    (hslot : s.data.slot key ≠ none) :
    ((adapter schema).perform env .recoverExpiredLeases s).2.data.slot key ≠ none := by
  have hperforms := (@perform_performs True schema env s hsaved (.inl trivial)
    .recoverExpiredLeases).2
  rcases hperforms with ⟨-, hsame, -⟩ | ⟨-, hupdate⟩
  · rw [hsame]
    exact hslot
  · rw [hupdate]
    apply Tables.slot_updateIndex_ne_none _ hslot
    exact fun _ => rfl

/-- **The SQLite adapter has the life cycle of messages.** -/
def lifecycle (schema : SchemaFile) : Lifecycle (adapter schema) where
  Calm _ := True
  Admits := Call.Readable
  Inv := Keeps
  slot s := s.data.slot
  address := id
  revives K k := K = k
  start := ⟨rfl, ⟨0, invariant_empty 0⟩, by simp [adapter, Tables.empty, Tables.slot, Tables.row?,
    Table.row?], by simp [adapter, Tables.empty, Tables.slot, Tables.row?, Table.row?]⟩
  known h := h.known _
  address_inj _ _ _ h := h
  admits_sweep _ _ _ hsettles := by
    cases hsettles with
    | delay => trivial
    | dead => trivial
  perform h _ hreadable hfresh := h.perform hreadable hfresh
  expired h _ hlisted := by
    obtain ⟨time, hinv⟩ := h.invariant
    obtain ⟨hsub, hall⟩ := expired_eq hlisted
    exact Tables.expired_slots hinv.toIntegrity (fun r hr => (hinv.rows r hr).lease)
      h.legible_inflight hsub hall

/-! ### Ready messages are leased -/

variable {s : Store}

/-- A call keeps the invariant of a store without an open transaction. -/
theorem Invariant.perform {call : Call} (h : Invariant now s.data)
    (hsaved : s.saved = none) (hle : env.now ≤ now) (hformed : call.Formed)
    (hreadable : Readable env s.data call) :
    Invariant now ((adapter schema).perform env call s).2.data := by
  obtain ⟨-, hperforms⟩ := @perform_performs True schema env s hsaved (.inl trivial) call
  rcases hperforms with ⟨-, hsame, -⟩ | heffect
  · rw [hsame]
    exact h
  · exact h.effect hle hformed hreadable heffect

/-- The row that `lease_next` reads is the one it leases. -/
theorem leaseNext_reads (hsaved : s.saved = none) (hcalm : env.faults = []) {queue c : String}
    {timeout : Int} {row : IndexRow} {value : JsonText} {message : MessageEnvelope}
    (hrow : s.data.nextRow? schema queue c env.now = some row)
    (hvalue : s.data.value? row.messageKey = some value)
    (hmessage : leasedMessage queue row value = some message) :
    ((adapter schema).perform env (.leaseNext queue c timeout) s).1.granted =
      some (message, ⟨env.guid, row.messageKey, c, env.now + timeout * 1000⟩) := by
  obtain ⟨-, hperforms⟩ :=
    @perform_performs False schema env s hsaved (.inr hcalm) (.leaseNext queue c timeout)
  rcases hperforms with ⟨-, -, hfaulty | hrefuses⟩ | ⟨row', value', hrow', hvalue', hreply, -⟩
  · exact hfaulty.elim
  · have hnone : s.data.value? row.messageKey = none := hrefuses row hrow
    rw [hvalue] at hnone
    cases hnone
  · obtain rfl : row' = row := Option.some.inj (hrow'.symm.trans hrow)
    obtain rfl : value' = value := Option.some.inj (hvalue'.symm.trans hvalue)
    rw [hreply, leaseReply, hmessage]
    rfl

/-- With a row that is ready for the consumer, `lease_next` leases a message. -/
theorem leaseNext_granted (h : Invariant now s.data) (hsaved : s.saved = none)
    (hcalm : env.faults = []) {queue c : String} (hlegible : s.data.Legible queue c env.now)
    {timeout : Int} {row : IndexRow} (hrow : row ∈ s.data.index)
    (hready : Tables.isReadyFor queue c env.now row = true) :
    ((adapter schema).perform env (.leaseNext queue c timeout) s).1.granted ≠ none := by
  obtain ⟨-, hperforms⟩ :=
    @perform_performs False schema env s hsaved (.inr hcalm) (.leaseNext queue c timeout)
  have hsome : s.data.readyRow? schema queue c env.now ≠ none := by
    intro hnone
    rw [Tables.readyRow?_eq_none.mp hnone row hrow] at hready
    cases hready
  rcases hperforms with ⟨-, -, hfaulty | hrefuses⟩ | heffect
  · exact hfaulty.elim
  · -- the selected row has a value, so there is no reason to refuse
    obtain ⟨selected, hselected⟩ := Option.ne_none_iff_exists'.mp hsome
    obtain ⟨j, hj, -⟩ := h.envelopes selected (Tables.readyRow?_some hselected).1
    rw [hrefuses selected (hlegible.nextRow?_eq.trans hselected)] at hj
    cases hj
  · obtain ⟨selected, value, hselected, hvalue, hreply, -⟩ := heffect
    rw [hlegible.nextRow?_eq] at hselected
    obtain ⟨m, hgranted, -⟩ := h.leaseReply_granted env queue c (env.now + timeout * 1000)
      (Tables.readyRow?_some hselected).1 hvalue
    rw [hreply, hgranted]
    simp

end YirangMQ.SQLite

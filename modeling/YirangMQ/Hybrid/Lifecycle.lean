import YirangMQ.Hybrid.Invariant
import YirangMQ.Sql.Slots

namespace YirangMQ

/-! ### Arguments that can stand in a statement -/

/-- Neither a NUL character nor an apostrophe. -/
def isPlainChar (c : Char) : Bool := c.toNat ≠ 0 ∧ c.toNat ≠ 39

/-- The text can stand between the apostrophes of a statement. -/
def IsPlain (text : String) : Prop := ∀ c ∈ text.toList, isPlainChar c = true

/-- The texts of a call that the Hybrid adapter formats into its statements. -/
def Call.texts : Call → List String
  | .enqueue message => [message.key, message.messageId, message.queue, message.targetConsumerId]
  | .leaseNext queue consumerId _ => [queue, consumerId]
  | .ack lease | .extendLease lease _ => [lease.messageKey]
  | .nack lease reason _ => [lease.messageKey, reason]
  | .savePolicy queue policy => [queue, policy.retry.backoff, policy.dlq.queue]
  | .recoverExpiredLeases | .processDelayedMessages => []
  | .delayMessage messageKey _ | .reprocessDlqMessage messageKey => [messageKey]
  | .moveToDlq messageKey reason => [messageKey, reason]

/-- The statements of the Hybrid adapter are those the call means. -/
def Call.Plain (call : Call) : Prop := ∀ text ∈ call.texts, IsPlain text

/-- Whether a text is plain can be computed. -/
instance (text : String) : Decidable (IsPlain text) :=
  List.decidableBAll (fun c => isPlainChar c = true) text.toList
/-- Whether the texts of a call are plain can be computed. -/
instance (call : Call) : Decidable call.Plain := List.decidableBAll IsPlain call.texts

/-- Two plain texts make one. -/
theorem IsPlain.append {a b : String} (ha : IsPlain a) (hb : IsPlain b) : IsPlain (a ++ b) := by
  intro c hc
  rw [String.toList_append, List.mem_append] at hc
  exact hc.elim (ha c) (hb c)

/-- A plain text has no NUL character. -/
theorem IsPlain.no_nul {text : String} (h : IsPlain text) : '\x00' ∉ text.toList := by
  intro hmem
  have hplain : isPlainChar '\x00' = true := h _ hmem
  revert hplain
  decide

/-- A number is plain. -/
theorem isPlain_nat (n : Nat) : IsPlain (toString n) := by
  intro c hc
  have hmem : c ∈ Nat.toDigits 10 n := by
    have h := hc
    rw [show toString n = String.ofList (Nat.toDigits 10 n) from rfl, String.toList_ofList] at h
    exact h
  have hdigit : c.isDigit = true := Nat.isDigit_of_mem_toDigits (by decide) (by decide) hmem
  simp only [Char.isDigit, Bool.and_eq_true, decide_eq_true_eq, ge_iff_le,
    UInt32.le_iff_toNat_le] at hdigit
  have hlow : 48 ≤ c.toNat := hdigit.1
  simp only [isPlainChar, ne_eq, Bool.decide_and, Bool.and_eq_true, decide_eq_true_eq]
  omega

/-- An integer is plain. -/
theorem isPlain_int (n : Int) : IsPlain (toString n) := by
  cases n with
  | ofNat m => exact isPlain_nat m
  | negSucc m =>
    have hsign : toString (Int.negSucc m) = "-" ++ toString (m + 1) := rfl
    rw [hsign]
    exact IsPlain.append (by decide) (isPlain_nat _)

/-- The calls of the sweep are plain where the message keys are. -/
theorem SettlesWith.plain {info : ExpiredLeaseInfo} {call : Call} (h : SettlesWith info call)
    (hkey : IsPlain info.messageKey) : call.Plain := by
  cases h with
  | delay delayMs =>
    intro text htext
    obtain rfl : text = info.messageKey := by simpa [Call.texts] using htext
    exact hkey
  | dead =>
    have hreason : IsPlain s!"retry limit exceeded (attempt {info.attempt})" :=
      IsPlain.append (IsPlain.append (by decide) (isPlain_int _)) (by decide)
    intro text htext
    rcases List.mem_cons.mp htext with rfl | htext
    · exact hkey
    · obtain rfl := List.mem_singleton.mp htext
      exact hreason

namespace Hybrid

open Table

/-!
# The life cycle on the Hybrid store

* `Keeps` — the store has the published messages: the store invariant and the payload files;
* `effect_moves` — a performed call moves every message as the life cycle says;
* `lifecycle` — the adapter has the life cycle, with failing primitives, plain arguments and
  an arbitrary clock.
-/

variable {schema : SchemaFile} {env : Env} {t t' : Tables} {files : Payloads} {key : String}

/-- The store holds only published messages, has its invariant, and its payload files can be
    read. -/
structure Keeps (published : List MessageEnvelope) (s : Store) : Prop where
  saved : s.saved = none
  invariant : Invariant s.data
  files : PayloadsOk s.files
  known : ∀ k, s.data.slot k ≠ none → k ∈ published.map MessageEnvelope.key
  plain : ∀ k ∈ published.map MessageEnvelope.key, IsPlain k
  queues : ∀ k found, s.data.slot k = some found → IsPlain found.queue

/-- The inflight rows are read as they are. -/
theorem Keeps.legible {published : List MessageEnvelope} {s : Store} (h : Keeps published s) :
    ∀ r ∈ s.data.index, r.state = .inflight → r.Legible := by
  intro r hr _
  have hslot : s.data.slot r.messageKey = some r.slot := by
    rw [Tables.slot, h.invariant.row?_of_mem hr]
    rfl
  have hkey : r.messageKey ∈ published.map MessageEnvelope.key := h.known _ (by simp [hslot])
  exact ⟨IsPlain.no_nul (h.plain _ hkey), IsPlain.no_nul (h.queues _ _ hslot)⟩

/-- An inflight row has the lease time its slot shows. -/
theorem Invariant.inflight_slot (h : Invariant t) {r : IndexRow} {k : String}
    (hrow : t.row? k = some r) (hstate : r.state = .inflight) :
    ∃ u, r.leaseUntil = some u ∧ r.slot.phase = .inflight u := by
  have hlease := (h.rows r (row?_mem hrow)).lease
  obtain ⟨u, hu⟩ := Option.isSome_iff_exists.mp (hlease.mpr hstate)
  exact ⟨u, hu, (IndexRow.slot_inflight_iff hlease).mpr ⟨hstate, hu⟩⟩

/-- The query for a key in a state looks at the row of the key. -/
theorem Invariant.queueInState (h : Invariant t) {state : MessageState} :
    queueInState key state t ≠ none ↔ ∃ r, t.row? key = some r ∧ r.state = state := by
  rw [Hybrid.queueInState, ne_eq, Option.map_eq_none_iff, List.find?_eq_none]
  constructor
  · intro hsome
    push Not at hsome
    obtain ⟨r, hmem, hr⟩ := hsome
    simp only [decide_eq_true_eq] at hr
    exact ⟨r, hr.1 ▸ h.row?_of_mem hmem, hr.2⟩
  · rintro ⟨r, hrow, hstate⟩ hnone
    exact hnone r (row?_mem hrow) (by simp [row?_key hrow, hstate])

/-- The row of a key in which the query found a state. -/
theorem Invariant.state_of_query (h : Invariant t) {state : MessageState}
    (hquery : Hybrid.queueInState key state t ≠ none) {r : IndexRow} (hrow : t.row? key = some r) :
    r.state = state := by
  obtain ⟨r', hr', hstate⟩ := h.queueInState.mp hquery
  rw [hrow, Option.some.injEq] at hr'
  exact hr' ▸ hstate

/-! ### Performed calls -/

/-- The moves of message `k` by a call on its own key. -/
abbrev MovesKey (k : String) (env : Env) (call : Call) (reply : Reply) (t t' : Tables) : Prop :=
  Moves (· = k) (· = k) k env.now call reply (t.slot k) (t'.slot k)

/-- The row of an enqueued message is its slot. -/
theorem slot_newRow (message : MessageEnvelope) (now : Int) :
    (newRow message now).slot = message.slot now := by
  unfold newRow IndexRow.slot MessageEnvelope.slot
  by_cases hlater : now < message.availableAtMs
  · simp [hlater]
  · simp [hlater]

/-- Enqueueing moves the message to where a new one is, and no other. -/
theorem enqueue_moves (h : Invariant t) {message : MessageEnvelope}
    (hnew : message.key ∉ t.kv.map KvRow.key) (k : String) :
    MovesKey k env (.enqueue message) (.status (.ok ())) t (enqueued env message t) := by
  have hfresh : message.key ∉ t.indexKeys := h.not_mem_indexKeys hnew
  rw [MovesKey, enqueued, Tables.slot_append hfresh, slot_newRow]
  by_cases hk : message.key = k
  · subst hk
    have hnone : t.slot message.key = none := by
      by_contra hne
      exact hfresh (Tables.slot_ne_none hne)
    rw [hnone, show (newRow message env.now).messageKey = message.key from rfl, if_pos rfl]
    exact .publish rfl rfl
  · rw [show (newRow message env.now).messageKey = message.key from rfl, if_neg hk]
    refine .stay ?_
    rintro (⟨hkey, -⟩ | ⟨hgranted, -⟩)
    · exact hk hkey
    · cases hgranted

/-- The answer of a performed `lease_next` grants the selected row's message. -/
theorem Invariant.leaseReply_granted (h : Invariant t) (env : Env) (c : String) (u : Int)
    {row : IndexRow} {value : JsonText} {content : Except String JsonText} (hrow : row ∈ t.index)
    (hvalue : t.value? row.messageKey = some value)
    (hcontent : ∀ text, content = .ok text → IsPayload text) :
    ∃ m, (Reply.lease (leaseReply env c u row value content)).granted =
        some (m, ⟨env.guid, row.messageKey, c, u⟩) ∧
      m.key = row.messageKey ∧ m.attempt = row.attempt + 1 := by
  obtain ⟨j, hj, henvelope⟩ := h.envelopes row hrow
  obtain ⟨m, hm, hkey, hattempt⟩ := henvelope.leasedEnvelope row
  obtain ⟨m', hm', hkey', hattempt'⟩ := withPayload_of_isPayload hcontent m
  rw [hj, Option.some.injEq] at hvalue
  subst hvalue
  refine ⟨m', ?_, hkey'.trans hkey, hattempt'.trans hattempt⟩
  rw [leaseReply, hm, Option.bind_some, hm']
  rfl

/-- Leasing moves the leased message, and no other. -/
theorem lease_moves (h : Invariant t) (hfiles : PayloadsOk files) {queue c : String}
    {timeout : Int} {reply : Reply}
    (heffect : Effect schema env files (.leaseNext queue c timeout) reply t t') (k : String) :
    MovesKey k env (.leaseNext queue c timeout) reply t t' := by
  obtain ⟨row, value, content, hrow, hvalue, hcontent, rfl, rfl⟩ := heffect
  obtain ⟨hmem, hready⟩ := Tables.readyRow?_some hrow
  have hpayload : ∀ text, content = .ok text → IsPayload text := by
    intro text htext
    obtain ⟨path, hpath⟩ := hcontent text htext
    exact hfiles path text hpath
  obtain ⟨m, hgranted, hkey, hattempt⟩ := h.leaseReply_granted env c
    (env.now + timeout * 1000) hmem hvalue hpayload
  simp only [Tables.isReadyFor, decide_eq_true_eq] at hready
  obtain ⟨hqueue, hstate, -, htarget⟩ := hready
  refine moves_updateIndex (fun _ => rfl) ?_ ?_
  · intro r hr hp
    -- the updated row is the selected one
    obtain rfl : r = row :=
      List.inj_on_of_nodup_map h.indexKeyed (row?_mem hr) hmem (by simpa using hp)
    have hk : r.messageKey = k := row?_key hr
    refine Moves.lease hgranted (hkey.trans hk) hattempt hk rfl rfl hqueue htarget ?_
    simp [IndexRow.slot, hstate]
  · rintro (_ | ⟨hgranted', hkey'⟩)
    rw [hgranted, Option.some.injEq, Prod.mk.injEq] at hgranted'
    obtain ⟨rfl, -⟩ := hgranted'
    have hk : row.messageKey = k := hkey.symm.trans hkey'
    exact ⟨row, hk ▸ h.row?_of_mem hmem, by simp⟩

/-- A nack moves the message of the lease, and no other. -/
theorem nack_moves (h : Invariant t) {lease : LeaseToken} {reason : String} {requeue : Bool}
    {reply : Reply} (heffect : Effect schema env files (.nack lease reason requeue) reply t t')
    (k : String) : MovesKey k env (.nack lease reason requeue) reply t t' := by
  obtain ⟨rfl, hquery, heffect⟩ := heffect
  have howed : Owes (· = k) (· = k) k (.nack lease reason requeue) (.status (.ok ())) (t.slot k) →
      ∃ r, t.row? k = some r ∧ decide (r.messageKey = lease.messageKey) = true := by
    intro howes
    generalize hslot : t.slot k = slot at howes
    cases howes with
    | leased hgranted => cases hgranted
    | nacked hnames hok hphase =>
      obtain ⟨r, hr, hk, -⟩ := Tables.row?_of_slot hslot
      exact ⟨r, hr, by simp [hk, hnames]⟩
  -- the updated row is the inflight one of the query
  have hinflight : ∀ r, t.row? k = some r → r.messageKey = lease.messageKey →
      ∃ u, r.slot.phase = .inflight u := by
    intro r hr hkey
    have hlease : t.row? lease.messageKey = some r := hkey ▸ row?_key hr ▸ hr
    obtain ⟨u, -, hphase⟩ := h.inflight_slot hr (h.state_of_query hquery hlease)
    exact ⟨u, hphase⟩
  cases requeue with
  | true =>
    simp only [if_true] at heffect
    subst heffect
    refine moves_updateIndex (fun _ => rfl) ?_ howed
    intro r hr hp
    simp only [decide_eq_true_eq] at hp
    obtain ⟨u, hphase⟩ := hinflight r hr hp
    exact .requeue (hp.symm.trans (row?_key hr)) rfl hphase
  | false =>
    simp only [Bool.false_eq_true, if_false] at heffect
    rw [MovesKey, Tables.slot_editsValue heffect]
    refine moves_updateIndex (fun _ => rfl) ?_ howed
    intro r hr hp
    simp only [decide_eq_true_eq] at hp
    obtain ⟨u, hphase⟩ := hinflight r hr hp
    exact .bury (hp.symm.trans (row?_key hr)) rfl hphase

/-- Delaying moves the message of the key, and no other. -/
theorem delay_moves {delayMs : Int} {reply : Reply}
    (heffect : Effect schema env files (.delayMessage key delayMs) reply t t') (k : String) :
    MovesKey k env (.delayMessage key delayMs) reply t t' := by
  obtain ⟨rfl, rfl⟩ := heffect
  refine moves_updateIndex (fun _ => rfl) ?_ fun howes => ?_
  · intro r hr hp
    have hkey : r.messageKey = key := by simpa using hp
    refine .delay (hkey.symm.trans (row?_key hr)) rfl ?_
    by_cases hpos : 0 < delayMs
    · exact .inl (by simp [hpos])
    · exact .inr ⟨not_lt.mp hpos, by simp [hpos]⟩
  · generalize hslot : t.slot k = slot at howes
    cases howes with
    | leased hgranted => cases hgranted
    | delayed hnames =>
      obtain ⟨r, hr, hk, -⟩ := Tables.row?_of_slot hslot
      exact ⟨r, hr, by simp [hk, hnames]⟩

/-- Moving to the DLQ moves the message of the key, and no other. -/
theorem dead_moves {reason : String} {reply : Reply}
    (heffect : Effect schema env files (.moveToDlq key reason) reply t t') (k : String) :
    MovesKey k env (.moveToDlq key reason) reply t t' := by
  obtain ⟨rfl, hedits⟩ := heffect
  rw [MovesKey, Tables.slot_editsValue hedits]
  refine moves_updateIndex (fun _ => rfl) ?_ fun howes => ?_
  · intro r hr hp
    have hkey : r.messageKey = key := by simpa using hp
    exact .dead (hkey.symm.trans (row?_key hr)) rfl
  · generalize hslot : t.slot k = slot at howes
    cases howes with
    | leased hgranted => cases hgranted
    | dead hnames =>
      obtain ⟨r, hr, hk, -⟩ := Tables.row?_of_slot hslot
      exact ⟨r, hr, by simp [hk, hnames]⟩

/-- Reprocessing moves the message of the key, and no other. -/
theorem revive_moves (h : Invariant t) {reply : Reply}
    (heffect : Effect schema env files (.reprocessDlqMessage key) reply t t') (k : String) :
    MovesKey k env (.reprocessDlqMessage key) reply t t' := by
  obtain ⟨rfl, hquery, hedits⟩ := heffect
  rw [MovesKey, Tables.slot_editsValue hedits]
  refine moves_updateIndex (fun _ => rfl) ?_ fun howes => ?_
  · intro r hr hp
    have hkey : r.messageKey = key := by simpa using hp
    have hstate : r.state = .dlq := h.state_of_query hquery (hkey ▸ row?_key hr ▸ hr)
    exact .revive (hkey.symm.trans (row?_key hr)) rfl (by simp [IndexRow.slot, hstate])
  · generalize hslot : t.slot k = slot at howes
    cases howes with
    | leased hgranted => cases hgranted
    | revived hrevives =>
      obtain ⟨r, hr, hk, -⟩ := Tables.row?_of_slot hslot
      exact ⟨r, hr, by simp [hk, hrevives]⟩

/-- **A performed call moves every message as the life cycle says.** -/
theorem effect_moves (h : Invariant t) (hfiles : PayloadsOk files) {call : Call} {reply : Reply}
    (heffect : Effect schema env files call reply t t') (k : String) :
    MovesKey k env call reply t t' := by
  cases call with
  | enqueue message =>
    obtain ⟨rfl, hnew, rfl⟩ := heffect
    exact enqueue_moves h hnew k
  | leaseNext queue c timeout => exact lease_moves h hfiles heffect k
  | ack lease =>
    obtain ⟨rfl, -, rfl⟩ := heffect
    -- The row goes, and with it the slot of this key only.
    rw [MovesKey, acked_eq, Tables.slot_deleteKv]
    by_cases hk : k = lease.messageKey
    · subst hk
      rw [if_pos rfl]
      cases t.slot lease.messageKey with
      | none => exact .stay (not_owes_none (by simp) rfl)
      | some slot => exact .ack rfl rfl
    · rw [if_neg hk]
      refine .stay fun howes => ?_
      generalize t.slot k = slot at howes
      cases howes with
      | leased hgranted => cases hgranted
      | acked hnames => exact hk hnames.symm
  | nack lease reason requeue => exact nack_moves h heffect k
  | extendLease lease timeout =>
    obtain ⟨rfl, rfl⟩ := heffect
    refine moves_updateIndex (fun _ => rfl) ?_ fun howes =>
      absurd howes (not_owes_quiet (by trivial) rfl _)
    intro r hr hp
    simp only [decide_eq_true_eq] at hp
    -- The lease of an inflight row gets a later end, and the rest of its slot stays.
    obtain ⟨u, -, hphase⟩ := h.inflight_slot hr hp.2.1
    have hslot : ({ r with leaseUntil := some (env.now + timeout * 1000) } : IndexRow).slot =
        { r.slot with phase := .inflight (env.now + timeout * 1000) } := by
      simp [IndexRow.slot, hp.2.1]
    rw [hslot]
    exact .extend (hp.1.symm.trans (row?_key hr)) rfl hphase
  | savePolicy queue policy =>
    obtain ⟨rfl, rfl⟩ := heffect
    -- A policy touches no row of the index.
    have hslot : (t.upsertKv ⟨"policy:" ++ queue, some policy.toJson, "policy", env.now,
        env.now⟩).slot k = t.slot k := by
      unfold Tables.upsertKv
      split <;> rfl
    rw [MovesKey, hslot]
    exact .stay (not_owes_quiet (by trivial) rfl _)
  | recoverExpiredLeases =>
    obtain ⟨⟨n, rfl⟩, rfl⟩ := heffect
    refine moves_updateIndex (fun _ => rfl) ?_ fun howes =>
      absurd howes (not_owes_quiet (by trivial) rfl _)
    intro r hr hp
    simp only [Tables.isExpired, decide_eq_true_eq] at hp
    obtain ⟨u, hu, hphase⟩ := h.inflight_slot hr hp.1
    exact .recover rfl hphase (by simpa [hu] using hp.2)
  | processDelayedMessages =>
    obtain ⟨⟨n, rfl⟩, rfl⟩ := heffect
    refine moves_updateIndex (fun _ => rfl) ?_ fun howes =>
      absurd howes (not_owes_quiet (by trivial) rfl _)
    intro r hr hp
    simp only [decide_eq_true_eq] at hp
    exact .promote (a := r.availableAt) rfl (by simp [IndexRow.slot, hp.1]) hp.2
  | delayMessage key delayMs => exact delay_moves heffect k
  | moveToDlq key reason => exact dead_moves heffect k
  | reprocessDlqMessage key => exact revive_moves h heffect k

/-! ### The life cycle -/

/-- **A plain call keeps the invariant and moves each message as the life cycle says.** -/
theorem Keeps.perform {published : List MessageEnvelope} {s : Store} (h : Keeps published s)
    {call : Call} (hplain : call.Plain) (hfresh : call.Fresh published) :
    Keeps (call.publishing published) ((adapter schema).perform env call s).2 ∧
    ∀ k, MovesKey k env call ((adapter schema).perform env call s).1 s.data
      ((adapter schema).perform env call s).2.data := by
  obtain ⟨⟨hopen, hfiles⟩, hperforms⟩ :=
    @perform_performs True schema env s h.saved (.inl trivial) call
  have hmoves : ∀ k, MovesKey k env call ((adapter schema).perform env call s).1 s.data
      ((adapter schema).perform env call s).2.data := by
    intro k
    rcases hperforms with ⟨hrefusal, hsame, -⟩ | heffect
    · rw [MovesKey, hsame]
      exact .stay (not_owes_of_failed hrefusal.succeeded hrefusal.granted _)
    · exact effect_moves h.invariant h.files heffect k
  refine ⟨⟨hopen, ?_, hfiles h.files, fun k hk => (hmoves k).known hk (h.known k), ?_, ?_⟩, hmoves⟩
  · rcases hperforms with ⟨-, hsame, -⟩ | heffect
    · exact hsame ▸ h.invariant
    · exact h.invariant.effect hfresh.formed heffect
  · intro k hk
    cases call with
    | enqueue message =>
      rcases List.mem_cons.mp hk with rfl | hk
      · exact hplain _ List.mem_cons_self
      · exact h.plain k hk
    | _ => exact h.plain k hk
  · intro k found hfound
    have hmove := hmoves k
    rw [MovesKey, hfound] at hmove
    rcases hmove.queue with ⟨found', hfound', hqueue⟩ | ⟨message, rfl, hqueue⟩
    · rw [← hqueue]
      exact h.queues k found' hfound'
    · rw [← hqueue]
      exact hplain _ (by simp [Call.texts])

/-- A recovery of expired leases loses no message. -/
theorem slot_recovered {s : Store} (hsaved : s.saved = none) {key : String}
    (hslot : s.data.slot key ≠ none) :
    ((adapter schema).perform env .recoverExpiredLeases s).2.data.slot key ≠ none := by
  have hperforms := (@perform_performs True schema env s hsaved (.inl trivial)
    .recoverExpiredLeases).2
  rcases hperforms with ⟨-, hsame, -⟩ | ⟨-, hupdate⟩
  · rw [hsame]
    exact hslot
  · rw [hupdate]
    apply Tables.slot_updateIndex_ne_none _ hslot
    exact fun _ => rfl

/-- **The Hybrid adapter has the life cycle of messages**, in runs of plain calls, whose statements
    are the ones meant. -/
def lifecycle (schema : SchemaFile) : Lifecycle (adapter schema) where
  Calm _ := True
  Admits := Call.Plain
  Inv := Keeps
  slot s := s.data.slot
  address := id
  revives K k := K = k
  start := ⟨rfl, invariant_empty, by simp [PayloadsOk, adapter], by simp [adapter, Tables.empty,
    Tables.slot, Tables.row?, Table.row?], by simp, by simp [adapter, Tables.empty, Tables.slot,
    Tables.row?, Table.row?]⟩
  known h := h.known _
  address_inj _ _ _ h := h
  admits_sweep := by
    intro published s info key call h hkey haddress hsettles
    have hsame : info.messageKey = key := haddress
    exact hsettles.plain (hsame ▸ h.plain key hkey)
  perform h _ hplain hfresh := h.perform hplain hfresh
  expired h _ hlisted := by
    have hlist := expired_eq hlisted
    subst hlist
    exact Tables.expired_slots h.invariant.toIntegrity (fun r hr => (h.invariant.rows r hr).lease)
      h.legible (List.Sublist.refl _) fun _ => rfl

end Hybrid

end YirangMQ

import YirangMQ.Backend.Adapter

namespace YirangMQ

/-!
# The life cycle of a message

What a backend adapter is for, told about one message at a time: a message is published, is
ready or delayed, is leased, comes back, goes to the dead letters and out of them, and is
acknowledged away.  The three adapters keep their messages in different ways; each is shown
to move every message as told here.

* `Phase`, `Slot` — where a message is in its life;
* `Moves` — the moves one call can make with one message, with the answer that goes with each;
* `Owes` — the answers that may not be given unless the message has moved;
* `not_owes_quiet`, `not_owes_of_failed`, `not_owes_none` — answers that owe nothing;
* `Call.Fresh`, `WellPublished` — publishing under fresh identifiers, as `handle_publish` does;
* `Origin` — the queue and the target of a message, which no move changes;
* `Lifecycle` — an adapter that moves its messages so.
-/

/-- Where a message is: ready; leased until a time; delayed to a time; a dead letter. -/
inductive Phase where
  | ready
  | inflight (leaseUntil : Int)
  | delayed (availableAt : Int)
  | dlq
  deriving DecidableEq, Repr

/-- What a backend knows of a message. -/
structure Slot where
  queue : String
  target : String
  attempt : Int
  phase : Phase
  deriving DecidableEq, Repr

/-- Where a message is published: delayed when it is not available yet. -/
def MessageEnvelope.slot (message : MessageEnvelope) (now : Int) : Slot where
  queue := message.queue
  target := message.targetConsumerId
  attempt := message.attempt
  phase := if now < message.availableAtMs then .delayed message.availableAtMs else .ready

section Moves

variable (names revives : String → Prop) (key : String) (now : Int)

/-- The answer to the call says that message `key`, which was at `slot`, has moved. -/
inductive Owes : Call → Reply → Option Slot → Prop
  | published {message : MessageEnvelope} {reply : Reply} {slot : Option Slot}
      (hkey : message.key = key) (hok : reply.succeeded = true) :
      Owes (.enqueue message) reply slot
  | leased {call : Call} {reply : Reply} {slot : Option Slot} {message : MessageEnvelope}
      {token : LeaseToken} (hgranted : reply.granted = some (message, token))
      (hkey : message.key = key) : Owes call reply slot
  | acked {lease : LeaseToken} {reply : Reply} {slot : Slot} (hnames : names lease.messageKey)
      (hok : reply.succeeded = true) : Owes (.ack lease) reply (some slot)
  | nacked {lease : LeaseToken} {reason : String} {requeue : Bool} {reply : Reply} {slot : Slot}
      {u : Int} (hnames : names lease.messageKey) (hok : reply.succeeded = true)
      (hphase : slot.phase = .inflight u) : Owes (.nack lease reason requeue) reply (some slot)
  | delayed {messageKey : String} {delayMs : Int} {reply : Reply} {slot : Slot}
      (hnames : names messageKey) (hok : reply.succeeded = true) :
      Owes (.delayMessage messageKey delayMs) reply (some slot)
  | dead {messageKey reason : String} {reply : Reply} {slot : Slot} (hnames : names messageKey)
      (hok : reply.succeeded = true) : Owes (.moveToDlq messageKey reason) reply (some slot)
  | revived {messageKey : String} {reply : Reply} {slot : Slot} (hrevives : revives messageKey)
      (hok : reply.succeeded = true) (hphase : slot.phase = .dlq) :
      Owes (.reprocessDlqMessage messageKey) reply (some slot)

/-- The moves of message `key` under one call at time `now`.  `names` are the message keys by
    which tokens and the sweep address it, `revives` those by which it leaves the DLQ. -/
inductive Moves : Call → Reply → Option Slot → Option Slot → Prop
  | stay {call : Call} {reply : Reply} {slot : Option Slot}
      (hidle : ¬Owes names revives key call reply slot) : Moves call reply slot slot
  | publish {message : MessageEnvelope} {reply : Reply} (hkey : message.key = key)
      (hok : reply.succeeded = true) :
      Moves (.enqueue message) reply none (some (message.slot now))
  | lease {queue c : String} {timeout : Int} {reply : Reply} {slot : Slot}
      {message : MessageEnvelope} {token : LeaseToken}
      (hgranted : reply.granted = some (message, token)) (hkey : message.key = key)
      (hattempt : message.attempt = slot.attempt + 1) (htoken : token.messageKey = key)
      (hconsumer : token.consumerId = c) (huntil : token.leaseUntilMs = now + timeout * 1000)
      (hqueue : slot.queue = queue) (htarget : slot.target = "" ∨ slot.target = c)
      (hphase : slot.phase = .ready) :
      Moves (.leaseNext queue c timeout) reply (some slot)
        (some { slot with
          attempt := slot.attempt + 1, phase := .inflight (now + timeout * 1000) })
  | ack {lease : LeaseToken} {reply : Reply} {slot : Slot} (hnames : names lease.messageKey)
      (hok : reply.succeeded = true) : Moves (.ack lease) reply (some slot) none
  | requeue {lease : LeaseToken} {reason : String} {reply : Reply} {slot : Slot} {u : Int}
      (hnames : names lease.messageKey) (hok : reply.succeeded = true)
      (hphase : slot.phase = .inflight u) :
      Moves (.nack lease reason true) reply (some slot) (some { slot with phase := .ready })
  | bury {lease : LeaseToken} {reason : String} {reply : Reply} {slot : Slot} {u : Int}
      (hnames : names lease.messageKey) (hok : reply.succeeded = true)
      (hphase : slot.phase = .inflight u) :
      Moves (.nack lease reason false) reply (some slot) (some { slot with phase := .dlq })
  | extend {lease : LeaseToken} {timeout : Int} {reply : Reply} {slot : Slot} {u : Int}
      (hnames : names lease.messageKey) (hok : reply.succeeded = true)
      (hphase : slot.phase = .inflight u) :
      Moves (.extendLease lease timeout) reply (some slot)
        (some { slot with phase := .inflight (now + timeout * 1000) })
  | recover {reply : Reply} {slot : Slot} {u : Int} (hgranted : reply.granted = none)
      (hphase : slot.phase = .inflight u) (hexpired : u < now) :
      Moves .recoverExpiredLeases reply (some slot) (some { slot with phase := .ready })
  -- a lease file that names another key is deleted, and its message stays in `processing/`
  | strand {reply : Reply} {slot : Slot} {u : Int} (hgranted : reply.granted = none)
      (hphase : slot.phase = .inflight u) (hexpired : u < now) :
      Moves .recoverExpiredLeases reply (some slot) none
  | promote {reply : Reply} {slot : Slot} {a : Int} (hgranted : reply.granted = none)
      (hphase : slot.phase = .delayed a) (hdue : a ≤ now) :
      Moves .processDelayedMessages reply (some slot) (some { slot with phase := .ready })
  | delay {messageKey : String} {delayMs : Int} {reply : Reply} {slot : Slot} {phase : Phase}
      (hnames : names messageKey) (hok : reply.succeeded = true)
      (hphase : phase = .delayed (now + delayMs) ∨ delayMs ≤ 0 ∧ phase = .ready) :
      Moves (.delayMessage messageKey delayMs) reply (some slot) (some { slot with phase })
  | dead {messageKey reason : String} {reply : Reply} {slot : Slot} (hnames : names messageKey)
      (hok : reply.succeeded = true) :
      Moves (.moveToDlq messageKey reason) reply (some slot) (some { slot with phase := .dlq })
  | revive {messageKey : String} {reply : Reply} {slot : Slot} (hrevives : revives messageKey)
      (hok : reply.succeeded = true) (hphase : slot.phase = .dlq) :
      Moves (.reprocessDlqMessage messageKey) reply (some slot)
        (some { slot with attempt := 0, phase := .ready })

/-- A move keeps the queue of a message, and a published message has the queue of its call. -/
theorem Moves.queue {call : Call} {reply : Reply} {slot : Option Slot} {found : Slot}
    (h : Moves names revives key now call reply slot (some found)) :
    (∃ before, slot = some before ∧ before.queue = found.queue) ∨
      ∃ message, call = .enqueue message ∧ message.queue = found.queue := by
  cases h with
  | publish => exact .inr ⟨_, rfl, rfl⟩
  | _ => exact .inl ⟨_, rfl, rfl⟩

end Moves

section Idle

variable {names revives : String → Prop} {k : String} {call : Call} {reply : Reply}

/-- The calls whose success says nothing of one message. -/
def Call.Quiet : Call → Prop
  | .extendLease _ _ | .savePolicy _ _ | .recoverExpiredLeases | .processDelayedMessages => True
  | _ => False

theorem not_owes_quiet (hquiet : call.Quiet) (hgranted : reply.granted = none)
    (slot : Option Slot) : ¬Owes names revives k call reply slot := by
  intro howes
  cases howes with
  | leased hsome =>
    rw [hgranted] at hsome
    cases hsome
  | _ => exact hquiet

/-- An answer that says neither success nor a lease owes nothing. -/
theorem not_owes_of_failed (hfailed : reply.succeeded = false) (hgranted : reply.granted = none)
    (slot : Option Slot) : ¬Owes names revives k call reply slot := by
  intro howes
  cases howes with
  | leased hsome =>
    rw [hgranted] at hsome
    cases hsome
  | published _ hok | acked _ hok | nacked _ hok | delayed _ hok | dead _ hok | revived _ hok =>
    rw [hfailed] at hok
    cases hok

/-- The answer to a call on messages that are not there owes nothing. -/
theorem not_owes_none (hpublish : ∀ message, call ≠ .enqueue message)
    (hgranted : reply.granted = none) : ¬Owes names revives k call reply none := by
  intro howes
  cases howes with
  | published => exact hpublish _ rfl
  | leased hsome =>
    rw [hgranted] at hsome
    cases hsome

end Idle

section Settled

variable {names revives : String → Prop} {key messageKey : String} {now : Int} {reply : Reply}
  {found : Slot} {slot' : Option Slot}

/-- A message that is there is in the DLQ when `move_to_dlq` has succeeded. -/
theorem Moves.dead_of_ok {reason : String}
    (hmoves : Moves names revives key now (.moveToDlq messageKey reason) reply (some found) slot')
    (hnames : names messageKey) (hok : reply.succeeded = true) :
    slot' = some { found with phase := .dlq } := by
  cases hmoves with
  | stay hidle => exact absurd (.dead hnames hok) hidle
  | dead => rfl

/-- A message that is there is delayed, or ready when the delay is none, when `delay_message`
    has succeeded. -/
theorem Moves.delay_of_ok {delayMs : Int}
    (hmoves : Moves names revives key now (.delayMessage messageKey delayMs) reply (some found)
      slot')
    (hnames : names messageKey) (hok : reply.succeeded = true) :
    ∃ phase, slot' = some { found with phase } ∧
      (phase = .delayed (now + delayMs) ∨ delayMs ≤ 0 ∧ phase = .ready) := by
  cases hmoves with
  | stay hidle => exact absurd (.delayed hnames hok) hidle
  | delay _ _ hphase => exact ⟨_, rfl, hphase⟩

end Settled

/-! ### Publishing -/

/-- The characters of the identifiers `Generator::guid` makes: hexadecimal digits and hyphens. -/
def isGuidChar (c : Char) : Bool :=
  c.isDigit || ('a' ≤ c && c ≤ 'f') || ('A' ≤ c && c ≤ 'F') || c = '-'

/-- The call publishes, if it does, as `handle_publish` does: under the key of its queue and
    of a fresh identifier, with no attempt made. -/
def Call.Fresh (published : List MessageEnvelope) : Call → Prop
  | .enqueue message =>
    message.key = messageKey message.queue message.messageId ∧ message.attempt = 0 ∧
    (∀ c ∈ message.messageId.toList, isGuidChar c = true) ∧
    message.messageId ∉ published.map MessageEnvelope.messageId
  | _ => True

instance (published : List MessageEnvelope) : (call : Call) → Decidable (call.Fresh published)
  | .enqueue message =>
    let all := List.decidableBAll (fun c => isGuidChar c = true) message.messageId.toList
    @instDecidableAnd _ _ _ (@instDecidableAnd _ _ _ (@instDecidableAnd _ _ all _))
  | .leaseNext _ _ _ | .ack _ | .nack _ _ _ | .extendLease _ _ | .savePolicy _ _
  | .recoverExpiredLeases | .processDelayedMessages | .delayMessage _ _ | .moveToDlq _ _
  | .reprocessDlqMessage _ => inferInstanceAs (Decidable True)

/-- A fresh message has a formed key. -/
theorem Call.Fresh.formed {published : List MessageEnvelope} {call : Call}
    (hfresh : call.Fresh published) : call.Formed := by
  cases call with
  | enqueue message => exact ⟨_, _, hfresh.1⟩
  | _ => trivial

/-- The messages published so far, after the call. -/
def Call.publishing (published : List MessageEnvelope) : Call → List MessageEnvelope
  | .enqueue message => message :: published
  | _ => published

/-- A list of messages, newest first, each of which was fresh when it was published. -/
def WellPublished : List MessageEnvelope → Prop
  | [] => True
  | message :: messages => (Call.enqueue message).Fresh messages ∧ WellPublished messages

theorem WellPublished.publishing {published : List MessageEnvelope} {call : Call}
    (h : WellPublished published) (hfresh : call.Fresh published) :
    WellPublished (call.publishing published) := by
  cases call with
  | enqueue message => exact ⟨hfresh, h⟩
  | _ => exact h

/-- Every published message has the key of its queue and identifier. -/
theorem WellPublished.formed {published : List MessageEnvelope} (h : WellPublished published) :
    ∀ message ∈ published, message.key = messageKey message.queue message.messageId ∧
      ∀ c ∈ message.messageId.toList, isGuidChar c = true := by
  induction published with
  | nil => simp
  | cons message messages ih =>
    intro m hm
    rcases List.mem_cons.mp hm with rfl | hm
    · exact ⟨h.1.1, h.1.2.2.1⟩
    · exact ih h.2 m hm

/-- Published messages are told apart by their identifiers. -/
theorem WellPublished.eq_of_id {published : List MessageEnvelope} (h : WellPublished published)
    {m m' : MessageEnvelope} (hm : m ∈ published) (hm' : m' ∈ published)
    (hid : m.messageId = m'.messageId) : m = m' := by
  induction published with
  | nil => cases hm
  | cons message messages ih =>
    have hfresh : ∀ n ∈ messages, n.messageId ≠ message.messageId := by
      intro n hn heq
      exact h.1.2.2.2 (heq ▸ List.mem_map_of_mem hn)
    rcases List.mem_cons.mp hm with hfirst | hlater
    · rcases List.mem_cons.mp hm' with hfirst' | hlater'
      · exact hfirst.trans hfirst'.symm
      · exact absurd (hid.symm.trans (hfirst ▸ rfl)) (hfresh m' hlater')
    · rcases List.mem_cons.mp hm' with hfirst' | hlater'
      · exact absurd (hid.trans (hfirst' ▸ rfl)) (hfresh m hlater)
      · exact ih h.2 hlater hlater'

theorem isGuidChar_ne {c : Char} (h : isGuidChar c = true) : c ≠ ':' ∧ c ≠ '_' ∧ c ≠ '/' := by
  refine ⟨?_, ?_, ?_⟩ <;> rintro rfl <;> revert h <;> decide

/-- An identifier has no NUL character, so that a key has one exactly if its queue has. -/
theorem nul_mem_messageKey {queue id : String} (hid : ∀ c ∈ id.toList, isGuidChar c = true) :
    '\x00' ∈ (messageKey queue id).toList ↔ '\x00' ∈ queue.toList := by
  have hguid : '\x00' ∉ id.toList := by
    intro hmem
    have hchar : isGuidChar '\x00' = true := hid _ hmem
    revert hchar
    decide
  simp [messageKey, String.toList_append, hguid]

/-- A list is split at the last occurrence of a separator in one way. -/
theorem append_cons_inj {α : Type} {sep : α} {a b a' b' : List α} (hb : sep ∉ b) (hb' : sep ∉ b')
    (h : a ++ sep :: b = a' ++ sep :: b') : a = a' ∧ b = b' := by
  -- the longer front would put a separator into the other back
  rcases List.append_eq_append_iff.mp h with ⟨c, rfl, hc⟩ | ⟨c, rfl, hc⟩
  · cases c with
    | nil => simpa using hc
    | cons x c =>
      obtain ⟨rfl, rfl⟩ := List.cons.inj hc
      simp at hb
  · cases c with
    | nil => simpa using hc.symm
    | cons x c =>
      obtain ⟨rfl, rfl⟩ := List.cons.inj hc
      simp at hb'

/-- A key determines its queue and identifier. -/
theorem messageKey_inj {queue queue' id id' : String}
    (hid : ∀ c ∈ id.toList, isGuidChar c = true) (hid' : ∀ c ∈ id'.toList, isGuidChar c = true)
    (h : messageKey queue id = messageKey queue' id') : queue = queue' ∧ id = id' := by
  have hcolon {i : String} (hi : ∀ c ∈ i.toList, isGuidChar c = true) : ':' ∉ i.toList :=
    fun hmem => (isGuidChar_ne (hi _ hmem)).1 rfl
  have hlist : queue.toList ++ ':' :: id.toList = queue'.toList ++ ':' :: id'.toList := by
    have := congrArg String.toList h
    simpa [messageKey, String.toList_append] using this
  obtain ⟨hqueue, hid⟩ := append_cons_inj (hcolon hid) (hcolon hid') hlist
  exact ⟨String.toList_inj.mp hqueue, String.toList_inj.mp hid⟩

/-- Published messages are told apart by their keys. -/
theorem WellPublished.eq_of_key {published : List MessageEnvelope} (h : WellPublished published)
    {m m' : MessageEnvelope} (hm : m ∈ published) (hm' : m' ∈ published)
    (hkey : m.key = m'.key) : m = m' := by
  obtain ⟨hformed, hid⟩ := h.formed m hm
  obtain ⟨hformed', hid'⟩ := h.formed m' hm'
  have hkeys : messageKey m.queue m.messageId = messageKey m'.queue m'.messageId :=
    hformed.symm.trans (hkey.trans hformed')
  exact h.eq_of_id hm hm' (messageKey_inj hid hid' hkeys).2

/-- A published message is not published again. -/
theorem WellPublished.not_fresh {messages : List MessageEnvelope} (h : WellPublished messages)
    {message : MessageEnvelope} (hknown : message.key ∈ messages.map MessageEnvelope.key) :
    ¬(Call.enqueue message).Fresh messages := by
  rintro ⟨hformed, -, hid, hnew⟩
  obtain ⟨message', hmem, hkey⟩ := List.mem_map.mp hknown
  obtain ⟨hformed', hid'⟩ := h.formed message' hmem
  have hsame := messageKey_inj hid' hid (hformed'.symm.trans (hkey.trans hformed))
  exact hnew (List.mem_map.mpr ⟨message', hmem, hsame.2⟩)

/-- Published messages have distinct keys. -/
theorem WellPublished.nodup_keys {published : List MessageEnvelope} (h : WellPublished published) :
    (published.map MessageEnvelope.key).Nodup := by
  induction published with
  | nil => exact List.nodup_nil
  | cons message messages ih =>
    rw [List.map_cons, List.nodup_cons]
    exact ⟨fun hknown => h.2.not_fresh hknown h.1, ih h.2⟩

/-- What has been published stays published. -/
theorem Call.publishing_of_mem {published : List MessageEnvelope} {m : MessageEnvelope}
    (call : Call) (hm : m ∈ published) : m ∈ call.publishing published := by
  cases call with
  | enqueue message => exact List.mem_cons_of_mem _ hm
  | _ => exact hm

theorem Call.mem_publishing {published : List MessageEnvelope} {key : String} (call : Call)
    (h : key ∈ published.map MessageEnvelope.key) :
    key ∈ (call.publishing published).map MessageEnvelope.key := by
  cases call with
  | enqueue message => exact List.mem_cons_of_mem _ h
  | _ => exact h

/-- A message that is somewhere after a call was so before it, or is published by the call. -/
theorem Moves.known {names revives : String → Prop} {key : String} {now : Int} {call : Call}
    {reply : Reply} {slot slot' : Option Slot} {published : List MessageEnvelope}
    (hmoves : Moves names revives key now call reply slot slot') (hslot' : slot' ≠ none)
    (hknown : slot ≠ none → key ∈ published.map MessageEnvelope.key) :
    key ∈ (call.publishing published).map MessageEnvelope.key := by
  cases hmoves with
  | stay => exact call.mem_publishing (hknown hslot')
  | publish hkey => exact hkey ▸ List.mem_cons_self
  | ack | strand => exact absurd rfl hslot'
  | _ => exact Call.mem_publishing _ (hknown (by simp))

/-- The message of the slot was published with this queue and target. -/
def Origin (messages : List MessageEnvelope) (key : String) (found : Slot) : Prop :=
  ∃ message ∈ messages, message.key = key ∧ message.queue = found.queue ∧
    message.targetConsumerId = found.target

/-- No move changes the queue or the target of a message. -/
theorem Moves.origin {names revives : String → Prop} {key : String} {now : Int} {call : Call}
    {reply : Reply} {slot slot' : Option Slot} {messages : List MessageEnvelope}
    (hmoves : Moves names revives key now call reply slot slot')
    (horigin : ∀ found, slot = some found → Origin messages key found) :
    ∀ found', slot' = some found' → Origin (call.publishing messages) key found' := by
  have hwiden : ∀ found found' : Slot, slot = some found → found'.queue = found.queue →
      found'.target = found.target → Origin (call.publishing messages) key found' := by
    intro found found' hslot hqueue htarget
    obtain ⟨message, hmem, hkey, hq, ht⟩ := horigin found hslot
    exact ⟨message, call.publishing_of_mem hmem, hkey, hq.trans hqueue.symm,
      ht.trans htarget.symm⟩
  intro found' hslot'
  cases hmoves with
  | stay => exact hwiden found' found' hslot' rfl rfl
  | publish hkey hok =>
    obtain rfl := Option.some.inj hslot'
    exact ⟨_, List.mem_cons_self, hkey, rfl, rfl⟩
  | ack | strand => cases hslot'
  | _ =>
    obtain rfl := Option.some.inj hslot'
    exact hwiden _ _ rfl rfl rfl

/-! ### Adapters with a life cycle -/

/-- The calls by which the queue manager settles a message whose lease has expired. -/
inductive SettlesWith (info : ExpiredLeaseInfo) : Call → Prop
  | delay (delayMs : Int) : SettlesWith info (.delayMessage info.messageKey delayMs)
  | dead : SettlesWith info
      (.moveToDlq info.messageKey s!"retry limit exceeded (attempt {info.attempt})")

/-- An adapter whose calls move every message as `Moves` tells. -/
structure Lifecycle {σ : Type} (adapter : Adapter σ) where
  /-- What the adapter asks of the environment of a call. -/
  Calm : Env → Prop
  /-- What the adapter asks of the texts in a call. -/
  Admits : Call → Prop
  /-- The store has these messages published and is as the adapter keeps it. -/
  Inv : List MessageEnvelope → σ → Prop
  /-- Where a message is. -/
  slot : σ → String → Option Slot
  /-- The key under which tokens and the sweep address a message. -/
  address : String → String
  /-- The keys by which a message leaves the DLQ. -/
  revives : String → String → Prop
  start : Inv [] adapter.start
  known : ∀ {published s key}, Inv published s → slot s key ≠ none →
    key ∈ published.map MessageEnvelope.key
  address_inj : ∀ {published s key key'}, Inv published s →
    key ∈ published.map MessageEnvelope.key → key' ∈ published.map MessageEnvelope.key →
    address key = address key' → key = key'
  /-- The adapter takes what the sweep says of its published messages. -/
  admits_sweep : ∀ {published s info key call}, Inv published s →
    key ∈ published.map MessageEnvelope.key → address info.messageKey = address key →
    SettlesWith info call → Admits call
  perform : ∀ {published s env call}, Inv published s → Calm env → Admits call →
    call.Fresh published →
    Inv (call.publishing published) (adapter.perform env call s).2 ∧
    ∀ key, Moves (address · = address key) (revives · key) key env.now call
      (adapter.perform env call s).1 (slot s key) (slot (adapter.perform env call s).2 key)
  expired : ∀ {published s env listed}, Inv published s → Calm env →
    adapter.expired env s = .ok listed →
    (listed.map (address ·.messageKey)).Nodup ∧
    (∀ info ∈ listed, ∃ key target u, address info.messageKey = address key ∧ u < env.now ∧
      slot s key = some ⟨info.queue, target, info.attempt, .inflight u⟩) ∧
    (env.faults = [] → ∀ key found u, slot s key = some found → found.phase = .inflight u →
      u < env.now → ∃ info ∈ listed, address info.messageKey = address key)

/-- The life cycle with fewer calls, the calls of the sweep among them. -/
def Lifecycle.restrict {σ : Type} {adapter : Adapter σ} (cycle : Lifecycle adapter)
    (takes : Call → Prop)
    (hsweep : ∀ {published s info key call}, cycle.Inv published s →
      key ∈ published.map MessageEnvelope.key →
      cycle.address info.messageKey = cycle.address key → SettlesWith info call → takes call) :
    Lifecycle adapter :=
  { cycle with
    Admits := fun call => cycle.Admits call ∧ takes call
    admits_sweep := fun h hkey haddress hsettles =>
      ⟨cycle.admits_sweep h hkey haddress hsettles, hsweep h hkey haddress hsettles⟩
    perform := fun h hcalm hadmits hfresh => cycle.perform h hcalm hadmits.1 hfresh }

end YirangMQ

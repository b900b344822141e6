import YirangMQ.Backend.Content
import YirangMQ.Backends.Types
import YirangMQ.Hybrid.Atomicity

namespace YirangMQ

open Program

/-!
# Which answers are true

A conditional UPDATE that matches no row is no error, and a key leads to the lease file of every
key with the same file name.  So a call may report that it has done what it has not done.

* `Call.transition` — what `ack`, `nack`, `extend_lease` and `reprocess_dlq_message` are for;
* `Honest` — a call reports success only of its transition, and otherwise changes nothing;
* `BackendType.Grounded` — what makes the answers of a backend honest;
* `honest_iff` — **the answer is honest exactly when it is grounded**: on SQLite when the message
  is in the state the call is for, on Hybrid always except for `extend_lease`, on FileSystem when
  the key leads to no message published under another one;
* `false_success` — a call of each backend that reports success of nothing.
-/

/-! ### Transitions -/

/-- The message key of a call that settles a message. -/
def Call.settled : Call → Option String
  | .ack lease | .nack lease _ _ | .extendLease lease _ => some lease.messageKey
  | .reprocessDlqMessage messageKey => some messageKey
  | _ => none

/-- Where the call is to take a message at `slot`, if it is for messages in such a state. -/
def Call.transition (now : Int) (slot : Slot) : Call → Option (Option Slot)
  | .ack _ =>
    match slot.phase with
    | .inflight _ => some none
    | _ => none
  | .nack _ _ requeue =>
    match slot.phase with
    | .inflight _ => some (some { slot with phase := if requeue then .ready else .dlq })
    | _ => none
  | .extendLease _ timeout =>
    match slot.phase with
    | .inflight leaseUntil =>
      if now ≤ leaseUntil then
        some (some { slot with phase := .inflight (now + timeout * 1000) })
      else none
    | _ => none
  | .reprocessDlqMessage _ =>
    match slot.phase with
    | .dlq => some (some { slot with attempt := 0, phase := .ready })
    | _ => none
  | _ => none

/-- The message is in the state the call is for. -/
def Due (now : Int) (call : Call) (slot : Option Slot) : Prop :=
  ∃ found target, slot = some found ∧ call.transition now found = some target

/-- The call reports success only if the message was in the state it is for and its transition
    took place; in all other cases it reports failure, and `unchanged` holds. -/
structure Honest (now : Int) (call : Call) (reply : Reply) (slot slot' : Option Slot)
    (unchanged : Prop) : Prop where
  truthful : reply.succeeded = true →
    ∃ found target, slot = some found ∧ call.transition now found = some target ∧ slot' = target
  refused : ¬Due now call slot → reply.failed = true ∧ unchanged

section Transitions

variable {now : Int} {call : Call} {reply : Reply} {key : String} {slot slot' : Option Slot}
  {found : Slot} {target : Option Slot} {unchanged : Prop}

/-- A failure is honest when the call was not due, or could not be. -/
theorem Honest.of_failed (hsucceeded : reply.succeeded = false) (hfailed : reply.failed = true)
    (hunchanged : ¬Due now call slot → unchanged) :
    Honest now call reply slot slot' unchanged where
  truthful hok := by
    rw [hsucceeded] at hok
    cases hok
  refused hnot := ⟨hfailed, hunchanged hnot⟩

/-- A success is honest when the call was due and did what it is for. -/
theorem Honest.of_due (hslot : slot = some found) (hdue : call.transition now found = some target)
    (htook : reply.succeeded = true → slot' = target) :
    Honest now call reply slot slot' unchanged where
  truthful hok := ⟨found, target, hslot, hdue, htook hok⟩
  refused hnot := absurd ⟨found, target, hslot, hdue⟩ hnot

/-- An `ack` is for an inflight message, which it takes away. -/
theorem transition_ack {lease : LeaseToken} {u : Int} (hphase : found.phase = .inflight u) :
    (Call.ack lease).transition now found = some none := by
  simp only [Call.transition, hphase]

/-- A `nack` is for an inflight message, which becomes ready or a dead letter. -/
theorem transition_nack {lease : LeaseToken} {reason : String} {requeue : Bool} {u : Int}
    (hphase : found.phase = .inflight u) :
    (Call.nack lease reason requeue).transition now found =
      some (some { found with phase := if requeue then .ready else .dlq }) := by
  simp only [Call.transition, hphase]

/-- An `extend_lease` is for a running lease, whose end it sets. -/
theorem transition_extend {lease : LeaseToken} {timeout u : Int}
    (hphase : found.phase = .inflight u) (hlive : now ≤ u) :
    (Call.extendLease lease timeout).transition now found =
      some (some { found with phase := .inflight (now + timeout * 1000) }) := by
  simp only [Call.transition, hphase, if_pos hlive]

/-- A `reprocess` is for a dead letter, which becomes ready and new. -/
theorem transition_reprocess {messageKey : String} (hphase : found.phase = .dlq) :
    (Call.reprocessDlqMessage messageKey).transition now found =
      some (some { found with attempt := 0, phase := .ready }) := by
  simp only [Call.transition, hphase]

/-- A transition in each of the four calls. -/
theorem transition_cases (hdue : call.transition now found = some target) :
    (∃ lease u, call = .ack lease ∧ found.phase = .inflight u ∧ target = none) ∨
    (∃ lease reason requeue u, call = .nack lease reason requeue ∧ found.phase = .inflight u ∧
      target = some { found with phase := if requeue then .ready else .dlq }) ∨
    (∃ lease timeout u, call = .extendLease lease timeout ∧ found.phase = .inflight u ∧ now ≤ u ∧
      target = some { found with phase := .inflight (now + timeout * 1000) }) ∨
    (∃ messageKey, call = .reprocessDlqMessage messageKey ∧ found.phase = .dlq ∧
      target = some { found with attempt := 0, phase := .ready }) := by
  cases hphase : found.phase with
  | ready | delayed => cases call <;> simp [Call.transition, hphase] at hdue
  | inflight u =>
    cases call with
    | ack lease =>
      simp only [Call.transition, hphase, Option.some.injEq] at hdue
      exact .inl ⟨lease, u, rfl, rfl, hdue.symm⟩
    | nack lease reason requeue =>
      simp only [Call.transition, hphase, Option.some.injEq] at hdue
      exact .inr (.inl ⟨lease, reason, requeue, u, rfl, rfl, hdue.symm⟩)
    | extendLease lease timeout =>
      simp only [Call.transition, hphase, Option.ite_none_right_eq_some, Option.some.injEq] at hdue
      exact .inr (.inr (.inl ⟨lease, timeout, u, rfl, rfl, hdue.1, hdue.2.symm⟩))
    | _ => simp [Call.transition, hphase] at hdue
  | dlq =>
    cases call with
    | reprocessDlqMessage messageKey =>
      simp only [Call.transition, hphase, Option.some.injEq] at hdue
      exact .inr (.inr (.inr ⟨messageKey, rfl, rfl, hdue.symm⟩))
    | _ => simp [Call.transition, hphase] at hdue

/-- A successful call other than `extend_lease` takes the message where it is to be taken. -/
theorem Moves.took {names revives : String → Prop}
    (hmoves : Moves names revives key now call reply (some found) slot')
    (hkey : call.settled = some key) (hnames : names key)
    (hrevives : call = .reprocessDlqMessage key → revives key)
    (hdue : call.transition now found = some target)
    (hextend : ∀ lease timeout, call ≠ .extendLease lease timeout)
    (hok : reply.succeeded = true) : slot' = target := by
  obtain ⟨lease, u, rfl, hphase, rfl⟩ | ⟨lease, reason, requeue, u, rfl, hphase, rfl⟩ |
    ⟨lease, timeout, u, rfl, -⟩ | ⟨messageKey, rfl, hphase, rfl⟩ := transition_cases hdue
  · obtain rfl := Option.some.inj hkey
    cases hmoves with
    | stay hidle => exact absurd (.acked hnames hok) hidle
    | ack => rfl
  · obtain rfl := Option.some.inj hkey
    cases hmoves with
    | stay hidle => exact absurd (.nacked hnames hok hphase) hidle
    | requeue => rfl
    | bury => rfl
  · exact absurd rfl (hextend lease timeout)
  · obtain rfl := Option.some.inj hkey
    cases hmoves with
    | stay hidle => exact absurd (.revived (hrevives rfl) hok hphase) hidle
    | revive => rfl

end Transitions

/-! ### The backends over SQLite -/

/-- The message is in the state the call is for.  A lease that ends at this very moment, which
    `lease_until > now` does not match, is asked for no more time. -/
def Matched (now : Int) (call : Call) (slot : Option Slot) : Prop :=
  Due now call slot ∧ ∀ lease timeout, call = .extendLease lease timeout →
    (∃ found, slot = some found ∧ found.phase = .inflight now) → timeout = 0

/-- Calls other than `extend_lease` are matched where they are due. -/
theorem Matched.of_ne {now : Int} {call : Call} {slot : Option Slot} (hdue : Due now call slot)
    (hextend : ∀ lease timeout, call ≠ .extendLease lease timeout) : Matched now call slot :=
  ⟨hdue, fun lease timeout hcall => absurd hcall (hextend lease timeout)⟩

section Extend

variable {t : Tables} {now u timeout : Int} {lease : LeaseToken} {found : Slot}
  {unchanged : Prop}

/-- The tables after the UPDATE of `extend_lease`. -/
def Tables.extended (key : String) (now timeout : Int) (t : Tables) : Tables :=
  t.updateIndex
    (fun r => r.messageKey = key ∧ r.state = .inflight ∧ r.leaseUntil.any (now < ·))
    fun r => { r with leaseUntil := some (now + timeout * 1000) }

/-- The UPDATE leaves a lease alone that ends at this moment or has ended. -/
theorem Tables.slot_extended {key : String}
    (hlease : ∀ r ∈ t.index, r.leaseUntil.isSome ↔ r.state = .inflight)
    (hslot : t.slot key = some found) (hphase : found.phase = .inflight u) :
    (t.extended key now timeout).slot key =
      some { found with phase := .inflight (if now < u then now + timeout * 1000 else u) } := by
  obtain ⟨r, hrow, hkey, rfl⟩ := Tables.row?_of_slot hslot
  obtain ⟨hstate, huntil⟩ :=
    (IndexRow.slot_inflight_iff (hlease r (Table.row?_mem hrow))).mp hphase
  rw [Tables.extended, Tables.slot_updateIndex (by intro r; rfl), hrow, Option.map_some]
  by_cases hlive : now < u
  · simp [IndexRow.slot, hkey, hstate, huntil, hlive]
  · simp [IndexRow.slot, hstate, huntil, hlive]

/-- `extend_lease` reports success whatever its UPDATE matches. -/
theorem extend_honest_iff (hlease : ∀ r ∈ t.index, r.leaseUntil.isSome ↔ r.state = .inflight) :
    Honest now (.extendLease lease timeout) (.status (.ok ())) (t.slot lease.messageKey)
      ((t.extended lease.messageKey now timeout).slot lease.messageKey) unchanged ↔
    Matched now (.extendLease lease timeout) (t.slot lease.messageKey) := by
  constructor
  -- If the lease has just ended, nothing is extended: honest only if no time was asked for.
  · intro hhonest
    obtain ⟨found, target, hslot, hdue, htook⟩ := hhonest.truthful rfl
    refine ⟨⟨found, target, hslot, hdue⟩, ?_⟩
    rintro _ _ hcall ⟨found', hslot', hphase⟩
    obtain ⟨rfl, rfl⟩ := Call.extendLease.inj hcall
    rw [hslot, Option.some.injEq] at hslot'
    subst hslot'
    rw [Tables.slot_extended hlease hslot hphase, if_neg (lt_irrefl now)] at htook
    simp only [Call.transition, hphase, le_refl, if_true, Option.some.injEq] at hdue
    rw [← hdue, Option.some.injEq, Slot.mk.injEq, Phase.inflight.injEq] at htook
    omega
  · rintro ⟨⟨found, target, hslot, hdue⟩, hmoment⟩
    refine .of_due hslot hdue fun _ => ?_
    obtain ⟨_, _, hcall, -⟩ | ⟨_, _, _, _, hcall, -⟩ | ⟨_, _, u, hcall, hphase, hlive, rfl⟩ |
      ⟨_, hcall, -⟩ := transition_cases hdue
    · cases hcall
    · cases hcall
    · obtain ⟨rfl, rfl⟩ := Call.extendLease.inj hcall
      rw [Tables.slot_extended hlease hslot hphase]
      by_cases hlater : now < u
      · rw [if_pos hlater]
      · obtain rfl : u = now := by omega
        have htimeout : timeout = 0 := hmoment _ _ rfl ⟨found, hslot, hphase⟩
        rw [if_neg hlater, htimeout]
        simp
    · cases hcall

end Extend

namespace SQLite

variable {schema : SchemaFile} {published : List MessageEnvelope} {s : Store} {env : Env}
  {call : Call} {key : String}

/-- The answer about the message of a key. -/
abbrev HonestKey (schema : SchemaFile) (env : Env) (call : Call) (key : String) (s : Store) : Prop :=
  Honest env.now call ((adapter schema).perform env call s).1 (s.data.slot key)
    (((adapter schema).perform env call s).2.data.slot key)
    (((adapter schema).perform env call s).2.data = s.data)

/-- What a call that is performed answers. -/
theorem honest_of_effect (h : Keeps published s) (hsettled : call.settled = some key)
    (hfresh : call.Fresh published)
    (heffect : Effect schema env call ((adapter schema).perform env call s).1 s.data
      ((adapter schema).perform env call s).2.data) :
    HonestKey schema env call key s ↔ Matched env.now call (s.data.slot key) := by
  obtain ⟨time, hinv⟩ := h.invariant
  by_cases hextend : ∃ lease timeout, call = .extendLease lease timeout
  · obtain ⟨lease, timeout, rfl⟩ := hextend
    obtain rfl := Option.some.inj hsettled
    obtain ⟨hreply, hafter⟩ := heffect
    rw [HonestKey, hreply, hafter]
    exact extend_honest_iff fun r hr => (hinv.rows r hr).lease
  -- The others answer success too, and are honest exactly where their update matches.
  · have hne : ∀ lease timeout, call ≠ .extendLease lease timeout :=
      fun lease timeout hcall => hextend ⟨lease, timeout, hcall⟩
    have hreply : ((adapter schema).perform env call s).1 = .status (.ok ()) := by
      cases call with
      | ack | nack | reprocessDlqMessage => exact heffect.1
      | extendLease lease timeout => exact absurd rfl (hne lease timeout)
      | _ => cases hsettled
    constructor
    · intro hhonest
      obtain ⟨found, target, hslot, hdue, -⟩ := hhonest.truthful (by rw [hreply]; rfl)
      exact .of_ne ⟨found, target, hslot, hdue⟩ hne
    · rintro ⟨⟨found, target, hslot, hdue⟩, -⟩
      refine .of_due hslot hdue fun hok => ?_
      have hreadable : Call.Readable call := by
        cases call with
        | leaseNext => cases hsettled
        | _ => trivial
      have hmoves := (@Keeps.perform schema env _ _ h _ hreadable hfresh).2 key
      rw [MovesKey, hslot] at hmoves
      exact hmoves.took hsettled rfl (fun _ => rfl) hdue hne hok

/-- The answer is honest where the message is in the state the call is for, and only there when no
    statement fails. -/
theorem perform_honest_iff (h : Keeps published s) (hsettled : call.settled = some key)
    (hfresh : call.Fresh published) :
    (Matched env.now call (s.data.slot key) → HonestKey schema env call key s) ∧
    (env.faults = [] →
      (HonestKey schema env call key s ↔ Matched env.now call (s.data.slot key))) := by
  constructor
  · intro hmatched
    obtain ⟨-, hperforms⟩ := @perform_performs True schema env s h.saved (.inl trivial) call
    rcases hperforms with ⟨hrefusal, hsame, -⟩ | heffect
    · obtain ⟨⟨found, target, hslot, hdue⟩, -⟩ := hmatched
      refine .of_due hslot hdue fun hok => ?_
      rw [hrefusal.succeeded] at hok
      cases hok
    · exact (honest_of_effect h hsettled hfresh heffect).mpr hmatched
  · intro hfaults
    obtain ⟨-, hperforms⟩ := @perform_performs False schema env s h.saved (.inr hfaults) call
    rcases hperforms with ⟨-, -, hf | hrefuses⟩ | heffect
    · exact hf.elim
    · cases call with
      | enqueue | leaseNext => cases hsettled
      | _ => exact hrefuses.elim
    · exact honest_of_effect h hsettled hfresh heffect

end SQLite

namespace Hybrid

variable {schema : SchemaFile} {published : List MessageEnvelope} {s : Store} {env : Env}
  {call : Call} {key : String}

/-- What makes an answer about a message honest: `extend_lease` alone does not look at its row
    first. -/
def Grounded (now : Int) (call : Call) (slot : Option Slot) : Prop :=
  ∀ lease timeout, call = .extendLease lease timeout → Matched now call slot

/-- The answer about the message of a key. -/
abbrev HonestKey (schema : SchemaFile) (env : Env) (call : Call) (key : String) (s : Store) : Prop :=
  Honest env.now call ((adapter schema).perform env call s).1 (s.data.slot key)
    (((adapter schema).perform env call s).2.data.slot key)
    (Unchanged s ((adapter schema).perform env call s).2)

/-- A query that finds the row finds it in the state the call is for. -/
theorem due_of_query {t : Tables} (hinv : Invariant t) (hsettled : call.settled = some key)
    (hextend : ∀ lease timeout, call ≠ .extendLease lease timeout)
    (hquery : (∀ lease, call = .ack lease → queueInState lease.messageKey .inflight t ≠ none) ∧
      (∀ lease reason requeue, call = .nack lease reason requeue →
        queueInState lease.messageKey .inflight t ≠ none) ∧
      ∀ messageKey, call = .reprocessDlqMessage messageKey →
        queueInState messageKey .dlq t ≠ none) (now : Int) : Due now call (t.slot key) := by
  obtain ⟨hack, hnack, hreprocess⟩ := hquery
  have hinflight : queueInState key .inflight t ≠ none →
      ∃ r u, t.slot key = some r ∧ r.phase = .inflight u := by
    intro hfound
    obtain ⟨r, hrow, hstate⟩ := hinv.queueInState.mp hfound
    obtain ⟨u, -, hphase⟩ := hinv.inflight_slot hrow hstate
    exact ⟨r.slot, u, by rw [Tables.slot, hrow]; rfl, hphase⟩
  cases call with
  | ack lease =>
    obtain rfl := Option.some.inj hsettled
    obtain ⟨found, u, hslot, hphase⟩ := hinflight (hack lease rfl)
    exact ⟨found, none, hslot, transition_ack hphase⟩
  | nack lease reason requeue =>
    obtain rfl := Option.some.inj hsettled
    obtain ⟨found, u, hslot, hphase⟩ := hinflight (hnack lease reason requeue rfl)
    exact ⟨found, _, hslot, transition_nack hphase⟩
  | reprocessDlqMessage messageKey =>
    obtain rfl := Option.some.inj hsettled
    obtain ⟨r, hrow, hstate⟩ := hinv.queueInState.mp (hreprocess messageKey rfl)
    have hphase : r.slot.phase = .dlq := by simp [IndexRow.slot, hstate]
    exact ⟨r.slot, _, by rw [Tables.slot, hrow]; rfl, transition_reprocess hphase⟩
  | extendLease lease timeout => exact absurd rfl (hextend lease timeout)
  | _ => cases hsettled

/-- The queries of a call that finds its row. -/
theorem query_of_effect {files : Payloads} {reply : Reply} {t t' : Tables}
    (heffect : Effect schema env files call reply t t') :
    (∀ lease, call = .ack lease → queueInState lease.messageKey .inflight t ≠ none) ∧
    (∀ lease reason requeue, call = .nack lease reason requeue →
      queueInState lease.messageKey .inflight t ≠ none) ∧
    ∀ messageKey, call = .reprocessDlqMessage messageKey →
      queueInState messageKey .dlq t ≠ none := by
  refine ⟨?_, ?_, ?_⟩
  · rintro lease rfl
    exact heffect.2.1
  · rintro lease reason requeue rfl
    exact heffect.2.1
  · rintro messageKey rfl
    exact heffect.2.1

/-- A call that is not due is not torn. -/
theorem not_torn_of_not_due (h : Keeps published s) (hsettled : call.settled = some key)
    (hnot : ¬Due env.now call (s.data.slot key)) : ¬Torn schema env call s := by
  cases call with
  | nack lease reason requeue =>
    cases requeue with
    | true => exact id
    | false =>
      rintro ⟨-, -, -, queue, hqueue, -⟩
      refine hnot (due_of_query h.invariant hsettled (by simp) ⟨by simp, ?_, by simp⟩ _)
      rintro _ _ _ hcall
      obtain ⟨rfl, -, -⟩ := Call.nack.inj hcall
      rw [hqueue]
      exact Option.some_ne_none _
  | enqueue | leaseNext => cases hsettled
  | _ => exact id

/-- A call that refuses answers honestly. -/
theorem honest_of_refusal (h : Keeps published s) (hsettled : call.settled = some key)
    (hrefusal : ((adapter schema).perform env call s).1.IsRefusal)
    (hatomic : ¬Torn schema env call s → ((adapter schema).perform env call s).1.failed = true →
      Unchanged s ((adapter schema).perform env call s).2)
    (hstatus : ∃ status, ((adapter schema).perform env call s).1 = .status status) :
    HonestKey schema env call key s := by
  have hfailed : ((adapter schema).perform env call s).1.failed = true := by
    obtain ⟨status, hstatus⟩ := hstatus
    rw [hstatus] at hrefusal ⊢
    obtain ⟨e, rfl⟩ := hrefusal
    rfl
  exact .of_failed hrefusal.succeeded hfailed fun hnot =>
    hatomic (not_torn_of_not_due h hsettled hnot) hfailed

/-- The answer is honest where it is grounded, and only there when nothing fails. -/
theorem perform_honest_iff (h : Keeps published s) (hsettled : call.settled = some key)
    (hplain : call.Plain) (hfresh : call.Fresh published)
    (hatomic : ¬Torn schema env call s → ((adapter schema).perform env call s).1.failed = true →
      Unchanged s ((adapter schema).perform env call s).2) :
    (Grounded env.now call (s.data.slot key) → HonestKey schema env call key s) ∧
    (env.faults = [] →
      (HonestKey schema env call key s ↔ Grounded env.now call (s.data.slot key))) := by
  have hstatus : ∃ status, ((adapter schema).perform env call s).1 = .status status := by
    cases call with
    | enqueue | leaseNext | savePolicy | recoverExpiredLeases | processDelayedMessages
    | delayMessage | moveToDlq => cases hsettled
    | _ => exact ⟨_, rfl⟩
  obtain ⟨-, hperforms⟩ := @perform_performs True schema env s h.saved (.inl trivial) call
  -- `extend_lease` asks no query first: it answers success whatever its update matches.
  by_cases hextend : ∃ lease timeout, call = .extendLease lease timeout
  · obtain ⟨lease, timeout, rfl⟩ := hextend
    obtain rfl := Option.some.inj hsettled
    have hgrounded : Grounded env.now (.extendLease lease timeout)
        (s.data.slot lease.messageKey) ↔
        Matched env.now (.extendLease lease timeout) (s.data.slot lease.messageKey) := by
      constructor
      · exact fun hground => hground lease timeout rfl
      · exact fun hmatched _ _ _ => hmatched
    -- So the condition is that the update matches, and a failing statement changes nothing.
    rw [hgrounded]
    have hperformed : Effect schema env s.files (.extendLease lease timeout)
        ((adapter schema).perform env (.extendLease lease timeout) s).1 s.data
        ((adapter schema).perform env (.extendLease lease timeout) s).2.data →
        (HonestKey schema env (.extendLease lease timeout) lease.messageKey s ↔
          Matched env.now (.extendLease lease timeout) (s.data.slot lease.messageKey)) := by
      rintro ⟨hreply, hafter⟩
      rw [HonestKey, hreply, hafter]
      exact extend_honest_iff fun r hr => (h.invariant.rows r hr).lease
    refine ⟨fun hmatched => ?_, fun hfaults => ?_⟩
    · rcases hperforms with ⟨hrefusal, -, -⟩ | heffect
      · exact honest_of_refusal h rfl hrefusal hatomic hstatus
      · exact (hperformed heffect).mpr hmatched
    · obtain ⟨-, hcalm⟩ := @perform_performs False schema env s h.saved (.inr hfaults)
        (.extendLease lease timeout)
      rcases hcalm with ⟨-, -, hf | hrefuses⟩ | heffect
      · exact hf.elim
      · exact hrefuses.elim
      · exact hperformed heffect
  · have hne : ∀ lease timeout, call ≠ .extendLease lease timeout :=
      fun lease timeout hcall => hextend ⟨lease, timeout, hcall⟩
    -- The other calls look for the row before they change it.
    have hhonest : HonestKey schema env call key s := by
      rcases hperforms with ⟨hrefusal, -, -⟩ | heffect
      · exact honest_of_refusal h hsettled hrefusal hatomic hstatus
      · obtain ⟨found, target, hslot, hdue⟩ :=
          due_of_query h.invariant hsettled hne (query_of_effect heffect) env.now
        refine .of_due hslot hdue fun hok => ?_
        have hmoves := (@Keeps.perform schema env _ _ h _ hplain hfresh).2 key
        rw [MovesKey, hslot] at hmoves
        exact hmoves.took hsettled rfl (fun _ => rfl) hdue hne hok
    have hgrounded : Grounded env.now call (s.data.slot key) :=
      fun lease timeout hcall => absurd hcall (hne lease timeout)
    exact ⟨fun _ => hhonest, fun _ => iff_of_true hhonest hgrounded⟩

end Hybrid

/-! ### The FileSystem adapter -/

namespace FileSystem

variable {published : List MessageEnvelope} {d d' : Disk} {m m' : MessageEnvelope} {env : Env}
  {call : Call} {key : String} {now : Int}

/-- What the call looks up leads to message `m`: its lease file, its identifier and what else the
    call checks, or its file in `dlq/`. -/
def Leads (now : Int) (d : Disk) : Call → MessageEnvelope → Prop
  | .ack lease, m =>
    safeKey lease.messageKey = safeKey m.key ∧ messageIdOf lease.messageKey = some m.messageId ∧
    ∃ stored, d.lease m.key = some stored ∧ now ≤ stored.leaseUntilMs ∧
      stored.consumerId = lease.consumerId
  | .nack lease _ _, m =>
    safeKey lease.messageKey = safeKey m.key ∧ messageIdOf lease.messageKey = some m.messageId ∧
    ∃ stored, d.lease m.key = some stored
  | .extendLease lease _, m =>
    safeKey lease.messageKey = safeKey m.key ∧
    ∃ stored, d.lease m.key = some stored ∧ now ≤ stored.leaseUntilMs ∧
      stored.consumerId = lease.consumerId
  | .reprocessDlqMessage messageKey, m =>
    Revives messageKey m.key ∧ d.lookup (filePath m .dlq) ≠ none
  | _, _ => False

/-- A message that a call leads to is in the state the call is for. -/
theorem Leads.due (h : Keeps False published d) (hm : m ∈ published) (hleads : Leads now d call m) :
    Due now call (d.slot m.key) := by
  cases call with
  | ack lease =>
    obtain ⟨-, -, stored, hstored, -⟩ := hleads
    exact ⟨_, _, (h.leased_slot hm hstored).1, transition_ack rfl⟩
  | nack lease reason requeue =>
    obtain ⟨-, -, stored, hstored⟩ := hleads
    exact ⟨_, _, (h.leased_slot hm hstored).1, transition_nack rfl⟩
  | extendLease lease timeout =>
    obtain ⟨-, stored, hstored, hlive, -⟩ := hleads
    exact ⟨_, _, (h.leased_slot hm hstored).1, transition_extend rfl hlive⟩
  | reprocessDlqMessage messageKey =>
    obtain ⟨-, hfile⟩ := hleads
    obtain ⟨found, j, hslot, hphase, -⟩ :=
      @Keeps.dead_slot _ _ _ ⟨1, by decide, "", []⟩ h hm hfile
    exact ⟨found, _, hslot, transition_reprocess hphase⟩
  | _ => exact hleads.elim

/-- A call leads to no other message than the one whose key it is given. -/
theorem Leads.unique (h : Keeps False published d) (hm : m ∈ published) (hm' : m' ∈ published)
    (hleads : Leads now d call m) (hsettled : call.settled = some m'.key) : m = m' := by
  have hlease : ∀ K, safeKey K = safeKey m.key → some K = some m'.key → m = m' := by
    intro K hnames hkey
    rw [Option.some.inj hkey] at hnames
    exact (h.eq_of_safeKey hm' hm hnames).symm
  cases call with
  | ack lease => exact hlease _ hleads.1 hsettled
  | nack lease reason requeue => exact hlease _ hleads.1 hsettled
  | extendLease lease timeout => exact hlease _ hleads.1 hsettled
  | reprocessDlqMessage messageKey =>
    obtain rfl : messageKey = m'.key := Option.some.inj hsettled
    obtain ⟨⟨queue, id, hlocate, -, hid⟩, -⟩ := hleads
    have hnamed := h.named m hm
    have hnamed' := h.named m' hm'
    rw [hnamed.key, locate_messageKey (not_mem_of_guid hnamed.guid).1, Option.some.injEq,
      Prod.mk.injEq] at hlocate
    rw [hnamed'.key, messageIdOf_messageKey (not_mem_of_guid hnamed'.guid).1,
      Option.some.injEq] at hid
    exact h.well.eq_of_id hm hm' (hlocate.2.trans hid.symm)
  | _ => exact hleads.elim

/-- The call succeeds because it leads to a message, or fails, changes nothing and leads to
    none. -/
def Outcome (published : List MessageEnvelope) (now : Int) (call : Call) (d : Disk) (r : Status)
    (d' : Disk) : Prop :=
  (r = .ok () ∧ ∃ m ∈ published, Leads now d call m) ∨
  ((∃ e, r = .error e) ∧ d' = d ∧ ∀ m ∈ published, ¬Leads now d call m)

/-- What `ack` answers, and what becomes of the message. -/
theorem ack_outcome (h : Keeps False published d) (lease : LeaseToken) :
    Sat False (fun _ => True) d (ack env lease) (Outcome published env.now (.ack lease) d) := by
  refine ack_sat trivial ?_ fun hnone e => .inr ⟨⟨e, rfl⟩, rfl, ?_⟩
  · intro stored id content hreach hlive hconsumer
    obtain ⟨m, hm, rfl, j, rfl, hheld⟩ := h.reached hreach
    have hlease : d.lease m.key = some stored := (lease_congr hheld.names).symm.trans hreach.1
    exact ⟨trivial, trivial, .inl ⟨rfl, m, hm, hheld.names, hreach.2.1, stored, hlease, hlive,
      hconsumer⟩⟩
  · rintro m hm ⟨hnames, hid, stored, hstored, hlive, hconsumer⟩
    obtain ⟨content, hcontent⟩ := Option.ne_none_iff_exists'.mp (h.leased_slot hm hstored).2
    exact hnone stored m.messageId content
      ⟨(lease_congr hnames).trans hstored, hid, hcontent⟩ hlive hconsumer

/-- What `nack` answers, and what becomes of the message. -/
theorem nack_outcome (h : Keeps False published d) (lease : LeaseToken) (reason : String)
    (requeue : Bool) :
    Sat False (fun _ => True) d (nack env lease reason requeue)
      (Outcome published env.now (.nack lease reason requeue) d) := by
  have hrefuse : (∀ stored id content, ¬Reaches d lease.messageKey stored id content) →
      ∀ e, Outcome published env.now (.nack lease reason requeue) d (.error e) d := by
    refine fun hnone e => .inr ⟨⟨e, rfl⟩, rfl, ?_⟩
    rintro m hm ⟨hnames, hid, stored, hstored⟩
    obtain ⟨content, hcontent⟩ := Option.ne_none_iff_exists'.mp (h.leased_slot hm hstored).2
    exact hnone stored m.messageId content ⟨(lease_congr hnames).trans hstored, hid, hcontent⟩
  have hdone : ∀ {stored id content} d', Reaches d lease.messageKey stored id content →
      Outcome published env.now (.nack lease reason requeue) d (.ok ()) d' := by
    intro stored id content d' hreach
    obtain ⟨m, hm, rfl, j, rfl, hheld⟩ := h.reached hreach
    have hlease : d.lease m.key = some stored := (lease_congr hheld.names).symm.trans hreach.1
    exact .inl ⟨rfl, m, hm, hheld.names, hreach.2.1, stored, hlease⟩
  refine withLease_sat ("lease not found: " ++ ·) trivial ?_ hrefuse
  intro stored id hstored hid
  cases requeue with
  | true =>
    exact release_sat hstored hid (fun content hreach => ⟨trivial, trivial, hdone _ hreach⟩) hrefuse
  | false =>
    refine rewrite_sat trivial hstored hid (fun content hreach => ?_) hrefuse
    obtain ⟨m, hm, -, j, rfl, hheld⟩ := h.reached hreach
    obtain ⟨available, henvelope⟩ := hheld.envelope
    obtain ⟨j', hj', -⟩ := henvelope.withDlqFields reason env.now
    exact ⟨j, j', rfl, hj', trivial, trivial, trivial, trivial, hdone _ hreach⟩

/-- What `extend_lease` answers, and what becomes of every message whose lease file it writes. -/
theorem extendLease_outcome (h : Keeps False published d) {lease : LeaseToken} {timeout : Int}
    (hname : '/' ∉ lease.messageKey.toList) :
    Sat False (fun _ => True) d (extendLease env lease timeout) fun r d' =>
      Outcome published env.now (.extendLease lease timeout) d r d' ∧
      (r = .ok () → ∀ m ∈ published, safeKey lease.messageKey = safeKey m.key →
        ∀ found, d.slot m.key = some found →
          d'.slot m.key = some { found with phase := .inflight (env.now + timeout * 1000) }) := by
  refine extendLease_sat trivial hname ?_ fun hnone e => ⟨.inr ⟨⟨e, rfl⟩, rfl, ?_⟩, by simp⟩
  · intro stored hstored hconsumer hlive
    obtain ⟨m, hm, j, hheld⟩ := h.held hstored
    have hlease : d.lease m.key = some stored := (lease_congr hheld.names).symm.trans hstored
    refine ⟨trivial, trivial, .inl ⟨rfl, m, hm, hheld.names, stored, hlease, hlive, hconsumer⟩, ?_⟩
    intro _ m' hm' hnames found hfound
    obtain rfl := h.eq_of_safeKey hm hm' (hheld.names.symm.trans hnames)
    rw [(h.leased_slot hm hlease).1, Option.some.injEq] at hfound
    subst hfound
    have hpath : Path.leaseMeta (safeKey lease.messageKey) = leasePath m := by rw [hheld.names]
    rw [hpath]
    exact (hheld.extended False.elim _).slot_eq (h.named m hm)
  · rintro m hm ⟨hnames, stored, hstored, hlive, hconsumer⟩
    have hexpired := hnone stored ((lease_congr hnames).trans hstored) hconsumer
    omega

/-- What `reprocess_dlq_message` answers, and what becomes of the message. -/
theorem reprocessDlqMessage_outcome (h : Keeps False published d) (hname : '/' ∉ key.toList) :
    Sat False (fun _ => True) d (reprocessDlqMessage env key)
      (Outcome published env.now (.reprocessDlqMessage key) d) := by
  refine reprocessDlqMessage_sat trivial ?_ fun hnone e => .inr ⟨⟨e, rfl⟩, rfl, ?_⟩
  · intro id content j' hid _ hfile _
    refine ⟨trivial, trivial, trivial, .inl ⟨rfl, ?_⟩⟩
    obtain ⟨m, hm, hlocation, rfl, j, attempt, available, phase, rfl, hphase, honly, -⟩ :=
      h.waiting (by simp) hfile
    have hnamed := h.named m hm
    have hextract := resolve_extracted hname hnamed.queue hlocation
    refine ⟨m, hm, ⟨m.queue, m.messageId, ?_, hextract, hid⟩, ?_⟩
    · rw [hnamed.key, locate_messageKey (not_mem_of_guid hnamed.guid).1]
    · rw [honly .dlq, if_pos rfl]
      exact Option.some_ne_none _
  · rintro m hm ⟨⟨queue, id, hlocate, hextract, hid⟩, hfile⟩
    have hnamed := h.named m hm
    rw [hnamed.key, locate_messageKey (not_mem_of_guid hnamed.guid).1, Option.some.injEq,
      Prod.mk.injEq] at hlocate
    obtain ⟨rfl, rfl⟩ := hlocate
    obtain ⟨_, j, -, -, hj, j', hj'⟩ := @Keeps.dead_slot _ _ _ env h hm hfile
    have hnot := hnone m.messageId (some j) hid (hextract ▸ hnamed.queue.1)
      (by rw [hextract, queuePath_of_name hnamed.queue]; exact hj)
    rw [Option.bind_some, hj'] at hnot
    cases hnot

/-- The outcome of a call that settles a message, and what a renewal does to its lease. -/
theorem perform_outcome (h : Keeps False published d) (hsettled : call.settled = some key)
    (hcalm : env.faults = []) (hplain : Call.Plain call) :
    ∃ r, (adapter.perform env call d).1 = .status r ∧
      Outcome published env.now call d r (adapter.perform env call d).2 ∧
      ∀ lease timeout, call = .extendLease lease timeout → r = .ok () → ∀ m ∈ published,
        safeKey lease.messageKey = safeKey m.key → ∀ found, d.slot m.key = some found →
          (adapter.perform env call d).2.slot m.key =
            some { found with phase := .inflight (env.now + timeout * 1000) } := by
  cases call with
  | ack lease =>
    have hrun := ((@ack_outcome _ _ env h lease).run (.inr hcalm) trivial).1
    exact ⟨_, rfl, hrun, by simp⟩
  | nack lease reason requeue =>
    have hrun := ((@nack_outcome _ _ env h lease reason requeue).run (.inr hcalm) trivial).1
    exact ⟨_, rfl, hrun, by simp⟩
  | extendLease lease timeout =>
    have hrun := ((@extendLease_outcome _ _ env h lease timeout hplain).run (.inr hcalm) trivial).1
    refine ⟨_, rfl, hrun.1, ?_⟩
    intro lease' timeout' hcall hok
    obtain ⟨rfl, rfl⟩ := Call.extendLease.inj hcall
    exact hrun.2 hok
  | reprocessDlqMessage messageKey =>
    have hrun := ((@reprocessDlqMessage_outcome _ _ env messageKey h hplain).run
      (.inr hcalm) trivial).1
    exact ⟨_, rfl, hrun, by simp⟩
  | _ => cases hsettled

/-- The call leads to no message that was published under another key. -/
def Grounded (published : List MessageEnvelope) (now : Int) (call : Call) (key : String)
    (d : Disk) : Prop :=
  ∀ m ∈ published, Leads now d call m → m.key = key

/-- The answer about the message of a key. -/
abbrev HonestKey (env : Env) (call : Call) (key : String) (d : Disk) : Prop :=
  Honest env.now call (adapter.perform env call d).1 (d.slot key)
    ((adapter.perform env call d).2.slot key) ((adapter.perform env call d).2 = d)

/-- **The answer is honest exactly when the call leads to no message published under another
    key.** -/
theorem perform_honest_iff (h : Keeps False published d) (hsettled : call.settled = some key)
    (hcalm : env.faults = []) (hplain : Call.Plain call) (hfresh : call.Fresh published) :
    HonestKey env call key d ↔ Grounded published env.now call key d := by
  obtain ⟨r, hreply, houtcome, hextended⟩ := perform_outcome h hsettled hcalm hplain
  rcases houtcome with ⟨rfl, m, hm, hleads⟩ | ⟨⟨e, rfl⟩, hsame, hnone⟩
  · have hok : (adapter.perform env call d).1.succeeded = true := by
      rw [hreply]
      rfl
    constructor
    · intro hhonest m' hm' hleads'
      obtain ⟨found, target, hslot, -⟩ := hhonest.truthful hok
      obtain ⟨m'', hm'', rfl⟩ := @Keeps.known _ _ _ key h (by simp [hslot])
      rw [hleads'.unique h hm' hm'' hsettled]
    · intro hground
      obtain rfl := hground m hm hleads
      obtain ⟨found, target, hslot, hdue⟩ := hleads.due h hm
      refine .of_due hslot hdue fun _ => ?_
      by_cases hextend : ∃ lease timeout, call = .extendLease lease timeout
      · obtain ⟨lease, timeout, rfl⟩ := hextend
        obtain ⟨hnames, stored, hstored, hlive, -⟩ := hleads
        rw [hextended lease timeout rfl rfl m hm hnames found hslot]
        rw [(h.leased_slot hm hstored).1, Option.some.injEq] at hslot
        subst hslot
        exact Option.some.inj ((transition_extend rfl hlive).symm.trans hdue)
      · have hturns := perform_turns h hcalm hfresh hplain False.elim
        have hmoves := hturns.moves m.key
        rw [MovesKey, hslot] at hmoves
        refine hmoves.took hsettled rfl ?_ hdue
          (fun lease timeout hcall => hextend ⟨lease, timeout, hcall⟩) hok
        rintro rfl
        exact hleads.1
  · refine iff_of_true (.of_failed ?_ ?_ fun _ => hsame) fun m hm hleads => ?_
    · rw [hreply]
      rfl
    · rw [hreply]
      rfl
    · exact absurd hleads (hnone m hm)

end FileSystem

/-! ### The three backends -/

/-- What makes the answer to a call about the message of a key honest. -/
def BackendType.Grounded (published : List MessageEnvelope) (now : Int) (call : Call)
    (key : String) : (backend : BackendType) → backend.Store → Prop
  | .sqlite, s => Matched now call (Tables.slot (Conn.data s) key)
  | .hybrid, s => Hybrid.Grounded now call (Tables.slot (Conn.data s) key)
  | .fileSystem, d => FileSystem.Grounded published now call key d

/-- Nothing stored has changed. -/
def BackendType.Unchanged : (backend : BackendType) → backend.Store → backend.Store → Prop
  | .sqlite, s, t => Conn.data t = Conn.data s
  | .hybrid, s, t => Hybrid.Unchanged s t
  | .fileSystem, d, d' => d' = d

/-- **The answer to `ack`, `nack`, `extend_lease` or `reprocess_dlq_message` is honest where it is
    grounded, and only there when nothing fails**, in every reachable store and for every key. -/
theorem honest_iff (schema : SchemaFile) (backend : BackendType)
    {h : History backend.Store (Env × Call) Reply} {s : backend.Store}
    (run : Run (backend.adapter schema).machine (backend.Given schema) h s)
    {env : Env} {call : Call} {key : String} (hsettled : call.settled = some key)
    (hgiven : backend.Given schema h s (env, call)) :
    let reply := ((backend.adapter schema).perform env call s).1
    let t := ((backend.adapter schema).perform env call s).2
    let slot := (backend.lifecycle schema).slot
    let honest := Honest env.now call reply (slot s key) (slot t key) (backend.Unchanged s t)
    let grounded := backend.Grounded (publishedBy h) env.now call key s
    (grounded → honest) ∧ (env.faults = [] → (honest ↔ grounded)) := by
  obtain ⟨hinv, -⟩ := (backend.sustains_given schema).inv_of_run run
  cases backend with
  | sqlite =>
    have hkeeps : SQLite.Keeps (publishedBy h) s := hinv
    exact SQLite.perform_honest_iff hkeeps hsettled hgiven
  | hybrid =>
    have hkeeps : Hybrid.Keeps (publishedBy h) s := hinv
    have hatomic := @Hybrid.failure_atomic_iff schema h s run (Conn.files s) (fun _ hpath => hpath)
      env call hgiven
    exact Hybrid.perform_honest_iff hkeeps hsettled hgiven.admits hgiven.fresh hatomic.mpr
  | fileSystem =>
    have hkeeps : FileSystem.Keeps False (publishedBy h) s := hinv
    have hhonest := FileSystem.perform_honest_iff hkeeps hsettled hgiven.calm hgiven.admits.1
      hgiven.fresh
    exact ⟨hhonest.mpr, fun _ => hhonest⟩

/-! ### False successes -/

section Example

/-- An acknowledgement on SQLite of a key that never existed, a renewal on Hybrid of a message that
    nobody has leased, and a `nack` on FileSystem under a key that never existed, which gives back
    a message that another key leases: all three report success. -/
theorem false_success :
    let message : MessageEnvelope := {
      key := "msg:q:a", messageId := "a", queue := "q", payloadJson := "1", attributesJson := "" }
    let sqlite := SQLite.adapter .mainMq
    let hybrid := Hybrid.adapter .mainMq
    let fileSystem := FileSystem.adapter
    let ready := (hybrid.perform ⟨1, by decide, "", []⟩ (.enqueue message) hybrid.start).2
    let published := (fileSystem.perform ⟨1, by decide, "", []⟩ (.enqueue message)
      fileSystem.start).2
    let leased := (fileSystem.perform ⟨2, by decide, "", []⟩ (.leaseNext "q" "c" 30) published).2
    let returned := fileSystem.perform ⟨3, by decide, "", []⟩
      (.nack ⟨"", "msg_q:a", "", 0⟩ "" true) leased
    (sqlite.perform ⟨1, by decide, "", []⟩ (.ack ⟨"", "msg:q:a", "c", 0⟩)
        sqlite.start).1.succeeded = true ∧
      (hybrid.perform ⟨2, by decide, "", []⟩ (.extendLease ⟨"", "msg:q:a", "c", 0⟩ 30)
        ready).1.succeeded = true ∧
      ready.data.slot "msg:q:a" = some ⟨"q", "", 0, .ready⟩ ∧
      returned.1.succeeded = true ∧ leased.slot "msg_q:a" = none ∧
      returned.2.slot "msg:q:a" = some ⟨"q", "", 1, .ready⟩ := by
  decide

/-- The acknowledgement of a key that never existed is not honest. -/
theorem honest_iff_unknown :
    let adapter := SQLite.adapter .mainMq
    let acked := adapter.perform ⟨1, by decide, "", []⟩ (.ack ⟨"", "msg:q:a", "c", 0⟩) adapter.start
    ¬Honest 1 (.ack ⟨"", "msg:q:a", "c", 0⟩) acked.1 (adapter.start.data.slot "msg:q:a")
      (acked.2.data.slot "msg:q:a") (acked.2.data = adapter.start.data) := by
  intro adapter acked hhonest
  have hmatched := ((@honest_iff .mainMq .sqlite _ _ .start ⟨1, by decide, "", []⟩
    (.ack ⟨"", "msg:q:a", "c", 0⟩) _ rfl trivial).2 rfl).mp hhonest
  obtain ⟨⟨found, target, hslot, -⟩, -⟩ := hmatched
  cases hslot

end Example

end YirangMQ

import YirangMQ.Backend.Types
import YirangMQ.Library.Machine

namespace YirangMQ

/-!
# The backend interface

An adapter performs calls on its store, each under its mutex and so in one step.  What a call
takes from the outside beside its arguments is its environment: the clock, the identifiers
`Generator::guid` makes, and which of the primitive steps below it fail.

* `Call`, `Reply` — the calls that may change the store, and their answers;
* `Adapter` — a store with its calls and `get_expired_inflight_messages`;
* `Adapter.machine` — the machine whose inputs are calls in their environments.
-/

/-- What surrounds one call: the time it reads, the identifier it generates, and what happens
    to its primitive steps, in order (`some text` makes one fail, and the list may end early). -/
structure Env where
  now : Int
  now_pos : 0 < now
  guid : String := ""
  faults : List (Option String) := []

/-- The calls of a backend adapter that may change its store. -/
inductive Call where
  | enqueue (message : MessageEnvelope)
  | leaseNext (queue consumerId : String) (visibilityTimeoutSec : Int)
  | ack (lease : LeaseToken)
  | nack (lease : LeaseToken) (reason : String) (requeue : Bool)
  | extendLease (lease : LeaseToken) (visibilityTimeoutSec : Int)
  | savePolicy (queue : String) (policy : QueuePolicy)
  | recoverExpiredLeases
  | processDelayedMessages
  | delayMessage (messageKey : String) (delayMs : Int)
  | moveToDlq (messageKey reason : String)
  | reprocessDlqMessage (messageKey : String)
  deriving DecidableEq, Repr

/-- The queue that a call names. -/
def Call.queue? : Call → Option String
  | .enqueue message => some message.queue
  | .leaseNext queue _ _ => some queue
  | .savePolicy queue _ => some queue
  | _ => none

/-- Messages are published under the keys `handle_publish` gives them. -/
def Call.Formed : Call → Prop
  | .enqueue message => ∃ queue id, message.key = messageKey queue id
  | _ => True

/-- Success, or failure with or without a text. -/
abbrev Status := Except (Option String) Unit

/-- The answer to a call: a status, the outcome of `lease_next`, or the number of messages moved; or
    an exception that leaves the call without an answer. -/
inductive Reply where
  | status (status : Status)
  | lease (result : LeaseResult)
  | count (moved : Int) (error : Option String)
  | thrown (what : String)

namespace Reply

/-- The answer is `{ true, std::nullopt }`. -/
def succeeded : Reply → Bool
  | .status (.ok ()) => true
  | _ => false

/-- The answer reports failure, or leases nothing, or there is none. -/
def failed : Reply → Bool
  | .status (.error _) => true
  | .status (.ok ()) => false
  | .lease result => !result.leased
  | .count _ error => error.isSome
  | .thrown _ => true

/-- The answer is `{ false, … }`. -/
def reportsFailure : Reply → Bool
  | .status (.error _) => true
  | _ => false

theorem succeeded_iff {reply : Reply} : reply.succeeded = true ↔ reply = .status (.ok ()) := by
  unfold succeeded
  split <;> simp_all

/-- The message and the token of an answer that leases one. -/
def granted : Reply → Option (MessageEnvelope × LeaseToken)
  | .lease { leased := true, message := some message, lease := some token, .. } =>
    some (message, token)
  | _ => none

/-- The answer says that nothing was done, or the call has not come to one. -/
def IsRefusal : Reply → Prop
  | .status outcome => ∃ e, outcome = .error e
  | .lease result => ∃ e, result = { error := e }
  | .count n _ => n = 0
  | .thrown _ => True

theorem IsRefusal.succeeded {reply : Reply} (h : reply.IsRefusal) : reply.succeeded = false := by
  cases reply with
  | status =>
    obtain ⟨e, rfl⟩ := h
    rfl
  | _ => rfl

theorem IsRefusal.granted {reply : Reply} (h : reply.IsRefusal) : reply.granted = none := by
  cases reply with
  | lease result =>
    obtain ⟨e, rfl⟩ := h
    rfl
  | _ => rfl

/-- The answer to an operation that counts. -/
def ofCount : Except (Option String) Nat → Reply
  | .ok n => .count n none
  | .error e => .count 0 e

@[simp] theorem granted_status (status : Status) : (Reply.status status).granted = none := rfl
@[simp] theorem granted_count (n : Int) (e : Option String) : (Reply.count n e).granted = none :=
  rfl

end Reply

/-- A backend adapter over stores of type `σ`. -/
structure Adapter (σ : Type) where
  /-- The store of a fresh installation. -/
  start : σ
  /-- Perform one call. -/
  perform : Env → Call → σ → Reply × σ
  /-- `get_expired_inflight_messages` -/
  expired : Env → σ → Except String (List ExpiredLeaseInfo)

/-- The machine that performs calls one after another. -/
def Adapter.machine {σ : Type} (adapter : Adapter σ) : Machine σ (Env × Call) Reply where
  start := adapter.start
  step s i := adapter.perform i.1 i.2 s

end YirangMQ

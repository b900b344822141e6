import YirangMQ.Backend.Types

namespace YirangMQ

/-!
# Valid policies

What `Configurations` makes of a policy before anybody uses it: values out of range are replaced
by defaults, one after another, and delays in the wrong order are swapped.

* `RetryPolicy.Valid`, `QueuePolicy.Valid` — the policies the daemon can work with;
* `validateRetryPolicy`, `validateQueuePolicy` — the repairs;
* `validateQueuePolicy_valid` — **a repaired policy is valid**;
* `validateQueuePolicy_eq_self_iff` — **the valid policies are those that the repair leaves as they
  are**, so that repairing twice is repairing once.
-/

/-- `is_valid_backoff_type` -/
def isValidBackoffType (backoff : String) : Bool :=
  backoff ∈ ["exponential", "linear", "fixed"]

/-- What `validate_retry_policy` is there for. -/
structure RetryPolicy.Valid (policy : RetryPolicy) : Prop where
  limit : 0 ≤ policy.limit
  backoff : isValidBackoffType policy.backoff = true
  initialDelay : 0 < policy.initialDelaySec
  ordered : policy.initialDelaySec ≤ policy.maxDelaySec

/-- What `validate_queue_policy` is there for. -/
structure QueuePolicy.Valid (policy : QueuePolicy) : Prop where
  visibilityTimeout : 0 < policy.visibilityTimeoutSec
  retry : policy.retry.Valid
  retention : 0 < policy.dlq.retentionDays

/-- The value, or a default when it is not positive. -/
def positiveOr (default value : Int) : Int := if value ≤ 0 then default else value

/-- What is not positive is replaced by something positive. -/
theorem positiveOr_pos {default : Int} (hdefault : 0 < default) (value : Int) :
    0 < positiveOr default value := by
  unfold positiveOr
  split
  · exact hdefault
  · omega

/-- What is positive stays. -/
theorem positiveOr_of_pos {value : Int} (hvalue : 0 < value) (default : Int) :
    positiveOr default value = value := if_neg (by omega)

/-- The last step of `validate_retry_policy`: delays in the wrong order are swapped. -/
def swapDelays (policy : RetryPolicy) : RetryPolicy :=
  if policy.maxDelaySec < policy.initialDelaySec then
    { policy with
      initialDelaySec := policy.maxDelaySec
      maxDelaySec := policy.initialDelaySec }
  else policy

/-- `validate_retry_policy`: the bounds first, and then the two delays are put in order. -/
def validateRetryPolicy (policy : RetryPolicy) : RetryPolicy :=
  swapDelays {
    limit := if policy.limit < 0 then 0 else policy.limit
    backoff := if isValidBackoffType policy.backoff then policy.backoff else "exponential"
    initialDelaySec := positiveOr 1 policy.initialDelaySec
    maxDelaySec := positiveOr 60 policy.maxDelaySec }

/-- `validate_queue_policy`. -/
def validateQueuePolicy (policy : QueuePolicy) : QueuePolicy where
  visibilityTimeoutSec := positiveOr 30 policy.visibilityTimeoutSec
  retry := validateRetryPolicy policy.retry
  dlq := { policy.dlq with retentionDays := positiveOr 14 policy.dlq.retentionDays }

/-! ### Repaired policies -/

/-- Swapping orders the delays and keeps everything else. -/
theorem swapDelays_valid {policy : RetryPolicy} (hlimit : 0 ≤ policy.limit)
    (hbackoff : isValidBackoffType policy.backoff = true) (hinitial : 0 < policy.initialDelaySec)
    (hmax : 0 < policy.maxDelaySec) : (swapDelays policy).Valid := by
  unfold swapDelays
  split
  case isTrue hless => exact ⟨hlimit, hbackoff, hmax, Int.le_of_lt hless⟩
  case isFalse hordered => exact ⟨hlimit, hbackoff, hinitial, Int.not_lt.mp hordered⟩

/-- A validated retry policy is valid. -/
theorem validateRetryPolicy_valid (policy : RetryPolicy) : (validateRetryPolicy policy).Valid := by
  refine swapDelays_valid ?_ ?_ (positiveOr_pos (by decide) _) (positiveOr_pos (by decide) _)
  · show 0 ≤ if policy.limit < 0 then 0 else policy.limit
    split <;> omega
  · show isValidBackoffType (if isValidBackoffType policy.backoff then policy.backoff
      else "exponential") = true
    split
    case isTrue hvalid => exact hvalid
    case isFalse => decide

/-- **A repaired policy is valid.** -/
theorem validateQueuePolicy_valid (policy : QueuePolicy) : (validateQueuePolicy policy).Valid where
  visibilityTimeout := positiveOr_pos (by decide) _
  retry := validateRetryPolicy_valid policy.retry
  retention := positiveOr_pos (by decide) _

/-- A valid policy is left as it is. -/
theorem validateRetryPolicy_of_valid {policy : RetryPolicy} (h : policy.Valid) :
    validateRetryPolicy policy = policy := by
  have hmax : 0 < policy.maxDelaySec := Int.lt_of_lt_of_le h.initialDelay h.ordered
  have hlimit : ¬policy.limit < 0 := Int.not_lt.mpr h.limit
  have hordered : ¬policy.maxDelaySec < policy.initialDelaySec := Int.not_lt.mpr h.ordered
  rw [validateRetryPolicy, if_neg hlimit, if_pos h.backoff, positiveOr_of_pos h.initialDelay,
    positiveOr_of_pos hmax, swapDelays, if_neg hordered]

/-- **The valid policies are those that the repair leaves as they are.** -/
theorem validateQueuePolicy_eq_self_iff (policy : QueuePolicy) :
    validateQueuePolicy policy = policy ↔ policy.Valid := by
  constructor
  · intro hsame
    rw [← hsame]
    exact validateQueuePolicy_valid policy
  · intro h
    rw [validateQueuePolicy, positiveOr_of_pos h.visibilityTimeout,
      validateRetryPolicy_of_valid h.retry, positiveOr_of_pos h.retention]

/-- Validating twice is validating once. -/
theorem validateQueuePolicy_idempotent (policy : QueuePolicy) :
    validateQueuePolicy (validateQueuePolicy policy) = validateQueuePolicy policy :=
  (validateQueuePolicy_eq_self_iff _).mpr (validateQueuePolicy_valid policy)

end YirangMQ

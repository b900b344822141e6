import YirangMQ.Configurations.Policies
import YirangMQ.QueueManager.Sweep
import Mathlib.Algebra.Order.Field.Rat
import Mathlib.Tactic.NormNum
import Mathlib.Tactic.Linarith

namespace YirangMQ

/-!
# The delay before the next attempt

The delay is capped after it has been computed.  The exponential backoff is computed with a
`double`, the linear one with an `int32_t` product, which may leave the range of the type before
the cap is applied.

* `exponential_eq`, `linear_eq`, `fixed_eq` — the delay of each kind of backoff;
* `Bounded` — the delays up to an attempt are positive, below the cap, and do not decrease;
* `bounded_iff` — **they are so exactly when the backoff is not linear or no product leaves the
  range**;
* `linear_overflows` — a delay that is negative.
-/

variable {policy : RetryPolicy} {attempt : Int}

/-! ### Each kind of backoff -/

theorem powerOfTwo_pred (hattempt : 1 ≤ attempt) :
    powerOfTwo (attempt - 1) = ((2 ^ (attempt - 1).toNat : Int) : ℚ) := by
  have hnonneg : 0 ≤ attempt - 1 := by omega
  rw [powerOfTwo, if_pos hnonneg]
  push_cast
  rfl

/-- The exponential backoff doubles until the cap. -/
theorem exponential_eq (hbackoff : policy.backoff = "exponential") (hattempt : 1 ≤ attempt) :
    calculateBackoffDelay attempt policy =
      min (policy.initialDelaySec * 2 ^ (attempt - 1).toNat) policy.maxDelaySec * 1000 := by
  have hdelay : min (policy.initialDelaySec * powerOfTwo (attempt - 1)) policy.maxDelaySec * 1000 =
      ((min (policy.initialDelaySec * 2 ^ (attempt - 1).toNat) policy.maxDelaySec * 1000 : Int)
        : ℚ) := by
    rw [powerOfTwo_pred hattempt]
    push_cast
    rfl
  rw [calculateBackoffDelay, if_pos hbackoff]
  show Int.tdiv (min (policy.initialDelaySec * powerOfTwo (attempt - 1))
    (policy.maxDelaySec : ℚ) * 1000).num _ = _
  rw [hdelay, Rat.num_intCast, Rat.den_intCast]
  exact Int.tdiv_one _

/-- The linear backoff as long as the product stays in range. -/
theorem linear_eq (hbackoff : policy.backoff = "linear")
    (hlow : 0 ≤ policy.initialDelaySec * attempt)
    (hhigh : policy.initialDelaySec * attempt < 2 ^ 31) :
    calculateBackoffDelay attempt policy =
      min (policy.initialDelaySec * attempt) policy.maxDelaySec * 1000 := by
  have hrange : (policy.initialDelaySec * attempt).bmod (2 ^ 32) =
      policy.initialDelaySec * attempt := by
    rw [Int.bmod_def]
    norm_num
    omega
  have hexponential : policy.backoff ≠ "exponential" := by
    rw [hbackoff]
    decide
  rw [calculateBackoffDelay, if_neg hexponential, if_pos hbackoff, hrange]

/-- The linear backoff when the product has just left the range. -/
theorem linear_negative (hbackoff : policy.backoff = "linear")
    (hlow : 2 ^ 31 ≤ policy.initialDelaySec * attempt)
    (hhigh : policy.initialDelaySec * attempt < 2 ^ 32) :
    calculateBackoffDelay attempt policy < 0 := by
  have hrange : (policy.initialDelaySec * attempt).bmod (2 ^ 32) < 0 := by
    rw [Int.bmod_def]
    norm_num
    omega
  have hexponential : policy.backoff ≠ "exponential" := by
    rw [hbackoff]
    decide
  rw [calculateBackoffDelay, if_neg hexponential, if_pos hbackoff]
  have hmin := min_le_left ((policy.initialDelaySec * attempt).bmod (2 ^ 32)) policy.maxDelaySec
  omega

theorem fixed_eq (hexponential : policy.backoff ≠ "exponential")
    (hlinear : policy.backoff ≠ "linear") :
    calculateBackoffDelay attempt policy = policy.initialDelaySec * 1000 := by
  rw [calculateBackoffDelay, if_neg hexponential, if_neg hlinear]

/-! ### All attempts up to one -/

/-- The delays of the attempts up to `last` are positive, below the cap, and do not decrease. -/
def Bounded (policy : RetryPolicy) (last : Int) : Prop :=
  ∀ a b, 1 ≤ a → a ≤ b → b ≤ last →
    0 < calculateBackoffDelay a policy ∧
    calculateBackoffDelay a policy ≤ policy.maxDelaySec * 1000 ∧
    calculateBackoffDelay a policy ≤ calculateBackoffDelay b policy

/-- A delay of the form `min x cap` seconds with growing `x`. -/
theorem bounded_of_min {last : Int} {uncapped : Int → Int} (hmax : 0 < policy.maxDelaySec)
    (hdelay : ∀ a, 1 ≤ a → a ≤ last →
      calculateBackoffDelay a policy = min (uncapped a) policy.maxDelaySec * 1000)
    (hpos : ∀ a, 1 ≤ a → 0 < uncapped a)
    (hmono : ∀ a b, 1 ≤ a → a ≤ b → uncapped a ≤ uncapped b) : Bounded policy last := by
  intro a b hone hab hlast
  have hmin : min (uncapped a) policy.maxDelaySec ≤ min (uncapped b) policy.maxDelaySec :=
    min_le_min_right _ (hmono a b hone hab)
  have hleast : 0 < min (uncapped a) policy.maxDelaySec := lt_min (hpos a hone) hmax
  have hcap : min (uncapped a) policy.maxDelaySec ≤ policy.maxDelaySec := min_le_right _ _
  rw [hdelay a hone (by omega), hdelay b (by omega) hlast]
  refine ⟨?_, ?_, ?_⟩ <;> omega

/-- An attempt at which the product has left the range, but has not come back. -/
theorem exists_overflow {initial last : Int} (hpos : 0 < initial) (hinitial : initial < 2 ^ 31)
    (hlast : 2 ^ 31 ≤ initial * last) :
    ∃ a, 1 ≤ a ∧ a ≤ last ∧ 2 ^ 31 ≤ initial * a ∧ initial * a < 2 ^ 32 := by
  -- the first attempt whose product is out of range
  let a := (2 ^ 31 + initial - 1) / initial
  have hdiv : initial * a + (2 ^ 31 + initial - 1) % initial = 2 ^ 31 + initial - 1 :=
    Int.mul_ediv_add_emod _ _
  have hmod := Int.emod_lt_of_pos (2 ^ 31 + initial - 1) hpos
  have hmod' := Int.emod_nonneg (2 ^ 31 + initial - 1) (ne_of_gt hpos)
  have hlow : 2 ^ 31 ≤ initial * a := by omega
  have hbefore : initial * (a - 1) < 2 ^ 31 := by
    rw [mul_sub, mul_one]
    omega
  refine ⟨a, ?_, ?_, hlow, by omega⟩
  · by_contra hnot
    have hzero : initial * a ≤ 0 := mul_nonpos_of_nonneg_of_nonpos hpos.le (by omega)
    omega
  · by_contra hnot
    have hle : initial * last ≤ initial * (a - 1) := mul_le_mul_of_nonneg_left (by omega) hpos.le
    omega

/-- **The delays up to an attempt are positive, below the cap and not decreasing exactly when the
    backoff is not linear, or the product of the initial delay and the attempt is in the range of
    `int32_t`.** -/
theorem bounded_iff (policy : RetryPolicy) (hvalid : policy.Valid)
    (hrange : policy.maxDelaySec < 2 ^ 31) (last : Int) :
    Bounded policy last ↔
      policy.backoff ≠ "linear" ∨ policy.initialDelaySec * last < 2 ^ 31 := by
  have hinitial := hvalid.initialDelay
  have hmax : 0 < policy.maxDelaySec := lt_of_lt_of_le hinitial hvalid.ordered
  constructor
  · intro hbounded
    -- If the product overflows, some attempt up to the last gives a negative delay.
    by_contra hnot
    obtain ⟨hlinear, hover⟩ := not_or.mp hnot
    have hlimit : policy.initialDelaySec < 2 ^ 31 := lt_of_le_of_lt hvalid.ordered hrange
    obtain ⟨a, hone, hle, hlow, hhigh⟩ := exists_overflow hinitial hlimit (not_lt.mp hover)
    have hpositive := (hbounded a a hone le_rfl hle).1
    have hnegative := linear_negative (not_not.mp hlinear) hlow hhigh
    omega
  · intro hcond
    -- Exponential delays are computed in 64 bits and do not overflow.
    by_cases hexponential : policy.backoff = "exponential"
    · refine bounded_of_min hmax (fun a hone _ => exponential_eq hexponential hone) ?_ ?_
      · intro a hone
        exact mul_pos hinitial (by positivity)
      · intro a b hone hab
        have hpow : (2 : Int) ^ (a - 1).toNat ≤ 2 ^ (b - 1).toNat :=
          pow_le_pow_right₀ (by norm_num) (by omega)
        exact mul_le_mul_of_nonneg_left hpow hinitial.le
    by_cases hlinear : policy.backoff = "linear"
    -- Linear ones stay below the bound up to the last attempt.
    · have hproduct : policy.initialDelaySec * last < 2 ^ 31 :=
        hcond.resolve_left (not_not.mpr hlinear)
      have hmono : ∀ a b, a ≤ b → policy.initialDelaySec * a ≤ policy.initialDelaySec * b :=
        fun a b hab => mul_le_mul_of_nonneg_left hab hinitial.le
      have hdelay : ∀ a, 1 ≤ a → a ≤ last → calculateBackoffDelay a policy =
          min (policy.initialDelaySec * a) policy.maxDelaySec * 1000 := by
        intro a hone hle
        have hpos : 0 < policy.initialDelaySec * a := mul_pos hinitial (by omega)
        exact linear_eq hlinear hpos.le (lt_of_le_of_lt (hmono a last hle) hproduct)
      have hpos : ∀ a, 1 ≤ a → 0 < policy.initialDelaySec * a :=
        fun a hone => mul_pos hinitial (by omega)
      exact bounded_of_min hmax hdelay hpos fun a b _ hab => hmono a b hab
    -- Any other policy gives the same delay always.
    · intro a b _ _ _
      rw [fixed_eq hexponential hlinear, fixed_eq hexponential hlinear]
      have hordered := hvalid.ordered
      refine ⟨?_, ?_, le_rfl⟩ <;> omega

/-- Five seconds more for each attempt, up to a minute. -/
def fiveMore : RetryPolicy where
  limit := 10
  backoff := "linear"
  initialDelaySec := 5
  maxDelaySec := 60

theorem fiveMore_valid : fiveMore.Valid := by
  refine ⟨?_, ?_, ?_, ?_⟩ <;> decide

theorem bounded_iff_fiveMore : Bounded fiveMore 100 ↔
    fiveMore.backoff ≠ "linear" ∨ fiveMore.initialDelaySec * 100 < 2 ^ 31 :=
  bounded_iff fiveMore fiveMore_valid (by decide) 100

/-- At the attempt 429496730 the delay is negative: the product is 2 ^ 31 + 2. -/
theorem linear_overflows : fiveMore.Valid ∧ fiveMore.maxDelaySec < 2 ^ 31 ∧
    (429496730 : Int) < 2 ^ 31 ∧ calculateBackoffDelay 429496730 fiveMore = -2147483646000 := by
  refine ⟨fiveMore_valid, by decide, by decide, ?_⟩
  decide

end YirangMQ

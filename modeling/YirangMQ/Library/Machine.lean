import Mathlib.Data.List.Basic

namespace YirangMQ

/-!
# Machines and their runs

A machine answers each input with an output and a next state.  A run is the list of the
steps taken so far, newest first, together with the state reached; which inputs a run may
take next is told by a relation on the steps taken, the state and the input.

* `Later` — a clock that never goes back;
* `countSince` — how often something has happened since something else;
* `Run.invariant` — what the start has and every allowed step keeps, every run has;
* `Run.mono` — a run under a narrower relation is one under a wider relation;
* `Run.last` — the last step of a run;
* `Run.map` — a simulation carries the runs of one machine to runs of another;
* `run_replay` — executing a list of inputs gives a run, when each input is allowed.
-/

universe u v w

/-- A machine over states `σ`, with inputs `ι` and outputs `ο`. -/
structure Machine (σ : Type u) (ι : Type v) (ο : Type w) where
  start : σ
  step : σ → ι → ο × σ

/-- One step of a run: the input, what the machine answered, and the states around it. -/
structure Step (σ : Type u) (ι : Type v) (ο : Type w) where
  input : ι
  before : σ
  output : ο
  after : σ

/-- The steps of a run, newest first. -/
abbrev History (σ : Type u) (ι : Type v) (ο : Type w) := List (Step σ ι ο)

variable {σ : Type u} {ι : Type v} {ο : Type w}

namespace Machine

/-- The step `M` takes from `s` on input `i`. -/
def stepAt (M : Machine σ ι ο) (s : σ) (i : ι) : Step σ ι ο :=
  ⟨i, s, (M.step s i).1, (M.step s i).2⟩

@[simp] theorem stepAt_input (M : Machine σ ι ο) (s : σ) (i : ι) : (M.stepAt s i).input = i := rfl
@[simp] theorem stepAt_before (M : Machine σ ι ο) (s : σ) (i : ι) :
    (M.stepAt s i).before = s := rfl
@[simp] theorem stepAt_output (M : Machine σ ι ο) (s : σ) (i : ι) :
    (M.stepAt s i).output = (M.step s i).1 := rfl
@[simp] theorem stepAt_after (M : Machine σ ι ο) (s : σ) (i : ι) :
    (M.stepAt s i).after = (M.step s i).2 := rfl

/-- Execute a list of inputs, oldest first, from a history and a state. -/
def replay (M : Machine σ ι ο) : List ι → History σ ι ο × σ → History σ ι ο × σ
  | [], r => r
  | i :: is, (h, s) => M.replay is (M.stepAt s i :: h, (M.step s i).2)

end Machine

/-- `Run M allowed h s`: from the start of `M`, steps `h` lead to `s`, and each of them was
    allowed when it was taken. -/
inductive Run (M : Machine σ ι ο) (allowed : History σ ι ο → σ → ι → Prop) :
    History σ ι ο → σ → Prop
  | start : Run M allowed [] M.start
  | step {h : History σ ι ο} {s : σ} {i : ι} (run : Run M allowed h s) (ok : allowed h s i) :
      Run M allowed (M.stepAt s i :: h) (M.step s i).2

/-- The time of an input is not earlier than that of any step of the history. -/
def Later (time : ι → Int) (h : History σ ι ο) (i : ι) : Prop := ∀ r ∈ h, time r.input ≤ time i

/-- The number of steps that are events since the last step that restarts the count. -/
def countSince (event restart : Step σ ι ο → Bool) : History σ ι ο → Nat
  | [] => 0
  | r :: h =>
    if restart r then 0
    else if event r then countSince event restart h + 1
    else countSince event restart h

variable {M : Machine σ ι ο} {allowed allowed' : History σ ι ο → σ → ι → Prop}

/-- A run goes on with an allowed step. -/
theorem Run.stepAt {h : History σ ι ο} {s : σ} (run : Run M allowed h s) (i : ι)
    (ok : allowed h s i) : Run M allowed (M.stepAt s i :: h) (M.stepAt s i).after :=
  .step run ok

/-- **Invariant rule.** What holds at the start and is kept by every allowed step holds in
    every state a run reaches. -/
theorem Run.invariant (inv : History σ ι ο → σ → Prop) (start : inv [] M.start)
    (step : ∀ h s i, Run M allowed h s → inv h s → allowed h s i →
      inv (M.stepAt s i :: h) (M.step s i).2)
    {h : History σ ι ο} {s : σ} (run : Run M allowed h s) : inv h s := by
  induction run with
  | start => exact start
  | step run ok ih => exact step _ _ _ run ih ok

/-- A run whose steps are allowed by a relation is a run under every wider relation. -/
theorem Run.mono (wider : ∀ h s i, Run M allowed h s → allowed h s i → allowed' h s i)
    {h : History σ ι ο} {s : σ} (run : Run M allowed h s) : Run M allowed' h s := by
  induction run with
  | start => exact .start
  | step run ok ih => exact .step ih (wider _ _ _ run ok)

/-- Every step of a run was allowed, after the steps older than it. -/
theorem Run.allowed_of_mem {h : History σ ι ο} {s : σ} (run : Run M allowed h s) :
    ∀ r ∈ h, ∃ older, Run M allowed older r.before ∧ allowed older r.before r.input ∧
      r = M.stepAt r.before r.input := by
  induction run with
  | start => simp
  | @step h s i run ok ih =>
    intro r hr
    rcases List.mem_cons.mp hr with rfl | hr
    · exact ⟨h, run, ok, rfl⟩
    · exact ih r hr

/-- The last step of a run, and the run before it. -/
theorem Run.last {r : Step σ ι ο} {h : History σ ι ο} {s : σ} (run : Run M allowed (r :: h) s) :
    Run M allowed h r.before ∧ allowed h r.before r.input ∧ r = M.stepAt r.before r.input ∧
      s = r.after := by
  generalize hsteps : r :: h = steps at run
  cases run with
  | start => cases hsteps
  | @step h' before i run ok =>
    obtain ⟨rfl, rfl⟩ := List.cons.inj hsteps
    exact ⟨run, ok, rfl, rfl⟩

section Simulation

universe u' v' w'

variable {σ' : Type u'} {ι' : Type v'} {ο' : Type w'} {N : Machine σ' ι' ο'}
  {permitted : History σ' ι' ο' → σ' → ι' → Prop}

/-- **Simulation rule.** When each allowed step of `M` is one permitted step of `N`, or none,
    on the images of the state and of the history, runs of `M` are runs of `N`. -/
theorem Run.map (state : σ → σ') (image : Step σ ι ο → Option (Step σ' ι' ο'))
    (start : state M.start = N.start)
    (step : ∀ h s i, Run M allowed h s → allowed h s i →
      (image (M.stepAt s i) = none ∧ state (M.step s i).2 = state s) ∨
      ∃ j, image (M.stepAt s i) = some (N.stepAt (state s) j) ∧
        state (M.step s i).2 = (N.step (state s) j).2 ∧
        permitted (h.filterMap image) (state s) j)
    {h : History σ ι ο} {s : σ} (run : Run M allowed h s) :
    Run N permitted (h.filterMap image) (state s) := by
  induction run with
  | start => rw [start]; exact .start
  | @step h s i run ok ih =>
    rcases step h s i run ok with ⟨hnone, hstate⟩ | ⟨j, hsome, hstate, hperm⟩
    · rw [List.filterMap_cons_none hnone, hstate]; exact ih
    · rw [List.filterMap_cons_some hsome, hstate]; exact .step ih hperm

end Simulation

/-- A list of inputs each of which is allowed when it comes to be executed. -/
def Machine.Permits (M : Machine σ ι ο) (allowed : History σ ι ο → σ → ι → Prop) :
    List ι → History σ ι ο × σ → Prop
  | [], _ => True
  | i :: is, (h, s) => allowed h s i ∧ M.Permits allowed is (M.stepAt s i :: h, (M.step s i).2)

instance permitsDecidable [∀ h s i, Decidable (allowed h s i)] :
    (is : List ι) → (r : History σ ι ο × σ) → Decidable (M.Permits allowed is r)
  | [], _ => isTrue trivial
  | i :: is, (h, s) =>
    have : Decidable (M.Permits allowed is (M.stepAt s i :: h, (M.step s i).2)) :=
      permitsDecidable is _
    inferInstanceAs (Decidable (allowed h s i ∧ _))

/-- Where everything is allowed, every list of inputs is permitted. -/
theorem Machine.permits_all (M : Machine σ ι ο) (all : ∀ h s i, allowed h s i) :
    ∀ (is : List ι) (r : History σ ι ο × σ), M.Permits allowed is r
  | [], _ => trivial
  | i :: is, (h, s) => ⟨all h s i, M.permits_all all is _⟩

/-- Executing permitted inputs extends a run. -/
theorem Run.replay (is : List ι) {h : History σ ι ο} {s : σ} (run : Run M allowed h s)
    (ok : M.Permits allowed is (h, s)) :
    Run M allowed (M.replay is (h, s)).1 (M.replay is (h, s)).2 := by
  induction is generalizing h s with
  | nil => exact run
  | cons i is ih => exact ih (.step run ok.1) ok.2

/-- Executing permitted inputs from the start is a run. -/
theorem run_replay (is : List ι) (ok : M.Permits allowed is ([], M.start)) :
    Run M allowed (M.replay is ([], M.start)).1 (M.replay is ([], M.start)).2 :=
  Run.replay is .start ok

end YirangMQ

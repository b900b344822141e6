import YirangMQ.Library.Machine

namespace YirangMQ

/-!
# Registers

A store that is meant to keep, for each key, the last value whose write succeeded, through
restarts.

* `Registers` — such a store, and `Registers.machine` — its runs;
* `Registers.lastWritten` — what a run has written last under a key;
* `Registers.Simulates` — the state stands for a map from keys to values;
* `Registers.read_of_run` — **then a read after any run of admissible writes gives what was written
  last.**
-/

universe u v w x

/-- An access to a store with keys in `K` and requests to write in `W`. -/
inductive Access (K : Type u) (W : Type v) where
  | write (request : W)
  | read (key : K)
  | restart

/-- What an access is answered. -/
inductive Accessed (V : Type u) (E : Type v) where
  | written (result : Except E Unit)
  | read (result : Except String (Option V))
  | restarted

/-- A store of values in `V` over states in `σ`, whose writes may fail with an `E`. -/
structure Registers (σ : Type u) (K : Type v) (V : Type w) (W E : Type x) where
  start : σ
  key : W → K
  value : W → V
  write : W → σ → Except E Unit × σ
  read : K → σ → Except String (Option V) × σ
  restart : σ → σ

namespace Registers

variable {σ : Type u} {K : Type v} {V : Type w} {W E : Type x}

def step (R : Registers σ K V W E) (s : σ) : Access K W → Accessed V E × σ
  | .write request => (.written (R.write request s).1, (R.write request s).2)
  | .read key => (.read (R.read key s).1, (R.read key s).2)
  | .restart => (.restarted, R.restart s)

/-- The accesses to a store, one after another. -/
def machine (R : Registers σ K V W E) : Machine σ (Access K W) (Accessed V E) := ⟨R.start, R.step⟩

variable [DecidableEq K]

/-- A map with one value replaced. -/
def update (m : K → Option V) (key : K) (value : V) : K → Option V :=
  fun k => if k = key then some value else m k

/-- The value of the last successful write of a key. -/
def lastWritten (R : Registers σ K V W E) :
    History σ (Access K W) (Accessed V E) → K → Option V
  | [] => fun _ => none
  | r :: h =>
    match r.input, r.output with
    | .write request, .written (.ok ()) => update (R.lastWritten h) (R.key request) (R.value request)
    | _, _ => R.lastWritten h

/-- The accesses of a run: the keys are valid, and a write is admissible after those before. -/
def Allowed (R : Registers σ K V W E) (valid : K → Prop) (admissible : (K → Option V) → W → Prop)
    (h : History σ (Access K W) (Accessed V E)) (_ : σ) : Access K W → Prop
  | .write request => valid (R.key request) ∧ admissible (R.lastWritten h) request
  | .read key => valid key
  | .restart => True

/-- `inv` tells which maps a state may stand for, and the operations keep to it. -/
structure Simulates (R : Registers σ K V W E) (valid : K → Prop)
    (admissible : (K → Option V) → W → Prop) (inv : (K → Option V) → σ → Prop) : Prop where
  start : inv (fun _ => none) R.start
  written : ∀ m s request, inv m s → valid (R.key request) → admissible m request →
    (R.write request s).1 = .ok () →
    inv (update m (R.key request) (R.value request)) (R.write request s).2
  refused : ∀ m s request e, inv m s → valid (R.key request) → admissible m request →
    (R.write request s).1 = .error e → inv m (R.write request s).2
  read : ∀ m s key, inv m s → valid key →
    (R.read key s).1 = .ok (m key) ∧ inv m (R.read key s).2
  restart : ∀ m s, inv m s → inv m (R.restart s)

variable {R : Registers σ K V W E} {valid : K → Prop} {admissible : (K → Option V) → W → Prop}
  {inv : (K → Option V) → σ → Prop} {h : History σ (Access K W) (Accessed V E)} {s : σ}

/-- One access keeps to the map of what was written. -/
theorem Simulates.step (hsim : R.Simulates valid admissible inv) (hinv : inv (R.lastWritten h) s)
    (i : Access K W) (hallowed : R.Allowed valid admissible h s i) :
    inv (R.lastWritten (R.machine.stepAt s i :: h)) (R.machine.step s i).2 := by
  cases i with
  | write request =>
    obtain ⟨hvalid, hadmissible⟩ := hallowed
    have hstep : R.lastWritten (R.machine.stepAt s (.write request) :: h) =
        match (R.write request s).1 with
        | .ok () => update (R.lastWritten h) (R.key request) (R.value request)
        | .error _ => R.lastWritten h := by
      simp only [lastWritten, Machine.stepAt_input, Machine.stepAt_output, machine, Registers.step]
      cases (R.write request s).1 <;> rfl
    rw [hstep]
    cases hresult : (R.write request s).1 with
    | error e => exact hsim.refused _ s request e hinv hvalid hadmissible hresult
    | ok u => exact hsim.written _ s request hinv hvalid hadmissible hresult
  | read key => exact (hsim.read _ s key hinv hallowed).2
  | restart => exact hsim.restart _ s hinv

/-- **A read after any run of admissible writes gives what was written last.** -/
theorem read_of_run (hsim : R.Simulates valid admissible inv)
    (run : Run R.machine (R.Allowed valid admissible) h s) {key : K} (hkey : valid key) :
    (R.read key s).1 = .ok (R.lastWritten h key) := by
  have hstart : inv (R.lastWritten []) R.machine.start := hsim.start
  have hinv : inv (R.lastWritten h) s :=
    run.invariant (fun h s => inv (R.lastWritten h) s) hstart
      fun h s i _ hinv hallowed => hsim.step hinv i hallowed
  exact (hsim.read _ s key hinv hkey).1

end Registers

end YirangMQ

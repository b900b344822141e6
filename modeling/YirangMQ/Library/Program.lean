import Mathlib.Data.List.Basic

namespace YirangMQ

/-!
# Programs made of primitive steps

A program over a state `σ` runs primitive steps one after another.  The environment may make
any primitive fail, and the process may be cut between any two of them, so an execution
carries what the environment will do next and the states it has passed through.

* `Program` — the monad, with `prim` for one primitive step;
* `Program.run` / `Program.passedStates` — the result, and the states a cut can leave behind;
* `Program.Sat` — a pre- and postcondition judgement with a crash condition: it holds for
  every behaviour of the environment (`faulty` true), or for the one without failures
  (`faulty` false);
* `Sat.pure`, `Sat.bind`, `Sat.prim`, `Sat.weaken`, `Sat.sumList` — its rules;
* `Guards` — a program keeps an invariant at each of its primitives, whichever of them fail;
* `SatE`, `GuardsE` — the same for programs that abort with an error.
-/

/-- An execution: the state, what the environment does to the next primitives (`some text`
    makes one fail), and the states passed through, newest first. -/
structure Exec (σ : Type) where
  state : σ
  faults : List (Option String)
  passed : List σ

/-- A program over the state `σ` with result `α`. -/
def Program (σ α : Type) := Exec σ → α × Exec σ

variable {σ α β : Type}

namespace Program

/-- Programs run one after the other. -/
instance : Monad (Program σ) where
  pure a := fun x => (a, x)
  bind m f := fun x => f (m x).1 (m x).2

/-- The current state. -/
def get : Program σ σ := fun x => (x.state, x)

/-- A step that cannot fail. -/
def modify (f : σ → σ) : Program σ Unit := fun x =>
  ((), { x with state := f x.state, passed := f x.state :: x.passed })

/-- A primitive step: it fails when the environment says so or when `f` does, and then
    changes nothing. -/
def prim (f : σ → Except String (α × σ)) : Program σ (Except String α) := fun x =>
  match x.faults.headD none with
  | some text => (.error text, { x with faults := x.faults.tail })
  | none =>
    match f x.state with
    | .error text => (.error text, { x with faults := x.faults.tail })
    | .ok (a, s) => (.ok a, { state := s, faults := x.faults.tail, passed := s :: x.passed })

/-- Do `f` for every element of a list, in order, and add up the results. -/
def sumList (f : β → Program σ Nat) : List β → Program σ Nat
  | [] => pure 0
  | b :: bs => do
    let n ← f b
    return n + (← sumList f bs)

/-- Step through the rows of a query until there are no more or a step fails. -/
def fetch : List β → Program σ (List β)
  | [] => pure []
  | b :: bs => do
    match ← prim (fun s => .ok ((), s)) with
    | .ok () => return b :: (← fetch bs)
    | .error _ => return []

/-- Run a program to its end. -/
def run (m : Program σ α) (faults : List (Option String)) (s : σ) : α × σ :=
  ((m ⟨s, faults, [s]⟩).1, (m ⟨s, faults, [s]⟩).2.state)

/-- The states a program passes through, from its start on: those a cut between two
    primitives can leave behind. -/
def passedStates (m : Program σ α) (faults : List (Option String)) (s : σ) : List σ :=
  (m ⟨s, faults, [s]⟩).2.passed.reverse

/-- From the state `s`, the program keeps `C` at every primitive and ends as `Q` says,
    whatever the environment does if `faulty`, and without failures otherwise. -/
def Sat (faulty : Prop) (C : σ → Prop) (s : σ) (m : Program σ α) (Q : α → σ → Prop) : Prop :=
  ∀ x : Exec σ, x.state = s → (faulty ∨ x.faults = []) → (∀ t ∈ x.passed, C t) →
    (faulty ∨ (m x).2.faults = []) ∧ (∀ t ∈ (m x).2.passed, C t) ∧ Q (m x).1 (m x).2.state

variable {faulty : Prop} {C : σ → Prop} {s : σ} {Q : α → σ → Prop}

/-- What a judgement says about a run. -/
theorem Sat.run {m : Program σ α} (sat : Sat faulty C s m Q) {faults : List (Option String)}
    (hfaults : faulty ∨ faults = []) (hC : C s) :
    Q (m.run faults s).1 (m.run faults s).2 ∧ ∀ t ∈ m.passedStates faults s, C t := by
  have h := sat ⟨s, faults, [s]⟩ rfl hfaults (by simpa using hC)
  exact ⟨h.2.2, fun t ht => h.2.1 t (List.mem_reverse.mp ht)⟩

/-- The rule of a program that ends. -/
theorem Sat.pure {a : α} (h : Q a s) : Sat faulty C s (pure a) Q := by
  rintro x rfl hfaults hpassed
  exact ⟨hfaults, hpassed, h⟩

/-- The rule of two programs, one after the other. -/
theorem Sat.bind {m : Program σ β} {f : β → Program σ α}
    (h : Sat faulty C s m (fun b t => Sat faulty C t (f b) Q)) :
    Sat faulty C s (m >>= f) Q := by
  intro x hstate hfaults hpassed
  obtain ⟨hfaults', hpassed', hQ⟩ := h x hstate hfaults hpassed
  exact hQ (m x).2 rfl hfaults' hpassed'

/-- A postcondition may be weakened. -/
theorem Sat.weaken {R : α → σ → Prop} {m : Program σ α} (h : Sat faulty C s m R)
    (hRQ : ∀ a t, R a t → Q a t) : Sat faulty C s m Q := by
  intro x hstate hfaults hpassed
  obtain ⟨hfaults', hpassed', hR⟩ := h x hstate hfaults hpassed
  exact ⟨hfaults', hpassed', hRQ _ _ hR⟩

/-- The rule of reading the state. -/
theorem Sat.get {Q : σ → σ → Prop} (h : Q s s) : Sat faulty C s get Q := by
  rintro x rfl hfaults hpassed
  exact ⟨hfaults, hpassed, h⟩

/-- The rule of changing the state, which is one step. -/
theorem Sat.modify {f : σ → σ} {Q : Unit → σ → Prop} (hC : C (f s)) (h : Q () (f s)) :
    Sat faulty C s (modify f) Q := by
  rintro x rfl hfaults hpassed
  refine ⟨hfaults, ?_, h⟩
  simpa [Program.modify] using ⟨hC, hpassed⟩

/-- **The rule of a primitive.** It succeeds as `f` says, or fails and changes nothing. -/
theorem Sat.prim {f : σ → Except String (α × σ)} {Q : Except String α → σ → Prop}
    (hok : ∀ a t, f s = .ok (a, t) → C t ∧ Q (.ok a) t)
    (herr : ∀ text, f s = .error text → Q (.error text) s)
    (hfault : faulty → ∀ text, Q (.error text) s) : Sat faulty C s (prim f) Q := by
  rintro x rfl hfaults hpassed
  have htail : faulty ∨ x.faults.tail = [] := hfaults.imp_right (by rintro h; simp [h])
  unfold Program.prim
  split
  case h_1 text htext =>
    refine ⟨htail, hpassed, hfault ?_ text⟩
    rcases hfaults with h | h
    · exact h
    · simp [h] at htext
  case h_2 =>
    split
    case h_1 text herror => exact ⟨htail, hpassed, herr text herror⟩
    case h_2 a t hresult =>
      obtain ⟨hCt, hQ⟩ := hok a t hresult
      exact ⟨htail, by simpa using ⟨hCt, hpassed⟩, hQ⟩

/-- **The rule of a loop.** An invariant of every round holds at the end. -/
theorem Sat.sumList {f : β → Program σ Nat} (inv : σ → Prop) (bs : List β)
    (hround : ∀ b ∈ bs, ∀ t, inv t → Sat faulty C t (f b) (fun _ => inv)) (hstart : inv s) :
    Sat faulty C s (sumList f bs) (fun _ => inv) := by
  induction bs generalizing s with
  | nil => exact Sat.pure hstart
  | cons b bs ih =>
    refine Sat.bind ((hround b (by simp) s hstart).weaken fun n t ht => Sat.bind ?_)
    exact (ih (fun b' hb' => hround b' (by simp [hb'])) ht).weaken fun _ _ hu => Sat.pure hu

/-- **The rule of a loop that visits an element.** What every round keeps until it is settled, and
    the round of the element settles, is settled at the end. -/
theorem Sat.sumList_reaches {f : β → Program σ Nat} (before after : σ → Prop) {bs : List β} {b₀ : β}
    (hmem : b₀ ∈ bs)
    (hround : ∀ b ∈ bs, ∀ t, before t → Sat faulty C t (f b) fun _ u => before u ∨ after u)
    (hstay : ∀ b ∈ bs, ∀ t, after t → Sat faulty C t (f b) fun _ => after)
    (hreach : ∀ t, before t → Sat faulty C t (f b₀) fun _ => after)
    (hstart : before s ∨ after s) : Sat faulty C s (Program.sumList f bs) fun _ => after := by
  induction bs generalizing s with
  | nil => cases hmem
  | cons b bs ih =>
    have hstay' : ∀ b' ∈ bs, ∀ t, after t → Sat faulty C t (f b') fun _ => after :=
      fun b' hb' => hstay b' (List.mem_cons_of_mem _ hb')
    -- once it is settled, the rest of the loop leaves it so
    have hrest : ∀ n t, after t → Sat faulty C t (do return n + (← Program.sumList f bs) : Program σ Nat)
        fun _ => after := fun n t ht =>
      Sat.bind ((Sat.sumList after bs hstay' ht).weaken fun _ _ hu => Sat.pure hu)
    rcases hstart with hbefore | hafter
    · rcases List.mem_cons.mp hmem with rfl | hlater
      · exact Sat.bind ((hreach s hbefore).weaken fun n t ht => hrest n t ht)
      · refine Sat.bind ((hround b List.mem_cons_self s hbefore).weaken fun n t ht => ?_)
        refine Sat.bind ((ih hlater ?_ hstay' ht).weaken fun _ _ hu => Sat.pure hu)
        exact fun b' hb' => hround b' (List.mem_cons_of_mem _ hb')
    · exact Sat.bind ((hstay b List.mem_cons_self s hafter).weaken fun n t ht => hrest n t ht)

/-- Fetching changes nothing and gives the first rows, all of them when no step fails. -/
theorem Sat.fetch {Q : List β → σ → Prop} (bs : List β)
    (h : ∀ n, (¬faulty → n = bs.length) → Q (bs.take n) s) (hC : C s) :
    Sat faulty C s (fetch bs) Q := by
  induction bs generalizing Q with
  | nil => exact Sat.pure (h 0 fun _ => rfl)
  | cons b bs ih =>
    refine Sat.bind (Sat.prim ?_ (by simp) ?_)
    · rintro a t ⟨rfl, rfl⟩
      refine ⟨hC, Sat.bind (ih fun n hn => Sat.pure ?_)⟩
      exact h (n + 1) fun hf => by rw [hn hf, List.length_cons]
    · exact fun hf text => Sat.pure (h 0 fun hnf => absurd hf hnf)

/-! ### Invariants of programs -/

/-- The program keeps `inv` at every primitive, whichever of them fail, and answers as `Q` says. -/
def Guards (inv : σ → Prop) (m : Program σ α) (Q : α → Prop) : Prop :=
  ∀ s, inv s → Sat True inv s m fun a t => inv t ∧ Q a

namespace Guards

variable {inv : σ → Prop} {Q : α → Prop} {R : β → Prop}

/-- An answer that fits guards the invariant. -/
theorem pure {a : α} (h : Q a) : Guards inv (Pure.pure a) Q :=
  fun _ hs => Sat.pure ⟨hs, h⟩

/-- So does an end without an answer. -/
theorem done {a : α} : Guards inv (Pure.pure a) fun _ => True := pure trivial

/-- Two programs guard it together when the second does for each answer of the first. -/
theorem bind {m : Program σ β} {f : β → Program σ α} (hm : Guards inv m R)
    (hf : ∀ b, R b → Guards inv (f b) Q) : Guards inv (m >>= f) Q := by
  intro s hs
  refine Sat.bind ((hm s hs).weaken ?_)
  rintro b t ⟨ht, hb⟩
  exact hf b hb t ht

/-- What is said of the answer may be weakened. -/
theorem weaken {m : Program σ α} {Q' : α → Prop} (h : Guards inv m Q')
    (hQ : ∀ a, Q' a → Q a) : Guards inv m Q :=
  fun s hs => (h s hs).weaken fun _ _ hr => ⟨hr.1, hQ _ hr.2⟩

/-- A primitive that keeps the invariant when it succeeds. -/
theorem prim {f : σ → Except String (α × σ)} {Q : α → Prop}
    (hok : ∀ s a t, inv s → f s = .ok (a, t) → inv t ∧ Q a) :
    Guards inv (Program.prim f) fun r => ∀ a, r = .ok a → Q a := by
  intro s hs
  refine Sat.prim ?_ (by simp [hs]) (by simp [hs])
  intro a t hresult
  obtain ⟨ht, hQ⟩ := hok s a t hs hresult
  refine ⟨ht, ht, ?_⟩
  rintro _ ⟨rfl⟩
  exact hQ

/-- A sum over a list guards it when each summand does. -/
theorem sumList {f : β → Program σ Nat} (bs : List β)
    (h : ∀ b ∈ bs, Guards inv (f b) fun _ => True) :
    Guards inv (Program.sumList f bs) fun _ => True := by
  induction bs with
  | nil => exact done
  | cons b bs ih =>
    have hrest : Guards inv (Program.sumList f bs) fun _ => True :=
      ih fun b' hb' => h b' (List.mem_cons_of_mem _ hb')
    exact bind (h b List.mem_cons_self) fun _ _ => bind hrest fun _ _ => done

/-- Every state that a cut of the program leaves behind has the invariant, and so has the last
    one. -/
theorem run {m : Program σ α} (h : Guards inv m Q) {s : σ} (hs : inv s)
    (faults : List (Option String)) :
    inv (m.run faults s).2 ∧ Q (m.run faults s).1 ∧ ∀ t ∈ m.passedStates faults s, inv t := by
  obtain ⟨⟨hlast, hQ⟩, hpassed⟩ := (h s hs).run (.inl trivial) hs
  exact ⟨hlast, hQ, hpassed⟩

end Guards

end Program

/-! ### Programs that abort -/

/-- A program that may abort with an error, which has a text or not. -/
abbrev Abortable (σ α : Type) := ExceptT (Option String) (Program σ) α

namespace Abortable

/-- Run a primitive and abort with its error. -/
def attempt (f : σ → Except String (α × σ)) : Abortable σ α :=
  ExceptT.mk do
    match ← Program.prim f with
    | .ok a => return .ok a
    | .error text => return .error (some text)

/-- Run a primitive and abort with a fixed error. -/
def attemptOr (error : Option String) (f : σ → Except String (α × σ)) : Abortable σ α :=
  ExceptT.mk do
    match ← Program.prim f with
    | .ok a => return .ok a
    | .error _ => return .error error

/-- Run a program and go on with `a` when it aborts. -/
def orDefault (m : Abortable σ α) (a : α) : Abortable σ α :=
  ExceptT.mk do
    match ← m.run with
    | .ok b => return .ok b
    | .error _ => return .ok a

/-- From the state `s`, the program ends with a result as `Q` says or aborts as `E` says. -/
def SatE (faulty : Prop) (C : σ → Prop) (s : σ) (m : Abortable σ α) (Q : α → σ → Prop)
    (E : Option String → σ → Prop) : Prop :=
  Program.Sat faulty C s m.run fun r t =>
    match r with
    | .ok a => Q a t
    | .error e => E e t

variable {faulty : Prop} {C : σ → Prop} {s : σ} {Q : α → σ → Prop} {E : Option String → σ → Prop}

/-- The rule of a program that ends. -/
theorem SatE.pure {a : α} (h : Q a s) : SatE faulty C s (pure a) Q E :=
  Program.Sat.pure (a := Except.ok a) h

/-- The rule of a program that throws. -/
theorem SatE.throw {e : Option String} (h : E e s) :
    SatE faulty C s (throw e : Abortable σ α) Q E :=
  Program.Sat.pure (a := (Except.error e : Except (Option String) α)) h

/-- The rule of two programs, of which the first may throw. -/
theorem SatE.bind {m : Abortable σ β} {f : β → Abortable σ α}
    (h : SatE faulty C s m (fun b t => SatE faulty C t (f b) Q E) E) :
    SatE faulty C s (m >>= f) Q E := by
  have hbind : (m >>= f).run = (m.run >>= ExceptT.bindCont f : Program σ _) := rfl
  unfold SatE
  rw [hbind]
  refine Program.Sat.bind (Program.Sat.weaken h ?_)
  intro r t hr
  cases r with
  | ok b => exact hr
  | error e => exact Program.Sat.pure hr

/-- The two postconditions may be weakened. -/
theorem SatE.weaken {m : Abortable σ α} {Q' : α → σ → Prop} {E' : Option String → σ → Prop}
    (h : SatE faulty C s m Q' E') (hQ : ∀ a t, Q' a t → Q a t) (hE : ∀ e t, E' e t → E e t) :
    SatE faulty C s m Q E := by
  refine Program.Sat.weaken h fun r t hr => ?_
  cases r with
  | ok a => exact hQ a t hr
  | error e => exact hE e t hr

/-- A step that aborts goes on from the state it leaves, or stops where it was. -/
theorem SatE.attempt {f : σ → Except String (α × σ)}
    (hok : ∀ a t, f s = .ok (a, t) → C t ∧ Q a t)
    (herr : ∀ text, f s = .error text → E (some text) s)
    (hfault : faulty → ∀ text, E (some text) s) : SatE faulty C s (attempt f) Q E :=
  Program.Sat.bind <| Program.Sat.prim
    (fun a t h => ⟨(hok a t h).1, Program.Sat.pure (hok a t h).2⟩)
    (fun text h => Program.Sat.pure (herr text h))
    (fun h text => Program.Sat.pure (hfault h text))

/-- The rule of a step that throws a fixed error when it fails. -/
theorem SatE.attemptOr {error : Option String} {f : σ → Except String (α × σ)}
    (hok : ∀ a t, f s = .ok (a, t) → C t ∧ Q a t)
    (herr : ∀ text, f s = .error text → E error s)
    (hfault : faulty → E error s) : SatE faulty C s (attemptOr error f) Q E :=
  Program.Sat.bind <| Program.Sat.prim
    (fun a t h => ⟨(hok a t h).1, Program.Sat.pure (hok a t h).2⟩)
    (fun text h => Program.Sat.pure (herr text h))
    (fun h _ => Program.Sat.pure (hfault h))

/-- The rule of a program whose error is turned into an answer. -/
theorem SatE.orDefault {m : Abortable σ α} {a : α} (h : SatE faulty C s m Q (fun _ => Q a)) :
    SatE faulty C s (orDefault m a) Q E := by
  refine Program.Sat.bind (Program.Sat.weaken h ?_)
  rintro (e | b) t hr
  · exact Program.Sat.pure hr
  · exact Program.Sat.pure hr

/-! ### Invariants -/

/-- The program keeps `inv` at every primitive, and its result, if it has one, is as `Q` says. -/
abbrev GuardsE (inv : σ → Prop) (m : Abortable σ α) (Q : α → Prop) : Prop :=
  Program.Guards inv m.run fun r => ∀ a, r = .ok a → Q a

namespace GuardsE

variable {inv : σ → Prop} {Q : α → Prop} {R : β → Prop}

/-- An answer that fits guards the invariant. -/
theorem pure {a : α} (h : Q a) : GuardsE inv (Pure.pure a) Q :=
  Program.Guards.pure (a := Except.ok a) (by rintro _ ⟨rfl⟩; exact h)

/-- Two programs guard it together when the second does for each answer of the first. -/
theorem bind {m : Abortable σ β} {f : β → Abortable σ α} (hm : GuardsE inv m R)
    (hf : ∀ b, R b → GuardsE inv (f b) Q) : GuardsE inv (m >>= f) Q := by
  have hbind : (m >>= f).run = (m.run >>= ExceptT.bindCont f : Program σ _) := rfl
  unfold GuardsE
  rw [hbind]
  refine Program.Guards.bind hm fun r hr => ?_
  cases r with
  | ok b => exact hf b (hr b rfl)
  | error e => exact Program.Guards.pure (by rintro _ ⟨⟩)

/-- A program that cannot throw guards it as before. -/
theorem lift {m : Program σ α} (h : Program.Guards inv m Q) :
    GuardsE inv (ExceptT.lift m) Q :=
  Program.Guards.bind h fun a ha => Program.Guards.pure (by rintro _ ⟨rfl⟩; exact ha)

/-- A step guards it when its success does. -/
theorem attemptOr {error : Option String} {f : σ → Except String (α × σ)}
    (hok : ∀ s a t, inv s → f s = .ok (a, t) → inv t ∧ Q a) :
    GuardsE inv (attemptOr error f) Q := by
  refine Program.Guards.bind (Program.Guards.prim hok) fun r hr => ?_
  cases r with
  | ok a => exact Program.Guards.pure (by rintro _ ⟨rfl⟩; exact hr a rfl)
  | error e => exact Program.Guards.pure (by rintro _ ⟨⟩)

/-- A program whose error is turned into an answer guards it. -/
theorem orDefault {m : Abortable σ α} {a : α} (h : GuardsE inv m Q) (ha : Q a) :
    GuardsE inv (orDefault m a) Q := by
  refine Program.Guards.bind h fun r hr => ?_
  cases r with
  | ok b => exact Program.Guards.pure (by rintro _ ⟨rfl⟩; exact hr b rfl)
  | error e => exact Program.Guards.pure (by rintro _ ⟨rfl⟩; exact ha)

end GuardsE

end Abortable

end YirangMQ

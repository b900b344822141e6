import YirangMQ.Library.Transaction

namespace YirangMQ

/-!
# Programs that are stopped

A process that stops between two primitives leaves behind what its program has done so far.
Where a program does nothing more than go back to a safe state once its primitives fail, it ends in
the same place when every primitive fails from there on; so what is known of all failures is known
of all stops.

* `failing` — a plan in which everything fails;
* `Rests` — the state a stopped program is found in, as it is or gone back;
* `Interruptible` — stopping the program is failing from then on, with its rules;
* `Interruptible.passed` — **every state a cut leaves behind is the end of a run with failures**;
* `Interruptible.transaction` — the rule of a transaction, which goes back by a rollback;
* `afterStop` — the state a program leaves that may be stopped, on a connection that brings back
  what is committed.
-/

variable {σ α β : Type}

namespace Program

/-- Every one of the next primitives fails. -/
def failing (n : Nat) : List (Option String) := List.replicate n (some "stopped")

/-- Failing at one more primitive, step by step. -/
theorem failing_add (k n : Nat) : failing (k + n) = failing k ++ failing n :=
  List.replicate_add _ _ _

/-- The state as it is, or gone back. -/
def Rests (back : σ → σ) (t u : σ) : Prop := u = t ∨ u = back t

/-- A state rests at itself. -/
theorem Rests.refl (back : σ → σ) (t : σ) : Rests back t t := .inl rfl

/-- Two rests make one. -/
theorem Rests.trans {back : σ → σ} (hback : ∀ s, back (back s) = back s) {t u v : σ}
    (h : Rests back t u) (h' : Rests back u v) : Rests back t v := by
  rcases h with rfl | rfl
  · exact h'
  · rcases h' with rfl | rfl
    · exact .inr rfl
    · exact .inr (hback t)

/-- Stopping the program is failing from then on. -/
structure Interruptible (back : σ → σ) (m : Program σ α) : Prop where
  /-- The program uses up the front of a plan, and nothing else of it matters. -/
  replay : ∀ x, ∃ front, ∀ rest,
    m { x with faults := front ++ rest } = ((m x).1, { (m x).2 with faults := rest })
  /-- When everything fails it stays where it is, or goes back. -/
  stops : ∀ s p, ∃ a u q k,
    (∀ n, m ⟨s, failing (k + n), p⟩ = (a, ⟨u, failing n, q⟩)) ∧ Rests back s u
  /-- From every state it passes through it would do so. -/
  cut : ∀ x, ∀ t ∈ (m x).2.passed, t ∈ x.passed ∨ ∃ front a u q,
    (∀ n, m { x with faults := front ++ failing n } = (a, ⟨u, failing n, q⟩)) ∧ Rests back t u

namespace Interruptible

variable {back : σ → σ}

/-- A program that ends has nowhere to be interrupted. -/
theorem pure {a : α} : Interruptible back (Pure.pure a : Program σ α) where
  replay x := ⟨[], fun rest => rfl⟩
  stops s p := ⟨a, s, p, 0, fun n => by rw [Nat.zero_add]; rfl, .refl back s⟩
  cut x t ht := .inl ht

/-- **The rule of a primitive**, which fails without a trace. -/
theorem prim {f : σ → Except String (α × σ)} : Interruptible back (Program.prim f) where
  replay x := by
    refine ⟨[x.faults.headD none], fun rest => ?_⟩
    unfold Program.prim
    rw [List.singleton_append, List.headD_cons, List.tail_cons]
    cases x.faults.headD none with
    | some text => rfl
    | none =>
      dsimp only
      cases f x.state with
      | error text => rfl
      | ok r => rfl
  stops s p := by
    refine ⟨.error "stopped", s, p, 1, fun n => ?_, .refl back s⟩
    rw [Nat.add_comm]
    rfl
  cut x t ht := by
    unfold Program.prim at ht
    cases hhead : x.faults.headD none with
    | some text =>
      rw [hhead] at ht
      exact .inl ht
    | none =>
      rw [hhead] at ht
      dsimp only at ht
      cases hf : f x.state with
      | error text =>
        rw [hf] at ht
        exact .inl ht
      | ok r =>
        rw [hf] at ht
        rcases List.mem_cons.mp ht with rfl | ht
        · -- the primitive has just succeeded
          refine .inr ⟨[none], .ok r.1, r.2, r.2 :: x.passed, fun n => ?_, .refl back _⟩
          unfold Program.prim
          rw [List.singleton_append, List.headD_cons, List.tail_cons]
          dsimp only
          rw [hf]
        · exact .inl ht

/-- Going back. -/
theorem modify_back : Interruptible back (Program.modify back) where
  replay x := ⟨[], fun rest => rfl⟩
  stops s p := ⟨(), back s, back s :: p, 0, fun n => by rw [Nat.zero_add]; rfl, .inr rfl⟩
  cut x t ht := by
    rcases List.mem_cons.mp ht with rfl | ht
    · exact .inr ⟨[], (), back x.state, back x.state :: x.passed, fun n => rfl, .refl back _⟩
    · exact .inl ht

/-- Two programs can be interrupted together when each can. -/
theorem bind (hback : ∀ s, back (back s) = back s) {m : Program σ β} {f : β → Program σ α}
    (hm : Interruptible back m) (hf : ∀ b, Interruptible back (f b)) :
    Interruptible back (m >>= f) where
  replay x := by
    obtain ⟨front, hfront⟩ := hm.replay x
    obtain ⟨front', hfront'⟩ := (hf (m x).1).replay (m x).2
    refine ⟨front ++ front', fun rest => ?_⟩
    show f (m { x with faults := front ++ front' ++ rest }).1
      (m { x with faults := front ++ front' ++ rest }).2 = _
    rw [List.append_assoc, hfront]
    exact hfront' rest
  stops s p := by
    obtain ⟨b, u, q, k, hrun, hrests⟩ := hm.stops s p
    obtain ⟨a, v, q', k', hrun', hrests'⟩ := (hf b).stops u q
    refine ⟨a, v, q', k + k', fun n => ?_, hrests.trans hback hrests'⟩
    show f (m ⟨s, failing (k + k' + n), p⟩).1 (m ⟨s, failing (k + k' + n), p⟩).2 = _
    rw [Nat.add_assoc, hrun]
    exact hrun' n
  cut x t ht := by
    rcases (hf (m x).1).cut (m x).2 t ht with hpassed | ⟨front', a, v, q', hrun', hrests'⟩
    · rcases hm.cut x t hpassed with hpassed | ⟨front, b, u, q, hrun, hrests⟩
      · exact .inl hpassed
      · -- stopped in the first program, and the second one fails from its start
        obtain ⟨a, v, q', k', hrun', hrests'⟩ := (hf b).stops u q
        refine .inr ⟨front ++ failing k', a, v, q', fun n => ?_, hrests.trans hback hrests'⟩
        show f (m { x with faults := front ++ failing k' ++ failing n }).1
          (m { x with faults := front ++ failing k' ++ failing n }).2 = _
        rw [List.append_assoc, ← failing_add, hrun]
        exact hrun' n
    · -- stopped in the second program, after a replay of the first one
      obtain ⟨front, hfront⟩ := hm.replay x
      refine .inr ⟨front ++ front', a, v, q', fun n => ?_, hrests'⟩
      show f (m { x with faults := front ++ front' ++ failing n }).1
        (m { x with faults := front ++ front' ++ failing n }).2 = _
      rw [List.append_assoc, hfront]
      exact hrun' n

/-- **Every state a cut leaves behind is, as it is or gone back, the end of a run with
    failures.** -/
theorem passed {m : Program σ α} (h : Interruptible back m) {faults : List (Option String)}
    {s t : σ} (ht : t ∈ m.passedStates faults s) : ∃ faults', Rests back t (m.run faults' s).2 := by
  have hstart : ∃ faults', Rests back s (m.run faults' s).2 := by
    obtain ⟨a, u, q, k, hrun, hrests⟩ := h.stops s [s]
    refine ⟨failing (k + 0), ?_⟩
    rw [Program.run, hrun]
    exact hrests
  rcases h.cut ⟨s, faults, [s]⟩ t (List.mem_reverse.mp ht) with hpassed | ⟨front, a, u, q, hrun, hrests⟩
  · rw [List.mem_singleton.mp hpassed]
    exact hstart
  · refine ⟨front ++ failing 0, ?_⟩
    show Rests back t (m { (⟨s, faults, [s]⟩ : Exec σ) with faults := front ++ failing 0 }).2.state
    rw [hrun]
    exact hrests

end Interruptible

end Program

/-! ### Programs that abort -/

namespace Abortable

/-- Stopping a program that may abort is failing from then on. -/
abbrev InterruptibleE (back : σ → σ) (m : Abortable σ α) : Prop := Program.Interruptible back m.run

namespace InterruptibleE

variable {back : σ → σ}

/-- So it is with a program that may throw: it ends. -/
theorem pure {a : α} : InterruptibleE back (Pure.pure a) :=
  Program.Interruptible.pure (a := Except.ok a)

/-- Two programs that may throw can be interrupted together when each can. -/
theorem bind (hback : ∀ s, back (back s) = back s) {m : Abortable σ β} {f : β → Abortable σ α}
    (hm : InterruptibleE back m) (hf : ∀ b, InterruptibleE back (f b)) :
    InterruptibleE back (m >>= f) := by
  have hbind : (m >>= f).run = (m.run >>= ExceptT.bindCont f : Program σ _) := rfl
  unfold InterruptibleE
  rw [hbind]
  refine Program.Interruptible.bind hback hm fun r => ?_
  cases r with
  | ok b => exact hf b
  | error e => exact Program.Interruptible.pure

/-- A program that cannot throw can be interrupted as before. -/
theorem lift (hback : ∀ s, back (back s) = back s) {m : Program σ α}
    (h : Program.Interruptible back m) : InterruptibleE back (ExceptT.lift m) :=
  Program.Interruptible.bind hback h fun _ => Program.Interruptible.pure

/-- A step that throws its own error can be interrupted before it or after it. -/
theorem attempt (hback : ∀ s, back (back s) = back s) {f : σ → Except String (α × σ)} :
    InterruptibleE back (attempt f) := by
  refine Program.Interruptible.bind hback Program.Interruptible.prim fun r => ?_
  cases r with
  | ok a => exact Program.Interruptible.pure
  | error e => exact Program.Interruptible.pure

/-- So can a step that throws a fixed error. -/
theorem attemptOr (hback : ∀ s, back (back s) = back s) {error : Option String}
    {f : σ → Except String (α × σ)} : InterruptibleE back (attemptOr error f) := by
  refine Program.Interruptible.bind hback Program.Interruptible.prim fun r => ?_
  cases r with
  | ok a => exact Program.Interruptible.pure
  | error e => exact Program.Interruptible.pure

/-- So can a program whose error is turned into an answer. -/
theorem orDefault (hback : ∀ s, back (back s) = back s) {m : Abortable σ α} {a : α}
    (h : InterruptibleE back m) : InterruptibleE back (orDefault m a) := by
  refine Program.Interruptible.bind hback h fun r => ?_
  cases r with
  | ok b => exact Program.Interruptible.pure
  | error e => exact Program.Interruptible.pure

end InterruptibleE

end Abortable

/-! ### Transactions -/

namespace Program

variable {D F : Type}

/-- A second rollback has nothing to roll back. -/
theorem rolledBack_rolledBack (c : Conn D F) : c.rolledBack.rolledBack = c.rolledBack := rfl

/-- **The rule of a transaction.** -/
theorem Interruptible.transaction {body : Abortable (Conn D F) α}
    (hbody : Abortable.InterruptibleE Conn.rolledBack body) :
    Interruptible Conn.rolledBack (YirangMQ.transaction body) := by
  have hundo : ∀ e : Option String, Interruptible Conn.rolledBack
      (do rollback; return (.error e) : Program (Conn D F) (Except (Option String) α)) := fun e =>
    .bind rolledBack_rolledBack .modify_back fun _ => .pure
  refine .bind rolledBack_rolledBack .prim fun begun => ?_
  cases begun with
  | error e => exact .pure
  | ok u =>
    refine .bind rolledBack_rolledBack hbody fun r => ?_
    cases r with
    | error e => exact hundo e
    | ok a =>
      refine .bind rolledBack_rolledBack .prim fun committed => ?_
      cases committed with
      | error e => exact hundo (some e)
      | ok u => exact .pure

/-! ### Programs on a connection -/

/-- The connection after a program that may be stopped: when the process starts again, the database
    has brought back what was committed. -/
def afterStop (m : Program (Conn D F) α) (faults : List (Option String)) (cut : Option Nat)
    (s : Conn D F) : Conn D F :=
  match cut with
  | none => (m.run faults s).2
  | some n => ((m.passedStates faults s).getD n (m.run faults s).2).rolledBack

/-- **A stopped program that leaves no transaction open ends as one in which primitives fail.** -/
theorem Interruptible.afterStop_eq {m : Program (Conn D F) α}
    (h : Interruptible Conn.rolledBack m) {s : Conn D F}
    (hclosed : ∀ faults, (m.run faults s).2.saved = none) (faults : List (Option String)) (n : Nat) :
    ∃ faults', m.afterStop faults (some n) s = (m.run faults' s).2 := by
  have hback : ∀ faults', (m.run faults' s).2.rolledBack = (m.run faults' s).2 := by
    intro faults'
    have hsaved := hclosed faults'
    generalize (m.run faults' s).2 = t at hsaved
    obtain ⟨data, saved, files⟩ := t
    cases hsaved
    rfl
  unfold afterStop
  dsimp only
  rw [List.getD_eq_getElem?_getD]
  cases hstate : (m.passedStates faults s)[n]? with
  | none =>
    rw [Option.getD_none]
    exact ⟨faults, hback faults⟩
  | some t =>
    obtain ⟨faults', hrests⟩ := h.passed (List.mem_of_getElem? hstate)
    refine ⟨faults', ?_⟩
    rw [Option.getD_some]
    rcases hrests with hsame | hrolled
    · rw [← hsame]
      exact hback faults'
    · exact hrolled.symm

end Program

end YirangMQ

import YirangMQ.Library.Program

namespace YirangMQ

/-!
# Transactions over a database connection

A connection has the data, the data to restore while a transaction is open, and the files a
program keeps beside its database, which no rollback brings back.

* `beginTransaction`, `commit`, `rollback`, `transaction` — the transaction steps;
* `Applies` — what a transaction does: it applies its effect and reports success, or leaves
  the data as they were and reports a refusal; in both cases no transaction stays open;
* `Sat.transaction` — the rule that turns a judgement on a body into one on its transaction;
* `Conn.Has` — what the data, now and after a rollback, and the files have, with the rules by
  which a program keeps it.
-/

/-- A connection: the data as its statements see them, the data a rollback restores while a
    transaction is open, and the files outside the database. -/
structure Conn (D F : Type) where
  data : D
  saved : Option D
  files : F

variable {D F α β : Type}

namespace Conn

/-- Run a statement on the data. -/
def onData (f : D → Except String (α × D)) (c : Conn D F) : Except String (α × Conn D F) :=
  (f c.data).map fun (a, d) => (a, { c with data := d })

/-- Run a file operation. -/
def onFiles (f : F → Except String (α × F)) (c : Conn D F) : Except String (α × Conn D F) :=
  (f c.files).map fun (a, fs) => (a, { c with files := fs })

/-- Evaluate a query, which changes nothing. -/
def reading (g : D → α) (c : Conn D F) : Except String (α × Conn D F) := .ok (g c.data, c)

/-- `BEGIN IMMEDIATE` -/
def begun (c : Conn D F) : Except String (Unit × Conn D F) :=
  if c.saved.isSome then .error "cannot start a transaction within a transaction"
  else .ok ((), { c with saved := some c.data })

/-- `COMMIT` -/
def committed (c : Conn D F) : Except String (Unit × Conn D F) :=
  if c.saved.isSome then .ok ((), { c with saved := none })
  else .error "cannot commit - no transaction is active"

/-- `ROLLBACK` -/
def rolledBack (c : Conn D F) : Conn D F :=
  { c with data := c.saved.getD c.data, saved := none }

end Conn

/-- Begin a transaction. -/
def beginTransaction : Program (Conn D F) (Except String Unit) := Program.prim Conn.begun

/-- Commit the open transaction. -/
def commit : Program (Conn D F) (Except String Unit) := Program.prim Conn.committed

/-- Roll the open transaction back. -/
def rollback : Program (Conn D F) Unit := Program.modify Conn.rolledBack

/-- Run `body` in a transaction: roll back when it aborts or the commit fails. -/
def transaction (body : Abortable (Conn D F) α) :
    Program (Conn D F) (Except (Option String) α) := do
  match ← beginTransaction with
  | .error e => return .error (some e)
  | .ok () =>
    match ← body.run with
    | .error e =>
      rollback
      return .error e
    | .ok a =>
      match ← commit with
      | .error e =>
        rollback
        return .error (some e)
      | .ok () => return .ok a

/-- The transaction on `c` applied `effect` and answered with its result, or changed no data
    and answered with an error that `refusal` allows; no transaction is open any more. -/
def Applies (c : Conn D F) (effect : α → D → Prop) (refusal : Option String → Prop)
    (r : Except (Option String) α) (t : Conn D F) : Prop :=
  t.saved = none ∧
  match r with
  | .ok a => effect a t.data
  | .error e => t.data = c.data ∧ refusal e

namespace Program

variable {faulty : Prop} {c : Conn D F}

/-- **The rule of a transaction.** -/
theorem Sat.transaction {body : Abortable (Conn D F) α}
    {Q : Except (Option String) α → Conn D F → Prop} (hsaved : c.saved = none)
    (hbody : Abortable.SatE faulty (fun _ => True) { c with saved := some c.data } body
      (fun a t => t.saved = some c.data ∧ Q (.ok a) { t with saved := none } ∧
        (faulty → ∀ e, Q (.error e) { t with data := c.data, saved := none }))
      (fun e t => t.saved = some c.data ∧ Q (.error e) { t with data := c.data, saved := none }))
    (hfault : faulty → ∀ e, Q (.error e) c) :
    Sat faulty (fun _ => True) c (transaction body) Q := by
  refine Sat.bind (Sat.prim ?_ ?_ ?_)
  · intro a t hbegun
    simp only [Conn.begun, hsaved, Option.isSome_none, Bool.false_eq_true, if_false,
      Except.ok.injEq, Prod.mk.injEq] at hbegun
    obtain ⟨-, rfl⟩ := hbegun
    refine ⟨trivial, Sat.bind (Sat.weaken hbody ?_)⟩
    rintro (e | a) t hr
    · obtain ⟨hopen, hQ⟩ := hr
      refine Sat.bind (Sat.modify trivial (Sat.pure ?_))
      simpa [Conn.rolledBack, hopen] using hQ
    · obtain ⟨hopen, hQ, hQfault⟩ := hr
      refine Sat.bind (Sat.prim ?_ ?_ ?_)
      · intro _ u hcommitted
        simp only [Conn.committed, hopen, Option.isSome_some, if_true, Except.ok.injEq,
          Prod.mk.injEq] at hcommitted
        obtain ⟨-, rfl⟩ := hcommitted
        exact ⟨trivial, Sat.pure hQ⟩
      · intro text hcommitted
        simp [Conn.committed, hopen] at hcommitted
      · intro hf text
        refine Sat.bind (Sat.modify trivial (Sat.pure ?_))
        simpa [Conn.rolledBack, hopen] using hQfault hf (some text)
  · intro text hbegun
    simp [Conn.begun, hsaved] at hbegun
  · intro hf text
    exact Sat.pure (hfault hf (some text))

/-- A transaction whose body only refuses for a reason applies its effect or changes nothing. -/
theorem Sat.transaction_applies {body : Abortable (Conn D F) α} {effect : α → D → Prop}
    {refusal : Option String → Prop} (hsaved : c.saved = none)
    (hfault : faulty → ∀ e, refusal e)
    (hbody : Abortable.SatE faulty (fun _ => True) { c with saved := some c.data } body
      (fun a t => t.saved = some c.data ∧ effect a t.data)
      (fun e t => t.saved = some c.data ∧ refusal e)) :
    Sat faulty (fun _ => True) c (YirangMQ.transaction body) (Applies c effect refusal) := by
  refine Sat.transaction hsaved (hbody.weaken ?_ ?_) ?_
  · rintro a t ⟨hopen, heffect⟩
    exact ⟨hopen, ⟨rfl, heffect⟩, fun hf e => ⟨rfl, rfl, hfault hf e⟩⟩
  · rintro e t ⟨hopen, hrefusal⟩
    exact ⟨hopen, rfl, rfl, hrefusal⟩
  · exact fun hf e => ⟨hsaved, rfl, hfault hf e⟩

end Program

/-! ### Invariants of the data and the files -/

/-- The data have `P`, also those a rollback brings back, and the files have `R`. -/
structure Conn.Has (P : D → Prop) (R : F → Prop) (c : Conn D F) : Prop where
  data : P c.data
  saved : ∀ d, c.saved = some d → P d
  files : R c.files

namespace Program

variable {P : D → Prop} {R : F → Prop}

/-- A statement that keeps what the data have. -/
theorem Guards.onData {f : D → Except String (α × D)} {Q : α → Prop}
    (hok : ∀ d a d', P d → f d = .ok (a, d') → P d' ∧ Q a) :
    Guards (Conn.Has P R) (Program.prim (Conn.onData f)) fun r => ∀ a, r = .ok a → Q a := by
  refine Guards.prim fun c a t h hresult => ?_
  cases hf : f c.data with
  | error text => simp [Conn.onData, hf, Except.map] at hresult
  | ok r =>
    simp only [Conn.onData, hf, Except.map, Except.ok.injEq, Prod.mk.injEq] at hresult
    obtain ⟨rfl, rfl⟩ := hresult
    obtain ⟨hdata, hQ⟩ := hok _ _ _ h.data hf
    exact ⟨⟨hdata, h.saved, h.files⟩, hQ⟩

/-- A file operation that keeps what the files have. -/
theorem Guards.onFiles {f : F → Except String (α × F)} {Q : α → Prop}
    (hok : ∀ fs a fs', R fs → f fs = .ok (a, fs') → R fs' ∧ Q a) :
    Guards (Conn.Has P R) (Program.prim (Conn.onFiles f)) fun r => ∀ a, r = .ok a → Q a := by
  refine Guards.prim fun c a t h hresult => ?_
  cases hf : f c.files with
  | error text => simp [Conn.onFiles, hf, Except.map] at hresult
  | ok r =>
    simp only [Conn.onFiles, hf, Except.map, Except.ok.injEq, Prod.mk.injEq] at hresult
    obtain ⟨rfl, rfl⟩ := hresult
    obtain ⟨hfiles, hQ⟩ := hok _ _ _ h.files hf
    exact ⟨⟨h.data, h.saved, hfiles⟩, hQ⟩

theorem Guards.beginTransaction :
    Guards (Conn.Has P R) beginTransaction fun _ => True := by
  refine (Guards.prim (Q := fun _ => True) fun c a t h hresult => ?_).weaken fun _ _ => trivial
  unfold Conn.begun at hresult
  split at hresult
  case isTrue => cases hresult
  case isFalse =>
    simp only [Except.ok.injEq, Prod.mk.injEq] at hresult
    obtain ⟨-, rfl⟩ := hresult
    refine ⟨⟨h.data, fun d hd => ?_, h.files⟩, trivial⟩
    rw [← Option.some.inj hd]
    exact h.data

theorem Guards.commit : Guards (Conn.Has P R) commit fun _ => True := by
  refine (Guards.prim (Q := fun _ => True) fun c a t h hresult => ?_).weaken fun _ _ => trivial
  unfold Conn.committed at hresult
  split at hresult
  case isTrue =>
    simp only [Except.ok.injEq, Prod.mk.injEq] at hresult
    obtain ⟨-, rfl⟩ := hresult
    exact ⟨⟨h.data, by simp, h.files⟩, trivial⟩
  case isFalse => cases hresult

theorem Guards.rollback : Guards (Conn.Has P R) rollback fun _ => True := by
  intro c h
  have hback : Conn.Has P R c.rolledBack := by
    refine ⟨?_, by simp [Conn.rolledBack], h.files⟩
    show P (c.saved.getD c.data)
    cases hsaved : c.saved with
    | none => exact h.data
    | some d => exact h.saved d hsaved
  exact Sat.modify hback ⟨hback, trivial⟩

theorem Guards.transaction {body : Abortable (Conn D F) α} {Q : α → Prop}
    (hbody : Guards (Conn.Has P R) body.run fun r => ∀ a, r = .ok a → Q a) :
    Guards (Conn.Has P R) (YirangMQ.transaction body) fun r => ∀ a, r = .ok a → Q a := by
  refine Guards.bind Guards.beginTransaction fun begun _ => ?_
  cases begun with
  | error e => exact Guards.pure (by simp)
  | ok u =>
    refine Guards.bind hbody fun r hr => ?_
    cases r with
    | error e => exact Guards.bind Guards.rollback fun _ _ => Guards.pure (by simp)
    | ok a =>
      refine Guards.bind Guards.commit fun committed _ => ?_
      cases committed with
      | error e => exact Guards.bind Guards.rollback fun _ _ => Guards.pure (by simp)
      | ok u => exact Guards.pure hr

end Program

namespace Abortable

variable {faulty : Prop} {t : Conn D F} {Q : α → Conn D F → Prop}
  {E : Option String → Conn D F → Prop}

/-- The rule of a statement on the data that aborts with its own error. -/
theorem SatE.onData {f : D → Except String (α × D)}
    (hok : ∀ a d, f t.data = .ok (a, d) → Q a { t with data := d })
    (herr : ∀ text, f t.data = .error text → E (some text) t)
    (hfault : faulty → ∀ text, E (some text) t) :
    SatE faulty (fun _ => True) t (Abortable.attempt (Conn.onData f)) Q E := by
  refine SatE.attempt ?_ ?_ hfault
  · intro a u h
    cases hf : f t.data with
    | error text => simp [Conn.onData, hf, Except.map] at h
    | ok r =>
      obtain ⟨b, d⟩ := r
      simp only [Conn.onData, hf, Except.map, Except.ok.injEq, Prod.mk.injEq] at h
      obtain ⟨rfl, rfl⟩ := h
      exact ⟨trivial, hok _ _ hf⟩
  · intro text h
    cases hf : f t.data with
    | error text' =>
      simp only [Conn.onData, hf, Except.map, Except.error.injEq] at h
      exact h ▸ herr _ hf
    | ok r => simp [Conn.onData, hf, Except.map] at h

end Abortable

end YirangMQ

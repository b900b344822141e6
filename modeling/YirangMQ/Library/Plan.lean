import YirangMQ.Library.Transaction

namespace YirangMQ

/-!
# Programs under a given plan of failures

`Sat` speaks of every behaviour of the environment at once.  Where it matters which primitive
fails, a program is followed under one plan, with the position in the plan beside the state.

* `fault` — what the plan does to the `n`-th primitive;
* `Planned` / `PlannedE` — what a program does from a position of the plan on, for programs and
  for programs that abort;
* `Planned.prim`, `Planned.bind`, `PlannedE.attemptOr`, … — their rules;
* `Planned.transaction` — the rule of a transaction.
-/

variable {σ α β : Type}

namespace Program

/-- What the plan does to the `n`-th primitive. -/
def fault (faults : List (Option String)) (n : Nat) : Option String := faults.getD n none

/-- From `s`, with `n` entries of the plan used up, the program ends as `Q` says. -/
def Planned (faults : List (Option String)) (n : Nat) (s : σ) (m : Program σ α)
    (Q : Nat → α → σ → Prop) : Prop :=
  ∀ x : Exec σ, x.state = s → x.faults = faults.drop n →
    ∃ k, (m x).2.faults = faults.drop k ∧ Q k (m x).1 (m x).2.state

variable {faults : List (Option String)} {n : Nat} {s : σ} {Q : Nat → α → σ → Prop}

/-- What a judgement says about a run. -/
theorem Planned.run {m : Program σ α} (h : Planned faults 0 s m Q) :
    ∃ k, Q k (m.run faults s).1 (m.run faults s).2 := by
  obtain ⟨k, -, hQ⟩ := h ⟨s, faults, [s]⟩ rfl rfl
  exact ⟨k, hQ⟩

/-- The rule of a program that ends. -/
theorem Planned.pure {a : α} (h : Q n a s) : Planned faults n s (pure a) Q := by
  rintro x rfl hfaults
  exact ⟨n, hfaults, h⟩

/-- The rule of two programs: the second goes on in the plan where the first has stopped. -/
theorem Planned.bind {m : Program σ β} {f : β → Program σ α}
    (h : Planned faults n s m fun k b t => Planned faults k t (f b) Q) :
    Planned faults n s (m >>= f) Q := by
  intro x hstate hfaults
  obtain ⟨k, hrest, hQ⟩ := h x hstate hfaults
  exact hQ (m x).2 rfl hrest

/-- A postcondition may be weakened. -/
theorem Planned.weaken {m : Program σ α} {R : Nat → α → σ → Prop} (h : Planned faults n s m R)
    (hRQ : ∀ k a t, R k a t → Q k a t) : Planned faults n s m Q := by
  intro x hstate hfaults
  obtain ⟨k, hrest, hR⟩ := h x hstate hfaults
  exact ⟨k, hrest, hRQ _ _ _ hR⟩

/-- Changing the state uses up nothing of the plan. -/
theorem Planned.modify {f : σ → σ} {Q : Nat → Unit → σ → Prop} (h : Q n () (f s)) :
    Planned faults n s (modify f) Q := by
  rintro x rfl hfaults
  exact ⟨n, hfaults, h⟩

/-- **The rule of a primitive**, which uses up one entry of the plan. -/
theorem Planned.prim {f : σ → Except String (α × σ)} {Q : Nat → Except String α → σ → Prop}
    (hfault : ∀ text, fault faults n = some text → Q (n + 1) (.error text) s)
    (hok : fault faults n = none → ∀ a t, f s = .ok (a, t) → Q (n + 1) (.ok a) t)
    (herr : fault faults n = none → ∀ text, f s = .error text → Q (n + 1) (.error text) s) :
    Planned faults n s (prim f) Q := by
  rintro x rfl hfaults
  have hhead : x.faults.headD none = fault faults n := by
    rw [hfaults, fault, List.headD_eq_head?_getD, List.head?_drop, List.getD_eq_getElem?_getD]
  have htail : x.faults.tail = faults.drop (n + 1) := by
    rw [hfaults, List.tail_drop]
  unfold Program.prim
  rw [hhead]
  split
  case h_1 text htext => exact ⟨n + 1, htail, hfault text htext⟩
  case h_2 hnone =>
    split
    case h_1 text herror => exact ⟨n + 1, htail, herr hnone text herror⟩
    case h_2 a t hresult => exact ⟨n + 1, htail, hok hnone a t hresult⟩

end Program

/-! ### Programs that abort -/

namespace Abortable

open Program

/-- From `s`, with `n` entries of the plan used up, the program ends with a result as `Q` says
    or aborts as `E` says. -/
def PlannedE (faults : List (Option String)) (n : Nat) (s : σ) (m : Abortable σ α)
    (Q : Nat → α → σ → Prop) (E : Nat → Option String → σ → Prop) : Prop :=
  Planned faults n s m.run fun k r t =>
    match r with
    | .ok a => Q k a t
    | .error e => E k e t

variable {faults : List (Option String)} {n : Nat} {s : σ} {Q : Nat → α → σ → Prop}
  {E : Nat → Option String → σ → Prop}

/-- The rule of a program that ends. -/
theorem PlannedE.pure {a : α} (h : Q n a s) : PlannedE faults n s (pure a) Q E :=
  @Planned.pure _ _ _ _ _ _ (Except.ok a : Except (Option String) α) h

/-- The rule of two programs, of which the first may throw. -/
theorem PlannedE.bind {m : Abortable σ β} {f : β → Abortable σ α}
    (h : PlannedE faults n s m (fun k b t => PlannedE faults k t (f b) Q E) E) :
    PlannedE faults n s (m >>= f) Q E := by
  have hbind : (m >>= f).run = (m.run >>= ExceptT.bindCont f : Program σ _) := rfl
  unfold PlannedE
  rw [hbind]
  refine Planned.bind (Planned.weaken h ?_)
  intro k r t hr
  cases r with
  | ok b => exact hr
  | error e => exact Planned.pure hr

/-- A program that does not abort. -/
theorem PlannedE.lift {m : Program σ α} (h : Planned faults n s m Q) :
    PlannedE faults n s (ExceptT.lift m) Q E :=
  Planned.bind (h.weaken fun _ _ _ hr => Planned.pure hr)

/-- The rule of a step that throws a fixed error: by the plan, or in itself. -/
theorem PlannedE.attemptOr {error : Option String} {f : σ → Except String (α × σ)}
    (hfault : fault faults n ≠ none → E (n + 1) error s)
    (hok : fault faults n = none → ∀ a t, f s = .ok (a, t) → Q (n + 1) a t)
    (herr : fault faults n = none → ∀ text, f s = .error text → E (n + 1) error s) :
    PlannedE faults n s (attemptOr error f) Q E :=
  Planned.bind <| Planned.prim
    (fun text h => Planned.pure (hfault (by simp [h])))
    (fun h a t hresult => Planned.pure (hok h a t hresult))
    (fun h text herror => Planned.pure (herr h text herror))

/-- The rule of a program whose error is turned into an answer. -/
theorem PlannedE.orDefault {m : Abortable σ α} {a : α}
    (h : PlannedE faults n s m Q fun k _ => Q k a) :
    PlannedE faults n s (orDefault m a) Q E := by
  refine Planned.bind (Planned.weaken h ?_)
  rintro k (e | b) t hr
  · exact Planned.pure hr
  · exact Planned.pure hr

end Abortable

/-! ### Transactions -/

namespace Program

variable {D F : Type} {faults : List (Option String)} {n : Nat} {c : Conn D F}

/-- The rule of a file operation. -/
theorem Planned.onFiles {f : F → Except String (α × F)}
    {Q : Nat → Except String α → Conn D F → Prop}
    (hfault : ∀ text, fault faults n = some text → Q (n + 1) (.error text) c)
    (hok : fault faults n = none → ∀ a files, f c.files = .ok (a, files) →
      Q (n + 1) (.ok a) { c with files })
    (herr : fault faults n = none → ∀ text, f c.files = .error text →
      Q (n + 1) (.error text) c) :
    Planned faults n c (Program.prim (Conn.onFiles f)) Q := by
  refine Planned.prim hfault ?_ ?_
  · intro hnone a t h
    cases hf : f c.files with
    | error text => simp [Conn.onFiles, hf, Except.map] at h
    | ok r =>
      simp only [Conn.onFiles, hf, Except.map, Except.ok.injEq, Prod.mk.injEq] at h
      obtain ⟨rfl, rfl⟩ := h
      exact hok hnone _ _ hf
  · intro hnone text h
    cases hf : f c.files with
    | error text' =>
      simp only [Conn.onFiles, hf, Except.map, Except.error.injEq] at h
      exact h ▸ herr hnone _ hf
    | ok r => simp [Conn.onFiles, hf, Except.map] at h

/-- The rule of a statement on the data. -/
theorem Planned.onData {f : D → Except String (α × D)}
    {Q : Nat → Except String α → Conn D F → Prop}
    (hfault : ∀ text, fault faults n = some text → Q (n + 1) (.error text) c)
    (hok : fault faults n = none → ∀ a data, f c.data = .ok (a, data) →
      Q (n + 1) (.ok a) { c with data })
    (herr : fault faults n = none → ∀ text, f c.data = .error text →
      Q (n + 1) (.error text) c) :
    Planned faults n c (Program.prim (Conn.onData f)) Q := by
  refine Planned.prim hfault ?_ ?_
  · intro hnone a t h
    cases hf : f c.data with
    | error text => simp [Conn.onData, hf, Except.map] at h
    | ok r =>
      simp only [Conn.onData, hf, Except.map, Except.ok.injEq, Prod.mk.injEq] at h
      obtain ⟨rfl, rfl⟩ := h
      exact hok hnone _ _ hf
  · intro hnone text h
    cases hf : f c.data with
    | error text' =>
      simp only [Conn.onData, hf, Except.map, Except.error.injEq] at h
      exact h ▸ herr hnone _ hf
    | ok r => simp [Conn.onData, hf, Except.map] at h

/-- **The rule of a transaction.** It begins, runs its body, and commits at the position after
    the body; what goes wrong at either end, or in the body, is rolled back. -/
theorem Planned.transaction {body : Abortable (Conn D F) α}
    {Q : Nat → Except (Option String) α → Conn D F → Prop} (hsaved : c.saved = none)
    (hbegin : fault faults n ≠ none → ∀ e, Q (n + 1) (.error e) c)
    (hbody : fault faults n = none →
      Abortable.PlannedE faults (n + 1) { c with saved := some c.data } body
        (fun k a t => t.saved = some c.data ∧
          (fault faults k = none → Q (k + 1) (.ok a) { t with saved := none }) ∧
          (fault faults k ≠ none → ∀ e, Q (k + 1) (.error e)
            { t with data := c.data, saved := none }))
        (fun k e t => t.saved = some c.data ∧
          Q k (.error e) { t with data := c.data, saved := none })) :
    Planned faults n c (YirangMQ.transaction body) Q := by
  refine Planned.bind (Planned.prim ?_ ?_ ?_)
  · exact fun text hfault => Planned.pure (hbegin (by simp [hfault]) (some text))
  · intro hnone _ t hbegun
    simp only [Conn.begun, hsaved, Option.isSome_none, Bool.false_eq_true, if_false,
      Except.ok.injEq, Prod.mk.injEq] at hbegun
    obtain ⟨-, rfl⟩ := hbegun
    refine Planned.bind (Planned.weaken (hbody hnone) ?_)
    rintro k (e | a) t hr
    · obtain ⟨hopen, hQ⟩ := hr
      refine Planned.bind (Planned.modify (Planned.pure ?_))
      simpa [Conn.rolledBack, hopen] using hQ
    · obtain ⟨hopen, hQ, hQfault⟩ := hr
      refine Planned.bind (Planned.prim ?_ ?_ ?_)
      · intro text hfault
        refine Planned.bind (Planned.modify (Planned.pure ?_))
        simpa [Conn.rolledBack, hopen] using hQfault (by simp [hfault]) (some text)
      · intro hnone _ u hcommitted
        simp only [Conn.committed, hopen, Option.isSome_some, if_true, Except.ok.injEq,
          Prod.mk.injEq] at hcommitted
        obtain ⟨-, rfl⟩ := hcommitted
        exact Planned.pure (hQ hnone)
      · intro _ text hcommitted
        simp [Conn.committed, hopen] at hcommitted
  · intro _ text hbegun
    simp [Conn.begun, hsaved] at hbegun

end Program

end YirangMQ

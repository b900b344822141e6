import YirangMQ.SQLite.Invariant

namespace YirangMQ.SQLite

open Table

/-!
# Acknowledgement on the SQLite store

`ack` guards its delete in `msg_index` by the state, but not its delete in `kv`, which
cascades back to `msg_index`.  So it removes a message in whatever state it is.

* `integrity_of_run` — the integrity of the tables in every run, under arbitrary keys;
* `ack_spares_iff` — when an acknowledgement leaves a store alone that it should leave alone;
* `stored_until_acked` — no run whose acknowledgements meet the condition loses a message;
* `ack_removes_only_inflight` — the two together;
* `ack_removes_ready_message` — an acknowledgement that removes a ready message.
-/

variable {schema : SchemaFile} {env : Env} {t t' : Tables} {key k : String}

/-- The key's row is inflight. -/
def Inflight (t : Tables) (key : String) : Prop := ∃ r, t.row? key = some r ∧ r.state = .inflight

/-- The key has a row in both tables. -/
def Stored (t : Tables) (key : String) : Prop := t.value? key ≠ none ∧ t.row? key ≠ none

/-! ### Integrity -/

/-- Every performed call keeps the integrity of the tables. -/
theorem integrity_effect (h : t.Integrity) {call : Call} {reply : Reply}
    (heffect : Effect schema env call reply t t') : t'.Integrity := by
  cases heffect.change with
  | inserted message hnew => exact h.insertMessage hnew rfl
  | deleted lease => exact h.deleteKv _
  | stored queue policy =>
    refine (h.deleteKv ("policy:" ++ queue)).insertKv ?_
    exact Tables.value?_eq_none.mp Tables.deleteKv_self.1
  | updated p f key edit hkeeps hmarks hedits =>
    refine Tables.Integrity.editsValue ?_ hedits
    exact h.updateIndex fun r => (hkeeps r).1

/-- The store of any run, whatever its keys and its failing statements. -/
theorem integrity_of_run {allowed : History Store (Env × Call) Reply → Store → Env × Call → Prop}
    {h : History Store (Env × Call) Reply} {s : Store}
    (run : Run (adapter schema).machine allowed h s) : s.saved = none ∧ s.data.Integrity := by
  refine Run.invariant (fun _ s => s.saved = none ∧ s.data.Integrity) ?_ ?_ run
  · exact ⟨rfl, Tables.integrity_empty⟩
  · rintro h s ⟨env, call⟩ - ⟨hsaved, hinv⟩ -
    obtain ⟨hopen, hperforms⟩ :=
      @perform_performs True schema env s hsaved (.inl trivial) call
    refine ⟨hopen, ?_⟩
    rcases hperforms with ⟨-, hsame, -⟩ | heffect
    · exact hsame ▸ hinv
    · exact integrity_effect hinv heffect

/-! ### One acknowledgement -/

/-- The condition under which an acknowledgement is safe: the row is inflight, or there is
    nothing to remove. -/
def AckGuard (t : Tables) (key : String) : Prop := Inflight t key ∨ t.value? key = none

/-- An acknowledgement under the guard leaves a key alone that is not inflight; when no
    statement fails, it does so only under the guard. -/
theorem ack_spares_iff {s : Store} (hsaved : s.saved = none) (hinv : s.data.Integrity)
    (lease : LeaseToken) :
    let after := ((adapter schema).perform env (.ack lease) s).2.data
    (AckGuard s.data lease.messageKey → ¬Inflight s.data lease.messageKey → after = s.data) ∧
    (env.faults = [] →
      ((¬Inflight s.data lease.messageKey → after = s.data) ↔
        AckGuard s.data lease.messageKey)) := by
  intro after
  have hspares : AckGuard s.data lease.messageKey → ¬Inflight s.data lease.messageKey →
      after = s.data := by
    rintro (hinflight | habsent) hnot
    · exact absurd hinflight hnot
    · obtain ⟨-, ⟨-, hsame, -⟩ | ⟨-, hacked⟩⟩ :=
        @perform_performs True schema env s hsaved (.inl trivial) (.ack lease)
      · exact hsame
      · exact hacked.trans ((acked_eq _ _).trans (hinv.deleteKv_of_absent habsent))
  refine ⟨hspares, fun hfaults => ⟨fun hspared => ?_, hspares⟩⟩
  by_contra hguard
  obtain ⟨hnot, hvalue⟩ := not_or.mp hguard
  obtain ⟨-, ⟨-, -, hf | hrefuses⟩ | ⟨-, hacked⟩⟩ :=
    @perform_performs False schema env s hsaved (.inr hfaults) (.ack lease)
  · exact hf
  · exact hrefuses
  · have hgone : after.value? lease.messageKey = none := by
      rw [show after = acked lease.messageKey s.data from hacked, acked_eq]
      exact Tables.deleteKv_self.1
    exact hvalue (hspared hnot ▸ hgone)

/-! ### Runs -/

theorem Stored.updateIndex (h : Stored t k) {p : IndexRow → Bool} {f : IndexRow → IndexRow}
    (hkey : ∀ r, (f r).messageKey = r.messageKey) : Stored (t.updateIndex p f) k := by
  refine ⟨h.1, ?_⟩
  rw [Tables.row?_updateIndex hkey]
  simpa using h.2

theorem Stored.editsValue (h : Stored t k) {now : Int} {edit : Json String → Option (Json String)}
    (hedits : EditsValue key now edit t t') : Stored t' k := by
  rcases hedits with rfl | ⟨j, j', -, -, rfl⟩
  · exact h
  · refine ⟨?_, h.2⟩
    rw [Tables.value?_updateKvValue]
    split
    · simpa using h.1
    · exact h.1

theorem Stored.enqueued (message : MessageEnvelope) (h : Stored t k ∨ k = message.key) :
    Stored (enqueued env message t) k := by
  unfold Stored SQLite.enqueued
  rw [Tables.value?_append, Tables.row?, row?_append]
  rcases h with ⟨hvalue, hrow⟩ | rfl
  · constructor
    · simp [hvalue]
    · rw [Ne, Option.or_eq_none_iff]
      exact fun hnone => hrow hnone.1
  · simp [newRow]

/-- A performed call removes no message, except by its acknowledgement. -/
theorem Stored.effect (h : Stored t k) {call : Call} {reply : Reply}
    (hpolicy : ∀ queue policy, call ≠ .savePolicy queue policy)
    (hack : ∀ lease, call = .ack lease → lease.messageKey ≠ k)
    (heffect : Effect schema env call reply t t') : Stored t' k := by
  cases heffect.change with
  | inserted message => exact Stored.enqueued message (.inl h)
  | deleted lease =>
    obtain ⟨hvalue, hrow⟩ := Tables.deleteKv_of_ne (t := t) (hack lease rfl).symm
    rw [Stored, hvalue, hrow]
    exact h
  | stored queue policy => exact absurd rfl (hpolicy queue policy)
  | updated p f key edit hkeeps hmarks hedits =>
    refine Stored.editsValue ?_ hedits
    exact h.updateIndex fun r => (hkeeps r).1

/-- The step enqueued a message under the key and reported success. -/
def Enqueued (key : String) (r : Step Store (Env × Call) Reply) : Prop :=
  ∃ message, r.input.2 = .enqueue message ∧ message.key = key ∧ r.output.succeeded = true

/-- The step acknowledged the key while its row was inflight. -/
def AckedInflight (key : String) (r : Step Store (Env × Call) Reply) : Prop :=
  ∃ lease, r.input.2 = .ack lease ∧ lease.messageKey = key ∧ Inflight r.before.data key

/-- Runs of the message calls in which every acknowledgement meets the condition. -/
def Guarded (_ : History Store (Env × Call) Reply) (s : Store) (i : Env × Call) : Prop :=
  (∀ queue policy, i.2 ≠ .savePolicy queue policy) ∧
  ∀ lease, i.2 = .ack lease → AckGuard s.data lease.messageKey

/-- **No message is lost.** In a guarded run, a message enqueued at some step is still stored,
    or a later step acknowledged it while it was inflight. -/
theorem stored_until_acked {h : History Store (Env × Call) Reply} {s : Store}
    (run : Run (adapter schema).machine Guarded h s) :
    ∀ newer r older key, h = newer ++ r :: older → Enqueued key r →
      Stored s.data key ∨ ∃ r' ∈ newer, AckedInflight key r' := by
  induction run with
  | start => simp
  | @step h s i run ok ih =>
    obtain ⟨env, call⟩ := i
    obtain ⟨hsaved, hinv⟩ := integrity_of_run run
    obtain ⟨-, hperforms⟩ := @perform_performs True schema env s hsaved (.inl trivial) call
    intro newer r older key hsplit henqueued
    rcases newer with _ | ⟨r', newer⟩
    · -- the last step is the enqueue itself
      obtain ⟨rfl, rfl⟩ := List.cons.inj hsplit
      obtain ⟨message, hcall, rfl, hok⟩ := henqueued
      obtain rfl : call = .enqueue message := hcall
      left
      rcases hperforms with ⟨hrefusal, -, -⟩ | ⟨-, -, hafter⟩
      · have hreply : ((adapter schema).perform env (.enqueue message) s).1 =
            .status (.ok ()) := Reply.succeeded_iff.mp hok
        rw [hreply] at hrefusal
        obtain ⟨e, he⟩ := hrefusal
        cases he
      · have hstored := @Stored.enqueued env s.data _ message (.inr rfl)
        rw [← hafter] at hstored
        exact hstored
    · rw [List.cons_append, List.cons.injEq] at hsplit
      obtain ⟨rfl, htail⟩ := hsplit
      rcases ih newer r older key htail henqueued with hstored | ⟨r', hr', hacked⟩
      · by_cases hack : ∃ lease, call = .ack lease ∧ lease.messageKey = key
        · obtain ⟨lease, rfl, rfl⟩ := hack
          right
          refine ⟨_, List.mem_cons_self, lease, rfl, rfl, ?_⟩
          exact (ok.2 lease rfl).resolve_right hstored.1
        · left
          rcases hperforms with ⟨-, hsame, -⟩ | heffect
          · have hafter : Stored ((adapter schema).perform env call s).2.data key :=
              hsame ▸ hstored
            exact hafter
          · exact hstored.effect ok.1 (fun lease hcall hkey => hack ⟨lease, hcall, hkey⟩) heffect
      · exact .inr ⟨r', List.mem_cons_of_mem _ hr', hacked⟩

/-- **What `ack` removes.** In every reachable state and for every token, the acknowledgement
    leaves a key alone that is not inflight exactly when there is nothing to remove; and in
    runs whose acknowledgements all meet that condition, an enqueued message leaves the store
    only by an acknowledgement issued while it was inflight. -/
theorem ack_removes_only_inflight (schema : SchemaFile) :
    (∀ h s, Run (adapter schema).machine (fun _ _ _ => True) h s →
      ∀ (env : Env) (lease : LeaseToken),
        let after := ((adapter schema).perform env (.ack lease) s).2.data
        (AckGuard s.data lease.messageKey → ¬Inflight s.data lease.messageKey →
          after = s.data) ∧
        (env.faults = [] →
          ((¬Inflight s.data lease.messageKey → after = s.data) ↔
            AckGuard s.data lease.messageKey))) ∧
    ∀ h s, Run (adapter schema).machine Guarded h s →
      ∀ newer r older key, h = newer ++ r :: older → Enqueued key r →
        Stored s.data key ∨ ∃ r' ∈ newer, AckedInflight key r' := by
  refine ⟨fun h s run env lease => ?_, fun h s run => stored_until_acked run⟩
  obtain ⟨hsaved, hinv⟩ := integrity_of_run run
  exact ack_spares_iff hsaved hinv lease

/-- Both parts at a message that has been published and leased. -/
theorem ack_removes_only_inflight_leased :
    let env (n : Nat) : Env := { now := n + 1, now_pos := Int.succ_ofNat_pos n }
    let message : MessageEnvelope :=
      { key := messageKey "q" "a", messageId := "a", queue := "q", payloadJson := "{}"
        attributesJson := "{}" }
    let M := (adapter .mainMq).machine
    let published := M.stepAt M.start (env 1, .enqueue message)
    let leased := M.stepAt published.after (env 2, .leaseNext "q" "c" 30)
    let after := ((adapter .mainMq).perform (env 3) (.ack ⟨"", messageKey "q" "a", "c", 0⟩)
      leased.after).2.data
    ((¬Inflight leased.after.data (messageKey "q" "a") → after = leased.after.data) ↔
        AckGuard leased.after.data (messageKey "q" "a")) ∧
      (Stored leased.after.data (messageKey "q" "a") ∨
        ∃ r' ∈ [leased], AckedInflight (messageKey "q" "a") r') := by
  intro env message M published leased after
  have hpublish : Guarded [] M.start (env 1, .enqueue message) := ⟨by simp, by simp⟩
  have hlease : Guarded [published] published.after (env 2, .leaseNext "q" "c" 30) :=
    ⟨by simp, by simp⟩
  have run : Run M Guarded [published] published.after := Run.stepAt .start _ hpublish
  have run : Run M Guarded [leased, published] leased.after := Run.stepAt run _ hlease
  constructor
  · have hparts := (ack_removes_only_inflight .mainMq).1 [leased, published] leased.after
      (run.mono fun _ _ _ _ _ => trivial) (env 3) ⟨"", messageKey "q" "a", "c", 0⟩
    exact hparts.2 rfl
  · exact (ack_removes_only_inflight .mainMq).2 _ _ run [leased] published []
      (messageKey "q" "a") rfl ⟨message, rfl, rfl, by decide⟩

/-- A published message that nobody has leased is removed by an acknowledgement. -/
theorem ack_removes_ready_message :
    let env (n : Nat) : Env := { now := n + 1, now_pos := Int.succ_ofNat_pos n }
    let message : MessageEnvelope :=
      { key := messageKey "q" "a", messageId := "a", queue := "q", payloadJson := "{}"
        attributesJson := "{}" }
    let before := ((adapter .mainMq).machine.replay [(env 1, .enqueue message)]
      ([], (adapter .mainMq).machine.start)).2
    let after := (adapter .mainMq).perform (env 2) (.ack ⟨"", messageKey "q" "a", "c", 0⟩) before
    (before.data.row? (messageKey "q" "a")).map IndexRow.state = some .ready ∧
      after.1.succeeded = true ∧ after.2.data.row? (messageKey "q" "a") = none ∧
      (after.2.data.value? (messageKey "q" "a")).isNone = true := by
  decide

end YirangMQ.SQLite

import YirangMQ.SQLite.Fidelity

namespace YirangMQ.SQLite

/-!
# The SQLite calls are atomic on failure

* `Opens`, `AllOpen` — every value of the store is a document that `lease_next` can parse, whichever
  key it is found under;
* `Effect.allOpen`, `allOpen_of_run` — every performed call keeps them so;
* `Effect.succeeds` — so a call that is performed reports success: `lease_next` commits before it
  parses the message, and the values it may find all parse;
* `failure_atomic` — **a call that reports failure has changed neither table**, after every run
  of calls and whichever statements fail, and no call leaves a transaction open.
-/

variable {schema : SchemaFile} {env : Env} {t t' : Tables} {j j' : Json String}

/-- The document has the fields of a message with the types `lease_next` expects, or not at all. -/
structure Opens (j : Json String) : Prop where
  object : j.isObject = true
  strings : ∀ k ∈ ["messageId", "queue", "payload", "attributes"], ∀ d, ∃ text,
    j.valueStr k d = some text
  createdAt : ∃ n, j.valueInt "createdAt" 0 = some n

/-- Every value can be parsed. -/
def AllOpen (t : Tables) : Prop := ∀ r ∈ t.kv, ∃ j, r.value = some j ∧ Opens j

/-! ### Documents -/

/-- A document with the content of a message can be opened. -/
theorem HasContent.opens {m : MessageEnvelope} (h : HasContent m j) : Opens j where
  object := h.object
  strings k hk d := by
    simp only [List.mem_cons, List.not_mem_nil, or_false] at hk
    rcases hk with rfl | rfl | rfl | rfl
    · exact ⟨_, Json.valueStr_of_get? d h.messageId⟩
    · exact ⟨_, Json.valueStr_of_get? d h.queue⟩
    · exact ⟨_, Json.valueStr_of_get? d h.payload⟩
    · exact ⟨_, Json.valueStr_of_get? d h.attributes⟩
  createdAt := by
    obtain ⟨n, hn, -⟩ := h.createdAt
    exact ⟨n, Json.valueInt_of_get? 0 hn⟩

/-- A policy has none of the fields. -/
theorem opens_toJson (policy : QueuePolicy) : Opens policy.toJson where
  object := rfl
  strings k hk d := by
    simp only [List.mem_cons, List.not_mem_nil, or_false] at hk
    rcases hk with rfl | rfl | rfl | rfl
    · exact ⟨d, rfl⟩
    · exact ⟨d, rfl⟩
    · exact ⟨d, rfl⟩
    · exact ⟨d, rfl⟩
  createdAt := ⟨0, rfl⟩

/-- It can be opened after an edit that spares it. -/
theorem Opens.edit {edit : Json String → Option (Json String)} (h : Opens j)
    (hspares : Spares edit) (hedit : edit j = some j') : Opens j' := by
  obtain ⟨hobject, hget⟩ := hspares j j' hedit
  refine ⟨hobject, fun k hk d => ?_, ?_⟩
  · have hsame : j'.get? k = j.get? k := hget k (by simp at hk ⊢; tauto)
    rw [Json.valueStr_congr h.object hobject hsame]
    exact h.strings k hk d
  · have hsame : j'.get? "createdAt" = j.get? "createdAt" := hget _ (by simp)
    rw [Json.valueInt_congr h.object hobject hsame]
    exact h.createdAt

/-- A value that can be opened makes a message. -/
theorem Opens.leasedMessage (h : Opens j) (queue : String) (row : IndexRow) :
    ∃ message, leasedMessage queue row (some j) = some message := by
  obtain ⟨id, hid⟩ := h.strings "messageId" (by simp) ""
  obtain ⟨name, hname⟩ := h.strings "queue" (by simp) queue
  obtain ⟨payload, hpayload⟩ := h.strings "payload" (by simp) ""
  obtain ⟨attributes, hattributes⟩ := h.strings "attributes" (by simp) ""
  obtain ⟨n, hn⟩ := h.createdAt
  simp [SQLite.leasedMessage, hid, hname, hpayload, hattributes, hn]

/-! ### One lemma for each statement -/

/-- Every stored value can be opened. -/
theorem AllOpen.value (h : AllOpen t) {key : String} {value : JsonText}
    (hvalue : t.value? key = some value) : ∃ j, value = some j ∧ Opens j := by
  obtain ⟨r, hrow, rfl⟩ := Option.map_eq_some_iff.mp hvalue
  exact h r (Table.row?_mem hrow)

/-- A value that can be opened may be inserted. -/
theorem AllOpen.append (h : AllOpen t) {row : KvRow} {index : List IndexRow}
    (hrow : ∃ j, row.value = some j ∧ Opens j) : AllOpen ⟨t.kv ++ [row], index⟩ := by
  intro r hr
  rcases List.mem_append.mp hr with hr | hr
  · exact h r hr
  · rw [List.mem_singleton.mp hr]
    exact hrow

/-- Deleting a key leaves values that can be opened. -/
theorem AllOpen.deleteKv (h : AllOpen t) (key : String) : AllOpen (t.deleteKv key) :=
  fun r hr => h r (List.mem_filter.mp hr).1

/-- So does an update of the index. -/
theorem AllOpen.updateIndex (h : AllOpen t) (p : IndexRow → Bool) (f : IndexRow → IndexRow) :
    AllOpen (t.updateIndex p f) := h

/-- So does an edit of a value. -/
theorem AllOpen.editsValue (h : AllOpen t) {key : String} {time : Int}
    {edit : Json String → Option (Json String)} (hspares : Spares edit)
    (hedits : EditsValue key time edit t t') : AllOpen t' := by
  rcases hedits with rfl | ⟨j, j', hvalue, hedit, rfl⟩
  · exact h
  · obtain ⟨_, hj, hopens⟩ := h.value hvalue
    obtain rfl := Option.some.inj hj
    intro r hr
    obtain ⟨r, hmem, rfl⟩ := Table.mem_update.mp hr
    split
    · exact ⟨j', rfl, hopens.edit hspares hedit⟩
    · exact h r hmem

/-! ### Every call -/

/-- **Every performed call keeps the values so that they can be parsed.** -/
theorem Effect.allOpen (h : AllOpen t) {call : Call} {reply : Reply}
    (heffect : Effect schema env call reply t t') : AllOpen t' := by
  cases heffect.change with
  | inserted message => exact h.append ⟨_, rfl, (hasContent_envelopeJson message env.now).opens⟩
  | deleted lease => exact h.deleteKv _
  | stored queue policy => exact (h.deleteKv _).append ⟨_, rfl, opens_toJson policy⟩
  | updated p f key edit hkeeps hmarks hedits =>
    exact AllOpen.editsValue (AllOpen.updateIndex h p f) hmarks.spares hedits

/-- **So does every call**, whatever it is given. -/
theorem AllOpen.perform {s : Store} (hsaved : s.saved = none) (h : AllOpen s.data) (env : Env)
    (call : Call) : ((adapter schema).perform env call s).2.saved = none ∧
      AllOpen ((adapter schema).perform env call s).2.data := by
  obtain ⟨hopen, hperforms⟩ := @perform_performs True schema env s hsaved (.inl trivial) call
  rcases hperforms with ⟨-, hsame, -⟩ | heffect
  · exact ⟨hopen, hsame ▸ h⟩
  · exact ⟨hopen, heffect.allOpen h⟩

/-- After every run of calls no transaction is open and every value can be parsed. -/
theorem allOpen_of_run {allowed : History Store (Env × Call) Reply → Store → Env × Call → Prop}
    {h : History Store (Env × Call) Reply} {s : Store}
    (run : Run (adapter schema).machine allowed h s) : s.saved = none ∧ AllOpen s.data := by
  induction run with
  | start => exact ⟨rfl, by simp [AllOpen, Adapter.machine, adapter, Tables.empty]⟩
  | @step h s i run ok ih =>
    obtain ⟨hsaved, hopens⟩ := ih
    exact hopens.perform hsaved i.1 i.2

/-- A performed call reports success. -/
theorem Effect.succeeds (h : AllOpen t) {call : Call} {reply : Reply}
    (heffect : Effect schema env call reply t t') : reply.failed = false := by
  cases call with
  | leaseNext queue c timeout =>
    obtain ⟨row, value, -, hvalue, rfl, -⟩ := heffect
    obtain ⟨j, rfl, hopens⟩ := h.value hvalue
    obtain ⟨message, hmessage⟩ := hopens.leasedMessage queue row
    rw [leaseReply, hmessage]
    rfl
  | recoverExpiredLeases | processDelayedMessages =>
    obtain ⟨⟨n, rfl⟩, -⟩ := heffect
    rfl
  | _ =>
    have hreply : reply = .status (.ok ()) := heffect.1
    rw [hreply]
    rfl

/-- **A call that reports failure has changed neither table**, and after every call the next one
    can begin its transaction. -/
theorem failure_atomic {allowed : History Store (Env × Call) Reply → Store → Env × Call → Prop}
    {h : History Store (Env × Call) Reply} {s : Store}
    (run : Run (adapter schema).machine allowed h s) (env : Env) (call : Call) :
    (((adapter schema).perform env call s).1.failed = true →
      ((adapter schema).perform env call s).2.data = s.data) ∧
    ((adapter schema).perform env call s).2.saved = none ∧
    ∃ begun, Conn.begun ((adapter schema).perform env call s).2 = .ok ((), begun) := by
  obtain ⟨hsaved, hopens⟩ := allOpen_of_run run
  obtain ⟨hopen, hperforms⟩ := @perform_performs True schema env s hsaved (.inl trivial) call
  refine ⟨fun hfailed => ?_, hopen, ?_⟩
  · rcases hperforms with ⟨-, hsame, -⟩ | heffect
    · exact hsame
    · rw [heffect.succeeds hopens] at hfailed
      cases hfailed
  · rw [Conn.begun, hopen]
    exact ⟨_, rfl⟩

/-- `lease_next` of a published message whose COMMIT fails. -/
theorem failure_atomic_leaseNext :
    let message : MessageEnvelope := {
      key := "msg:q:a", messageId := "a", queue := "q", payloadJson := "1", attributesJson := "" }
    let published := ((adapter .mainMq).perform ⟨1, by decide, "", []⟩ (.enqueue message)
      (adapter .mainMq).start).2
    let failing := (adapter .mainMq).perform
      ⟨2, by decide, "", List.replicate 7 none ++ [some "disk I/O error"]⟩
      (.leaseNext "q" "c" 30) published
    failing.1.failed = true ∧ failing.2.data = published.data := by
  intro message published failing
  have hrun : Run (adapter .mainMq).machine (fun _ _ _ => True)
      [(adapter .mainMq).machine.stepAt (adapter .mainMq).start
        (⟨1, by decide, "", []⟩, .enqueue message)] published := .step .start trivial
  have hfailed : failing.1.failed = true := by decide
  exact ⟨hfailed, (failure_atomic hrun _ _).1 hfailed⟩

end YirangMQ.SQLite

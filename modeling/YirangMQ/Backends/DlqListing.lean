import YirangMQ.Backend.DeadLetters
import YirangMQ.Backends.Priority
import YirangMQ.FileSystem.DeadLetters
import Mathlib.Data.List.TakeWhile

namespace YirangMQ

open Program

/-!
# What `list_dlq_messages` says

`move_to_dlq` writes the reason and the time of a dead letter into the index on SQLite and into the
document on the other backends; `nack` writes them into the document on all three.  On the two
backends over SQLite the listing reads the index.

* `Tables.listed_perm`, `Tables.listed_sorted` — what the index says;
* `SQLite.storedLetter` — what a run of the SQLite adapter has written there;
* `FileSystem.dead_documents` — what a call writes into the documents in `dlq/`;
* `dlq_listing_iff` — **when the listing is faithful**, with `nack_not_listed`, where it is not.
-/

/-! ### The index -/

namespace Tables

variable {published : List MessageEnvelope} {t : Tables} {queue : String}

/-- Cutting a text that is cut changes nothing. -/
theorem columnText_idem (text : String) :
    columnText (some (columnText (some text))) = columnText (some text) := by
  rw [columnText_eq_iff]
  intro hmem
  rw [columnText, String.toList_ofList] at hmem
  simpa using List.mem_takeWhile_imp hmem

/-- The rows of dead letters that a listing of the queue shows. -/
def deadRow (queue : String) (r : IndexRow) : Bool := r.queue = queue ∧ r.state = .dlq

/-- What the listing shows of a message. -/
def shown (t : Tables) (m : MessageEnvelope) : DlqMessageInfo :=
  ((t.row? m.key).map dlqInfo).getD ⟨"", "", "", 0, 0⟩

/-- What a listing shows without a limit. -/
def listed (t : Tables) (queue : String) : List DlqMessageInfo :=
  ((t.index.filter (deadRow queue)).insertionSort fun r r' => notOlder r r' = true).map dlqInfo

/-- A listing is the beginning of the list of all dead letters. -/
theorem deadRows_eq {n : Int} (hn : 0 ≤ n) :
    (t.deadRows queue n).map dlqInfo = (t.listed queue).take n.toNat := by
  have hlimit : ¬n < 0 := by omega
  rw [deadRows, if_neg hlimit, List.map_take]
  rfl

/-- The messages in the DLQ are those of the dead rows. -/
theorem mem_dead_iff (hinteg : t.Integrity) (hdescribed : t.Described published)
    (hwell : WellPublished published) (hstate : ∀ r ∈ t.index, r.state ≠ .archived) {k : String} :
    k ∈ (t.index.filter (deadRow queue)).map IndexRow.messageKey ↔
      ∃ m ∈ published, m.queue = queue ∧ (∃ found, t.slot m.key = some found ∧
        found.phase = .dlq) ∧ m.key = k := by
  constructor
  · intro hk
    obtain ⟨r, hr, rfl⟩ := List.mem_map.mp hk
    obtain ⟨hmem, hdead⟩ := List.mem_filter.mp hr
    simp only [deadRow, decide_eq_true_eq] at hdead
    obtain ⟨m, hm, hdescribes⟩ := hdescribed r hmem
    refine ⟨m, hm, hdescribes.queue.symm.trans hdead.1, ⟨r.slot, ?_, ?_⟩, hdescribes.key.symm⟩
    · rw [slot, ← hdescribes.key, hinteg.row?_of_mem hmem, Option.map_some]
    · simp [IndexRow.slot, hdead.2]
  · rintro ⟨m, hm, hqueue, ⟨found, hslot, hphase⟩, rfl⟩
    obtain ⟨r, hrow, hkey, rfl⟩ := row?_of_slot hslot
    have hmem := Table.row?_mem hrow
    have hdead : r.state = .dlq := by
      have hnot := hstate r hmem
      unfold IndexRow.slot at hphase
      cases hr : r.state <;> simp [hr] at hphase hnot ⊢
    have hrowQueue := (hdescribed.describes hwell hm hrow).queue.trans hqueue
    exact List.mem_map.mpr ⟨r, List.mem_filter.mpr ⟨hmem, by simp [deadRow, hrowQueue, hdead]⟩, hkey⟩

/-- **The listing shows the messages in the DLQ.** -/
theorem listed_perm (hinteg : t.Integrity) (hdescribed : t.Described published)
    (hwell : WellPublished published) (hstate : ∀ r ∈ t.index, r.state ≠ .archived)
    {dead : List MessageEnvelope} (hnodup : (dead.map MessageEnvelope.key).Nodup)
    (hdead : ∀ m, m ∈ dead ↔ m ∈ published ∧ m.queue = queue ∧
      ∃ found, t.slot m.key = some found ∧ found.phase = .dlq) :
    (t.listed queue).Perm (dead.map t.shown) := by
  -- The keys listed are those of the dead messages, in some order.
  have hkeys : ((t.index.filter (deadRow queue)).map IndexRow.messageKey).Perm
      (dead.map MessageEnvelope.key) := by
    refine (List.perm_ext_iff_of_nodup ?_ hnodup).mpr fun k => ?_
    · exact hinteg.indexKeyed.sublist (List.filter_sublist.map _)
    · rw [mem_dead_iff hinteg hdescribed hwell hstate, List.mem_map]
      constructor
      · rintro ⟨m, hm, hqueue, hslot, rfl⟩
        exact ⟨m, (hdead m).mpr ⟨hm, hqueue, hslot⟩, rfl⟩
      · rintro ⟨m, hm, rfl⟩
        obtain ⟨hmem, hqueue, hslot⟩ := (hdead m).mp hm
        exact ⟨m, hmem, hqueue, hslot, rfl⟩
  -- Each entry is determined by its key.
  have hrows : (t.index.filter (deadRow queue)).map dlqInfo =
      ((t.index.filter (deadRow queue)).map IndexRow.messageKey).map fun k =>
        ((t.row? k).map dlqInfo).getD ⟨"", "", "", 0, 0⟩ := by
    rw [List.map_map]
    refine List.map_congr_left fun r hr => ?_
    have hrow := hinteg.row?_of_mem (List.mem_filter.mp hr).1
    show dlqInfo r = ((t.row? r.messageKey).map dlqInfo).getD _
    rw [hrow]
    rfl
  have hsorted : (t.listed queue).Perm ((t.index.filter (deadRow queue)).map dlqInfo) :=
    (List.perm_insertionSort _ _).map _
  rw [hrows] at hsorted
  refine hsorted.trans ?_
  have hmapped := hkeys.map fun k => ((t.row? k).map dlqInfo).getD ⟨"", "", "", 0, 0⟩
  rw [List.map_map (l := dead)] at hmapped
  exact hmapped

/-- **The listing shows the latest first**, where no row has a time before the epoch. -/
theorem listed_sorted (htime : ∀ r ∈ t.index, ∀ time, r.dlqAt = some time → 0 ≤ time) :
    (t.listed queue).Pairwise fun e e' => e'.dlqAtMs ≤ e.dlqAtMs := by
  have htotal : Std.Total (fun r r' : IndexRow => notOlder r r' = true) := by
    refine ⟨fun r r' => ?_⟩
    unfold notOlder
    cases r.dlqAt <;> cases r'.dlqAt <;> simp [Int.le_total]
  have htrans : IsTrans IndexRow (fun r r' => notOlder r r' = true) := by
    refine ⟨fun a b c hab hbc => ?_⟩
    unfold notOlder at hab hbc ⊢
    cases ha : a.dlqAt <;> cases hb : b.dlqAt <;> cases hc : c.dlqAt <;>
      simp only [ha, hb, hc, decide_eq_true_eq, Bool.false_eq_true] at hab hbc ⊢
    omega
  rw [listed, List.pairwise_map]
  refine (List.pairwise_insertionSort _ _).imp_of_mem fun {r r'} hr hr' hle => ?_
  have hmem : r ∈ t.index := (List.mem_filter.mp ((List.mem_insertionSort _).mp hr)).1
  have hpos := htime r hmem
  unfold notOlder at hle
  show r'.dlqAt.getD 0 ≤ r.dlqAt.getD 0
  cases hat : r.dlqAt with
  | none => cases hat' : r'.dlqAt <;> simp [hat, hat'] at hle ⊢
  | some time =>
    have hzero := hpos time hat
    cases hat' : r'.dlqAt with
    | none => simpa using hzero
    | some time' => simpa [hat, hat'] using hle

end Tables

/-! ### What `move_to_dlq` writes into the index -/

namespace SQLite

variable {schema : SchemaFile} {env : Env} {call : Call} {reply : Reply} {t t' : Tables}
  {k : String} {r' : IndexRow} {h : History Store (Env × Call) Reply} {s : Store}

/-- The reason and the time of a key that `move_to_dlq` has stored since it was last
    reprocessed. -/
def storedLetter (key : String) : History Store (Env × Call) Reply → Option (String × Int)
  | [] => none
  | r :: h =>
    match r.output.succeeded, r.input.2, r.before.data.row? key with
    | true, .moveToDlq messageKey reason, some _ =>
      if messageKey = key then some (reason, r.input.1.now) else storedLetter key h
    | true, .reprocessDlqMessage messageKey, some row =>
      if messageKey = key ∧ row.state = .dlq then none else storedLetter key h
    | _, _, _ => storedLetter key h

/-- The columns of a row that hold these. -/
def letterColumns (r : IndexRow) : Option String × Option Int := (r.dlqReason, r.dlqAt)

/-- The columns of the row of `k` after a performed call. -/
def columnsAfter (env : Env) (k : String) (r : IndexRow) : Call → Option String × Option Int
  | .moveToDlq key reason =>
    if key = k then (some reason, some env.now) else letterColumns r
  | .reprocessDlqMessage key =>
    if key = k ∧ r.state = .dlq then (none, none) else letterColumns r
  | _ => letterColumns r

/-- Where the columns of the row of `k` after a call come from. -/
def ColumnsFrom (env : Env) (call : Call) (t : Tables) (k : String) (r' : IndexRow) : Prop :=
  (∃ m, call = .enqueue m ∧ m.key = k ∧ letterColumns r' = (none, none)) ∨
  ∃ r, t.row? k = some r ∧ letterColumns r' = columnsAfter env k r call

/-- An update with a condition on the key. -/
theorem ColumnsFrom.updated {p : IndexRow → Bool} {f : IndexRow → IndexRow}
    (h : (t.updateIndex p f).row? k = some r') (hf : ∀ r, (f r).messageKey = r.messageKey)
    (hcolumns : ∀ r, r.messageKey = k →
      letterColumns (if p r then f r else r) = columnsAfter env k r call) :
    ColumnsFrom env call t k r' := by
  rw [Tables.row?_updateIndex hf] at h
  obtain ⟨r, hrow, rfl⟩ := Option.map_eq_some_iff.mp h
  exact .inr ⟨r, hrow, hcolumns r (Table.row?_key hrow)⟩

/-- An update of other columns. -/
theorem ColumnsFrom.kept {p : IndexRow → Bool} {f : IndexRow → IndexRow}
    (h : (t.updateIndex p f).row? k = some r') (hf : ∀ r, (f r).messageKey = r.messageKey)
    (hkept : ∀ r, letterColumns (f r) = letterColumns r)
    (hcall : ∀ r, columnsAfter env k r call = letterColumns r) : ColumnsFrom env call t k r' := by
  refine .updated h hf fun r _ => ?_
  rw [hcall]
  split
  case isTrue => exact hkept r
  case isFalse => rfl

/-- A call leaves the columns of a key as they were, or writes what it should. -/
theorem Effect.columnsFrom (heffect : Effect schema env call reply t t') (hrow : t'.row? k = some r') :
    ColumnsFrom env call t k r' := by
  cases call with
  | enqueue message =>
    obtain ⟨-, -, rfl⟩ := heffect
    rcases Tables.row?_inserted hrow with hold | ⟨-, hkey, rfl⟩
    · exact .inr ⟨r', hold, rfl⟩
    · exact .inl ⟨message, rfl, hkey, rfl⟩
  | leaseNext queue c timeout =>
    obtain ⟨row, value, -, -, -, rfl⟩ := heffect
    exact .kept hrow (fun _ => rfl) (fun _ => rfl) fun _ => rfl
  | ack lease =>
    obtain ⟨-, rfl⟩ := heffect
    rw [acked_eq] at hrow
    exact .inr ⟨r', Tables.row?_deleted hrow, rfl⟩
  | nack lease reason requeue =>
    obtain ⟨-, heffect⟩ := heffect
    cases requeue with
    | true =>
      simp only [if_true] at heffect
      subst heffect
      exact .kept hrow (fun _ => rfl) (fun _ => rfl) fun _ => rfl
    | false =>
      -- `nack` edits the value only, so the columns of the row keep what they had.
      simp only [Bool.false_eq_true, if_false] at heffect
      rw [Tables.row?_editsValue heffect] at hrow
      exact .kept hrow (fun _ => rfl) (fun _ => rfl) fun _ => rfl
  | extendLease lease timeout =>
    obtain ⟨-, rfl⟩ := heffect
    exact .kept hrow (fun _ => rfl) (fun _ => rfl) fun _ => rfl
  | savePolicy queue policy =>
    obtain ⟨-, rfl⟩ := heffect
    exact .inr ⟨r', @Tables.row?_deleted t ("policy:" ++ queue) k r' hrow, rfl⟩
  | recoverExpiredLeases =>
    obtain ⟨-, rfl⟩ := heffect
    exact .kept hrow (fun _ => rfl) (fun _ => rfl) fun _ => rfl
  | processDelayedMessages =>
    obtain ⟨-, rfl⟩ := heffect
    exact .kept hrow (fun _ => rfl) (fun _ => rfl) fun _ => rfl
  | delayMessage key delayMs =>
    obtain ⟨-, rfl⟩ := heffect
    exact .kept hrow (fun _ => rfl) (fun _ => rfl) fun _ => rfl
  | moveToDlq key reason =>
    -- The two calls that write the columns.
    obtain ⟨-, heffect⟩ := heffect
    rw [Tables.row?_editsValue heffect] at hrow
    refine .updated hrow (fun _ => rfl) fun r hkey => ?_
    subst hkey
    by_cases hsame : key = r.messageKey
    · simp [columnsAfter, letterColumns, hsame]
    · simp [columnsAfter, letterColumns, hsame, Ne.symm hsame]
  | reprocessDlqMessage key =>
    obtain ⟨-, heffect⟩ := heffect
    rw [Tables.row?_editsValue heffect] at hrow
    refine .updated hrow (fun _ => rfl) fun r hkey => ?_
    subst hkey
    by_cases hsame : key = r.messageKey
    · by_cases hdead : r.state = .dlq
      · simp [columnsAfter, letterColumns, hsame, hdead]
      · simp [columnsAfter, letterColumns, hsame, hdead]
    · simp [columnsAfter, letterColumns, hsame, Ne.symm hsame]

/-- A key without a row has nothing stored. -/
theorem storedLetter_of_none {r : Step Store (Env × Call) Reply}
    (hrow : r.before.data.row? k = none) : storedLetter k (r :: h) = storedLetter k h := by
  rw [storedLetter, hrow]
  split <;> simp_all

/-- What a step stores of a key that has a row. -/
theorem columnsAfter_step {r : IndexRow} (hrow : s.data.row? k = some r)
    (heffect : Effect schema env call ((adapter schema).perform env call s).1 s.data t')
    (hcolumns : letterColumns r = ((storedLetter k h).map Prod.fst, (storedLetter k h).map Prod.snd)) :
    columnsAfter env k r call =
      ((storedLetter k ((adapter schema).machine.stepAt s (env, call) :: h)).map Prod.fst,
        (storedLetter k ((adapter schema).machine.stepAt s (env, call) :: h)).map Prod.snd) := by
  have hbefore : ((adapter schema).machine.stepAt s (env, call)).before.data.row? k = some r := hrow
  rw [storedLetter, hbefore]
  cases call with
  | moveToDlq key reason =>
    have hok : ((adapter schema).machine.stepAt s (env, .moveToDlq key reason)).output =
      .status (.ok ()) := heffect.1
    rw [hok]
    by_cases hsame : key = k
    · simp [columnsAfter, hsame, Reply.succeeded]
    · simpa [columnsAfter, hsame, Reply.succeeded] using hcolumns
  | reprocessDlqMessage key =>
    have hok : ((adapter schema).machine.stepAt s (env, .reprocessDlqMessage key)).output =
      .status (.ok ()) := heffect.1
    rw [hok]
    by_cases hsame : key = k ∧ r.state = .dlq
    · simp [columnsAfter, hsame, Reply.succeeded]
    · simpa [columnsAfter, hsame, Reply.succeeded] using hcolumns
  | _ =>
    -- the other calls store nothing
    split
    case h_1 hcall _ => cases hcall
    case h_2 hcall _ => cases hcall
    case h_3 => exact hcolumns

/-- The columns of a row hold what the run has stored there, and nothing is stored of a key that was
    never published. -/
theorem letters_kept (run : Run (adapter schema).machine (lifecycle schema).Admitted h s) :
    (∀ k r, s.data.row? k = some r →
      letterColumns r = ((storedLetter k h).map Prod.fst, (storedLetter k h).map Prod.snd)) ∧
    ∀ k, k ∉ (publishedBy h).map MessageEnvelope.key → storedLetter k h = none := by
  -- The induction is on the run: a refused step changes no row, and a performed one changes the
  -- columns as `columnsAfter` says.
  induction run with
  | start =>
    refine ⟨fun k r hrow => ?_, fun k _ => rfl⟩
    cases hrow
  | @step h s i run ok ih =>
    obtain ⟨env, call⟩ := i
    obtain ⟨hinv, hwell⟩ := (lifecycle schema).inv_of_run run
    have hkeeps : Keeps (publishedBy h) s := hinv
    obtain ⟨hcolumns, hunknown⟩ := ih
    have hknown : ∀ k r, s.data.row? k = some r → k ∈ (publishedBy h).map MessageEnvelope.key := by
      intro k r hrow
      exact hkeeps.known k (by rw [Tables.slot, hrow]; exact Option.some_ne_none _)
    refine ⟨fun k r' hrow => ?_, fun k hk => ?_⟩
    · obtain ⟨-, hperforms⟩ :=
        @perform_performs True schema env s hkeeps.saved (.inl trivial) call
      rcases hperforms with ⟨hrefusal, hsame, -⟩ | heffect
      · have hfailed : ((adapter schema).machine.stepAt s (env, call)).output.succeeded = false :=
          hrefusal.succeeded
        have hbefore : s.data.row? k = some r' := hsame ▸ hrow
        rw [storedLetter, hfailed]
        exact hcolumns k r' hbefore
      · rcases heffect.columnsFrom hrow with ⟨m, rfl, rfl, hnew⟩ | ⟨r, hbefore, hafter⟩
        -- A fresh key had no row and no letter before the publication.
        · have hfresh : m.key ∉ (publishedBy h).map MessageEnvelope.key :=
            fun hmem => hwell.not_fresh hmem ok.fresh
          have hnone : s.data.row? m.key = none := by
            by_contra hsome
            obtain ⟨r, hr⟩ := Option.ne_none_iff_exists'.mp hsome
            exact hfresh (hknown _ r hr)
          rw [storedLetter_of_none hnone, hunknown _ hfresh]
          exact hnew
        · rw [hafter]
          exact columnsAfter_step hbefore heffect (hcolumns k r hbefore)
    -- A key that is not published now was not published before.
    · have hfresh : k ∉ (publishedBy h).map MessageEnvelope.key :=
        fun hmem => hk (call.mem_publishing hmem)
      have hnone : s.data.row? k = none := by
        by_contra hsome
        obtain ⟨r, hr⟩ := Option.ne_none_iff_exists'.mp hsome
        exact hfresh (hknown k r hr)
      rw [storedLetter_of_none hnone]
      exact hunknown k hfresh

/-- A stored letter has been marked by some call. -/
theorem storedLetter_pos {letter : String × Int} (hstored : storedLetter k h = some letter) :
    0 < letter.2 := by
  induction h with
  | nil => cases hstored
  | cons r h ih =>
    unfold storedLetter at hstored
    split at hstored
    case h_1 =>
      split at hstored
      case isTrue =>
        obtain rfl := Option.some.inj hstored
        exact r.input.1.now_pos
      case isFalse => exact ih hstored
    case h_2 =>
      split at hstored
      case isTrue => cases hstored
      case isFalse => exact ih hstored
    case h_3 => exact ih hstored

/-- A listing reads the dead rows, and never fails. -/
theorem listDlqMessages_eq (s : Store) (queue : String) (limit : Int) :
    ((listDlqMessages queue limit).run [] s).1 =
      ((s.data.deadRows queue limit).map Tables.dlqInfo, none) := by
  have hsat : Sat False (fun _ => True) s (listDlqMessages queue limit)
      fun r _ => r = ((s.data.deadRows queue limit).map Tables.dlqInfo, none) := by
    refine Sat.bind (Sat.prim ?_ (by simp [Conn.reading]) fun hf => hf.elim)
    rintro t u ⟨rfl, rfl⟩
    refine ⟨trivial, Sat.bind (Sat.fetch _ (fun n hn => Sat.pure ?_) trivial)⟩
    rw [hn id, List.take_length]
    rfl
  exact (hsat.run (.inr rfl) trivial).1

end SQLite

/-! ### What the two listings of the index are worth -/

section Index

variable {published : List MessageEnvelope} {t : Tables} {queue : String}
  {dead : List MessageEnvelope} {letter : MessageEnvelope → DlqMessageInfo}
  {list : Int → List DlqMessageInfo}

/-- A listing of the index is faithful when it shows each entry as it is. -/
theorem Tables.lists_iff (hinteg : t.Integrity) (hdescribed : t.Described published)
    (hwell : WellPublished published) (hstate : ∀ r ∈ t.index, r.state ≠ .archived)
    (htime : ∀ r ∈ t.index, ∀ time, r.dlqAt = some time → 0 ≤ time)
    (hnodup : (dead.map MessageEnvelope.key).Nodup)
    (hdead : ∀ m, m ∈ dead ↔ m ∈ published ∧ m.queue = queue ∧
      ∃ found, t.slot m.key = some found ∧ found.phase = .dlq)
    (hletter : ∀ m, (letter m).messageKey = m.key)
    (hlist : ∀ n, list n = (t.deadRows queue n).map dlqInfo) :
    Lists DlqMessageInfo.messageKey DlqMessageInfo.dlqAtMs list (dead.map letter) ↔
      ∀ m ∈ dead, t.shown m = letter m := by
  refine lists_iff_shown (fun k => columnText (some k)) ?_ columnText_idem ?_
    (listed_perm hinteg hdescribed hwell hstate hnodup hdead) (listed_sorted htime) ?_
  · simp only [hletter]
    exact hnodup
  · intro m hm
    obtain ⟨-, -, found, hslot, -⟩ := (hdead m).mp hm
    obtain ⟨r, hrow, hkey, -⟩ := Tables.row?_of_slot hslot
    rw [hletter, shown, hrow, Option.map_some, Option.getD_some, dlqInfo, hkey]
  · intro n hn
    rw [hlist n, deadRows_eq hn]

/-- What a listing of the index shows are messages in the DLQ. -/
theorem Tables.dead_of_listed (hinteg : t.Integrity) (hdescribed : t.Described published)
    (hwell : WellPublished published) (hstate : ∀ r ∈ t.index, r.state ≠ .archived)
    (hnodup : (dead.map MessageEnvelope.key).Nodup)
    (hdead : ∀ m, m ∈ dead ↔ m ∈ published ∧ m.queue = queue ∧
      ∃ found, t.slot m.key = some found ∧ found.phase = .dlq)
    (hlist : ∀ n, list n = (t.deadRows queue n).map dlqInfo) {n : Int} (hn : 0 ≤ n)
    {e : DlqMessageInfo} (he : e ∈ list n) :
    ∃ m ∈ dead, columnText (some m.key) = e.messageKey := by
  rw [hlist, deadRows_eq hn] at he
  have hperm := listed_perm hinteg hdescribed hwell hstate hnodup hdead
  obtain ⟨m, hm, rfl⟩ := List.mem_map.mp (hperm.mem_iff.mp (List.mem_of_mem_take he))
  obtain ⟨-, -, found, hslot, -⟩ := (hdead m).mp hm
  obtain ⟨r, hrow, hkey, -⟩ := Tables.row?_of_slot hslot
  refine ⟨m, hm, ?_⟩
  rw [shown, hrow, Option.map_some, Option.getD_some, dlqInfo, hkey]

/-- What the listing shows of a message with a row. -/
theorem Tables.shown_eq {m : MessageEnvelope} {r : IndexRow} (hrow : t.row? m.key = some r) :
    t.shown m = dlqInfo r := by
  rw [shown, hrow, Option.map_some, Option.getD_some]

end Index

namespace SQLite

variable {schema : SchemaFile} {h : History Store (Env × Call) Reply} {s : Store} {queue : String}

/-- What makes the entry of a message faithful: its key has no NUL character, and what
    `move_to_dlq` has stored is, up to one, what the message was last put into the DLQ with. -/
def Recorded (schema : SchemaFile) (h : History Store (Env × Call) Reply) (m : MessageEnvelope) :
    Prop :=
  '\x00' ∉ m.key.toList ∧
  (storedLetter m.key h).map (fun letter => (Tables.columnText (some letter.1), letter.2)) =
    (lifecycle schema).deadLetter h m.key

/-- The entry of a message in the DLQ shows what the run says exactly when this is recorded. -/
theorem shown_iff (run : Run (adapter schema).machine (lifecycle schema).Admitted h s)
    {m : MessageEnvelope} (hm : m ∈ (lifecycle schema).dead (publishedBy h) s queue) :
    s.data.shown m = (lifecycle schema).letter h s m ↔ Recorded schema h m := by
  obtain ⟨hmem, -, found, hslot, hphase⟩ := mem_dead.mp hm
  obtain ⟨reason, time, hletter, hpos⟩ := deadLetter_of_dlq run hslot hphase
  obtain ⟨-, hwell⟩ := (lifecycle schema).inv_of_run run
  obtain ⟨hsaved, hbacked⟩ := content_kept run
  obtain ⟨r, hrow, hkey, rfl⟩ := Tables.row?_of_slot hslot
  have hqueue : r.queue = m.queue := by
    obtain ⟨j, -, m', hm', hdescribes, -⟩ := hbacked r (Table.row?_mem hrow)
    rw [← hwell.eq_of_key hm' hmem (hdescribes.key.symm.trans hkey)]
    exact hdescribes.queue
  have hcolumns := (letters_kept run).1 m.key r hrow
  simp only [letterColumns, Prod.mk.injEq] at hcolumns
  rw [Tables.shown_eq hrow, Lifecycle.letter, Recorded, hletter, hslot, Tables.dlqInfo,
    hcolumns.1, hcolumns.2, hkey, hqueue]
  simp only [Option.map_some, Option.getD_some, DlqMessageInfo.mk.injEq]
  rw [Tables.columnText_eq_iff]
  constructor
  · rintro ⟨hnul, -, hreason, htime, -⟩
    refine ⟨hnul, ?_⟩
    cases hstored : storedLetter m.key h with
    | none =>
      rw [hstored] at htime
      simp only [Option.map_none, Option.getD_none] at htime
      omega
    | some letter =>
      rw [hstored] at hreason htime
      simp only [Option.map_some, Option.getD_some] at hreason htime ⊢
      rw [hreason, htime]
  · rintro ⟨hnul, hstored⟩
    obtain ⟨letter, hletter', hsame⟩ := Option.map_eq_some_iff.mp hstored
    simp only [Prod.mk.injEq] at hsame
    -- the queue is a part of the key
    have hqueueNul : '\x00' ∉ m.queue.toList := by
      intro hin
      rw [(hwell.formed m hmem).1] at hnul
      exact hnul (by simp [messageKey, String.toList_append, hin])
    rw [hletter']
    exact ⟨hnul, Tables.columnText_eq_iff.mpr hqueueNul, hsame.1, hsame.2, rfl⟩

/-- **The listing of the SQLite adapter is faithful when every entry is recorded**, and none has
    left the DLQ unreprocessed. -/
theorem listing_iff (run : Run (adapter schema).machine (lifecycle schema).Admitted h s) :
    (lifecycle schema).FaithfulListing h s queue
        (fun n => ((listDlqMessages queue n).run [] s).1.1) ↔
      (lifecycle schema).StayDead h s queue ∧
      ∀ m ∈ (lifecycle schema).dead (publishedBy h) s queue, Recorded schema h m := by
  obtain ⟨hinv, hwell⟩ := (lifecycle schema).inv_of_run run
  have hkeeps : Keeps (publishedBy h) s := hinv
  obtain ⟨time, hinvariant⟩ := hkeeps.invariant
  obtain ⟨hsaved, hbacked⟩ := content_kept run
  have hdescribed : s.data.Described (publishedBy h) := described_of_backed hbacked
  have hstate : ∀ r ∈ s.data.index, r.state ≠ .archived := by
    intro r hr harchived
    rcases (hinvariant.rows r hr).state with hs | hs | hs | hs <;> simp [hs] at harchived
  have htime : ∀ r ∈ s.data.index, ∀ time, r.dlqAt = some time → 0 ≤ time := by
    intro r hr time hat
    have hcolumns := (letters_kept run).1 r.messageKey r (hinvariant.toIntegrity.row?_of_mem hr)
    simp only [letterColumns, Prod.mk.injEq, hat] at hcolumns
    obtain ⟨letter, hstored, rfl⟩ := Option.map_eq_some_iff.mp hcolumns.2.symm
    exact (storedLetter_pos hstored).le
  have hlist : ∀ n, ((listDlqMessages queue n).run [] s).1.1 =
      (s.data.deadRows queue n).map Tables.dlqInfo := fun n => by rw [listDlqMessages_eq]
  have hinteg := hinvariant.toIntegrity
  have hlisted : ∀ n : Int, 0 ≤ n → ∀ e ∈ ((listDlqMessages queue n).run [] s).1.1,
      ∃ m ∈ (lifecycle schema).dead (publishedBy h) s queue,
        Tables.columnText (some m.key) = e.messageKey :=
    fun n hn e he => Tables.dead_of_listed hinteg hdescribed hwell hstate (nodup_dead hwell)
      (fun m => mem_dead) hlist hn he
  rw [faithful_iff run (fun k => Tables.columnText (some k)) Tables.columnText_idem hlisted,
    Tables.lists_iff hinteg hdescribed hwell hstate htime (nodup_dead hwell) (fun m => mem_dead)
      (fun _ => rfl) hlist]
  exact and_congr_right' (forall₂_congr fun m hm => shown_iff run hm)

end SQLite

namespace Hybrid

variable {schema : SchemaFile} {h : History Store (Env × Call) Reply} {s : Store} {queue : String}
  {env : Env} {call : Call} {reply : Reply} {t t' : Tables} {files : Payloads}

/-- No row has a reason or a time of a dead letter. -/
def Unmarked (t : Tables) : Prop := ∀ r ∈ t.index, r.dlqReason = none ∧ r.dlqAt = none

/-- An update that marks no row leaves all rows unmarked. -/
theorem Unmarked.updated (hunmarked : Unmarked t) {p : IndexRow → Bool} {f : IndexRow → IndexRow}
    (hf : ∀ r, r.dlqReason = none ∧ r.dlqAt = none →
      (f r).dlqReason = none ∧ (f r).dlqAt = none) : Unmarked (t.updateIndex p f) := by
  intro r' hr'
  obtain ⟨r, hr, rfl⟩ := List.mem_map.mp hr'
  split
  case isTrue => exact hf r (hunmarked r hr)
  case isFalse => exact hunmarked r hr

/-- An edit of a value marks no row. -/
theorem Unmarked.edited {key : String} {time : Int} {edit : Json String → Option (Json String)}
    (hedits : EditsValue key time edit t t') (hunmarked : Unmarked t) : Unmarked t' := by
  rcases hedits with rfl | ⟨j, j', -, -, rfl⟩
  · exact hunmarked
  · exact hunmarked

/-- **No call of the Hybrid adapter marks a row.** -/
theorem Effect.unmarked (heffect : Effect schema env files call reply t t')
    (hunmarked : Unmarked t) : Unmarked t' := by
  cases call with
  | enqueue message =>
    obtain ⟨-, -, rfl⟩ := heffect
    intro r hr
    rcases List.mem_append.mp hr with hold | hnew
    · exact hunmarked r hold
    · obtain rfl := List.mem_singleton.mp hnew
      exact ⟨rfl, rfl⟩
  | leaseNext queue c timeout =>
    obtain ⟨row, value, content, -, -, -, -, rfl⟩ := heffect
    -- No operation writes the columns, so each leaves every row unmarked or unmarks it.
    exact hunmarked.updated fun _ h => h
  | ack lease =>
    obtain ⟨-, -, rfl⟩ := heffect
    rw [acked_eq]
    exact fun r hr => hunmarked r (List.mem_filter.mp hr).1
  | nack lease reason requeue =>
    obtain ⟨-, -, heffect⟩ := heffect
    cases requeue with
    | true =>
      simp only [if_true] at heffect
      subst heffect
      exact hunmarked.updated fun _ h => h
    | false =>
      simp only [Bool.false_eq_true, if_false] at heffect
      exact .edited heffect (hunmarked.updated fun _ h => h)
  | extendLease lease timeout =>
    obtain ⟨-, rfl⟩ := heffect
    exact hunmarked.updated fun _ h => h
  | savePolicy queue policy =>
    obtain ⟨-, rfl⟩ := heffect
    unfold Tables.upsertKv
    split
    case isTrue => exact hunmarked
    case isFalse => exact hunmarked
  | recoverExpiredLeases =>
    obtain ⟨-, rfl⟩ := heffect
    exact hunmarked.updated fun _ h => h
  | processDelayedMessages =>
    obtain ⟨-, rfl⟩ := heffect
    exact hunmarked.updated fun _ h => h
  | delayMessage key delayMs =>
    obtain ⟨-, rfl⟩ := heffect
    exact hunmarked.updated fun _ h => h
  | moveToDlq key reason =>
    obtain ⟨-, heffect⟩ := heffect
    exact .edited heffect (hunmarked.updated fun _ h => h)
  | reprocessDlqMessage key =>
    obtain ⟨-, -, heffect⟩ := heffect
    exact .edited heffect (hunmarked.updated fun _ _ => ⟨rfl, rfl⟩)

/-- On this adapter no row is ever marked: the reason is kept in the value only. -/
theorem unmarked_of_run (run : Run (adapter schema).machine (lifecycle schema).Admitted h s) :
    Unmarked s.data := by
  induction run with
  | start =>
    intro r hr
    cases hr
  | @step h s i run ok ih =>
    obtain ⟨env, call⟩ := i
    have hkeeps : Keeps (publishedBy h) s := ((lifecycle schema).inv_of_run run).1
    obtain ⟨-, hperforms⟩ := @perform_performs True schema env s hkeeps.saved (.inl trivial) call
    rcases hperforms with ⟨-, hsame, -⟩ | heffect
    · exact (hsame ▸ ih : Unmarked _)
    · exact heffect.unmarked ih

/-- A listing reads the dead rows, and never fails. -/
theorem listDlqMessages_eq (s : Store) (queue : String) (limit : Int) :
    ((listDlqMessages queue limit).run [] s).1 =
      ((s.data.deadRows queue limit).map Tables.dlqInfo, none) := rfl

/-- **The listing of the Hybrid adapter is faithful only when there is nothing to list.** -/
theorem listing_iff (run : Run (adapter schema).machine (lifecycle schema).Admitted h s) :
    (lifecycle schema).FaithfulListing h s queue
        (fun n => ((listDlqMessages queue n).run [] s).1.1) ↔
      (lifecycle schema).buried h queue = [] := by
  obtain ⟨hinv, hwell⟩ := (lifecycle schema).inv_of_run run
  have hkeeps : Keeps (publishedBy h) s := hinv
  have hunmarked := unmarked_of_run run
  have hdescribed : s.data.Described (publishedBy h) := described_of_backed (content_kept run)
  have htime : ∀ r ∈ s.data.index, ∀ time, r.dlqAt = some time → 0 ≤ time := by
    intro r hr time hat
    rw [(hunmarked r hr).2] at hat
    cases hat
  have hlist : ∀ n, ((listDlqMessages queue n).run [] s).1.1 =
      (s.data.deadRows queue n).map Tables.dlqInfo := fun n => by rw [listDlqMessages_eq]
  have hstate : ∀ r ∈ s.data.index, r.state ≠ .archived :=
    fun r hr => (hkeeps.invariant.rows r hr).state
  have hinteg := hkeeps.invariant.toIntegrity
  have hlisted : ∀ n : Int, 0 ≤ n → ∀ e ∈ ((listDlqMessages queue n).run [] s).1.1,
      ∃ m ∈ (lifecycle schema).dead (publishedBy h) s queue,
        Tables.columnText (some m.key) = e.messageKey :=
    fun n hn e he => Tables.dead_of_listed hinteg hdescribed hwell hstate (nodup_dead hwell)
      (fun m => mem_dead) hlist hn he
  rw [faithful_iff run (fun k => Tables.columnText (some k)) Tables.columnText_idem hlisted,
    Tables.lists_iff hinteg hdescribed hwell hstate htime (nodup_dead hwell) (fun m => mem_dead)
      (fun _ => rfl) hlist]
  constructor
  · rintro ⟨hstay, hshown⟩
    rw [List.eq_nil_iff_forall_not_mem]
    intro m hburied
    have hm := hstay m hburied
    obtain ⟨-, -, found, hslot, hphase⟩ := mem_dead.mp hm
    obtain ⟨reason, time, hletter, hpos⟩ := deadLetter_of_dlq run hslot hphase
    obtain ⟨r, hrow, -, -⟩ := Tables.row?_of_slot hslot
    -- the time shown is none, and that of a dead letter is positive
    have htimes := congrArg DlqMessageInfo.dlqAtMs (hshown m hm)
    rw [Tables.shown_eq hrow, Tables.dlqInfo, (hunmarked r (Table.row?_mem hrow)).2,
      Lifecycle.letter, hletter] at htimes
    simp only [Option.getD_none, Option.map_some, Option.getD_some] at htimes
    omega
  · intro hempty
    refine ⟨fun m hm => ?_, fun m hm => ?_⟩
    · rw [hempty] at hm
      cases hm
    · have hburied := buried_of_dead run hm
      rw [hempty] at hburied
      cases hburied

end Hybrid

namespace FileSystem

variable {h : History Disk (Env × Call) Reply} {d : Disk} {queue : String}

/-- A message in the DLQ has a document there, which shows its entry. -/
theorem shown_letter (run : Run adapter.machine lifecycle.Admitted h d) {m : MessageEnvelope}
    (hm : m ∈ lifecycle.dead (publishedBy h) d queue) :
    d.lookup (filePath m .dlq) ≠ none ∧
      d.shown queue m.messageId = some (lifecycle.letter h d m) := by
  obtain ⟨hmem, hqueue, found, hslot, hphase⟩ := mem_dead.mp hm
  obtain ⟨hinv, -⟩ := lifecycle.inv_of_run run
  have hkeeps : Keeps False (publishedBy h) d := hinv
  have hnamed := hkeeps.named m hmem
  obtain ⟨place, hplace⟩ := hkeeps.stands m hmem
  have hplaced : place.slot = some found := (hplace.slot_eq hnamed).symm.trans hslot
  -- A dead letter stands in `dlq/`, with the document that buried it.
  cases hplace with
  | absent | archived | stranded => cases hplaced
  | leased =>
    obtain rfl := Option.some.inj hplaced
    cases hphase
  | @waits dir j attempt available phase hwaiting hfile henvelope =>
    obtain rfl := Option.some.inj hplaced
    have hdir : dir = .dlq := by
      have hdead : phase = .dlq := hphase
      subst hdead
      cases dir <;> simp [waiting] at hwaiting ⊢
    subst hdir
    have hlookup : d.lookup (filePath m .dlq) = some (some j) := (hfile .dlq).trans (if_pos rfl)
    obtain ⟨reason, time, j', hletter, hsame, hfields⟩ :=
      dead_documents run m hmem (some j) hlookup
    obtain rfl := Option.some.inj hsame
    have hpath : queuePath queue .dlq m.messageId = filePath m .dlq := by
      rw [← hqueue, queuePath_of_name hnamed.queue]
    refine ⟨by rw [hlookup]; exact Option.some_ne_none _, ?_⟩
    have hvalue : j.valueStr "queue" queue = some queue :=
      hqueue ▸ Json.valueStr_self henvelope.queue
    rw [Disk.shown, hpath, hlookup, Option.bind_some, Lifecycle.letter, hletter, hslot, hqueue]
    simp [dlqInfo, henvelope.key, hvalue, hfields.reason, hfields.time, henvelope.attempt]

/-- The documents in `dlq/` of a queue are those of its messages in the DLQ. -/
theorem sortedIds_perm (run : Run adapter.machine lifecycle.Admitted h d) (hqueue : IsName queue) :
    (d.sortedIds queue .dlq).Perm
      ((lifecycle.dead (publishedBy h) d queue).map MessageEnvelope.messageId) := by
  obtain ⟨hinv, hwell⟩ := lifecycle.inv_of_run run
  have hkeeps : Keeps False (publishedBy h) d := hinv
  have hnodup : ((lifecycle.dead (publishedBy h) d queue).map MessageEnvelope.messageId).Nodup :=
    (nodup_messageIds hwell).sublist (List.filter_sublist.map _)
  refine (List.perm_insertionSort _ _).trans ?_
  rw [List.perm_ext_iff_of_nodup (nodup_ids _ _ _) hnodup]
  intro id
  rw [mem_ids, resolve_name hqueue, List.mem_map]
  constructor
  · rintro ⟨hfile, -⟩
    obtain ⟨m, hm, hlocation, rfl⟩ := hkeeps.files _ _ _ hfile
    obtain rfl : queue = m.queue := by simpa using hlocation
    obtain ⟨found, j, hslot, hphase, -⟩ :=
      @Keeps.dead_slot _ _ _ ⟨1, by decide, "", []⟩ hkeeps hm hfile
    exact ⟨m, mem_dead.mpr ⟨hm, rfl, found, hslot, hphase⟩, rfl⟩
  · rintro ⟨m, hm, rfl⟩
    obtain ⟨hmem, rfl, -⟩ := mem_dead.mp hm
    exact ⟨(shown_letter run hm).1, (hkeeps.named m hmem).id⟩

/-- **The listing of the FileSystem adapter is faithful when the file names tell the latest
    first**, and none has left the DLQ unreprocessed. -/
theorem listing_iff (run : Run adapter.machine lifecycle.Admitted h d) :
    lifecycle.FaithfulListing h d queue
        (fun n => ((listDlqMessages queue n).run [] d).1.1) ↔
      lifecycle.StayDead h d queue ∧
      ∀ m ∈ lifecycle.dead (publishedBy h) d queue,
        ∀ m' ∈ lifecycle.dead (publishedBy h) d queue,
          m.messageId ++ ".json" < m'.messageId ++ ".json" →
            (lifecycle.letter h d m').dlqAtMs ≤ (lifecycle.letter h d m).dlqAtMs := by
  obtain ⟨hinv, hwell⟩ := lifecycle.inv_of_run run
  have hkeeps : Keeps False (publishedBy h) d := hinv
  cases hburied : lifecycle.buried h queue with
  | nil =>
    have hnone : ∀ m, m ∉ lifecycle.dead (publishedBy h) d queue := by
      intro m hm
      have hput := buried_of_dead run hm
      rw [hburied] at hput
      cases hput
    refine iff_of_true ?_ ⟨?_, fun m hm => absurd hm (hnone m)⟩
    · rw [Lifecycle.FaithfulListing, hburied]
      exact lists_nil
    · rw [Lifecycle.StayDead, hburied]
      exact fun m hm => absurd hm List.not_mem_nil
  | cons first others =>
    have hqueue : IsName queue := by
      have hfirst : first ∈ lifecycle.buried h queue := hburied ▸ List.mem_cons_self
      obtain ⟨hmem, hput⟩ := List.mem_filter.mp hfirst
      have hsame : first.queue = queue := (of_decide_eq_true hput).1
      exact hsame ▸ (hkeeps.named first hmem).queue
    have hperm : ((d.sortedIds queue .dlq).filterMap (d.shown queue)).Perm
        ((lifecycle.dead (publishedBy h) d queue).map (lifecycle.letter h d)) := by
      refine ((sortedIds_perm run hqueue).filterMap _).trans ?_
      rw [List.filterMap_map]
      refine List.Perm.of_eq ?_
      rw [← List.filterMap_eq_map]
      exact List.filterMap_congr fun m hm => (shown_letter run hm).2
    have hlist : ∀ n, ((listDlqMessages queue n).run [] d).1.1 =
        ((d.sortedIds queue .dlq).filterMap (d.shown queue)).take n.toNat :=
      fun n => by rw [listDlqMessages_eq]
    have hlisted : ∀ n : Int, 0 ≤ n → ∀ e ∈ ((listDlqMessages queue n).run [] d).1.1,
        ∃ m ∈ lifecycle.dead (publishedBy h) d queue, id m.key = e.messageKey := by
      intro n hn e he
      rw [hlist] at he
      obtain ⟨m, hm, rfl⟩ := List.mem_map.mp (hperm.mem_iff.mp (List.mem_of_mem_take he))
      exact ⟨m, hm, rfl⟩
    have hkeys : (((lifecycle.dead (publishedBy h) d queue).map (lifecycle.letter h d)).map
        DlqMessageInfo.messageKey).Nodup := by
      rw [List.map_map]
      exact nodup_dead hwell
    rw [faithful_iff run id (fun _ => rfl) hlisted, lists_iff_sorted hkeys hperm fun n _ => hlist n,
      List.pairwise_filterMap,
      pairwise_iff_of_sorted (fun _ _ hlt hgt => String.lt_asymm hlt hgt)
        (sortedIds_increasing queue .dlq)]
    -- an element of the list is the identifier of a message in the DLQ, and shows its entry
    have hmem : ∀ id, id ∈ d.sortedIds queue .dlq ↔
        ∃ m ∈ lifecycle.dead (publishedBy h) d queue, m.messageId = id := by
      intro id
      rw [(sortedIds_perm run hqueue).mem_iff, List.mem_map]
    refine and_congr_right' ?_
    constructor
    · intro hall m hm m' hm' hlt
      exact hall m.messageId ((hmem _).mpr ⟨m, hm, rfl⟩) m'.messageId
        ((hmem _).mpr ⟨m', hm', rfl⟩) hlt _ (shown_letter run hm).2 _ (shown_letter run hm').2
    · intro hall id hid id' hid' hlt e he e' he'
      obtain ⟨m, hm, rfl⟩ := (hmem id).mp hid
      obtain ⟨m', hm', rfl⟩ := (hmem id').mp hid'
      rw [(shown_letter run hm).2, Option.some.injEq] at he
      rw [(shown_letter run hm').2, Option.some.injEq] at he'
      rw [← he, ← he']
      exact hall m hm m' hm' hlt

end FileSystem

/-! ### The three backends -/

/-- `list_dlq_messages`, when nothing fails. -/
def BackendType.listDlqMessages : (backend : BackendType) → backend.Store → String → Int →
    List DlqMessageInfo
  | .fileSystem, d, queue, limit => ((FileSystem.listDlqMessages queue limit).run [] d).1.1
  | .sqlite, s, queue, limit => ((SQLite.listDlqMessages queue limit).run [] s).1.1
  | .hybrid, s, queue, limit => ((Hybrid.listDlqMessages queue limit).run [] s).1.1

/-- What makes the listing of a queue faithful.  On SQLite and over files, what was put into the DLQ
    and not reprocessed is in it still; moreover, over files, the messages in it have file names
    that tell the latest first, and on SQLite, `move_to_dlq` has stored what each was last put there
    with.  On Hybrid, nothing was put there that was not reprocessed. -/
def BackendType.Recorded (schema : SchemaFile) (queue : String) : (backend : BackendType) →
    History backend.Store (Env × Call) Reply → backend.Store → Prop
  | .fileSystem, h, d => FileSystem.lifecycle.StayDead h d queue ∧
    ∀ m ∈ FileSystem.lifecycle.dead (publishedBy h) d queue,
    ∀ m' ∈ FileSystem.lifecycle.dead (publishedBy h) d queue,
      m.messageId ++ ".json" < m'.messageId ++ ".json" →
        (FileSystem.lifecycle.letter h d m').dlqAtMs ≤ (FileSystem.lifecycle.letter h d m).dlqAtMs
  | .sqlite, h, s => (SQLite.lifecycle schema).StayDead h s queue ∧
    ∀ m ∈ (SQLite.lifecycle schema).dead (publishedBy h) s queue, SQLite.Recorded schema h m
  | .hybrid, h, _ => (Hybrid.lifecycle schema).buried h queue = []

/-- **When the listing of a DLQ is faithful.** In every state that calls can reach,
    `list_dlq_messages` shows each message that was put into the DLQ of a queue and not reprocessed
    once, with the reason, the time and the attempts it was put there with, and the latest ones
    first where the limit does not leave room for all, exactly when these are recorded where the
    listing looks.  Nothing fails in the runs over files, whose names are plain; on Hybrid the texts
    are plain. -/
theorem dlq_listing_iff {schema : SchemaFile} {backend : BackendType}
    {h : History backend.Store (Env × Call) Reply} {s : backend.Store}
    (run : Run (backend.adapter schema).machine (backend.lifecycle schema).Admitted h s)
    (queue : String) :
    (backend.lifecycle schema).FaithfulListing h s queue (backend.listDlqMessages s queue) ↔
      backend.Recorded schema queue h s := by
  cases backend with
  | fileSystem =>
    exact FileSystem.listing_iff (run.mono fun _ _ _ _ ok => ⟨ok.calm, ok.admits.1, ok.fresh⟩)
  | sqlite => exact SQLite.listing_iff run
  | hybrid => exact Hybrid.listing_iff run

/-- What `move_to_dlq` puts into the DLQ on SQLite is listed faithfully. -/
theorem dlq_listing_iff_moved :
    let message : MessageEnvelope := {
      key := "msg:q:a", messageId := "a", queue := "q", payloadJson := "1", attributesJson := "" }
    let M := (BackendType.sqlite.adapter .mainMq).machine
    let stored := M.stepAt M.start (⟨1, by decide, "", []⟩, .enqueue message)
    let moved := M.stepAt stored.after (⟨2, by decide, "", []⟩, .moveToDlq "msg:q:a" "broken")
    (BackendType.sqlite.lifecycle .mainMq).FaithfulListing [moved, stored] moved.after "q"
      (BackendType.sqlite.listDlqMessages moved.after "q") := by
  intro message M stored moved
  have run : Run M (BackendType.sqlite.lifecycle .mainMq).Admitted [moved, stored] moved.after :=
    Run.stepAt (Run.stepAt .start _ ⟨trivial, trivial, by decide⟩) _
      ⟨trivial, trivial, trivial⟩
  have hdead : (SQLite.lifecycle .mainMq).dead [message] moved.after "q" = [message] := by decide
  have hburied : (SQLite.lifecycle .mainMq).buried [moved, stored] "q" = [message] := by decide
  refine (dlq_listing_iff run "q").mpr ⟨fun m hm => ?_, fun m hm => ?_⟩
  · exact (hburied.trans hdead.symm) ▸ hm
  · obtain rfl := List.mem_singleton.mp (hdead ▸ hm)
    exact ⟨by decide, by decide⟩

/-- **What `nack` puts into the DLQ is not listed.** A message is leased on SQLite and put into the
    DLQ by `nack` at time 3 with the reason "broken"; the listing shows no reason and the time 0. -/
theorem nack_not_listed :
    let message : MessageEnvelope := {
      key := "msg:q:a", messageId := "a", queue := "q", payloadJson := "1", attributesJson := "" }
    let M := (BackendType.sqlite.adapter .mainMq).machine
    let stored := M.stepAt M.start (⟨1, by decide, "", []⟩, .enqueue message)
    let leased := M.stepAt stored.after (⟨2, by decide, "", []⟩, .leaseNext "q" "c" 30)
    let buried := M.stepAt leased.after
      (⟨3, by decide, "", []⟩, .nack ⟨"", "msg:q:a", "c", 0⟩ "broken" false)
    let cycle := BackendType.sqlite.lifecycle .mainMq
    Run M cycle.Admitted [buried, leased, stored] buried.after ∧ buried.output.succeeded = true ∧
      cycle.deadLetter [buried, leased, stored] "msg:q:a" = some ("broken", 3) ∧
      BackendType.sqlite.listDlqMessages buried.after "q" 1 = [⟨"msg:q:a", "q", "", 0, 1⟩] ∧
      ¬cycle.FaithfulListing [buried, leased, stored] buried.after "q"
        (BackendType.sqlite.listDlqMessages buried.after "q") := by
  intro message M stored leased buried cycle
  have hlisted : BackendType.sqlite.listDlqMessages buried.after "q" 1 =
      [⟨"msg:q:a", "q", "", 0, 1⟩] := by decide
  have hreadable : '\x00' ∉ "q".toList := by decide
  have hletters : (cycle.buried [buried, leased, stored] "q").map
      (cycle.letter [buried, leased, stored] buried.after) =
        [⟨"msg:q:a", "q", "broken", 3, 1⟩] := by decide
  refine ⟨?_, by decide, by decide, hlisted, fun hfaithful => ?_⟩
  · exact Run.stepAt (Run.stepAt (Run.stepAt .start _ ⟨trivial, trivial, by decide⟩) _
      ⟨trivial, hreadable, trivial⟩) _ ⟨trivial, trivial, trivial⟩
  · unfold Lifecycle.FaithfulListing at hfaithful
    rw [hletters] at hfaithful
    have hfilter := hfaithful.all 1 (by simp) _ (List.mem_singleton_self _)
    rw [hlisted] at hfilter
    revert hfilter
    decide

end YirangMQ

import YirangMQ.Backend.Content
import YirangMQ.Library.Listing

namespace YirangMQ

/-!
# Dead letters

What a run says of the messages that it has put into the DLQ: when each was put there last, and why.

* `Lifecycle.burial`, `Lifecycle.deadLetter` — the reason and the time, of a step and of a run;
* `deadLetter_of_dlq` — a message in the DLQ has been put there;
* `Lifecycle.buried`, `Lifecycle.letter` — the messages of a queue that were put there and not
  reprocessed since, and the entry that a listing owes each;
* `Lifecycle.FaithfulListing` — a listing of the DLQ that says so;
* `faithful_iff` — no other call may take a message out of the DLQ.
-/

/-- The message is leased. -/
def Phase.isInflight : Phase → Bool
  | .inflight _ => true
  | _ => false

section Letters

variable {σ : Type} {adapter : Adapter σ} (cycle : Lifecycle adapter)

/-- The reason and the time with which a step puts the message of a key into the DLQ: by `nack`
    when it is leased, by `move_to_dlq` wherever it is. -/
def Lifecycle.burial (key : String) (r : Step σ (Env × Call) Reply) : Option (String × Int) :=
  match cycle.slot r.before key with
  | none => none
  | some found =>
    match r.input.2 with
    | .nack lease reason false =>
      if r.output.succeeded = true ∧ cycle.address lease.messageKey = cycle.address key ∧
          found.phase.isInflight = true then some (reason, r.input.1.now) else none
    | .moveToDlq messageKey reason =>
      if r.output.succeeded = true ∧ cycle.address messageKey = cycle.address key then
        some (reason, r.input.1.now) else none
    | _ => none

/-- The reason and the time with which the message of a key was last put into the DLQ. -/
def Lifecycle.deadLetter (h : History σ (Env × Call) Reply) (key : String) :
    Option (String × Int) :=
  h.findSome? (cycle.burial key)

/-- A step reprocesses the message of a key: a `reprocess_dlq_message` that takes it out of the
    DLQ. -/
def Lifecycle.reprocesses (key : String) (r : Step σ (Env × Call) Reply) : Bool :=
  match r.input.2 with
  | .reprocessDlqMessage messageKey =>
    r.output.succeeded = true ∧ cycle.address messageKey = cycle.address key ∧
      (cycle.slot r.before key).any (·.phase = .dlq) = true ∧
      (cycle.slot r.after key).any (·.phase = .dlq) = false
  | _ => false

/-- The message of a key has been put into the DLQ and not been reprocessed since: of the steps that
    do either, the last one puts it there. -/
def Lifecycle.owed (h : History σ (Env × Call) Reply) (key : String) : Bool :=
  (h.find? fun r => (cycle.burial key r).isSome || cycle.reprocesses key r).any
    fun r => (cycle.burial key r).isSome

variable {cycle} {h : History σ (Env × Call) Reply} {s : σ} {key : String}
  {r : Step σ (Env × Call) Reply}

/-- The letter of a history is that of its last burial. -/
theorem deadLetter_cons (r : Step σ (Env × Call) Reply) (h : History σ (Env × Call) Reply)
    (key : String) :
    cycle.deadLetter (r :: h) key = (cycle.burial key r).or (cycle.deadLetter h key) := by
  rw [Lifecycle.deadLetter, List.findSome?_cons]
  cases cycle.burial key r with
  | none => rfl
  | some letter => rfl

/-- After a burial it is that of the burial. -/
theorem deadLetter_of_burial {letter : String × Int} (hburial : cycle.burial key r = some letter) :
    cycle.deadLetter (r :: h) key = some letter := by
  rw [deadLetter_cons, hburial, Option.some_or]

/-- After another call it is as before. -/
theorem deadLetter_of_none (hburial : cycle.burial key r = none) :
    cycle.deadLetter (r :: h) key = cycle.deadLetter h key := by
  rw [deadLetter_cons, hburial, Option.none_or]

/-- A burial has the time of its step. -/
theorem burial_time {letter : String × Int} (hburial : cycle.burial key r = some letter) :
    letter.2 = r.input.1.now := by
  unfold Lifecycle.burial at hburial
  split at hburial
  case h_1 => cases hburial
  case h_2 found hslot =>
    split at hburial
    case h_1 =>
      split at hburial
      case isTrue => exact (Option.some.inj hburial) ▸ rfl
      case isFalse => cases hburial
    case h_2 =>
      split at hburial
      case isTrue => exact (Option.some.inj hburial) ▸ rfl
      case isFalse => cases hburial
    case h_3 => cases hburial

/-- A message comes into the DLQ by a burial. -/
theorem Moves.burial {names revives : String → Prop} {env : Env} {call : Call} {reply : Reply}
    {after : σ} (hnames : ∀ k, names k ↔ cycle.address k = cycle.address key)
    (hmoves : Moves names revives key env.now call reply (cycle.slot s key) (cycle.slot after key))
    {found : Slot} (hslot : cycle.slot after key = some found) (hphase : found.phase = .dlq) :
    cycle.burial key ⟨(env, call), s, reply, after⟩ ≠ none ∨
      cycle.slot s key = some found := by
  rw [hslot] at hmoves
  generalize hbefore : cycle.slot s key = slot at hmoves
  cases hmoves with
  | stay => exact .inr rfl
  | bury hnamed hok hinflight =>
    refine .inl ?_
    have haddress := (hnames _).mp hnamed
    have hleased : Phase.isInflight _ = true := congrArg Phase.isInflight hinflight
    simp [Lifecycle.burial, hbefore, hok, haddress, hleased]
  | dead hnamed hok =>
    refine .inl ?_
    have haddress := (hnames _).mp hnamed
    simp [Lifecycle.burial, hbefore, hok, haddress]
  | publish =>
    unfold MessageEnvelope.slot at hphase
    dsimp only at hphase
    split at hphase <;> cases hphase
  | delay _ _ hdelayed =>
    rcases hdelayed with rfl | ⟨-, rfl⟩
    · cases hphase
    · cases hphase
  | lease | requeue | extend | recover | promote | revive => cases hphase

/-- **A message in the DLQ has been put there.** -/
theorem deadLetter_of_dlq (run : Run adapter.machine cycle.Admitted h s) {found : Slot}
    (hslot : cycle.slot s key = some found) (hphase : found.phase = .dlq) :
    ∃ reason time, cycle.deadLetter h key = some (reason, time) ∧ 0 < time := by
  induction run generalizing found with
  | start =>
    have hthere : cycle.slot adapter.start key ≠ none := by
      rw [show cycle.slot adapter.start key = some found from hslot]
      exact Option.some_ne_none found
    exact absurd (cycle.known cycle.start hthere) (by simp)
  | @step h s i run ok ih =>
    obtain ⟨env, call⟩ := i
    obtain ⟨hinv, -⟩ := cycle.inv_of_run run
    have hmoves := (cycle.perform hinv ok.calm ok.admits ok.fresh).2 key
    have hcases := Moves.burial (fun _ => Iff.rfl) hmoves hslot hphase
    cases hburial : cycle.burial key (adapter.machine.stepAt s (env, call)) with
    | some letter =>
      refine ⟨letter.1, letter.2, deadLetter_of_burial hburial, ?_⟩
      rw [burial_time hburial]
      exact env.now_pos
    | none =>
      rw [deadLetter_of_none hburial]
      rcases hcases with hsome | hbefore
      · exact absurd hburial hsome
      · exact ih hbefore hphase

/-- A message in the DLQ was not reprocessed by the last step. -/
theorem reprocesses_of_dlq {found : Slot} (hslot : cycle.slot r.after key = some found)
    (hphase : found.phase = .dlq) : cycle.reprocesses key r = false := by
  unfold Lifecycle.reprocesses
  split
  case h_1 => simp [hslot, hphase]
  case h_2 => rfl

/-- A burial owes its letter. -/
theorem owed_of_burial (hburial : cycle.burial key r ≠ none) : cycle.owed (r :: h) key = true := by
  have hsome : (cycle.burial key r).isSome = true := Option.isSome_iff_ne_none.mpr hburial
  simp [Lifecycle.owed, hsome]

/-- A letter is owed until it is reprocessed. -/
theorem owed_of_not_reprocesses (hnot : cycle.reprocesses key r = false)
    (howed : cycle.owed h key = true) : cycle.owed (r :: h) key = true := by
  by_cases hburial : cycle.burial key r = none
  · rw [Lifecycle.owed, List.find?_cons_of_neg (by simp [hburial, hnot])]
    exact howed
  · exact owed_of_burial hburial

/-- **A message in the DLQ has not been reprocessed since it was put there.** -/
theorem owed_of_dlq (run : Run adapter.machine cycle.Admitted h s) {found : Slot}
    (hslot : cycle.slot s key = some found) (hphase : found.phase = .dlq) :
    cycle.owed h key = true := by
  induction run generalizing found with
  | start =>
    have hthere : cycle.slot adapter.start key ≠ none := by
      rw [show cycle.slot adapter.start key = some found from hslot]
      exact Option.some_ne_none found
    exact absurd (cycle.known cycle.start hthere) (by simp)
  | @step h s i run ok ih =>
    obtain ⟨env, call⟩ := i
    obtain ⟨hinv, -⟩ := cycle.inv_of_run run
    have hmoves := (cycle.perform hinv ok.calm ok.admits ok.fresh).2 key
    rcases Moves.burial (fun _ => Iff.rfl) hmoves hslot hphase with hburial | hbefore
    · exact owed_of_burial hburial
    · exact owed_of_not_reprocesses (reprocesses_of_dlq hslot hphase) (ih hbefore hphase)

/-! ### Listings -/

variable (cycle)

/-- The messages in the DLQ of a queue. -/
def Lifecycle.dead (published : List MessageEnvelope) (s : σ) (queue : String) :
    List MessageEnvelope :=
  published.filter fun m =>
    m.queue = queue ∧ (cycle.slot s m.key).any (·.phase = .dlq) = true

/-- The messages of a queue that have been put into the DLQ and not been reprocessed since. -/
def Lifecycle.buried (h : History σ (Env × Call) Reply) (queue : String) : List MessageEnvelope :=
  (publishedBy h).filter fun m => m.queue = queue ∧ cycle.owed h m.key = true

/-- They are all in the DLQ still. -/
def Lifecycle.StayDead (h : History σ (Env × Call) Reply) (s : σ) (queue : String) : Prop :=
  ∀ m ∈ cycle.buried h queue, m ∈ cycle.dead (publishedBy h) s queue

/-- The entry that a listing owes a message. -/
def Lifecycle.letter (h : History σ (Env × Call) Reply) (s : σ) (m : MessageEnvelope) :
    DlqMessageInfo where
  messageKey := m.key
  queue := m.queue
  reason := ((cycle.deadLetter h m.key).map Prod.fst).getD ""
  dlqAtMs := ((cycle.deadLetter h m.key).map Prod.snd).getD 0
  attempt := ((cycle.slot s m.key).map Slot.attempt).getD 0

/-- The listing of the DLQ of a queue tells what the run says. -/
def Lifecycle.FaithfulListing (h : History σ (Env × Call) Reply) (s : σ) (queue : String)
    (list : Int → List DlqMessageInfo) : Prop :=
  Lists DlqMessageInfo.messageKey DlqMessageInfo.dlqAtMs list
    ((cycle.buried h queue).map (cycle.letter h s))

variable {cycle} {published : List MessageEnvelope} {queue : String} {m : MessageEnvelope}

/-- The dead messages of a queue are those whose slot says so. -/
theorem mem_dead : m ∈ cycle.dead published s queue ↔ m ∈ published ∧ m.queue = queue ∧
    ∃ found, cycle.slot s m.key = some found ∧ found.phase = .dlq := by
  rw [Lifecycle.dead, List.mem_filter]
  simp only [decide_eq_true_eq, Option.any_eq_true]

/-- Dead letters are told apart by their keys. -/
theorem nodup_dead (hwell : WellPublished published) :
    ((cycle.dead published s queue).map MessageEnvelope.key).Nodup := by
  have hkeys : (published.map MessageEnvelope.key).Nodup := hwell.nodup_keys
  exact hkeys.sublist (List.filter_sublist.map _)

/-- A message in the DLQ is one that was put there. -/
theorem buried_of_dead (run : Run adapter.machine cycle.Admitted h s)
    (hm : m ∈ cycle.dead (publishedBy h) s queue) : m ∈ cycle.buried h queue := by
  obtain ⟨hmem, hqueue, found, hslot, hphase⟩ := mem_dead.mp hm
  rw [Lifecycle.buried, List.mem_filter]
  exact ⟨hmem, by simp [hqueue, owed_of_dlq run hslot hphase]⟩

/-- Those that were put there are in the DLQ when none has left it. -/
theorem buried_eq_dead (run : Run adapter.machine cycle.Admitted h s)
    (hstay : cycle.StayDead h s queue) :
    cycle.buried h queue = cycle.dead (publishedBy h) s queue := by
  refine List.filter_congr fun m hm => decide_eq_decide.mpr ⟨fun h => ?_, fun h => ?_⟩
  · have hburied : m ∈ cycle.buried _ queue := List.mem_filter.mpr ⟨hm, decide_eq_true h⟩
    exact of_decide_eq_true (List.mem_filter.mp (hstay m hburied)).2
  · have hdead : m ∈ cycle.dead _ s queue := List.mem_filter.mpr ⟨hm, decide_eq_true h⟩
    exact of_decide_eq_true (List.mem_filter.mp (buried_of_dead run hdead)).2

/-- **A listing of what is in the DLQ** tells what the run says when it is faithful to that, and no
    call but `reprocess_dlq_message` has taken a message out.  `clip` is what becomes of a key. -/
theorem faithful_iff (run : Run adapter.machine cycle.Admitted h s) {list : Int → List DlqMessageInfo}
    (clip : String → String) (hclip : ∀ k, clip (clip k) = clip k)
    (hlisted : ∀ n : Int, 0 ≤ n → ∀ e ∈ list n,
      ∃ m ∈ cycle.dead (publishedBy h) s queue, clip m.key = e.messageKey) :
    cycle.FaithfulListing h s queue list ↔ cycle.StayDead h s queue ∧
      Lists DlqMessageInfo.messageKey DlqMessageInfo.dlqAtMs list
        ((cycle.dead (publishedBy h) s queue).map (cycle.letter h s)) := by
  constructor
  · intro hfaithful
    have hstay : cycle.StayDead h s queue := by
      -- with room for all, each is listed, and what is listed is in the DLQ
      have hshown : ∀ m ∈ cycle.buried h queue,
          ∃ m' ∈ cycle.dead (publishedBy h) s queue, clip m'.key = m.key := by
        intro m hm
        have hroom : (((cycle.buried h queue).map (cycle.letter h s)).length : Int) ≤
            (cycle.buried h queue).length := by simp
        have hfilter := hfaithful.all _ hroom _ (List.mem_map_of_mem hm)
        have hentry : cycle.letter h s m ∈ list (cycle.buried h queue).length :=
          (List.mem_filter.mp (hfilter ▸ List.mem_singleton_self _)).1
        exact hlisted _ (Int.natCast_nonneg _) _ hentry
      intro m hm
      obtain ⟨m', hm', hkey⟩ := hshown m hm
      -- the key of a listed message is not clipped
      obtain ⟨m'', -, hkey''⟩ := hshown m' (buried_of_dead run hm')
      have hsame : m'.key = m.key := by
        rw [← hkey, ← hkey'', hclip]
      obtain ⟨-, hwell⟩ := cycle.inv_of_run run
      have heq := hwell.eq_of_key (mem_dead.mp hm').1 (List.mem_filter.mp hm).1 hsame
      exact heq ▸ hm'
    rw [Lifecycle.FaithfulListing, buried_eq_dead run hstay] at hfaithful
    exact ⟨hstay, hfaithful⟩
  · rintro ⟨hstay, hlists⟩
    rw [Lifecycle.FaithfulListing, buried_eq_dead run hstay]
    exact hlists

end Letters

end YirangMQ

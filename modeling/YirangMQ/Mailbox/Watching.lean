import YirangMQ.Library.Files
import YirangMQ.Library.Machine
import Mathlib.Data.List.Nodup
import Mathlib.Data.String.Basic

namespace YirangMQ.Mailbox

/-!
# Watching the requests directory

How the worker learns of request files.  The polling branch lists the directory again and again;
the event-driven branch lists it once, at its start, and from then on takes the names that
`on_file_changed` lets through.  A client writes `<id>.json.tmp` and renames it to `<id>.json`; the
watcher delivers a new file as `Add` and a rename as `Moved`.

* `Watching`, `WatchInput` — the directory, the watcher and the worker, and what can happen;
* `Agrees` — what polling would find is on its way to the worker, and nothing is handled twice;
* `OnTime` — a rename the start-up listing still sees, or of a name that is waiting already;
* `agrees_iff` — **the branches agree in exactly the runs whose renames are on time.**
-/

/-- `efsw::Action` -/
inductive FileAction where
  | add
  | delete
  | modified
  | moved
  deriving DecidableEq, Repr

/-- What the watcher delivers. -/
structure FileEvent where
  action : FileAction
  filename : String
  oldFilename : String := ""
  deriving DecidableEq, Repr

/-- The name ends in `.json`. -/
def isJson (name : String) : Bool := ".json".toList.isSuffixOf name.toList

/-- The extension of the name is `.json`: a name that starts with its only dot has none. -/
def isListed (name : String) : Bool := isJson name && name ≠ ".json"

/-- `list_files`, over the names in the directory. -/
def listFiles (requests : Files String Nat) : List String :=
  (requests.keys.filter fun name => isListed name).mergeSort fun a b => decide (a ≤ b)

/-- The name of a request file. -/
def fileName (id : String) : String := id ++ ".json"

/-- The name that the clients write under first. -/
def tempName (id : String) : String := id ++ ".json.tmp"

/-- The requests directory, whose files are numbered as they are written, the watcher with the
    events it has still to deliver, and the worker in its event-driven branch; `batch` is
    `requests_to_process`, and `handled` are the files the worker has taken out. -/
structure Watching where
  requests : Files String Nat := ∅
  written : Nat := 0
  watcher : Bool := false
  events : List FileEvent := []
  listed : Bool := false
  pending : List String := []
  batch : List String := []
  handled : List Nat := []

/-- What a client, the watcher or the worker does next. -/
inductive WatchInput where
  /-- a client writes `<id>.json.tmp` -/
  | write (id : String)
  /-- and renames it -/
  | publish (id : String)
  | watch
  | list
  | deliver
  | take
  | next
  deriving DecidableEq, Repr

namespace Watching

/-- An event happens, if somebody watches. -/
def notice (event : FileEvent) (s : Watching) : Watching :=
  if s.watcher then { s with events := s.events ++ [event] } else s

/-- A client writes its temporary file; the watcher hears of a file that appears. -/
def write (id : String) (s : Watching) : Watching :=
  let action := if s.requests.lookup (tempName id) = none then FileAction.add else .modified
  { s with
    requests := s.requests.insert (tempName id) s.written
    written := s.written + 1 }.notice ⟨action, tempName id, ""⟩

/-- A client renames it; the watcher hears of a rename. -/
def publish (id : String) (s : Watching) : Watching :=
  match s.requests.lookup (tempName id) with
  | none => s
  | some number =>
    { s with requests := s.requests.renamed (tempName id) (fileName id) number }.notice
      ⟨.moved, fileName id, tempName id⟩

/-- The file is one that `on_file_changed` puts into `pending_requests_`. -/
def accepts (event : FileEvent) : Bool := event.action = .add && isJson event.filename

/-- `on_file_changed`, for the next event. -/
def deliver (s : Watching) : Watching :=
  match s.events with
  | [] => s
  | event :: events =>
    if accepts event then { s with events, pending := s.pending ++ [event.filename] }
    else { s with events }

/-- The watcher is started before the worker. -/
def list (s : Watching) : Watching :=
  if s.watcher && !s.listed then
    { s with listed := true, pending := s.pending ++ listFiles s.requests }
  else s

/-- `process_pending_requests` empties the queue into a batch. -/
def take (s : Watching) : Watching :=
  if s.listed && s.batch.isEmpty then { s with batch := s.pending, pending := [] } else s

/-- The next file of the batch is moved to `processing/` and handled, if it is there. -/
def next (s : Watching) : Watching :=
  match s.batch with
  | [] => s
  | name :: batch =>
    match s.requests.lookup name with
    | none => { s with batch }
    | some number =>
      { s with batch, requests := s.requests.erase name, handled := s.handled ++ [number] }

/-- The state after an input. -/
def step (s : Watching) : WatchInput → Watching
  | .write id => s.write id
  | .publish id => s.publish id
  | .watch => { s with watcher := true }
  | .list => s.list
  | .deliver => s.deliver
  | .take => s.take
  | .next => s.next

/-- An empty directory, and a handler that has not listed it. -/
def machine : Machine Watching WatchInput Unit where
  start := {}
  step s input := ((), s.step input)

/-- What has happened, newest first. -/
def history (inputs : List WatchInput) : History Watching WatchInput Unit :=
  (machine.replay inputs ([], machine.start)).1

/-! ### Agreement -/

/-- The name is on its way to the worker. -/
def Noticed (s : Watching) (name : String) : Prop :=
  name ∈ s.batch ∨ name ∈ s.pending ∨
    ∃ event ∈ s.events, accepts event = true ∧ event.filename = name

/-- The worker goes on undisturbed: it finishes its batch, the events are delivered, and it takes
    and finishes another. -/
def drained (s : Watching) : Watching :=
  let s := next^[s.batch.length] s
  let s := deliver^[s.events.length] s
  let s := s.take
  next^[s.batch.length] s

/-- Once the worker has started, every file that polling would find is noticed and will be handled;
    and no file has been handled twice. -/
def Agrees (s : Watching) : Prop :=
  (s.listed = true → ∀ name number, s.requests.lookup name = some number →
    name ∈ listFiles s.requests → s.Noticed name ∧ number ∈ s.drained.handled) ∧
  s.handled.Nodup

/-- A client's rename comes before the start-up listing, or polling would not find its file, or the
    name is on its way already. -/
def OnTime (r : Step Watching WatchInput Unit) : Prop :=
  ∀ id, r.input = .publish id → r.before.requests.lookup (tempName id) ≠ none →
    isListed (fileName id) = true → r.before.listed = true → r.before.Noticed (fileName id)

variable {s : Watching} {name id : String} {number : Nat}

/-- The files listed are those there with a name ending in `.json`. -/
theorem mem_listFiles : name ∈ listFiles s.requests ↔
    (∃ number, s.requests.lookup name = some number) ∧ isListed name = true := by
  have hkeys : name ∈ s.requests.keys ↔ ∃ number, s.requests.lookup name = some number := by
    rw [← Option.isSome_iff_exists, AList.lookup_isSome]
    rfl
  rw [listFiles, List.mem_mergeSort, List.mem_filter, hkeys]

/-- The name a client writes under is none that the worker looks at. -/
theorem not_isJson_tempName : isJson (tempName id) = false := by
  rw [isJson, Bool.eq_false_iff]
  intro h
  have hsuffix := List.isSuffixOf_iff_suffix.mp h
  have htemp : ".tmp".toList <:+ (tempName id).toList := by
    refine ⟨(id ++ ".json").toList, ?_⟩
    rw [← String.toList_append, String.append_assoc, tempName]
    rfl
  -- the shorter of two endings is an ending of the longer
  have hends := List.suffix_of_suffix_length_le htemp hsuffix (by decide)
  exact absurd hends (by decide)

/-- A listed name is not one of the clients' temporary names. -/
theorem tempName_ne (id' : String) (h : isListed name = true) : name ≠ tempName id' := by
  rintro rfl
  rw [isListed, not_isJson_tempName] at h
  cases h

/-! ### An undisturbed worker -/

/-- The first file of the batch is handled if it is there, and no other file is touched. -/
theorem next_spec {first : String} {rest : List String} (hbatch : s.batch = first :: rest) :
    s.next.batch = rest ∧ s.next.pending = s.pending ∧ s.next.events = s.events ∧
    s.next.listed = s.listed ∧ (∀ number ∈ s.handled, number ∈ s.next.handled) ∧
    ∀ name number, s.requests.lookup name = some number →
      number ∈ s.next.handled ∨ name ≠ first ∧ s.next.requests.lookup name = some number := by
  rw [next, hbatch]
  dsimp only
  cases hfirst : s.requests.lookup first with
  | none =>
    refine ⟨rfl, rfl, rfl, rfl, fun _ h => h, ?_⟩
    intro name number hname
    right
    refine ⟨?_, hname⟩
    rintro rfl
    cases hfirst.symm.trans hname
  | some taken =>
    refine ⟨rfl, rfl, rfl, rfl, fun _ h => List.mem_append_left _ h, ?_⟩
    intro name number hname
    by_cases hsame : name = first
    · subst hsame
      cases hfirst.symm.trans hname
      exact .inl (List.mem_append_right _ List.mem_cons_self)
    · refine .inr ⟨hsame, ?_⟩
      show (s.requests.erase first).lookup name = some number
      rw [Files.lookup_erase', if_neg hsame]
      exact hname

/-- The batch is finished. -/
theorem finish_spec : ∀ (batch : List String) (s : Watching), s.batch = batch →
    (next^[batch.length] s).pending = s.pending ∧ (next^[batch.length] s).events = s.events ∧
    (next^[batch.length] s).listed = s.listed ∧ (next^[batch.length] s).batch = [] ∧
    (∀ number ∈ s.handled, number ∈ (next^[batch.length] s).handled) ∧
    ∀ name number, s.requests.lookup name = some number →
      number ∈ (next^[batch.length] s).handled ∨
      name ∉ batch ∧ (next^[batch.length] s).requests.lookup name = some number
  | [], s, hbatch => by
    refine ⟨rfl, rfl, rfl, hbatch, fun _ h => h, ?_⟩
    intro name number hname
    exact .inr ⟨by simp, hname⟩
  | first :: rest, s, hbatch => by
    obtain ⟨hrest, hpending, hevents, hlisted, hhandled, hfiles⟩ := next_spec hbatch
    obtain ⟨ihpending, ihevents, ihlisted, ihbatch, ihhandled, ihfiles⟩ :=
      finish_spec rest s.next hrest
    rw [List.length_cons, Function.iterate_succ_apply]
    refine ⟨ihpending.trans hpending, ihevents.trans hevents, ihlisted.trans hlisted, ihbatch,
      fun number h => ihhandled number (hhandled number h), ?_⟩
    intro name number hname
    rcases hfiles name number hname with hdone | ⟨hne, hkept⟩
    · exact .inl (ihhandled number hdone)
    · refine (ihfiles name number hkept).imp_right ?_
      rintro ⟨hnot, hlookup⟩
      exact ⟨List.not_mem_cons_of_ne_of_not_mem hne hnot, hlookup⟩

/-- The events are delivered. -/
theorem deliver_spec : ∀ (events : List FileEvent) (s : Watching), s.events = events →
    (deliver^[events.length] s).requests = s.requests ∧
    (deliver^[events.length] s).batch = s.batch ∧ (deliver^[events.length] s).listed = s.listed ∧
    (deliver^[events.length] s).handled = s.handled ∧
    (∀ name ∈ s.pending, name ∈ (deliver^[events.length] s).pending) ∧
    ∀ event ∈ events, accepts event = true →
      event.filename ∈ (deliver^[events.length] s).pending
  | [], s, _ => by
    refine ⟨rfl, rfl, rfl, rfl, fun _ h => h, ?_⟩
    intro event hevent
    cases hevent
  | first :: rest, s, hevents => by
    have hstep : s.deliver.events = rest ∧ s.deliver.requests = s.requests ∧
        s.deliver.batch = s.batch ∧ s.deliver.listed = s.listed ∧
        s.deliver.handled = s.handled ∧ (∀ name ∈ s.pending, name ∈ s.deliver.pending) ∧
        (accepts first = true → first.filename ∈ s.deliver.pending) := by
      rw [deliver, hevents]
      dsimp only
      by_cases haccepts : accepts first = true
      · rw [if_pos haccepts]
        exact ⟨rfl, rfl, rfl, rfl, rfl, fun _ h => List.mem_append_left _ h,
          fun _ => List.mem_append_right _ List.mem_cons_self⟩
      · rw [if_neg haccepts]
        exact ⟨rfl, rfl, rfl, rfl, rfl, fun _ h => h, fun h => absurd h haccepts⟩
    obtain ⟨hrest, hrequests, hbatch, hlisted, hhandled, hpending, hfirst⟩ := hstep
    obtain ⟨ihrequests, ihbatch, ihlisted, ihhandled, ihpending, ihevents⟩ :=
      deliver_spec rest s.deliver hrest
    rw [List.length_cons, Function.iterate_succ_apply]
    refine ⟨ihrequests.trans hrequests, ihbatch.trans hbatch, ihlisted.trans hlisted,
      ihhandled.trans hhandled, fun name h => ihpending name (hpending name h), ?_⟩
    intro event hevent haccepts
    rcases List.mem_cons.mp hevent with hsame | hlater
    · subst hsame
      exact ihpending event.filename (hfirst haccepts)
    · exact ihevents event hlater haccepts

/-- What is noticed is handled. -/
theorem drained_handles (hlisted : s.listed = true) (hname : s.requests.lookup name = some number)
    (hnoticed : s.Noticed name) : number ∈ s.drained.handled := by
  obtain ⟨hpending, hevents, hlisted₁, hbatch₁, -, hfiles⟩ := finish_spec s.batch s rfl
  rw [drained]
  generalize next^[s.batch.length] s = s₁ at hpending hevents hlisted₁ hbatch₁ hfiles
  obtain ⟨hrequests, hbatch, hlisted₂, hhandled, hkept, hdelivered⟩ := deliver_spec s₁.events s₁ rfl
  generalize deliver^[s₁.events.length] s₁ = s₂ at hrequests hbatch hlisted₂ hhandled hkept hdelivered
  have htake : s₂.take = { s₂ with batch := s₂.pending, pending := [] } := by
    rw [take, hlisted₂, hlisted₁, hlisted, hbatch, hbatch₁]
    rfl
  obtain ⟨-, -, -, -, hstill, hfinished⟩ := finish_spec s₂.pending s₂.take (by rw [htake])
  have hlength : s₂.take.batch.length = s₂.pending.length := by rw [htake]
  rw [hlength]
  rcases hfiles name number hname with hdone | ⟨hnot, hlookup⟩
  · -- it was in the batch of before
    refine hstill number ?_
    rw [htake]
    exact hhandled ▸ hdone
  · have hwaits : name ∈ s₂.pending := by
      rcases hnoticed with hbatch | hpends | ⟨event, hevent, haccepts, rfl⟩
      · exact absurd hbatch hnot
      · exact hkept name (hpending ▸ hpends)
      · exact hdelivered event (hevents ▸ hevent) haccepts
    have hthere : s₂.take.requests.lookup name = some number := by
      rw [htake]
      show s₂.requests.lookup name = some number
      rw [hrequests]
      exact hlookup
    exact (hfinished name number hthere).resolve_right fun h => h.1 hwaits

/-! ### Nothing is handled twice -/

/-- The files that are there have numbers of their own, which were never handled. -/
structure Numbered (s : Watching) : Prop where
  files : ∀ name number, s.requests.lookup name = some number →
    number < s.written ∧ number ∉ s.handled
  distinct : ∀ name name' number, s.requests.lookup name = some number →
    s.requests.lookup name' = some number → name = name'
  handled : ∀ number ∈ s.handled, number < s.written
  once : s.handled.Nodup

/-- A further event changes no numbers. -/
theorem Numbered.notice (h : Numbered s) (event : FileEvent) : Numbered (s.notice event) := by
  rw [Watching.notice]
  split
  · exact { h with }
  · exact h

/-- A file that is written takes the next number. -/
theorem Numbered.write (h : Numbered s) (id : String) : Numbered (s.write id) := by
  refine Numbered.notice ?_ _
  refine ⟨?_, ?_, fun number hn => Nat.lt_succ_of_lt (h.handled number hn), h.once⟩
  · intro name number hname
    have hlookup := (@Files.lookup_insert' _ _ _ s.requests (tempName id) s.written name).symm.trans hname
    by_cases htemp : name = tempName id
    · rw [if_pos htemp] at hlookup
      cases hlookup
      refine ⟨Nat.lt_succ_self s.written, ?_⟩
      intro hmem
      exact Nat.lt_irrefl _ (h.handled _ hmem)
    · rw [if_neg htemp] at hlookup
      obtain ⟨hlt, hnot⟩ := h.files name number hlookup
      exact ⟨Nat.lt_succ_of_lt hlt, hnot⟩
  · intro name name' number hname hname'
    have hlookup := (@Files.lookup_insert' _ _ _ s.requests (tempName id) s.written name).symm.trans hname
    have hlookup' :=
      (@Files.lookup_insert' _ _ _ s.requests (tempName id) s.written name').symm.trans hname'
    by_cases htemp : name = tempName id
    · rw [if_pos htemp] at hlookup
      by_cases htemp' : name' = tempName id
      · exact htemp.trans htemp'.symm
      · rw [if_neg htemp'] at hlookup'
        cases hlookup
        exact absurd (h.files name' _ hlookup').1 (Nat.lt_irrefl _)
    · rw [if_neg htemp] at hlookup
      by_cases htemp' : name' = tempName id
      · rw [if_pos htemp'] at hlookup'
        cases hlookup'
        exact absurd (h.files name _ hlookup).1 (Nat.lt_irrefl _)
      · rw [if_neg htemp'] at hlookup'
        exact h.distinct name name' number hlookup hlookup'

/-- What is in the directory after a rename: the renamed file, and the others. -/
theorem lookup_published {taken : Nat} (htemp : s.requests.lookup (tempName id) = some taken)
    (hname : (s.requests.renamed (tempName id) (fileName id) taken).lookup name = some number) :
    (name = fileName id ∧ number = taken) ∨
      (name ≠ tempName id ∧ name ≠ fileName id ∧ s.requests.lookup name = some number) := by
  rw [Files.lookup_renamed] at hname
  by_cases hfile : name = fileName id
  · rw [if_pos hfile] at hname
    cases hname
    exact .inl ⟨hfile, rfl⟩
  · rw [if_neg hfile] at hname
    by_cases hsame : name = tempName id
    · rw [if_pos hsame] at hname
      cases hname
    · rw [if_neg hsame] at hname
      exact .inr ⟨hsame, hfile, hname⟩

/-- A file that is renamed keeps its number. -/
theorem Numbered.publish (h : Numbered s) (id : String) : Numbered (s.publish id) := by
  rw [Watching.publish]
  cases htemp : s.requests.lookup (tempName id) with
  | none => exact h
  | some taken =>
    refine Numbered.notice ?_ _
    refine ⟨?_, ?_, h.handled, h.once⟩
    · intro name number hname
      rcases lookup_published htemp hname with ⟨-, rfl⟩ | ⟨-, -, hkept⟩
      · exact h.files _ _ htemp
      · exact h.files name number hkept
    · intro name name' number hname hname'
      rcases lookup_published htemp hname with ⟨hfile, rfl⟩ | ⟨hne, -, hkept⟩
      · rcases lookup_published htemp hname' with ⟨hfile', -⟩ | ⟨hne', -, hkept'⟩
        · exact hfile.trans hfile'.symm
        · exact absurd (h.distinct _ _ _ hkept' htemp) hne'
      · rcases lookup_published htemp hname' with ⟨-, rfl⟩ | ⟨-, -, hkept'⟩
        · exact absurd (h.distinct _ _ _ hkept htemp) hne
        · exact h.distinct name name' number hkept hkept'

/-- The worker's next file is handled and gone. -/
theorem Numbered.next (h : Numbered s) : Numbered s.next := by
  rw [Watching.next]
  cases s.batch with
  | nil => exact h
  | cons first rest =>
    dsimp only
    cases hfirst : s.requests.lookup first with
    | none => exact { h with }
    | some taken =>
      -- The file taken is gone, and the other files are as they were.
      have hkept : ∀ name number, (s.requests.erase first).lookup name = some number →
          name ≠ first ∧ s.requests.lookup name = some number := by
        intro name number hname
        rw [Files.lookup_erase'] at hname
        by_cases hsame : name = first
        · rw [if_pos hsame] at hname
          cases hname
        · rw [if_neg hsame] at hname
          exact ⟨hsame, hname⟩
      -- Its number was handled by no one before.
      obtain ⟨hlt, hnot⟩ := h.files first taken hfirst
      refine ⟨?_, ?_, ?_, ?_⟩
      · intro name number hname
        obtain ⟨hne, hlookup⟩ := hkept name number hname
        refine ⟨(h.files name number hlookup).1, ?_⟩
        intro hmem
        rcases List.mem_append.mp hmem with hold | hnew
        · exact (h.files name number hlookup).2 hold
        · rw [List.mem_singleton] at hnew
          subst hnew
          exact hne (h.distinct _ _ _ hlookup hfirst)
      · intro name name' number hname hname'
        exact h.distinct name name' number (hkept name number hname).2 (hkept name' number hname').2
      · intro number hmem
        rcases List.mem_append.mp hmem with hold | hnew
        · exact h.handled number hold
        · exact List.mem_singleton.mp hnew ▸ hlt
      · show (s.handled ++ [taken]).Nodup
        rw [List.nodup_append]
        refine ⟨h.once, List.nodup_singleton taken, ?_⟩
        intro number hmem number' hmem' heq
        rw [List.mem_singleton] at hmem'
        exact hnot (hmem' ▸ heq ▸ hmem)

/-- Every input keeps the numbers apart. -/
theorem Numbered.step (h : Numbered s) (input : WatchInput) : Numbered (s.step input) := by
  cases input with
  | write id => exact h.write id
  | publish id => exact h.publish id
  | watch => exact { h with }
  | list =>
    show Numbered s.list
    rw [Watching.list]
    split
    · exact { h with }
    · exact h
  | deliver =>
    show Numbered s.deliver
    rw [Watching.deliver]
    split
    · exact h
    · split
      · exact { h with }
      · exact { h with }
  | take =>
    show Numbered s.take
    rw [Watching.take]
    split
    · exact { h with }
    · exact h
  | next => exact h.next

/-! ### What polling would find -/

/-- After the start-up listing every file that polling would find is noticed. -/
def Covered (s : Watching) : Prop :=
  s.listed = true → ∀ name, s.requests.lookup name ≠ none → isListed name = true → s.Noticed name

/-- What is noticed stays noticed as events arrive. -/
theorem noticed_notice {event : FileEvent} (h : s.Noticed name) :
    (s.notice event).Noticed name := by
  rw [Watching.notice]
  split
  · refine h.imp_right (Or.imp_right ?_)
    rintro ⟨old, hold, haccepts⟩
    exact ⟨old, List.mem_append_left _ hold, haccepts⟩
  · exact h

/-- An event that is not accepted gives no notice. -/
theorem noticed_of_notice {event : FileEvent} (hevent : accepts event = false)
    (h : (s.notice event).Noticed name) : s.Noticed name := by
  rw [Watching.notice] at h
  split at h
  · refine h.imp_right (Or.imp_right ?_)
    rintro ⟨old, hold, haccepts, heq⟩
    rcases List.mem_append.mp hold with hold | hnew
    · exact ⟨old, hold, haccepts, heq⟩
    · rw [List.mem_singleton.mp hnew, hevent] at haccepts
      cases haccepts
  · exact h

/-- An event changes neither the directory nor whether it has been listed. -/
theorem notice_requests {event : FileEvent} :
    (s.notice event).requests = s.requests ∧ (s.notice event).listed = s.listed := by
  rw [Watching.notice]
  split <;> exact ⟨rfl, rfl⟩

/-- A temporary file is not listed, so nothing has to be noticed of it. -/
theorem Covered.write (h : Covered s) (id : String) : Covered (s.write id) := by
  intro hlisted name hname hjson
  rw [Watching.write, notice_requests.1] at hname
  rw [Watching.write, notice_requests.2] at hlisted
  refine noticed_notice ?_
  have hlookup : s.requests.lookup name ≠ none := by
    have hinsert := @Files.lookup_insert' _ _ _ s.requests (tempName id) s.written name
    rw [if_neg (tempName_ne id hjson)] at hinsert
    exact fun hnone => hname (hinsert.trans hnone)
  exact h hlisted name hlookup hjson

/-- A renamed file is covered where it was noticed on time. -/
theorem Covered.publish (h : Covered s)
    (htime : s.requests.lookup (tempName id) ≠ none → isListed (fileName id) = true →
      s.listed = true → s.Noticed (fileName id)) : Covered (s.publish id) := by
  rw [Watching.publish]
  cases htemp : s.requests.lookup (tempName id) with
  | none => exact h
  | some taken =>
    intro hlisted name hname hjson
    dsimp only at hlisted hname ⊢
    rw [notice_requests.1] at hname
    rw [notice_requests.2] at hlisted
    refine noticed_notice ?_
    show s.Noticed name
    obtain ⟨number, hnumber⟩ := Option.ne_none_iff_exists'.mp hname
    rcases lookup_published htemp hnumber with ⟨hfile, -⟩ | ⟨-, -, hkept⟩
    · rw [hfile] at hjson ⊢
      exact htime (by rw [htemp]; exact Option.some_ne_none taken) hjson hlisted
    · refine h hlisted name ?_ hjson
      rw [hkept]
      exact Option.some_ne_none number

/-- The listing covers the files that are there. -/
theorem Covered.list (h : Covered s) : Covered s.list := by
  rw [Watching.list]
  split
  · intro _ name hname hjson
    refine .inr (.inl (List.mem_append_right _ ?_))
    exact mem_listFiles.mpr ⟨Option.ne_none_iff_exists'.mp hname, hjson⟩
  · exact h

/-- Delivering an event uncovers no file. -/
theorem Covered.deliver (h : Covered s) : Covered s.deliver := by
  rw [Watching.deliver]
  cases hevents : s.events with
  | nil => exact h
  | cons event events =>
    dsimp only
    have hsplit : ∀ name, s.listed = true → s.requests.lookup name ≠ none →
        isListed name = true → name ∈ s.batch ∨ name ∈ s.pending ∨
          (accepts event = true ∧ event.filename = name) ∨
          ∃ later ∈ events, accepts later = true ∧ later.filename = name := by
      intro name hlisted hname hjson
      rcases h hlisted name hname hjson with hbatch | hpending | ⟨later, hlater, haccepts⟩
      · exact .inl hbatch
      · exact .inr (.inl hpending)
      · rw [hevents] at hlater
        rcases List.mem_cons.mp hlater with hsame | hlater
        · exact .inr (.inr (.inl (hsame ▸ haccepts)))
        · exact .inr (.inr (.inr ⟨later, hlater, haccepts⟩))
    by_cases haccepts : accepts event = true
    · rw [if_pos haccepts]
      intro hlisted name hname hjson
      rcases hsplit name hlisted hname hjson with hbatch | hpending | ⟨-, rfl⟩ | hlater
      · exact .inl hbatch
      · exact .inr (.inl (List.mem_append_left _ hpending))
      · exact .inr (.inl (List.mem_append_right _ List.mem_cons_self))
      · exact .inr (.inr hlater)
    · rw [if_neg haccepts]
      intro hlisted name hname hjson
      rcases hsplit name hlisted hname hjson with hbatch | hpending | ⟨hyes, -⟩ | hlater
      · exact .inl hbatch
      · exact .inr (.inl hpending)
      · exact absurd hyes haccepts
      · exact .inr (.inr hlater)

/-- Taking the pending names as a batch uncovers no file. -/
theorem Covered.take (h : Covered s) : Covered s.take := by
  rw [Watching.take]
  split
  case isFalse => exact h
  case isTrue hempty =>
    rw [Bool.and_eq_true, List.isEmpty_iff] at hempty
    intro hlisted name hname hjson
    rcases h hlisted name hname hjson with hbatch | hpending | hevents
    · rw [hempty.2] at hbatch
      cases hbatch
    · exact .inl hpending
    · exact .inr (.inr hevents)

/-- The worker's next file is gone afterwards, and the others stay covered. -/
theorem Covered.next (h : Covered s) : Covered s.next := by
  rw [Watching.next]
  cases hbatch : s.batch with
  | nil => exact h
  | cons first rest =>
    dsimp only
    have hothers : s.listed = true → ∀ name, name ≠ first → s.requests.lookup name ≠ none →
        isListed name = true → name ∈ rest ∨ name ∈ s.pending ∨
          ∃ event ∈ s.events, accepts event = true ∧ event.filename = name := by
      intro hlisted name hne hname hjson
      refine (h hlisted name hname hjson).imp_left ?_
      intro hmem
      rw [hbatch] at hmem
      exact (List.mem_cons.mp hmem).resolve_left hne
    cases hfirst : s.requests.lookup first with
    | none =>
      intro hlisted name hname hjson
      refine hothers hlisted name ?_ hname hjson
      rintro rfl
      exact hname hfirst
    | some taken =>
      intro hlisted name hname hjson
      have hlookup := @Files.lookup_erase' _ _ _ s.requests first name
      by_cases hsame : name = first
      · rw [if_pos hsame] at hlookup
        exact absurd hlookup hname
      · rw [if_neg hsame] at hlookup
        exact hothers hlisted name hsame (fun hnone => hname (hlookup.trans hnone)) hjson

/-- **A step on time keeps every file covered.** -/
theorem Covered.step (h : Covered s) {input : WatchInput}
    (htime : OnTime (machine.stepAt s input)) : Covered (s.step input) := by
  cases input with
  | write id => exact h.write id
  | publish id => exact h.publish (htime id rfl)
  | watch => exact h
  | list => exact h.list
  | deliver => exact h.deliver
  | take => exact h.take
  | next => exact h.next

/-- What polling would find is noticed, and so handled. -/
theorem Covered.agrees (h : Covered s) (hnumbered : Numbered s) : Agrees s := by
  refine ⟨?_, hnumbered.once⟩
  intro hlisted name number hname hfound
  have hnoticed := h hlisted name (by rw [hname]; exact Option.some_ne_none number)
    (mem_listFiles.mp hfound).2
  exact ⟨hnoticed, drained_handles hlisted hname hnoticed⟩

/-- A rename that is not on time leaves a file that polling would find and the worker will not. -/
theorem onTime_of_agrees {input : WatchInput} (h : Agrees (s.step input)) :
    OnTime (machine.stepAt s input) := by
  intro id hinput htemp hjson hlisted
  have hpublish : input = .publish id := hinput
  subst hpublish
  obtain ⟨taken, htaken⟩ := Option.ne_none_iff_exists'.mp htemp
  have hstep : s.step (.publish id) = { s with
      requests := s.requests.renamed (tempName id) (fileName id) taken }.notice
        ⟨.moved, fileName id, tempName id⟩ := by
    show s.publish id = _
    rw [Watching.publish]
    have hlookup : s.requests.lookup (tempName id) = some taken := htaken
    rw [hlookup]
  rw [hstep] at h
  have hthere : (s.requests.renamed (tempName id) (fileName id) taken).lookup (fileName id) =
      some taken := by
    rw [Files.lookup_renamed, if_pos rfl]
  obtain ⟨hnoticed, -⟩ := h.1 (notice_requests.2.trans hlisted) (fileName id) taken
    (by rw [notice_requests.1]; exact hthere)
    (mem_listFiles.mpr ⟨⟨taken, by rw [notice_requests.1]; exact hthere⟩, hjson⟩)
  have hbefore : Noticed { s with
      requests := s.requests.renamed (tempName id) (fileName id) taken } (fileName id) :=
    noticed_of_notice rfl hnoticed
  exact hbefore

/-- **The branches agree** in exactly the runs in which every rename is on time. -/
theorem agrees_iff (inputs : List WatchInput) :
    (∀ r ∈ history inputs, Agrees r.after) ↔ ∀ r ∈ history inputs, OnTime r := by
  have hrun := @run_replay _ _ _ machine (fun _ _ _ => True) inputs
    (machine.permits_all (fun _ _ _ => trivial) inputs _)
  constructor
  · intro hagrees r hr
    obtain ⟨older, -, -, heq⟩ := hrun.allowed_of_mem r hr
    have hafter := hagrees r hr
    rw [heq] at hafter ⊢
    exact onTime_of_agrees hafter
  -- The invariant of the run: while every step is on time, what the worker knows covers what is
  -- listed.
  · have hall := hrun.invariant
      (fun h s => Numbered s ∧ ((∀ r ∈ h, OnTime r) → (∀ r ∈ h, Agrees r.after) ∧ Covered s))
      ?_ ?_
    · exact fun htime => (hall.2 htime).1
    · refine ⟨⟨?_, ?_, ?_, List.nodup_nil⟩, ?_⟩
      · intro name number hname
        cases hname
      · intro name name' number hname
        cases hname
      · intro number hmem
        cases hmem
      · intro _
        refine ⟨by simp, ?_⟩
        intro hlisted
        cases hlisted
    · rintro h s input - ⟨hnumbered, hcovered⟩ -
      refine ⟨hnumbered.step input, ?_⟩
      intro htime
      rw [List.forall_mem_cons] at htime
      obtain ⟨hagrees, hcover⟩ := hcovered htime.2
      have hnext : Covered (s.step input) := hcover.step htime.1
      refine ⟨?_, hnext⟩
      rw [List.forall_mem_cons]
      exact ⟨hnext.agrees (hnumbered.step input), hagrees⟩

/-- A client writes and renames its request after the worker has started: polling would find the
    file, and nothing tells the worker of it. -/
theorem request_unnoticed :
    ¬∀ r ∈ history [.watch, .list, .write "a", .publish "a"], Agrees r.after := by
  intro hagrees
  have hlast := hagrees _ List.mem_cons_self
  have hfile : isListed "a.json" = true := by decide
  obtain ⟨hnoticed, -⟩ := hlast.1 rfl "a.json" 0 (by decide)
    (mem_listFiles.mpr ⟨⟨0, by decide⟩, hfile⟩)
  rcases hnoticed with hbatch | hpending | ⟨event, hevent, haccepts, -⟩
  · cases hbatch
  · -- the start-up listing was of an empty directory
    have hempty : "a.json" ∈ listFiles (∅ : Files String Nat) := hpending
    obtain ⟨⟨number, hnumber⟩, -⟩ := (@mem_listFiles {} "a.json").mp hempty
    cases hnumber
  · have hmoved : event ∈ [⟨.add, "a.json.tmp", ""⟩, ⟨.moved, "a.json", "a.json.tmp"⟩] := hevent
    rcases List.mem_cons.mp hmoved with hadd | hmoved
    · rw [hadd] at haccepts
      revert haccepts
      decide
    · rw [List.mem_singleton.mp hmoved] at haccepts
      cases haccepts

end Watching

end YirangMQ.Mailbox

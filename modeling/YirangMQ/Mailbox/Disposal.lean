import YirangMQ.Library.Machine
import YirangMQ.Mailbox.Survival
import YirangMQ.Mailbox.Watching

namespace YirangMQ.Mailbox

/-!
# What becomes of a request file

The worker and the cleaner share `processing/`.  The worker goes through the steps of `workerStep`;
`cleanup_stale_requests` lists the directory, looks at the age of one file after the other, and
buries those that are too old.  The age is that of the file the client wrote.

* `Disposal`, `DisposalInput` — the mailbox, the two workers and their steps, in any order;
* `Fate`, `fates` — what has happened to a request, from the files the steps really moved;
* `Exclusive` — a request is executed and answered, or dead, and never both;
* `Careful` — nothing is buried once it has been read, and responses can be written;
* `exclusive_of_careful` — **requests are disposed of exclusively in runs of careful steps.**
-/

/-- What has happened to a request. -/
inductive Fate where
  | picked
  | executed
  | answered
  | removed
  | rejected
  | cleaned
  deriving DecidableEq, Repr

/-- How far `cleanup_stale_requests` is: with the files still to be looked at, or about to bury one
    that is too old. -/
inductive Cleaner where
  | idle
  | sweeping (names : List String)
  | burying (name : String) (rest : List String)
  | stopped (what : String)

/-- The mailbox and its two workers.  `current` is the request the worker took last, and `log` is
    what has happened, oldest first. -/
structure Disposal where
  mail : Mail := ∅
  worker : Phase := .idle
  current : Option Nat := none
  cleaner : Cleaner := .idle
  sent : Nat := 0
  log : List (Nat × Fate) := []

/-- What a client, the worker or the cleaner does next. -/
inductive DisposalInput where
  /-- a client puts a file into `requests/`, with a time of its choice -/
  | send (name content : String) (lastWrite : Int)
  | pick (name : String)
  | work (sur : Surroundings)
  | list
  | check (now : Int)
  | bury (libs : Libraries) (now : Int)

/-- `list_files`, over the files of a directory. -/
def listDirectory (dir : Directory) (mail : Mail) : List String :=
  let name? : Directory → Option String
    | name :: above => if above = dir ∧ isListed name = true then some name else none
    | [] => none
  (mail.keys.filterMap name?).mergeSort fun a b => decide (a ≤ b)

/-- The request whose file has a path. -/
def requestAt (path : Directory) (mail : Mail) : Option Nat :=
  (mail.lookup path).bind MailFile.request

namespace Disposal

/-- Note what happened to a request, when the file was that of one. -/
def record (request : Option Nat) (fate : Fate) (s : Disposal) : Disposal :=
  { s with log := s.log ++ (request.map fun number => (number, fate)).toList }

/-- A client renames its request into `requests/`. The file carries the number of the request, which
    the code does not see. -/
def send (name content : String) (lastWrite : Int) (s : Disposal) : Disposal :=
  { s with
    mail := s.mail.insert (name :: requestsDir) ⟨content, lastWrite, some s.sent⟩
    sent := s.sent + 1 }

/-- The worker takes a file, when it has none. -/
def pick (name : String) (s : Disposal) : Disposal :=
  match s.worker with
  | .idle =>
    let taken := Mailbox.pick name s.mail
    let request := requestAt (name :: requestsDir) s.mail
    { s with worker := taken.1, mail := taken.2, current := request }.record request .picked
  | _ => s

/-- What the next step of the worker does to a request. -/
def workFate (sur : Surroundings) (s : Disposal) : Option (Option Nat × Fate) :=
  match s.worker with
  | .busy name (.rejected _) => some (requestAt (name :: processingDir) s.mail, .rejected)
  | .busy _ (.parsed _) => some (s.current, .executed)
  | .busy _ (.handled request response) =>
    match (writeResponseFile sur request.clientId response s.mail).1 with
    | .ok true =>
      if Inside responsesDir (responsePath request.clientId response.requestId) then
        some (s.current, .answered)
      else none
    | _ => none
  | .busy name .answered => some (requestAt (name :: processingDir) s.mail, .removed)
  | _ => none

/-- A step of the worker, with what it does to the request. -/
def work (sur : Surroundings) (s : Disposal) : Disposal :=
  let worked := workerStep sur (s.worker, s.mail)
  let next := { s with worker := worked.1, mail := worked.2 }
  match s.workFate sur with
  | some (request, fate) => next.record request fate
  | none => next

/-- The cleaner lists `processing/`, without taking the mutex of the worker. -/
def list (s : Disposal) : Disposal :=
  match s.cleaner with
  | .idle => { s with cleaner := .sweeping (listDirectory processingDir s.mail) }
  | _ => s

/-- It looks at the age of the next file. -/
def check (staleTimeoutMs now : Int) (s : Disposal) : Disposal :=
  match s.cleaner with
  | .sweeping [] => { s with cleaner := .idle }
  | .sweeping (name :: rest) =>
    match s.mail.lookup (name :: processingDir) with
    | none => { s with cleaner := .sweeping rest }
    | some file =>
      if staleTimeoutMs < now - file.lastWrite then { s with cleaner := .burying name rest }
      else { s with cleaner := .sweeping rest }
  | _ => s

/-- And moves it to `dead/`, if it is still there. -/
def bury (libs : Libraries) (now : Int) (s : Disposal) : Disposal :=
  match s.cleaner with
  | .burying name rest =>
    let buried := moveToDead libs now name "stale timeout" s.mail
    let cleaner :=
      match buried.1 with
      | .error what => Cleaner.stopped what
      | .ok () => .sweeping rest
    { s with mail := buried.2, cleaner }.record (requestAt (name :: processingDir) s.mail) .cleaned
  | _ => s

/-- The state after an input. -/
def step (staleTimeoutMs : Int) (s : Disposal) : DisposalInput → Disposal
  | .send name content lastWrite => s.send name content lastWrite
  | .pick name => s.pick name
  | .work sur => s.work sur
  | .list => s.list
  | .check now => s.check staleTimeoutMs now
  | .bury libs now => s.bury libs now

/-- The worker, the cleaner and the clients, all idle and with no file at first. -/
def machine (staleTimeoutMs : Int) : Machine Disposal DisposalInput Unit where
  start := {}
  step s input := ((), s.step staleTimeoutMs input)

/-- What has happened, newest first. -/
def history (staleTimeoutMs : Int) (inputs : List DisposalInput) :
    History Disposal DisposalInput Unit :=
  ((machine staleTimeoutMs).replay inputs ([], (machine staleTimeoutMs).start)).1

/-! ### Exclusive disposal -/

/-- What has happened to a request, oldest first. -/
def fates (s : Disposal) (number : Nat) : List Fate :=
  s.log.filterMap fun entry => if entry.1 = number then some entry.2 else none

/-- The worker has the file of a request. -/
def InHand (s : Disposal) (number : Nat) : Prop :=
  s.current = some number ∧ ∃ name stage, s.worker = .busy name stage

/-- The request was executed, answered and removed, or was moved to `dead/` instead. -/
def Settled (s : Disposal) (number : Nat) : Prop :=
  s.fates number = [.picked, .executed, .answered, .removed] ∨
  s.fates number = [.picked, .rejected] ∨ s.fates number = [.picked, .cleaned]

/-- No request is executed and buried, and each that the worker took and is done with has come to
    exactly one of its ends. -/
structure Exclusive (s : Disposal) : Prop where
  never : ∀ number, .executed ∈ s.fates number → .cleaned ∉ s.fates number
  ends : ∀ number, .picked ∈ s.fates number → ¬s.InHand number → s.Settled number

end Disposal

/-- The file has not been read, or not as a request to be executed. -/
def Stage.unread : Stage → Bool
  | .moved | .rejected _ => true
  | _ => false

/-- What has happened to a request of which the worker has got so far. -/
def Stage.fates : Stage → List Fate
  | .moved | .rejected _ | .parsed _ => [.picked]
  | .handled _ _ => [.picked, .executed]
  | .answered => [.picked, .executed, .answered]

/-- The response can be written, and its file is in `responses/`. -/
def Answerable (sur : Surroundings) (request : MailboxRequest) (response : MailboxResponse) :
    Prop :=
  (sur.context.libs.dump (responseJson sur.context.libs response)).isOk = true ∧
  sur.writable = true ∧ Inside responsesDir (responsePath request.clientId response.requestId)

/-- Whether a request is answerable can be computed. -/
instance (sur : Surroundings) (request : MailboxRequest) (response : MailboxResponse) :
    Decidable (Answerable sur request response) :=
  inferInstanceAs (Decidable (_ ∧ _))

namespace Disposal

/-- The cleaner does not bury the file of a request the worker has read and is to execute, and the
    worker can write its responses. -/
def Careful (r : Step Disposal DisposalInput Unit) : Prop :=
  match r.input, r.before.worker with
  | .bury _ _, .busy name stage =>
    match r.before.cleaner with
    | .burying name' _ => name' = name → stage.unread = true
    | _ => True
  | .work sur, .busy _ (.handled request response) => Answerable sur request response
  | _, _ => True

variable {s s' : Disposal} {name : String} {number : Nat} {stage : Stage} {sur : Surroundings}
  {mail : Mail} {path : Directory}

/-! ### Where the steps leave files -/

/-- The two directories are different. -/
theorem processing_ne_requests : processingDir ≠ requestsDir := by decide

/-- What happened to a request after a note. -/
theorem fates_record (request : Option Nat) (fate : Fate) (s : Disposal) (number : Nat) :
    (s.record request fate).fates number =
      s.fates number ++ if request = some number then [fate] else [] := by
  rw [fates, record, List.filterMap_append]
  show s.fates number ++ _ = _
  cases request with
  | none => rfl
  | some other =>
    by_cases hsame : other = number
    · simp [hsame]
    · simp [hsame]

/-- Outside `dead/`, only the file that is moved leaves its place. -/
theorem lookup_moveToDead (libs : Libraries) (now : Int) (name reason : String) (mail : Mail)
    (hpath : path.drop 1 ≠ deadDir) :
    (moveToDead libs now name reason mail).2.lookup path =
      if path = name :: processingDir then none else mail.lookup path := by
  have hdead : path ≠ name :: deadDir := by
    intro h
    exact hpath (by rw [h]; rfl)
  have hreason : path ≠ reasonPath name := by
    intro h
    exact hpath (by rw [h]; rfl)
  rw [moveToDead, Files.rename]
  cases hfile : mail.lookup (name :: processingDir) with
  | none =>
    by_cases hsame : path = name :: processingDir
    · rw [if_pos hsame, hsame]
      exact hfile
    · rw [if_neg hsame]
  | some file =>
    dsimp only
    cases hdump : libs.dump (reasonJson now reason) with
    | error what =>
      dsimp only
      rw [Files.lookup_insert', if_neg hreason, Files.lookup_renamed, if_neg hdead]
    | ok text =>
      dsimp only
      rw [Files.lookup_insert', if_neg hreason, Files.lookup_renamed, if_neg hdead]

/-- The file a path is written through is in the same directory. -/
theorem drop_tempPath : ∀ path : Directory, (tempPath path).drop 1 = path.drop 1
  | [] => rfl
  | _ :: _ => rfl

/-- The temporary file of a response lies where the response does. -/
theorem drop_responseTemp (clientId requestId : String) :
    (responseTemp clientId requestId).drop 1 = (responsePath clientId requestId).drop 1 := by
  rw [responseTemp]
  split
  case isTrue => rfl
  case isFalse => exact drop_tempPath _

/-- No file of `processing/` lies inside `responses/`. -/
theorem processing_outside_responses (name : String) : ¬Inside responsesDir (name :: processingDir) := by
  show ¬responsesDir <:+ processingDir
  decide

/-- No file of `requests/` lies inside `responses/`. -/
theorem requests_outside_responses (name : String) : ¬Inside responsesDir (name :: requestsDir) := by
  show ¬responsesDir <:+ requestsDir
  decide

/-- A response that can be written is, and touches nothing outside `responses/`. -/
theorem writeResponseFile_spec {request : MailboxRequest} {response : MailboxResponse}
    (h : Answerable sur request response) (mail : Mail) :
    (writeResponseFile sur request.clientId response mail).1 = .ok true ∧
    ∀ path : Directory, ¬Inside responsesDir path →
      (writeResponseFile sur request.clientId response mail).2.lookup path =
        mail.lookup path := by
  obtain ⟨hdump, hwritable, hplace⟩ := h
  rw [writeResponseFile]
  cases htext : sur.context.libs.dump (responseJson sur.context.libs response) with
  | error what =>
    rw [htext] at hdump
    cases hdump
  | ok text =>
    dsimp only
    rw [if_pos hwritable]
    refine ⟨rfl, ?_⟩
    intro path hpath
    have htarget : path ≠ responsePath request.clientId response.requestId := by
      intro hsame
      exact hpath (hsame ▸ hplace)
    have htemp : path ≠ responseTemp request.clientId response.requestId := by
      intro hsame
      refine hpath ?_
      rw [hsame, Inside, drop_responseTemp]
      exact hplace
    rw [Files.lookup_renamed, if_neg htarget, if_neg htemp, Files.lookup_insert', if_neg htemp]

/-! ### The invariant -/

/-- The worker has got so far with a request, and its file is where the worker put it, unless the
    cleaner has buried it unread. -/
def Holds (s : Disposal) (name : String) (stage : Stage) (number : Nat) : Prop :=
  s.fates number = stage.fates ∧ requestAt (name :: processingDir) s.mail = some number ∨
  stage.unread = true ∧ s.fates number = [.picked, .cleaned] ∧
    s.mail.lookup (name :: processingDir) = none

/-- The requests whose files wait have numbers of their own, and nothing has happened to them. -/
structure Waiting (s : Disposal) : Prop where
  fresh : ∀ number, s.sent ≤ number → s.fates number = []
  waiting : ∀ name file, s.mail.lookup (name :: requestsDir) = some file →
    ∃ number, file.request = some number ∧ number < s.sent ∧ s.fates number = []
  distinct : ∀ name name' number, requestAt (name :: requestsDir) s.mail = some number →
    requestAt (name' :: requestsDir) s.mail = some number → name = name'

/-- Moreover `processing/` has no request but the one the worker is at, and the others are
    settled. -/
structure Sound (s : Disposal) : Prop extends Waiting s where
  hand : ∀ name stage, s.worker = .busy name stage →
    ∃ number, s.current = some number ∧ s.Holds name stage number
  processing : ∀ name number, requestAt (name :: processingDir) s.mail = some number →
    s.current = some number ∧ ∃ stage, s.worker = .busy name stage
  settled : ∀ number, s.fates number = [] ∨ s.InHand number ∨ s.Settled number

/-- Something has happened to a request in hand. -/
theorem Holds.ne_nil (h : s.Holds name stage number) : s.fates number ≠ [] := by
  rcases h with ⟨hfates, -⟩ | ⟨-, hfates, -⟩
  · rw [hfates]
    cases stage <;> simp [Stage.fates]
  · simp [hfates]

/-- The invariant says what was to be shown. -/
theorem Sound.exclusive (h : Sound s) : Exclusive s := by
  refine ⟨?_, ?_⟩
  · intro number
    rcases h.settled number with hnone | ⟨hcurrent, name, stage, hbusy⟩ | hends
    · simp [hnone]
    · obtain ⟨number', hcurrent', hholds⟩ := h.hand name stage hbusy
      obtain rfl : number = number' := Option.some.inj (hcurrent.symm.trans hcurrent')
      rcases hholds with ⟨hfates, -⟩ | ⟨-, hfates, -⟩
      · rw [hfates]
        cases stage <;> simp [Stage.fates]
      · simp [hfates]
    · rcases hends with hfates | hfates | hfates <;> simp [hfates]
  · intro number hpicked hnot
    rcases h.settled number with hnone | hhand | hends
    · rw [hnone] at hpicked
      cases hpicked
    · exact absurd hhand hnot
    · exact hends

/-- What waits is not touched by a step that leaves `requests/` alone and does nothing to a request
    nothing has happened to. -/
theorem Waiting.frame (h : Waiting s) (hsent : s'.sent = s.sent)
    (hrequests : ∀ name, s'.mail.lookup (name :: requestsDir) = s.mail.lookup (name :: requestsDir))
    (hfates : ∀ number, s.fates number = [] → s'.fates number = []) : Waiting s' := by
  refine ⟨?_, ?_, ?_⟩
  · intro number hnumber
    rw [hsent] at hnumber
    exact hfates number (h.fresh number hnumber)
  · intro name file hfile
    rw [hrequests] at hfile
    obtain ⟨number, hnumber, hlt, hnone⟩ := h.waiting name file hfile
    exact ⟨number, hnumber, by rw [hsent]; exact hlt, hfates number hnone⟩
  · intro name name' number hname hname'
    rw [requestAt, hrequests] at hname hname'
    exact h.distinct name name' number hname hname'

/-- A step on the request in hand: the worker keeps it, or the request is settled and its file has
    left `processing/`. -/
theorem Sound.onward (h : Sound s) (hbusy : s.worker = .busy name stage)
    (hcurrent : s.current = some number) (hsent : s'.sent = s.sent)
    (hcurrent' : s'.current = s.current)
    (hrequests : ∀ name, s'.mail.lookup (name :: requestsDir) = s.mail.lookup (name :: requestsDir))
    (hothers : ∀ name', name' ≠ name →
      s'.mail.lookup (name' :: processingDir) = s.mail.lookup (name' :: processingDir))
    (hfates : ∀ number', number' ≠ number → s'.fates number' = s.fates number')
    (hend : (∃ stage', s'.worker = .busy name stage' ∧ s'.Holds name stage' number) ∨
      ((∀ name stage, s'.worker ≠ .busy name stage) ∧
        s'.mail.lookup (name :: processingDir) = none ∧ s'.Settled number)) : Sound s' := by
  have hheld : s.Holds name stage number := by
    obtain ⟨number', hnumber', hholds⟩ := h.hand name stage hbusy
    obtain rfl : number = number' := Option.some.inj (hcurrent.symm.trans hnumber')
    exact hholds
  -- no other file of `processing/` is that of a request
  have halone : ∀ name' number', requestAt (name' :: processingDir) s'.mail = some number' →
      name' = name := by
    intro name' number' hat
    by_contra hne
    rw [requestAt, hothers name' hne] at hat
    obtain ⟨-, stage', hbusy'⟩ := h.processing name' number' hat
    rw [hbusy] at hbusy'
    cases hbusy'
    exact hne rfl
  refine ⟨h.toWaiting.frame hsent hrequests ?_, ?_, ?_, ?_⟩
  · intro number' hnone
    rw [hfates number', hnone]
    intro hsame
    exact hheld.ne_nil (hsame ▸ hnone)
  · intro name' stage' hbusy'
    rcases hend with ⟨stage'', hbusy'', hholds⟩ | ⟨hidle, -, -⟩
    · rw [hbusy''] at hbusy'
      cases hbusy'
      exact ⟨number, hcurrent'.trans hcurrent, hholds⟩
    · exact absurd hbusy' (hidle name' stage')
  · intro name' number' hat
    obtain rfl := halone name' number' hat
    rcases hend with ⟨stage', hbusy', ⟨-, hthere⟩ | ⟨-, -, hgone⟩⟩ | ⟨-, hgone, -⟩
    · obtain rfl : number = number' := Option.some.inj (hthere.symm.trans hat)
      exact ⟨hcurrent'.trans hcurrent, stage', hbusy'⟩
    · rw [requestAt, hgone] at hat
      cases hat
    · rw [requestAt, hgone] at hat
      cases hat
  · intro number'
    by_cases hsame : number' = number
    · subst hsame
      right
      rcases hend with ⟨stage', hbusy', -⟩ | ⟨-, -, hsettled⟩
      · exact .inl ⟨hcurrent'.trans hcurrent, name, stage', hbusy'⟩
      · exact .inr hsettled
    · have hkept := hfates number' hsame
      rcases h.settled number' with hnone | ⟨hhand, -⟩ | hsettled
      · exact .inl (hkept.trans hnone)
      · exact absurd (Option.some.inj (hhand.symm.trans hcurrent)) hsame
      · rw [Settled, ← hkept] at hsettled
        exact .inr (.inr hsettled)

/-- A request that is sent waits, with a number of its own. -/
theorem Sound.send (h : Sound s) (name content : String) (lastWrite : Int) :
    Sound (s.send name content lastWrite) := by
  have hlookup : ∀ path, (s.send name content lastWrite).mail.lookup path =
      if path = name :: requestsDir then some ⟨content, lastWrite, some s.sent⟩
      else s.mail.lookup path := fun path => Files.lookup_insert' path
  have hprocessing : ∀ name', (s.send name content lastWrite).mail.lookup
      (name' :: processingDir) = s.mail.lookup (name' :: processingDir) := by
    intro name'
    rw [hlookup, if_neg]
    intro hsame
    exact processing_ne_requests (List.cons.inj hsame).2
  -- a file that waits is the new one, or was there before
  have hwaits : ∀ name' file, (s.send name content lastWrite).mail.lookup (name' :: requestsDir) =
      some file → (name' = name ∧ file.request = some s.sent) ∨
        s.mail.lookup (name' :: requestsDir) = some file := by
    intro name' file hfile
    rw [hlookup] at hfile
    split at hfile
    case isTrue hsame =>
      cases hfile
      exact .inl ⟨(List.cons.inj hsame).1, rfl⟩
    case isFalse => exact .inr hfile
  have hold : ∀ name' number, requestAt (name' :: requestsDir) s.mail = some number →
      number < s.sent := by
    intro name' number hat
    obtain ⟨file, hfile, hnumber⟩ := Option.bind_eq_some_iff.mp hat
    obtain ⟨number', hnumber', hlt, -⟩ := h.waiting name' file hfile
    obtain rfl : number = number' := Option.some.inj (hnumber.symm.trans hnumber')
    exact hlt
  refine ⟨⟨?_, ?_, ?_⟩, ?_, ?_, h.settled⟩
  · intro number hnumber
    exact h.fresh number (Nat.le_of_succ_le hnumber)
  · intro name' file hfile
    rcases hwaits name' file hfile with ⟨-, hnew⟩ | hfile
    · exact ⟨s.sent, hnew, Nat.lt_succ_self s.sent, h.fresh s.sent (Nat.le_refl s.sent)⟩
    · obtain ⟨number, hnumber, hlt, hnone⟩ := h.waiting name' file hfile
      exact ⟨number, hnumber, Nat.lt_succ_of_lt hlt, hnone⟩
  · intro name₁ name₂ number hname₁ hname₂
    obtain ⟨file₁, hfile₁, hnumber₁⟩ := Option.bind_eq_some_iff.mp hname₁
    obtain ⟨file₂, hfile₂, hnumber₂⟩ := Option.bind_eq_some_iff.mp hname₂
    rcases hwaits name₁ file₁ hfile₁ with ⟨hsame₁, hnew₁⟩ | hold₁
    · rcases hwaits name₂ file₂ hfile₂ with ⟨hsame₂, -⟩ | hold₂
      · exact hsame₁.trans hsame₂.symm
      · have hlt := hold name₂ number (Option.bind_eq_some_iff.mpr ⟨file₂, hold₂, hnumber₂⟩)
        have hnumber := Option.some.inj (hnumber₁.symm.trans hnew₁)
        omega
    · have hat₁ := Option.bind_eq_some_iff.mpr ⟨file₁, hold₁, hnumber₁⟩
      rcases hwaits name₂ file₂ hfile₂ with ⟨-, hnew₂⟩ | hold₂
      · have hlt := hold name₁ number hat₁
        have hnumber := Option.some.inj (hnumber₂.symm.trans hnew₂)
        omega
      · exact h.distinct name₁ name₂ number hat₁
          (Option.bind_eq_some_iff.mpr ⟨file₂, hold₂, hnumber₂⟩)
  · intro name' stage hbusy
    obtain ⟨number, hcurrent, hholds⟩ := h.hand name' stage hbusy
    refine ⟨number, hcurrent, ?_⟩
    rw [Holds, requestAt, hprocessing]
    exact hholds
  · intro name' number hat
    rw [requestAt, hprocessing] at hat
    exact h.processing name' number hat

/-- While the worker has nothing, `processing/` has no request. -/
theorem Sound.nobody (h : Sound s) (hidle : s.worker = .idle) (name : String) (number : Nat) :
    requestAt (name :: processingDir) s.mail ≠ some number := by
  intro hat
  obtain ⟨-, stage, hbusy⟩ := h.processing name number hat
  rw [hidle] at hbusy
  cases hbusy

/-- And what has begun is settled. -/
theorem Sound.settled_idle (h : Sound s) (hidle : s.worker = .idle) (number : Nat) :
    s.fates number = [] ∨ s.Settled number := by
  rcases h.settled number with hempty | ⟨-, name, stage, hbusy⟩ | hsettled
  · exact .inl hempty
  · rw [hidle] at hbusy
    cases hbusy
  · exact .inr hsettled

/-- What waits in `requests/` after a file has been moved out of it. -/
theorem lookup_requests_taken (mail : Mail) (name : String) (file : MailFile) (name' : String) :
    (mail.renamed (name :: requestsDir) (name :: processingDir) file).lookup (name' :: requestsDir) =
      if name' = name then none else mail.lookup (name' :: requestsDir) := by
  have hdir : name' :: requestsDir ≠ name :: processingDir := by
    intro hsame
    exact processing_ne_requests (List.cons.inj hsame).2.symm
  rw [Files.lookup_renamed, if_neg hdir]
  simp only [List.cons.injEq, and_true]

/-- What is in `processing/` after a file has been moved into it. -/
theorem lookup_processing_taken (mail : Mail) (name : String) (file : MailFile) (name' : String) :
    (mail.renamed (name :: requestsDir) (name :: processingDir) file).lookup
        (name' :: processingDir) =
      if name' = name then some file else mail.lookup (name' :: processingDir) := by
  have hdir : name' :: processingDir ≠ name :: requestsDir := by
    intro hsame
    exact processing_ne_requests (List.cons.inj hsame).2
  rw [Files.lookup_renamed, if_neg hdir]
  simp only [List.cons.injEq, and_true]

section Taking

variable {file : MailFile} (hfile : s.mail.lookup (name :: requestsDir) = some file)
  (hnumber : file.request = some number)
  (hmail : s'.mail = s.mail.renamed (name :: requestsDir) (name :: processingDir) file)
  (hsent : s'.sent = s.sent)
  (hfates : ∀ number', s'.fates number' =
    s.fates number' ++ if some number = some number' then [.picked] else [])

include hfile hnumber hmail hsent hfates

/-- The requests that still wait did so before, and are others than the one taken. -/
theorem Waiting.taken (h : Waiting s) : Waiting s' := by
  have hat : requestAt (name :: requestsDir) s.mail = some number := by
    rw [requestAt, hfile]
    exact hnumber
  obtain ⟨number₀, hnumber₀, hlt, -⟩ := h.waiting name file hfile
  obtain rfl : number = number₀ := Option.some.inj (hnumber.symm.trans hnumber₀)
  have hkept : ∀ number', number ≠ number' → s'.fates number' = s.fates number' := by
    intro number' hne
    rw [hfates, if_neg (fun hsame => hne (Option.some.inj hsame)), List.append_nil]
  have hothers : ∀ name' file', s'.mail.lookup (name' :: requestsDir) = some file' →
      name' ≠ name ∧ s.mail.lookup (name' :: requestsDir) = some file' := by
    intro name' file' hfile'
    rw [hmail, lookup_requests_taken] at hfile'
    split at hfile'
    case isTrue => cases hfile'
    case isFalse hne => exact ⟨hne, hfile'⟩
  refine ⟨?_, ?_, ?_⟩
  · intro number' hle
    rw [hsent] at hle
    rw [hkept number' (by omega)]
    exact h.fresh number' hle
  · intro name' file' hfile'
    obtain ⟨hne, hold⟩ := hothers name' file' hfile'
    obtain ⟨number', hnumber', hlt', hnone'⟩ := h.waiting name' file' hold
    refine ⟨number', hnumber', by rw [hsent]; exact hlt', ?_⟩
    rw [hkept number' ?_, hnone']
    intro hsame
    refine hne (h.distinct name' name number ?_ hat)
    rw [requestAt, hold, hsame]
    exact hnumber'
  · intro name₁ name₂ number' hname₁ hname₂
    obtain ⟨file₁, hfile₁, hnumber₁⟩ := Option.bind_eq_some_iff.mp hname₁
    obtain ⟨file₂, hfile₂, hnumber₂⟩ := Option.bind_eq_some_iff.mp hname₂
    exact h.distinct name₁ name₂ number'
      (Option.bind_eq_some_iff.mpr ⟨file₁, (hothers name₁ file₁ hfile₁).2, hnumber₁⟩)
      (Option.bind_eq_some_iff.mpr ⟨file₂, (hothers name₂ file₂ hfile₂).2, hnumber₂⟩)

/-- The worker has taken a file that waited. -/
theorem Sound.taken (h : Sound s) (hidle : s.worker = .idle)
    (hworker : s'.worker = .busy name .moved) (hcurrent : s'.current = some number) :
    Sound s' := by
  obtain ⟨number₀, hnumber₀, -, hnone⟩ := h.waiting name file hfile
  obtain rfl : number = number₀ := Option.some.inj (hnumber.symm.trans hnumber₀)
  have hthere : requestAt (name :: processingDir) s'.mail = some number := by
    rw [requestAt, hmail, lookup_processing_taken, if_pos rfl]
    exact hnumber
  refine ⟨Waiting.taken hfile hnumber hmail hsent hfates h.toWaiting, ?_, ?_, ?_⟩
  · intro name' stage hbusy
    rw [hworker] at hbusy
    cases hbusy
    refine ⟨number, hcurrent, .inl ⟨?_, hthere⟩⟩
    rw [hfates, hnone, if_pos rfl]
    rfl
  · intro name' number' hat'
    by_cases hsame : name' = name
    · subst hsame
      obtain rfl : number = number' := Option.some.inj (hthere.symm.trans hat')
      exact ⟨hcurrent, .moved, hworker⟩
    · -- an idle worker has left nothing else in `processing/`
      rw [requestAt, hmail, lookup_processing_taken, if_neg hsame] at hat'
      exact absurd hat' (h.nobody hidle name' number')
  · intro number'
    by_cases hsame : number = number'
    · subst hsame
      exact .inr (.inl ⟨hcurrent, name, .moved, hworker⟩)
    · have hkept : s'.fates number' = s.fates number' := by
        rw [hfates, if_neg (fun heq => hsame (Option.some.inj heq)), List.append_nil]
      have hrest := h.settled_idle hidle number'
      rw [Settled, ← hkept] at hrest
      exact hrest.imp_right .inr

end Taking

/-- The file that is picked up was waiting, and is in hand now. -/
theorem Sound.pick (h : Sound s) (name : String) : Sound (s.pick name) := by
  unfold Disposal.pick
  cases hworker : s.worker with
  | busy name' stage => exact h
  | stopped what => exact h
  | idle =>
    dsimp only
    rw [Mailbox.pick, moveToProcessing, Files.rename]
    cases hfile : s.mail.lookup (name :: requestsDir) with
    -- The file is gone: nothing moves, and the pick is recorded for nobody.
    | none =>
      have hnone : requestAt (name :: requestsDir) s.mail = none := by rw [requestAt, hfile]; rfl
      dsimp only
      rw [hnone]
      have hfates : ∀ number, (record none .picked
          { s with worker := .idle, mail := s.mail, current := none }).fates number =
            s.fates number := by
        intro number
        rw [fates_record, if_neg (Option.some_ne_none number).symm, List.append_nil]
        rfl
      refine ⟨h.toWaiting.frame rfl (fun _ => rfl) ?_, ?_, ?_, ?_⟩
      · intro number hempty
        rw [hfates, hempty]
      · intro name' stage hbusy
        cases hbusy
      · intro name' number hat
        exact absurd hat (h.nobody hworker name' number)
      · intro number
        have hrest := h.settled_idle hworker number
        rw [Settled, ← hfates number] at hrest
        exact hrest.imp_right .inr
    -- The file is there, so its request goes with it.
    | some file =>
      obtain ⟨number, hnumber, -, -⟩ := h.waiting name file hfile
      have hat : requestAt (name :: requestsDir) s.mail = some number := by
        rw [requestAt, hfile]
        exact hnumber
      dsimp only
      rw [hat]
      exact Sound.taken hfile hnumber rfl rfl (fun number' => fates_record _ _ _ number') h hworker
        rfl rfl

/-- No file of `requests/` lies in `dead/`. -/
theorem requests_outside_dead (name : String) : (name :: requestsDir).drop 1 ≠ deadDir := by
  show requestsDir ≠ deadDir
  decide

/-- No file of `processing/` lies in `dead/`. -/
theorem processing_outside_dead (name : String) : (name :: processingDir).drop 1 ≠ deadDir := by
  show processingDir ≠ deadDir
  decide

/-- After a move to `dead/` only that file is gone. -/
theorem lookup_processing_moved (libs : Libraries) (now : Int) (name reason : String)
    (mail : Mail) (name' : String) :
    (moveToDead libs now name reason mail).2.lookup (name' :: processingDir) =
      if name' = name then none else mail.lookup (name' :: processingDir) := by
  rw [lookup_moveToDead libs now name reason mail (processing_outside_dead name')]
  simp only [List.cons.injEq, and_true]

/-- Burying a file leaves the waiting requests alone. -/
theorem lookup_requests_moved (libs : Libraries) (now : Int) (name reason : String)
    (mail : Mail) (name' : String) :
    (moveToDead libs now name reason mail).2.lookup (name' :: requestsDir) =
      mail.lookup (name' :: requestsDir) := by
  rw [lookup_moveToDead libs now name reason mail (requests_outside_dead name'), if_neg]
  intro hsame
  exact processing_ne_requests (List.cons.inj hsame).2.symm

/-- A file that is not there cannot be read. -/
theorem readStage_none (sur : Surroundings) (h : mail.lookup (name :: processingDir) = none) :
    (readStage sur name mail).unread = true := by
  rw [readStage, readRequestFile, h]
  rfl

/-- After the reading a request has been picked up and nothing else. -/
theorem readStage_fates (sur : Surroundings) (name : String) (mail : Mail) :
    (readStage sur name mail).fates = [.picked] := by
  rw [readStage]
  cases readRequestFile sur.context.libs name mail with
  | error reason => rfl
  | ok request =>
    dsimp only
    split
    · rfl
    · rfl

/-- Reading changes nothing. -/
theorem Sound.read (h : Sound s) (hbusy : s.worker = .busy name .moved) (sur : Surroundings) :
    Sound { s with worker := .busy name (readStage sur name s.mail) } := by
  obtain ⟨number, hcurrent, hholds⟩ := h.hand name .moved hbusy
  refine h.onward hbusy hcurrent rfl rfl (fun _ => rfl) (fun _ _ => rfl) (fun _ _ => rfl)
    (.inl ⟨readStage sur name s.mail, rfl, ?_⟩)
  rcases hholds with ⟨hfates, hthere⟩ | ⟨-, hfates, hgone⟩
  · exact .inl ⟨hfates.trans (readStage_fates sur name s.mail).symm, hthere⟩
  · exact .inr ⟨readStage_none sur hgone, hfates, hgone⟩

/-- The worker has moved the file to `dead/`, or has found it gone. -/
theorem Sound.reject (h : Sound s) {reason : String} (hbusy : s.worker = .busy name (.rejected reason))
    (hrequests : ∀ name, s'.mail.lookup (name :: requestsDir) = s.mail.lookup (name :: requestsDir))
    (hprocessing : ∀ name', s'.mail.lookup (name' :: processingDir) =
      if name' = name then none else s.mail.lookup (name' :: processingDir))
    (hsent : s'.sent = s.sent) (hcurrent' : s'.current = s.current)
    (hworker : ∀ name stage, s'.worker ≠ .busy name stage)
    (hfates : ∀ number, s'.fates number = s.fates number ++
      if requestAt (name :: processingDir) s.mail = some number then [.rejected] else []) :
    Sound s' := by
  obtain ⟨number, hcurrent, hholds⟩ := h.hand name (.rejected reason) hbusy
  refine h.onward hbusy hcurrent hsent hcurrent' hrequests ?_ ?_ (.inr ⟨hworker, ?_, ?_⟩)
  · intro name' hne
    rw [hprocessing, if_neg hne]
  · intro number' hne
    rw [hfates, if_neg, List.append_nil]
    intro hat
    have hcurrent'' := (h.processing name number' hat).1
    exact hne (Option.some.inj (hcurrent''.symm.trans hcurrent))
  · rw [hprocessing, if_pos rfl]
  · rcases hholds with ⟨hpicked, hthere⟩ | ⟨-, hcleaned, hgone⟩
    · refine .inr (.inl ?_)
      rw [hfates, hpicked, if_pos hthere]
      rfl
    · refine .inr (.inr ?_)
      have hnone : requestAt (name :: processingDir) s.mail = none := by rw [requestAt, hgone]; rfl
      rw [hfates, hcleaned, hnone, if_neg (Option.some_ne_none number).symm, List.append_nil]

/-- A step on a request that is to be executed, or has been, leaves its file where it is. -/
theorem Sound.proceed (h : Sound s) (hbusy : s.worker = .busy name stage)
    (hread : stage.unread = false) {stage' : Stage} {fate : Fate}
    (hstage : stage'.fates = stage.fates ++ [fate])
    (hmail : ∀ path : Directory, ¬Inside responsesDir path → mail.lookup path = s.mail.lookup path) :
    Sound ({ s with worker := .busy name stage', mail }.record s.current fate) := by
  obtain ⟨number, hcurrent, hholds⟩ := h.hand name stage hbusy
  obtain ⟨hpicked, hthere⟩ : s.fates number = stage.fates ∧
      requestAt (name :: processingDir) s.mail = some number := by
    rcases hholds with hholds | ⟨hunread, -⟩
    · exact hholds
    · rw [hread] at hunread
      cases hunread
  have hfates : ∀ number', ({ s with worker := .busy name stage', mail }.record s.current
      fate).fates number' = s.fates number' ++ if s.current = some number' then [fate] else [] :=
    fun number' => fates_record _ _ _ number'
  refine h.onward hbusy hcurrent rfl rfl (fun name' => hmail _ (requests_outside_responses name'))
    (fun name' _ => hmail _ (processing_outside_responses name')) ?_
    (.inl ⟨stage', rfl, .inl ⟨?_, ?_⟩⟩)
  · intro number' hne
    rw [hfates, hcurrent, if_neg (fun hsame => hne (Option.some.inj hsame).symm), List.append_nil]
  · rw [hfates, hpicked, hstage, if_pos hcurrent]
  · show requestAt (name :: processingDir) mail = some number
    rw [requestAt, hmail _ (processing_outside_responses name)]
    exact hthere

/-- The request is answered, and its file goes. -/
theorem Sound.remove (h : Sound s) (hbusy : s.worker = .busy name .answered) :
    Sound ({ s with worker := .idle, mail := deleteProcessed name s.mail }.record
      (requestAt (name :: processingDir) s.mail) .removed) := by
  obtain ⟨number, hcurrent, hholds⟩ := h.hand name .answered hbusy
  obtain ⟨hpicked, hthere⟩ : s.fates number = Stage.answered.fates ∧
      requestAt (name :: processingDir) s.mail = some number := by
    rcases hholds with hholds | ⟨hunread, -⟩
    · exact hholds
    · cases hunread
  have hfates : ∀ number', ({ s with worker := .idle, mail := deleteProcessed name s.mail }.record
      (requestAt (name :: processingDir) s.mail) .removed).fates number' =
        s.fates number' ++ if some number = some number' then [.removed] else [] := by
    intro number'
    rw [fates_record, hthere]
    rfl
  have hlookup : ∀ path, (deleteProcessed name s.mail).lookup path =
      if path = name :: processingDir then none else s.mail.lookup path :=
    fun path => Files.lookup_erase' path
  refine h.onward hbusy hcurrent rfl rfl ?_ ?_ ?_ (.inr ⟨?_, ?_, .inl ?_⟩)
  · intro name'
    show (deleteProcessed name s.mail).lookup (name' :: requestsDir) = _
    rw [hlookup, if_neg]
    intro hsame
    exact processing_ne_requests (List.cons.inj hsame).2.symm
  · intro name' hne
    show (deleteProcessed name s.mail).lookup (name' :: processingDir) = _
    rw [hlookup, if_neg]
    intro hsame
    exact hne (List.cons.inj hsame).1
  · intro number' hne
    rw [hfates, if_neg (fun hsame => hne (Option.some.inj hsame).symm), List.append_nil]
  · intro name' stage hbusy'
    cases hbusy'
  · show (deleteProcessed name s.mail).lookup (name :: processingDir) = none
    rw [hlookup, if_pos rfl]
  · rw [hfates, hpicked, if_pos rfl]
    rfl

/-- A careful step of the worker keeps the invariant. -/
theorem Sound.work (h : Sound s) (hcareful : ∀ name request response,
    s.worker = .busy name (.handled request response) → Answerable sur request response) :
    Sound (s.work sur) := by
  rw [Disposal.work, workFate]
  cases hworker : s.worker with
  | idle =>
    have hsame : { s with worker := .idle } = s := by rw [← hworker]
    exact hsame.symm ▸ h
  | stopped what =>
    have hsame : { s with worker := .stopped what } = s := by rw [← hworker]
    exact hsame.symm ▸ h
  | busy name stage =>
    cases stage with
    | moved => exact h.read hworker sur
    -- The request goes to `dead/`, whether its reason can be written or not.
    | rejected reason =>
      dsimp only
      have hworked : (workerStep sur (.busy name (.rejected reason), s.mail)).2 =
          (moveToDead sur.context.libs sur.now name reason s.mail).2 := by
        rw [workerStep]
        rcases moveToDead sur.context.libs sur.now name reason s.mail with ⟨what | ⟨⟩, mail'⟩
        · rfl
        · rfl
      have hidle : ∀ name' stage,
          (workerStep sur (.busy name (.rejected reason), s.mail)).1 ≠ .busy name' stage := by
        intro name' stage
        rw [workerStep]
        rcases moveToDead sur.context.libs sur.now name reason s.mail with ⟨what | ⟨⟩, mail'⟩
        · intro hbusy; cases hbusy
        · intro hbusy; cases hbusy
      refine h.reject hworker ?_ ?_ rfl rfl hidle (fun number => fates_record _ _ _ number)
      · intro name'
        show (workerStep sur (.busy name (.rejected reason), s.mail)).2.lookup _ = _
        rw [hworked]
        exact lookup_requests_moved _ _ _ _ _ name'
      · intro name'
        show (workerStep sur (.busy name (.rejected reason), s.mail)).2.lookup _ = _
        rw [hworked]
        exact lookup_processing_moved _ _ _ _ _ name'
    | parsed request => exact h.proceed hworker rfl rfl (fun _ _ => rfl)
    -- The response is written, by the condition on this step.
    | handled request response =>
      obtain ⟨hwritten, hmail⟩ := writeResponseFile_spec (hcareful name request response hworker)
        s.mail
      have hworked : workerStep sur (.busy name (.handled request response), s.mail) =
          (.busy name .answered, (writeResponseFile sur request.clientId response s.mail).2) := by
        rw [workerStep]
        rcases hwrite : writeResponseFile sur request.clientId response s.mail with ⟨what, mail'⟩
        rw [hwrite] at hwritten
        dsimp only at hwritten
        rw [hwritten]
      rw [hworked]
      dsimp only
      rw [hwritten]
      dsimp only
      rw [if_pos (hcareful name request response hworker).2.2]
      exact h.proceed hworker rfl rfl hmail
    | answered => exact h.remove hworker

/-- The cleaner's looks change nothing. -/
theorem Sound.look (h : Sound s) (cleaner : Cleaner) : Sound { s with cleaner } :=
  ⟨⟨h.fresh, h.waiting, h.distinct⟩, h.hand, h.processing, h.settled⟩

/-- Listing changes no file. -/
theorem Sound.list (h : Sound s) : Sound s.list := by
  rw [Disposal.list]
  split
  · exact h.look _
  · exact h

/-- Looking at the age of a file changes none. -/
theorem Sound.check (h : Sound s) (staleTimeoutMs now : Int) :
    Sound (s.check staleTimeoutMs now) := by
  unfold Disposal.check
  cases hcleaner : s.cleaner with
  | idle => exact h
  | burying name rest => exact h
  | stopped what => exact h
  | sweeping names =>
    cases names with
    | nil => exact h.look _
    | cons name rest =>
      dsimp only
      split
      · exact h.look _
      · split
        · exact h.look _
        · exact h.look _

/-- The cleaner buries a file that is not that of the request in hand, or is not read yet. -/
theorem Sound.buried (h : Sound s)
    (hunread : ∀ stage, s.worker = .busy name stage → stage.unread = true)
    (hrequests : ∀ name, s'.mail.lookup (name :: requestsDir) = s.mail.lookup (name :: requestsDir))
    (hprocessing : ∀ name', s'.mail.lookup (name' :: processingDir) =
      if name' = name then none else s.mail.lookup (name' :: processingDir))
    (hsent : s'.sent = s.sent) (hcurrent' : s'.current = s.current) (hworker : s'.worker = s.worker)
    (hfates : ∀ number, s'.fates number = s.fates number ++
      if requestAt (name :: processingDir) s.mail = some number then [.cleaned] else []) :
    Sound s' := by
  cases hat : requestAt (name :: processingDir) s.mail with
  | some number =>
    obtain ⟨hcurrent, stage, hbusy⟩ := h.processing name number hat
    have hstage := hunread stage hbusy
    refine h.onward hbusy hcurrent hsent hcurrent' hrequests ?_ ?_
      (.inl ⟨stage, hworker.trans hbusy, .inr ⟨hstage, ?_, ?_⟩⟩)
    · intro name' hne
      rw [hprocessing, if_neg hne]
    · intro number' hne
      rw [hfates, hat, if_neg (fun hsame => hne (Option.some.inj hsame).symm), List.append_nil]
    · obtain ⟨number', hnumber', ⟨hpicked, -⟩ | ⟨-, -, hgone⟩⟩ := h.hand name stage hbusy
      · obtain rfl : number = number' := Option.some.inj (hcurrent.symm.trans hnumber')
        rw [hfates, hat, if_pos rfl, hpicked]
        cases stage with
        | moved => rfl
        | rejected reason => rfl
        | parsed request => cases hstage
        | handled request response => cases hstage
        | answered => cases hstage
      · rw [requestAt, hgone] at hat
        cases hat
    · rw [hprocessing, if_pos rfl]
  | none =>
    -- what was there is no request
    have hkept : ∀ number, s'.fates number = s.fates number := by
      intro number
      rw [hfates, hat, if_neg (Option.some_ne_none number).symm, List.append_nil]
    refine ⟨h.toWaiting.frame hsent hrequests (fun number hnone => (hkept number).trans hnone),
      ?_, ?_, ?_⟩
    · intro name' stage hbusy
      rw [hworker] at hbusy
      obtain ⟨number, hcurrent, hholds⟩ := h.hand name' stage hbusy
      refine ⟨number, hcurrent'.trans hcurrent, ?_⟩
      rcases hholds with ⟨hpicked, hthere⟩ | ⟨hstage, hcleaned, hgone⟩
      · have hne : name' ≠ name := by
          intro hsame
          rw [hsame, hat] at hthere
          cases hthere
        refine .inl ⟨(hkept number).trans hpicked, ?_⟩
        rw [requestAt, hprocessing, if_neg hne]
        exact hthere
      · refine .inr ⟨hstage, (hkept number).trans hcleaned, ?_⟩
        rw [hprocessing, hgone, ite_self]
    · intro name' number hat'
      rw [requestAt, hprocessing] at hat'
      split at hat'
      case isTrue => cases hat'
      case isFalse =>
        rw [hcurrent', hworker]
        exact h.processing name' number hat'
    · intro number
      rw [hkept, InHand, hcurrent', hworker, Settled, hkept]
      exact h.settled number

/-- A careful burial takes a file that the worker has not read, or no longer has. -/
theorem Sound.bury (h : Sound s) (libs : Libraries) (now : Int)
    (hcareful : ∀ name rest stage, s.cleaner = .burying name rest → s.worker = .busy name stage →
      stage.unread = true) : Sound (s.bury libs now) := by
  unfold Disposal.bury
  cases hcleaner : s.cleaner with
  | idle => exact h
  | sweeping names => exact h
  | stopped what => exact h
  | burying name rest =>
    exact h.buried (fun stage => hcareful name rest stage hcleaner)
      (lookup_requests_moved libs now name "stale timeout" s.mail)
      (lookup_processing_moved libs now name "stale timeout" s.mail) rfl rfl rfl
      (fun number => fates_record _ _ _ number)

/-- **A careful step keeps the invariant.** -/
theorem Sound.step (h : Sound s) (staleTimeoutMs : Int) {input : DisposalInput}
    (hcareful : Careful ((machine staleTimeoutMs).stepAt s input)) :
    Sound (s.step staleTimeoutMs input) := by
  cases input with
  | send name content lastWrite => exact h.send name content lastWrite
  | pick name => exact h.pick name
  | work sur =>
    refine h.work ?_
    intro name request response hworker
    simpa only [Careful, Machine.stepAt_input, Machine.stepAt_before, hworker] using hcareful
  | list => exact h.list
  | check now => exact h.check staleTimeoutMs now
  | bury libs now =>
    refine h.bury libs now ?_
    intro name rest stage hcleaner hworker
    have hunread : name = name → stage.unread = true := by
      simpa only [Careful, Machine.stepAt_input, Machine.stepAt_before, hworker, hcleaner]
        using hcareful
    exact hunread rfl

/-- The invariant holds at the start. -/
theorem sound_start (staleTimeoutMs : Int) : Sound (machine staleTimeoutMs).start := by
  refine ⟨⟨fun _ _ => rfl, ?_, ?_⟩, ?_, ?_, fun _ => .inl rfl⟩
  · intro name file hfile
    cases hfile
  · intro name name' number hname
    cases hname
  · intro name stage hbusy
    cases hbusy
  · intro name number hat
    cases hat

/-- **Requests are disposed of exclusively**, for any ages of files and any order of the steps, in
    all runs of careful steps. -/
theorem exclusive_of_careful (staleTimeoutMs : Int) (inputs : List DisposalInput)
    (hcareful : ∀ r ∈ history staleTimeoutMs inputs, Careful r) :
    ∀ r ∈ history staleTimeoutMs inputs, Exclusive r.after := by
  have hrun := @run_replay _ _ _ (machine staleTimeoutMs) (fun _ _ _ => True) inputs
    ((machine staleTimeoutMs).permits_all (fun _ _ _ => trivial) inputs _)
  have hall := hrun.invariant
    (fun h s => (∀ r ∈ h, Careful r) → (∀ r ∈ h, Exclusive r.after) ∧ Sound s) ?_ ?_
  · exact (hall hcareful).1
  · intro _
    refine ⟨by simp, sound_start staleTimeoutMs⟩
  · rintro h s input - ih - hsteps
    rw [List.forall_mem_cons] at hsteps
    obtain ⟨hexclusive, hsound⟩ := ih hsteps.2
    have hnext : Sound (s.step staleTimeoutMs input) := hsound.step staleTimeoutMs hsteps.1
    refine ⟨?_, hnext⟩
    rw [List.forall_mem_cons]
    exact ⟨hnext.exclusive, hexclusive⟩

/-- Whether a step is careful can be computed. -/
instance (r : Step Disposal DisposalInput Unit) : Decidable (Careful r) := by
  unfold Careful
  split
  · split
    · infer_instance
    · infer_instance
  · infer_instance
  · infer_instance

/-- The cleaner finds a file too old, the worker takes it and answers it, and the next is buried
    before the worker reads it. -/
def twoFiles : List DisposalInput :=
  let sur := quietly [("health", healthJson)]
  [.send "a.json" "health" 0, .pick "a.json", .list, .check 20000, .work sur, .work sur, .work sur,
    .work sur, .send "b.json" "health" 0, .pick "b.json", .check 20000, .list, .check 40000,
    .bury sur.context.libs 40000, .work sur, .work sur]

/-- A run in which one request is answered and another one cleaned away. -/
theorem exclusive_twoFiles : ∃ r ∈ history 30000 twoFiles, Exclusive r.after ∧
    r.after.fates 0 = [.picked, .executed, .answered, .removed] ∧
    r.after.fates 1 = [.picked, .cleaned] :=
  ⟨_, List.mem_cons_self,
    exclusive_of_careful 30000 twoFiles (by decide +kernel) _ List.mem_cons_self,
    by decide +kernel, by decide +kernel⟩

/-- The client's file is an hour old when it is sent: the worker takes it, the cleaner finds it too
    old, the worker executes the request, and the cleaner buries the file. -/
theorem executed_and_buried : ¬∀ r ∈ history 30000
    [.send "a.json" "health" 0, .pick "a.json", .work (quietly [("health", healthJson)]), .list,
      .check 3600000, .work (quietly [("health", healthJson)]),
      .bury (quietly []).context.libs 3600000], Exclusive r.after := by
  intro hexclusive
  have hlast := hexclusive _ List.mem_cons_self
  exact hlast.never 0 (by decide +kernel) (by decide +kernel)

end Disposal

end YirangMQ.Mailbox

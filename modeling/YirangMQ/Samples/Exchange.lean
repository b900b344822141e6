import YirangMQ.Library.Sessions
import YirangMQ.Samples.Purposes

namespace YirangMQ.Samples

open Mailbox

/-!
# Clients and the daemon

Clients write requests, wait for responses, and give up when their time is over; the daemon takes
the requests and answers them.  All of them take turns over the same files.  The turns of the daemon
are the steps of its worker, so that a client may act between any two of them; requests may even be
worked on side by side.

The daemon polls, in the other mode of `request_processing_worker`: a file is found once it is there,
and not through the events of a watcher, which do not tell of a rename.  No stale file is cleaned up
meanwhile, and what the backend answers a request is a part of its exchange.

* `Exchange` — a request and what surrounds it; `turn` — the turns of its client and of the worker;
* `Proper` — what is asked of an exchange;
* `Progress`, `next` — how far an exchange is, and what a turn makes of that;
* `Stands`, `session` — the state and the files of an exchange follow its progress;
* `exchanges_safe` — **a client returns 0 only when the one call that it asked for was made, and
  achieved what it should**;
* `exchanges_complete` — **with turns enough, it returns 0 exactly then, and no file is left.**
-/

/-- A request, how it is sent, and what surrounds its handling. -/
structure Exchange where
  args : ArgumentParser
  invocation : Invocation
  request : ClientRequest
  sending : Sending
  sur : Surroundings

/-- The state of a client. -/
inductive Client where
  | ready
  | waiting
  | done (result : Bool × Json String)
  | stopped (what : String)

/-- The state of an exchange: its client, the worker, and what handlers have done for it. -/
structure Exchanging where
  client : Client := .ready
  worker : Mailbox.Phase := .idle
  made : List Purpose := []

/-- Whose turn it is: the client's, the worker's, or that of the time that the client has. -/
inductive Party where
  | client
  | worker
  | clock
  deriving DecidableEq

namespace Exchange

variable (x : Exchange)

/-- The libraries the client and the worker write and read documents with. -/
abbrev libs : Libraries := x.sur.context.libs
/-- The client's own name in the request. -/
def clientId : String := x.invocation.clientId
/-- The identifier of the request, which names its files. -/
def requestId : String := x.sending.requestId

/-- The name of the request file. -/
def name : String := x.requestId ++ ".json"

/-! ### Turns -/

/-- The client sends its request, or looks for the response. -/
def clientTurn : Exchanging × Mail → Exchanging × Mail
  | (s, mail) =>
    match s.client with
    | .ready =>
      match submit x.libs.toJsonLibrary x.sending x.clientId x.invocation.timeoutMs x.request
        mail with
      | .error what => ({ s with client := .stopped what }, mail)
      | .ok (.error result) => ({ s with client := .done result }, mail)
      | .ok (.ok mail) => ({ s with client := .waiting }, mail)
    | .waiting =>
      match collect x.libs.toJsonLibrary x.clientId x.requestId mail with
      | none => (s, mail)
      | some (result, mail) => ({ s with client := .done result }, mail)
    | _ => (s, mail)

/-- The time of a waiting client is over. -/
def clockTurn : Exchanging × Mail → Exchanging × Mail
  | (s, mail) =>
    match s.client with
    | .waiting => ({ s with client := .done timedOut }, mail)
    | _ => (s, mail)

/-- What a step of the worker makes the backend do. -/
def madeIn : Mailbox.Phase → List Purpose
  | .busy _ (.parsed request) => [purposeOf (handleRequest x.sur.context request)]
  | _ => []

/-- The worker looks for the request, or takes its next step.  Every exchange has a worker of its
    own: the worker of the daemon takes one request after another, which are some of the orders. -/
def workerTurn : Exchanging × Mail → Exchanging × Mail
  | (s, mail) =>
    let (phase, mail) :=
      match s.worker with
      | .idle => pick x.name mail
      | phase => workerStep x.sur (phase, mail)
    ({ s with worker := phase, made := s.made ++ x.madeIn s.worker }, mail)

/-- The turn of a party. -/
def turn : Party → Exchanging × Mail → Exchanging × Mail
  | .client => x.clientTurn
  | .worker => x.workerTurn
  | .clock => clockTurn

/-! ### What is asked -/

/-- The request that the worker reads. -/
def received : MailboxRequest :=
  Samples.received x.libs.toJsonLibrary x.sending x.clientId x.invocation.timeoutMs x.request

/-- What the handler of the request does. -/
def handling : Handling := handleRequest x.sur.context x.received

/-- The response to the request. -/
def response : MailboxResponse := x.handling.answerWith x.sur.answers

/-- What the command line asks for. -/
def purpose : Purpose := x.invocation.purpose x.args x.sur.context.env

/-- The documents of the exchange. -/
def requestDocument : Json String :=
  requestJson x.sending x.clientId x.invocation.timeoutMs x.request

/-- The document of the response file. -/
def responseDocument : Json String := responseJson x.libs x.response

/-- **An exchange whose documents can be written and read, in time**: no write fails, the deadline
    is not over when the request is read, and the message of a publication passes its schema. -/
structure Proper : Prop where
  understood : Understood x.sur.context x.sur.answers x.args x.invocation x.request
  /-- The client is a name, and the identifier of the request is part of one. -/
  client_name : IsName x.clientId
  client_utf8 : IsUtf8 x.clientId
  id_slash : '/' ∉ x.requestId.toList
  id_nul : '\x00' ∉ x.requestId.toList
  id_utf8 : IsUtf8 x.requestId
  /-- The request is handled before its deadline. -/
  in_time : x.sur.now ≤ x.sending.now + x.invocation.timeoutMs
  sending_writable : x.sending.writable = true
  writable : x.sur.writable = true
  /-- The library reads what it wrote. -/
  reads_request : ReadsBack x.libs.toJsonLibrary x.requestDocument
  reads_payload : ReadsBack x.libs.toJsonLibrary x.request.payload
  reads_response : ReadsBack x.libs.toJsonLibrary x.responseDocument
  /-- The errors of the backend are well formed. -/
  reported : Reported x.sur.answers x.handling

/-! ### Its files -/

/-- The file of the request in `requests/`. -/
def sentPath : Directory := requestPath x.requestId

/-- The same file in `processing/`. -/
def takenPath : Directory := x.name :: processingDir

/-- The file of the response. -/
def answerPath : Directory := [x.name, x.clientId, "responses"]

/-- The paths that belong to the exchange. -/
def paths : List Directory :=
  [x.sentPath, tempPath x.sentPath, x.takenPath, x.answerPath, tempPath x.answerPath]

/-- The text of a document. -/
def textOf (libs : JsonLibrary) (j : Json String) : String := (libs.dump j).toOption.getD ""

/-- The request file as the client leaves it. -/
def requestFile : MailFile := ⟨textOf x.libs.toJsonLibrary x.requestDocument, x.sending.now, none⟩

/-- The response file as the worker leaves it. -/
def responseFile : MailFile := ⟨textOf x.libs.toJsonLibrary x.responseDocument, x.sur.now, none⟩

end Exchange

/-! ### Progress -/

/-- How far the worker is with a request that has no response yet. -/
inductive Stretch where
  | sent
  | taken
  | parsed
  | handled
  deriving DecidableEq

/-- What has become of a response. -/
inductive Fate where
  | waiting
  | collected
  | late
  deriving DecidableEq

/-- How far an exchange is.  A client may be `late`, which has given up. -/
inductive Progress where
  | unsent
  | working (stretch : Stretch) (late : Bool)
  | answered (removed : Bool) (fate : Fate)
  deriving DecidableEq

namespace Progress

/-- What a turn of the worker makes of it. -/
def worked : Progress → Progress
  | .unsent => .unsent
  | .working .sent late => .working .taken late
  | .working .taken late => .working .parsed late
  | .working .parsed late => .working .handled late
  | .working .handled late => .answered false (if late then .late else .waiting)
  | .answered _ fate => .answered true fate

/-- What a turn makes of it. -/
def next : Party → Progress → Progress
  | .client, .unsent => .working .sent false
  | .client, .answered removed .waiting => .answered removed .collected
  | .client, progress => progress
  | .clock, .working stretch _ => .working stretch true
  | .clock, .answered removed .waiting => .answered removed .late
  | .clock, progress => progress
  | .worker, progress => progress.worked

/-- The number of turns behind it. -/
def rank : Progress → Nat
  | .unsent => 0
  | .working .sent _ => 1
  | .working .taken _ => 2
  | .working .parsed _ => 3
  | .working .handled _ => 4
  | .answered removed _ => if removed then 6 else 5

/-- The client has not given up. -/
def OnTime : Progress → Prop
  | .unsent => True
  | .working _ late => late = false
  | .answered _ fate => fate ≠ .late

/-- Time and progress are not lost in a turn, unless the clock takes it. -/
theorem next_onTime {progress : Progress} (h : progress.OnTime) {party : Party}
    (hparty : party ≠ .clock) :
    (progress.next party).OnTime ∧ progress.rank ≤ (progress.next party).rank := by
  cases party with
  | clock => exact absurd rfl hparty
  | client =>
    rcases progress with _ | ⟨stretch, late⟩ | ⟨removed, fate⟩
    · exact ⟨rfl, Nat.zero_le 1⟩
    · exact ⟨h, Nat.le_refl _⟩
    · cases fate with
      | waiting => exact ⟨Fate.noConfusion, Nat.le_refl _⟩
      | collected => exact ⟨h, Nat.le_refl _⟩
      | late => exact absurd rfl h
  | worker =>
    rcases progress with _ | ⟨stretch, late⟩ | ⟨removed, fate⟩
    · exact ⟨trivial, Nat.le_refl _⟩
    · obtain rfl : late = false := h
      cases stretch with
      | handled => exact ⟨Fate.noConfusion, Nat.le_succ 4⟩
      | _ => exact ⟨rfl, Nat.le_succ _⟩
    · refine ⟨h, ?_⟩
      cases removed with
      | true => exact Nat.le_refl 6
      | false => exact Nat.le_succ 5

/-- A turn of the worker is progress, once the request is sent. -/
theorem rank_worked {progress : Progress} (h : 1 ≤ progress.rank) :
    min 6 (progress.rank + 1) ≤ progress.worked.rank := by
  rcases progress with _ | ⟨_ | _ | _ | _, _ | _⟩ | ⟨_ | _, _ | _ | _⟩
  · exact absurd h (by decide)
  all_goals decide

variable {turns : List Party} {progress : Progress}

/-- Turns without the clock. -/
theorem leads_onTime (hclock : Party.clock ∉ turns) (h : progress.OnTime) :
    (Sessions.leads next turns progress).OnTime := by
  induction turns generalizing progress with
  | nil => exact h
  | cons party turns ih =>
    have hparty := List.ne_of_not_mem_cons hclock
    have hturns := List.not_mem_of_not_mem_cons hclock
    exact ih hturns (next_onTime h (Ne.symm hparty)).1

/-- Every turn of the worker among them is progress. -/
theorem leads_rank (hclock : Party.clock ∉ turns) (h : progress.OnTime) (hsent : 1 ≤ progress.rank) :
    min 6 (progress.rank + turns.count .worker) ≤ (Sessions.leads next turns progress).rank := by
  induction turns generalizing progress with
  | nil => exact Nat.min_le_right 6 progress.rank
  | cons party turns ih =>
    have hparty := List.ne_of_not_mem_cons hclock
    have hturns := List.not_mem_of_not_mem_cons hclock
    obtain ⟨htime, hmore⟩ := next_onTime h (Ne.symm hparty)
    have hrest := ih hturns htime (hsent.trans hmore)
    show _ ≤ (Sessions.leads next turns (progress.next party)).rank
    cases party with
    | worker =>
      have hstep : min 6 (progress.rank + 1) ≤ (progress.next .worker).rank := rank_worked hsent
      rw [List.count_cons_self]
      omega
    | _ =>
      rw [List.count_cons_of_ne (by decide)]
      omega

/-- A response that was collected stays so. -/
theorem leads_collected : Sessions.leads next turns (.answered true .collected) =
    .answered true .collected := by
  induction turns with
  | nil => rfl
  | cons party turns ih =>
    have hstep : next party (.answered true .collected) = .answered true .collected := by
      cases party with
      | _ => rfl
    show Sessions.leads next turns (next party (.answered true .collected)) = _
    rw [hstep]
    exact ih

/-- **The client sends its request, the worker takes five turns or more, and the client looks for
    the response.** -/
theorem leads_complete {front middle back : List Party} (hfront : Party.clock ∉ front)
    (hmiddle : Party.clock ∉ middle) (hworker : 5 ≤ middle.count .worker) :
    Sessions.leads next (front ++ .client :: (middle ++ .client :: back)) .unsent =
      .answered true .collected := by
  have hbefore : (Sessions.leads next front .unsent).OnTime := leads_onTime hfront trivial
  have hclient : Party.client ≠ .clock := by decide
  have hsent := next_onTime hbefore hclient
  have hrank : 1 ≤ (next .client (Sessions.leads next front .unsent)).rank := by
    rcases Sessions.leads next front .unsent with _ | ⟨_ | _ | _ | _, _ | _⟩ | ⟨_ | _, _ | _ | _⟩
    all_goals decide
  have hmore := leads_rank hmiddle hsent.1 hrank
  have htime := leads_onTime hmiddle hsent.1
  have hsplit : Sessions.leads next (front ++ .client :: (middle ++ .client :: back)) .unsent =
      Sessions.leads next back (next .client (Sessions.leads next middle
        (next .client (Sessions.leads next front .unsent)))) := by
    simp only [Sessions.leads, List.foldl_append, List.foldl_cons]
  rw [hsplit]
  -- The worker has done all of its turns, so that the client finds the response.
  generalize Sessions.leads next middle (next .client (Sessions.leads next front .unsent)) = progress
    at hmore htime
  have hlast : next .client progress = .answered true .collected := by
    have hsix : 6 ≤ progress.rank := by omega
    rcases progress with _ | ⟨_ | _ | _ | _, _ | _⟩ | ⟨_ | _, _ | _ | _⟩
    case answered.true.late => exact absurd rfl htime
    case answered.true.waiting | answered.true.collected => rfl
    all_goals exact absurd hsix (by decide)
  rw [hlast]
  exact leads_collected

end Progress

namespace Exchange

variable (x : Exchange)

/-- The client, so far. -/
def clientAt : Progress → Client
  | .unsent => .ready
  | .working _ late => if late then .done timedOut else .waiting
  | .answered _ fate =>
    match fate with
    | .waiting => .waiting
    | .collected => .done (true, x.responseDocument)
    | .late => .done timedOut

/-- The worker, so far. -/
def workerAt : Progress → Mailbox.Phase
  | .unsent => .idle
  | .working stretch _ =>
    match stretch with
    | .sent => .idle
    | .taken => .busy x.name .moved
    | .parsed => .busy x.name (.parsed x.received)
    | .handled => .busy x.name (.handled x.received x.response)
  | .answered removed _ => if removed then .idle else .busy x.name .answered

/-- What the backend was asked, so far. -/
def madeAt : Progress → List Purpose
  | .unsent => []
  | .working stretch _ => if stretch = .handled then [x.purpose] else []
  | .answered _ _ => [x.purpose]

/-- The files of the exchange, so far. -/
def filesAt : Progress → List (Directory × MailFile)
  | .unsent => []
  | .working stretch _ => [(if stretch = .sent then x.sentPath else x.takenPath, x.requestFile)]
  | .answered removed fate =>
    (if removed then [] else [(x.takenPath, x.requestFile)]) ++
      (if fate = .collected then [] else [(x.answerPath, x.responseFile)])

/-- The exchange is as far as that. -/
structure Stands (progress : Progress) (s : Exchanging) (mail : Mail) : Prop where
  client : s.client = x.clientAt progress
  worker : s.worker = x.workerAt progress
  made : s.made = x.madeAt progress
  files : ∀ path ∈ x.paths, mail.lookup path = (x.filesAt progress).lookup path

/-! ### Its documents -/

/-- A well encoded document is written as its text. -/
theorem dump_textOf {libs : Libraries} (hlib : libs.Lawful) {j : Json String}
    (hj : j.WellEncoded) : libs.dump j = .ok (textOf libs.toJsonLibrary j) := by
  obtain ⟨text, htext⟩ := hlib.written j hj
  rw [textOf, htext]
  rfl

variable {x : Exchange} (h : x.Proper)

include h

/-- The handler does what the command line asks for. -/
theorem Proper.conveys : Conveys x.sur.answers x.received x.handling x.purpose :=
  handleRequest_conveys h.understood rfl
    (parse_payloadText h.understood.lawful h.understood.payload h.reads_payload)

/-- The request can be written. -/
theorem Proper.dump_request : x.libs.dump x.requestDocument =
    .ok (textOf x.libs.toJsonLibrary x.requestDocument) := by
  have hcommand : IsUtf8 x.request.command := by
    rw [command_sent h.understood.asked]
    exact commandText_utf8 x.invocation
  have hid : IsUtf8 x.sending.requestId := h.id_utf8
  have hclient : IsUtf8 x.invocation.clientId := h.client_utf8
  have hnames : IsUtf8 "clientId" ∧ IsUtf8 "command" ∧ IsUtf8 "deadlineMs" ∧ IsUtf8 "payload" ∧
    IsUtf8 "requestId" ∧ IsUtf8 "timestampMs" := by decide
  apply dump_textOf h.understood.lawful
  unfold requestDocument requestJson
  simp only [Json.wellEncoded_cons, Json.wellEncoded_str, Json.wellEncoded_int,
    Json.wellEncoded_empty, hcommand, hid, clientId, hclient, h.understood.payload, hnames,
    and_true]

/-- The response can be written. -/
theorem Proper.dump_response : x.libs.dump x.responseDocument =
    .ok (textOf x.libs.toJsonLibrary x.responseDocument) := by
  have hfine := h.conveys.fine
  obtain ⟨text, htext⟩ := (dump_responseJson_iff h.understood.lawful h.id_utf8 hfine.sane).mpr
    (hfine.speaks.mpr h.reported)
  have hdump : x.libs.dump x.responseDocument = .ok text := htext
  rw [textOf, hdump]
  rfl

/-- The worker reads the request, in time. -/
theorem Proper.reads {mail : Mail} (hlookup : mail.lookup x.takenPath = some x.requestFile) :
    readStage x.sur x.name mail = .parsed x.received := by
  have hparse : parseRequest x.libs x.requestFile.content = .ok x.received :=
    parseRequest_requestJson h.understood.lawful h.understood.payload
      (h.reads_request _ h.dump_request)
  have hexpired : x.received.expired x.sur.now = false := by
    have hin := h.in_time
    show (decide (0 < x.sending.now + x.invocation.timeoutMs) &&
      decide (x.sending.now + x.invocation.timeoutMs < x.sur.now)) = false
    rw [Bool.and_eq_false_iff, decide_eq_false_iff_not, decide_eq_false_iff_not]
    omega
  have hread : readRequestFile x.libs x.name mail = .ok x.received := by
    unfold readRequestFile
    rw [show mail.lookup (x.name :: processingDir) = some x.requestFile from hlookup]
    exact hparse
  rw [readStage, hread]
  dsimp only
  rw [hexpired, if_neg Bool.false_ne_true]

omit h in
/-- A client that reads the response exits with 0 exactly when the response is `ok`. -/
theorem exitCode_response :
    exitCode (true, x.responseDocument) = 0 ↔ x.response.ok = true := by
  have hget : x.responseDocument.get? "ok" = some (.bool x.response.ok) := rfl
  unfold exitCode
  dsimp only
  rw [hget]
  cases x.response.ok with
  | true => exact iff_of_true rfl rfl
  | false => exact iff_of_false (by decide) (by decide)

/-- The client returns 0 for the response exactly when the purpose is achieved. -/
theorem Proper.exitCode_iff :
    exitCode (true, x.responseDocument) = 0 ↔ Achieved x.sur.answers x.purpose :=
  exitCode_response.trans h.conveys.ok

/-! ### Its paths -/

/-- The worker writes the response where the client looks for it. -/
theorem Proper.responsePath_eq : responsePath x.clientId x.requestId = x.answerPath := by
  rw [responsePath_of_plain h.client_name.no_nul h.id_nul, resolve_name h.client_name,
    resolve_file h.id_slash (by decide) (by decide)]
  rfl

omit h in
/-- The response is not the file in `processing/`. -/
theorem answerPath_ne_takenPath : x.answerPath ≠ x.takenPath := by
  intro heq
  have hlength := congrArg List.length heq
  exact absurd hlength (by simp [answerPath, takenPath, processingDir])

omit h in
/-- The response is not the file in `requests/`. -/
theorem answerPath_ne_sentPath : x.answerPath ≠ x.sentPath := by
  intro heq
  have hlength := congrArg List.length heq
  exact absurd hlength (by simp [answerPath, sentPath, requestPath, requestsDir])

omit h in
/-- Nor is its temporary file the one in `processing/`. -/
theorem tempPath_answerPath_ne : tempPath x.answerPath ≠ x.takenPath := by
  intro heq
  have hlength := congrArg List.length heq
  exact absurd hlength (by simp [answerPath, tempPath, takenPath, processingDir])

/-! ### What a turn makes of it -/

/-- A file written through another one. -/
def delivered (path : Directory) (file : MailFile) (mail : Mail) : Mail :=
  Files.renamed (tempPath path) path file (mail.insert (tempPath path) file)

omit h

/-- A delivery writes its file, removes its temporary file and touches nothing else. -/
theorem lookup_delivered {path : Directory} {file : MailFile} {mail : Mail} (path' : Directory) :
    (delivered path file mail).lookup path' =
      if path' = path then some file else if path' = tempPath path then none
        else mail.lookup path' := by
  rw [delivered, Files.lookup_renamed, Files.lookup_insert']
  by_cases htemp : path' = tempPath path
  · rw [if_pos htemp, if_pos htemp]
  · rw [if_neg htemp, if_neg htemp, if_neg htemp]

/-- A look into a list of files, one file at a time. -/
theorem lookup_cons_if {path path' : Directory} {file : MailFile}
    {files : List (Directory × MailFile)} :
    List.lookup path ((path', file) :: files) =
      if path = path' then some file else files.lookup path := by
  rw [List.lookup_cons]
  by_cases hpath : path = path'
  · rw [if_pos hpath, beq_iff_eq.mpr hpath]
  · rw [if_neg hpath, beq_false_of_ne hpath]

/-- What a turn leads to: the exchange is as far as that, and other files stay. -/
structure Turned (x : Exchange) (progress : Progress) (mail : Mail) (r : Exchanging × Mail) :
    Prop where
  stands : x.Stands progress r.1 r.2
  frame : ∀ path ∉ x.paths, r.2.lookup path = mail.lookup path

variable {progress : Progress} {s : Exchanging} {mail : Mail}

/-- The paths of others. -/
theorem not_mem_paths {path : Directory} : path ∉ x.paths ↔
    path ≠ x.sentPath ∧ path ≠ tempPath x.sentPath ∧ path ≠ x.takenPath ∧ path ≠ x.answerPath ∧
      path ≠ tempPath x.answerPath := by
  simp [paths]

/-- A turn in which nothing happens. -/
theorem Stands.stays (hs : x.Stands progress s mail) : Turned x progress mail (s, mail) :=
  ⟨hs, fun _ _ => rfl⟩

include h

/-- Submitting delivers the request file and succeeds. -/
theorem Proper.submit_eq : submit x.libs.toJsonLibrary x.sending x.clientId x.invocation.timeoutMs
    x.request mail = .ok (.ok (delivered x.sentPath x.requestFile mail)) := by
  have hdump : x.libs.dump (requestJson x.sending x.clientId x.invocation.timeoutMs x.request) =
      .ok (textOf x.libs.toJsonLibrary x.requestDocument) := h.dump_request
  unfold submit
  rw [hdump]
  dsimp only
  rw [if_pos h.sending_writable]
  rfl

/-- Collecting removes the response file, if there is one, and gives what can be read of it. -/
theorem Proper.collect_eq : collect x.libs.toJsonLibrary x.clientId x.requestId mail =
    (mail.lookup x.answerPath).map fun file =>
      match x.libs.parse file.content with
      | .ok response => ((true, response), mail.erase x.answerPath)
      | .error what =>
        (failedResponse ("response parse error: " ++ what), mail.erase x.answerPath) := by
  unfold collect
  exact h.responsePath_eq ▸ rfl

/-- Writing the response delivers the response file and succeeds. -/
theorem Proper.write_eq : writeResponseFile x.sur x.received.clientId x.response mail =
    (.ok true, delivered x.answerPath x.responseFile mail) := by
  have hdump : x.sur.context.libs.dump (responseJson x.sur.context.libs x.response) =
      .ok (textOf x.libs.toJsonLibrary x.responseDocument) := h.dump_response
  have hid : x.response.requestId = x.requestId := h.conveys.fine.sane.requestId
  have hpath : responsePath x.received.clientId x.response.requestId = x.answerPath := by
    rw [hid]
    exact h.responsePath_eq
  have htemp : responseTemp x.received.clientId x.response.requestId = tempPath x.answerPath := by
    rw [hid, ← h.responsePath_eq]
    exact responseTemp_of_plain h.client_name.no_nul h.id_nul
  unfold writeResponseFile
  dsimp only
  rw [hdump]
  dsimp only
  rw [if_pos h.writable, htemp, hpath]
  rfl

omit h in
/-- A client that is done does nothing. -/
theorem clientTurn_done {result : Bool × Json String} (hdone : s.client = .done result) :
    x.clientTurn (s, mail) = (s, mail) := by
  unfold clientTurn
  dsimp only
  rw [hdone]

/-- The client sends its request. -/
theorem Proper.sends (hs : x.Stands .unsent s mail) :
    Turned x (.working .sent false) mail (x.clientTurn (s, mail)) := by
  have hclient : s.client = .ready := hs.client
  have hturn : x.clientTurn (s, mail) =
      ({ s with client := .waiting }, delivered x.sentPath x.requestFile mail) := by
    unfold clientTurn
    dsimp only
    rw [hclient]
    dsimp only
    rw [h.submit_eq]
  rw [hturn]
  refine ⟨⟨rfl, hs.worker, hs.made, ?_⟩, ?_⟩
  · intro path hpath
    have hlookup : mail.lookup path = none := hs.files path hpath
    show (delivered x.sentPath x.requestFile mail).lookup path =
      List.lookup path [(x.sentPath, x.requestFile)]
    rw [lookup_delivered, lookup_cons_if, hlookup, ite_self]
    rfl
  · intro path hpath
    obtain ⟨hsent, htemp, -⟩ := not_mem_paths.mp hpath
    rw [lookup_delivered, if_neg hsent, if_neg htemp]

/-- It looks for a response in vain. -/
theorem Proper.waits {stretch : Stretch} (hs : x.Stands (.working stretch false) s mail) :
    Turned x (.working stretch false) mail (x.clientTurn (s, mail)) := by
  have hclient : s.client = .waiting := hs.client
  have hnone : mail.lookup x.answerPath = none := by
    rw [hs.files x.answerPath (by simp [paths])]
    cases stretch with
    | sent => exact lookup_cons_if.trans (if_neg answerPath_ne_sentPath)
    | _ => exact lookup_cons_if.trans (if_neg answerPath_ne_takenPath)
  have hturn : x.clientTurn (s, mail) = (s, mail) := by
    unfold clientTurn
    dsimp only
    rw [hclient]
    dsimp only
    rw [h.collect_eq, hnone]
    rfl
  rw [hturn]
  exact hs.stays

omit h in
/-- The files without the response. -/
theorem lookup_collected (removed : Bool) (path : Directory) :
    (x.filesAt (.answered removed .collected)).lookup path =
      if path = x.answerPath then none
      else (x.filesAt (.answered removed .waiting)).lookup path := by
  by_cases hanswer : path = x.answerPath
  · rw [if_pos hanswer, hanswer]
    cases removed with
    | true => rfl
    | false => exact lookup_cons_if.trans (if_neg answerPath_ne_takenPath)
  · rw [if_neg hanswer]
    cases removed with
    | true => exact (lookup_cons_if.trans (if_neg hanswer)).symm
    | false =>
      show List.lookup path [(x.takenPath, _)] = List.lookup path [(x.takenPath, _), (x.answerPath, _)]
      rw [lookup_cons_if, lookup_cons_if, lookup_cons_if, if_neg hanswer]

/-- It collects the response. -/
theorem Proper.collects {removed : Bool} (hs : x.Stands (.answered removed .waiting) s mail) :
    Turned x (.answered removed .collected) mail (x.clientTurn (s, mail)) := by
  have hclient : s.client = .waiting := hs.client
  have hfile : mail.lookup x.answerPath = some x.responseFile := by
    rw [hs.files x.answerPath (by simp [paths])]
    cases removed with
    | true => exact lookup_cons_if.trans (if_pos rfl)
    | false =>
      exact lookup_cons_if.trans ((if_neg answerPath_ne_takenPath).trans
        (lookup_cons_if.trans (if_pos rfl)))
  have hparse : x.libs.parse x.responseFile.content = .ok x.responseDocument :=
    h.reads_response _ h.dump_response
  have hturn : x.clientTurn (s, mail) =
      ({ s with client := .done (true, x.responseDocument) }, mail.erase x.answerPath) := by
    unfold clientTurn
    dsimp only
    rw [hclient]
    dsimp only
    rw [h.collect_eq, hfile, Option.map_some]
    dsimp only
    rw [hparse]
  rw [hturn]
  refine ⟨⟨rfl, hs.worker, hs.made, ?_⟩, ?_⟩
  · intro path hpath
    show (mail.erase x.answerPath).lookup path = _
    rw [Files.lookup_erase', lookup_collected, hs.files path hpath]
  · intro path hpath
    obtain ⟨-, -, -, hanswer, -⟩ := not_mem_paths.mp hpath
    rw [Files.lookup_erase', if_neg hanswer]

/-- **The turn of the client.** -/
theorem Proper.clientTurn (hs : x.Stands progress s mail) :
    Turned x (progress.next .client) mail (x.clientTurn (s, mail)) := by
  have hclient := hs.client
  cases progress with
  | unsent => exact h.sends hs
  | working stretch late =>
    cases late with
    | true =>
      rw [clientTurn_done hclient]
      exact hs.stays
    | false => exact h.waits hs
  | answered removed fate =>
    cases fate with
    | waiting => exact h.collects hs
    | _ =>
      rw [clientTurn_done hclient]
      exact hs.stays

omit h in
/-- The turn of the clock. -/
theorem clockTurn_turned (hs : x.Stands progress s mail) :
    Turned x (progress.next .clock) mail (clockTurn (s, mail)) := by
  have hclient := hs.client
  have hturn : clockTurn (s, mail) = match s.client with
      | .waiting => ({ s with client := .done timedOut }, mail)
      | _ => (s, mail) := rfl
  cases progress with
  | unsent =>
    rw [hturn, show s.client = .ready from hclient]
    exact hs.stays
  | working stretch late =>
    cases late with
    | true =>
      rw [hturn, show s.client = .done timedOut from hclient]
      exact hs.stays
    | false =>
      rw [hturn, show s.client = .waiting from hclient]
      exact Stands.stays ⟨rfl, hs.worker, hs.made, hs.files⟩
  | answered removed fate =>
    cases fate with
    | waiting =>
      rw [hturn, show s.client = .waiting from hclient]
      exact Stands.stays ⟨rfl, hs.worker, hs.made, hs.files⟩
    | collected =>
      rw [hturn, show s.client = .done (true, x.responseDocument) from hclient]
      exact hs.stays
    | late =>
      rw [hturn, show s.client = .done timedOut from hclient]
      exact hs.stays

omit h in
/-- A worker that looks for a request in vain. -/
theorem workerTurn_idle (hworker : s.worker = .idle) (hnone : mail.lookup x.sentPath = none) :
    x.workerTurn (s, mail) = (s, mail) := by
  have hmove : moveToProcessing x.name mail = .error "No such file or directory" := by
    rw [moveToProcessing, Files.rename, show mail.lookup (x.name :: requestsDir) = none from hnone]
  unfold workerTurn
  dsimp only
  rw [hworker]
  dsimp only
  rw [pick, hmove]
  show ({ s with worker := .idle, made := s.made ++ [] }, mail) = (s, mail)
  rw [List.append_nil, ← hworker]

omit h in
/-- A worker with a request takes its next step. -/
theorem workerTurn_busy {name : String} {stage : Mailbox.Stage}
    (hworker : s.worker = .busy name stage) {phase : Mailbox.Phase} {mail' : Mail}
    (hstep : workerStep x.sur (.busy name stage, mail) = (phase, mail')) :
    x.workerTurn (s, mail) =
      ({ s with worker := phase, made := s.made ++ x.madeIn (.busy name stage) }, mail') := by
  unfold workerTurn
  dsimp only
  rw [hworker]
  dsimp only
  rw [hstep]

omit h in
/-- The worker takes the request. -/
theorem Stands.takes {late : Bool} (hs : x.Stands (.working .sent late) s mail) :
    Turned x (.working .taken late) mail (x.workerTurn (s, mail)) := by
  have hworker : s.worker = .idle := hs.worker
  have hfile : mail.lookup (x.name :: requestsDir) = some x.requestFile :=
    (hs.files x.sentPath (by simp [paths])).trans (lookup_cons_if.trans (if_pos rfl))
  -- The worker finds the request where the client has put it.
  have hpick : pick x.name mail =
      (.busy x.name .moved, Files.renamed x.sentPath x.takenPath x.requestFile mail) := by
    unfold pick moveToProcessing Files.rename
    rw [hfile]
    rfl
  have hturn : x.workerTurn (s, mail) = ({ s with worker := .busy x.name .moved },
      Files.renamed x.sentPath x.takenPath x.requestFile mail) := by
    unfold workerTurn
    dsimp only
    rw [hworker]
    dsimp only
    rw [hpick]
    dsimp only
    rw [show x.madeIn .idle = [] from rfl, List.append_nil]
  rw [hturn]
  refine ⟨⟨hs.client, rfl, hs.made, ?_⟩, ?_⟩
  -- Of the paths of the exchange only these two have changed, and others not at all.
  · intro path hpath
    have hlookup : mail.lookup path = if path = x.sentPath then some x.requestFile else none :=
      (hs.files path hpath).trans lookup_cons_if
    show (Files.renamed x.sentPath x.takenPath x.requestFile mail).lookup path =
      List.lookup path [(x.takenPath, x.requestFile)]
    rw [Files.lookup_renamed, lookup_cons_if, hlookup]
    by_cases hpath' : path = x.sentPath
    · rw [if_pos hpath']
      rfl
    · rw [if_neg hpath', if_neg hpath']
      rfl
  · intro path hpath
    obtain ⟨hsent, -, htaken, -⟩ := not_mem_paths.mp hpath
    rw [Files.lookup_renamed, if_neg htaken, if_neg hsent]

/-- It reads the request. -/
theorem Proper.parses {late : Bool} (hs : x.Stands (.working .taken late) s mail) :
    Turned x (.working .parsed late) mail (x.workerTurn (s, mail)) := by
  have hworker : s.worker = .busy x.name .moved := hs.worker
  have htaken := hs.files x.takenPath (by simp [paths])
  have hread : readStage x.sur x.name mail = .parsed x.received :=
    h.reads (htaken.trans (lookup_cons_if.trans (if_pos rfl)))
  have hstep : workerStep x.sur (.busy x.name .moved, mail) =
      (.busy x.name (.parsed x.received), mail) := by
    rw [workerStep, hread]
  rw [workerTurn_busy hworker hstep, show x.madeIn (.busy x.name .moved) = [] from rfl,
    List.append_nil]
  exact Stands.stays ⟨hs.client, rfl, hs.made, hs.files⟩

/-- Its handler does what was asked for. -/
theorem Proper.handles {late : Bool} (hs : x.Stands (.working .parsed late) s mail) :
    Turned x (.working .handled late) mail (x.workerTurn (s, mail)) := by
  have hworker : s.worker = .busy x.name (.parsed x.received) := hs.worker
  have hstep : workerStep x.sur (.busy x.name (.parsed x.received), mail) =
      (.busy x.name (.handled x.received x.response), mail) := rfl
  have hmade : s.made ++ x.madeIn (.busy x.name (.parsed x.received)) = [x.purpose] := by
    have hempty : s.made = [] := hs.made
    rw [hempty, ← h.conveys.does]
    rfl
  rw [workerTurn_busy hworker hstep, hmade]
  exact Stands.stays ⟨hs.client, rfl, rfl, hs.files⟩

omit h in
/-- The files when the response has been written, whether the client still waits or not. -/
theorem filesAt_answered (late : Bool) :
    x.filesAt (.answered false (if late then .late else .waiting)) =
      [(x.takenPath, x.requestFile), (x.answerPath, x.responseFile)] := by
  cases late with
  | false => rfl
  | true => rfl

/-- It writes the response. -/
theorem Proper.answers {late : Bool} (hs : x.Stands (.working .handled late) s mail) :
    Turned x (.answered false (if late then .late else .waiting)) mail
      (x.workerTurn (s, mail)) := by
  have hworker : s.worker = .busy x.name (.handled x.received x.response) := hs.worker
  have hstep : workerStep x.sur (.busy x.name (.handled x.received x.response), mail) =
      (.busy x.name .answered, delivered x.answerPath x.responseFile mail) := by
    rw [workerStep, h.write_eq]
  have hclient : s.client = x.clientAt (.answered false (if late then .late else .waiting)) := by
    rw [hs.client]
    cases late with
    | false => rfl
    | true => rfl
  rw [workerTurn_busy hworker hstep,
    show x.madeIn (.busy x.name (.handled x.received x.response)) = [] from rfl, List.append_nil]
  refine ⟨⟨hclient, rfl, hs.made, ?_⟩, ?_⟩
  · intro path hpath
    have hlookup : mail.lookup path = if path = x.takenPath then some x.requestFile else none :=
      (hs.files path hpath).trans lookup_cons_if
    show (delivered x.answerPath x.responseFile mail).lookup path = _
    rw [filesAt_answered, lookup_delivered, lookup_cons_if, lookup_cons_if, hlookup]
    by_cases htake : path = x.takenPath
    · rw [if_pos htake, if_pos htake, htake, if_neg answerPath_ne_takenPath.symm,
        if_neg tempPath_answerPath_ne.symm]
    · rw [if_neg htake, if_neg htake, ite_self]
      rfl
  · intro path hpath
    obtain ⟨-, -, -, hanswer, htemp⟩ := not_mem_paths.mp hpath
    rw [lookup_delivered, if_neg hanswer, if_neg htemp]

omit h in
/-- It removes the request. -/
theorem Stands.removes {fate : Fate} (hs : x.Stands (.answered false fate) s mail) :
    Turned x (.answered true fate) mail (x.workerTurn (s, mail)) := by
  have hworker : s.worker = .busy x.name .answered := hs.worker
  have hstep : workerStep x.sur (.busy x.name .answered, mail) =
      (.idle, deleteProcessed x.name mail) := rfl
  rw [workerTurn_busy hworker hstep, show x.madeIn (.busy x.name .answered) = [] from rfl,
    List.append_nil]
  refine ⟨⟨hs.client, rfl, hs.made, ?_⟩, ?_⟩
  · intro path hpath
    have hlookup : mail.lookup path = if path = x.takenPath then some x.requestFile
        else (x.filesAt (.answered true fate)).lookup path :=
      (hs.files path hpath).trans lookup_cons_if
    show (mail.erase x.takenPath).lookup path = (x.filesAt (.answered true fate)).lookup path
    rw [Files.lookup_erase', hlookup]
    by_cases htake : path = x.takenPath
    · rw [if_pos htake, htake]
      cases fate with
      | collected => rfl
      | _ =>
        have hskip : List.lookup x.takenPath [(x.answerPath, x.responseFile)] = none :=
          lookup_cons_if.trans (if_neg answerPath_ne_takenPath.symm)
        exact hskip.symm
    · rw [if_neg htake, if_neg htake]
  · intro path hpath
    show (mail.erase x.takenPath).lookup path = mail.lookup path
    obtain ⟨-, -, htaken, -⟩ := not_mem_paths.mp hpath
    rw [Files.lookup_erase', if_neg htaken]

omit h in
/-- It looks for another request. -/
theorem Stands.rests {fate : Fate} (hs : x.Stands (.answered true fate) s mail) :
    Turned x (.answered true fate) mail (x.workerTurn (s, mail)) := by
  have hnone : mail.lookup x.sentPath = none := by
    rw [hs.files x.sentPath (by simp [paths])]
    cases fate with
    | collected => rfl
    | _ => exact lookup_cons_if.trans (if_neg answerPath_ne_sentPath.symm)
  rw [workerTurn_idle hs.worker hnone]
  exact hs.stays

/-- **The turn of the worker.** -/
theorem Proper.workerTurn (hs : x.Stands progress s mail) :
    Turned x (progress.next .worker) mail (x.workerTurn (s, mail)) := by
  cases progress with
  | unsent =>
    rw [workerTurn_idle hs.worker (hs.files x.sentPath (by simp [paths]))]
    exact hs.stays
  | working stretch late =>
    cases stretch with
    | sent => exact hs.takes
    | taken => exact h.parses hs
    | parsed => exact h.handles hs
    | handled => exact h.answers hs
  | answered removed fate =>
    cases removed with
    | true => exact hs.rests
    | false => exact hs.removes

omit h in
/-- The backend is asked at most once. -/
theorem Stands.made_cases (hs : x.Stands progress s mail) : s.made = [] ∨ s.made = [x.purpose] := by
  rw [hs.made]
  cases progress with
  | unsent => exact .inl rfl
  | working stretch late =>
    cases stretch with
    | handled => exact .inr rfl
    | _ => exact .inl rfl
  | answered removed fate => exact .inr rfl

omit h in
/-- A client that is done has the response, or no time left. -/
theorem Stands.done_cases (hs : x.Stands progress s mail) {result : Bool × Json String}
    (hdone : s.client = .done result) :
    (result = (true, x.responseDocument) ∧ s.made = [x.purpose]) ∨ result = timedOut := by
  have hclient := hs.client
  rw [hdone] at hclient
  cases progress with
  | unsent => cases hclient
  | working stretch late =>
    cases late with
    | false => cases hclient
    | true => exact .inr (Client.done.inj hclient)
  | answered removed fate =>
    cases fate with
    | waiting => cases hclient
    | collected => exact .inl ⟨Client.done.inj hclient, hs.made⟩
    | late => exact .inr (Client.done.inj hclient)

/-- Each turn of a proper exchange makes the progress it should, whoever takes it. -/
theorem Proper.turned (party : Party) (hs : x.Stands progress s mail) :
    Turned x (progress.next party) mail (x.turn party (s, mail)) := by
  cases party with
  | client => exact h.clientTurn hs
  | worker => exact h.workerTurn hs
  | clock => exact clockTurn_turned hs

end Exchange

open Exchange

/-- A proper exchange is a session. -/
def Exchange.Proper.session {x : Exchange} (h : x.Proper) :
    Session Party Exchanging Progress Directory MailFile where
  own := {path | path ∈ x.paths}
  turn := x.turn
  Stands := x.Stands
  next := Progress.next
  stands_of_agree hs hagree :=
    ⟨hs.client, hs.worker, hs.made, fun path hpath =>
      (hagree path hpath).trans (hs.files path hpath)⟩
  stands_turn party hs := (h.turned party hs).stands
  frame party path hs hpath := (h.turned party hs).frame path hpath

/-! ### Many exchanges -/

/-- The file of a path is named after its exchange. -/
theorem head?_of_mem_paths {x : Exchange} {path : Directory} (hpath : path ∈ x.paths) :
    path.head? = some x.name ∨ path.head? = some (x.name ++ ".tmp") := by
  simp only [paths, List.mem_cons, List.not_mem_nil, or_false] at hpath
  rcases hpath with rfl | rfl | rfl | rfl | rfl
  · exact .inl rfl
  · exact .inr rfl
  · exact .inl rfl
  · exact .inl rfl
  · exact .inr rfl

/-- A name with an ending is no name with another one. -/
theorem name_ne_temp (text text' : String) : text ++ ".json" ≠ text' ++ ".json" ++ ".tmp" := by
  intro heq
  have hlast := congrArg (fun s : String => s.toList.reverse.head?) heq
  simp only [String.toList_append, List.reverse_append] at hlast
  have hchar : some 'n' = some 'p' := hlast
  exact absurd hchar (by decide)

/-- Requests with different identifiers have no path in common. -/
theorem disjoint_paths {x y : Exchange} (hne : x.requestId ≠ y.requestId) :
    Disjoint {path | path ∈ x.paths} {path | path ∈ y.paths} := by
  have hname : x.name ≠ y.name := by
    intro heq
    exact hne (String.append_left_inj ".json" |>.mp heq)
  rw [Set.disjoint_left]
  intro path hx hy
  rcases head?_of_mem_paths hx with hx | hx
  · rcases head?_of_mem_paths hy with hy | hy
    · exact hname (Option.some.inj (hx.symm.trans hy))
    · exact name_ne_temp _ _ (Option.some.inj (hx.symm.trans hy))
  · rcases head?_of_mem_paths hy with hy | hy
    · exact name_ne_temp _ _ (Option.some.inj (hy.symm.trans hx))
    · have htemp := Option.some.inj (hx.symm.trans hy)
      exact hname (String.append_left_inj ".tmp" |>.mp htemp)

/-! ### Two clients -/

/-- A library with a table of different texts reads each as it was written. -/
theorem readsBack_ofTable {documents : List (Json String)}
    (hdistinct : (documents.map Json.render).Nodup) {j : Json String} (hj : j ∈ documents) :
    ReadsBack (.ofTable (documents.map fun j => (j.render, j))) j := by
  have hlookup : (documents.map fun j => (j.render, j)).lookup j.render = some j := by
    induction documents with
    | nil => cases hj
    | cons first documents ih =>
      rw [List.map_cons, List.nodup_cons] at hdistinct
      rw [List.map_cons, List.lookup_cons]
      rcases List.mem_cons.mp hj with rfl | hj
      · rw [beq_self_eq_true]
      · have hne : j.render ≠ first.render := by
          intro heq
          exact hdistinct.1 (heq ▸ List.mem_map_of_mem hj)
        rw [beq_false_of_ne hne]
        exact ih hdistinct.2 hj
  intro text hdump
  have htext : text = j.render := by
    unfold JsonLibrary.ofTable at hdump
    dsimp only at hdump
    split at hdump
    · exact (Except.ok.inj hdump).symm
    · cases hdump
  unfold JsonLibrary.ofTable
  dsimp only
  rw [htext, hlookup]

/-- A lease is acknowledged, for which the backend has an answer. -/
def acknowledging (requestId : String) (status : Status) (documents : List (Json String)) :
    Exchange where
  args := ⟨[("--message-key", "k")]⟩
  invocation := .ack { consumerId := "c" }
  request := ⟨"ack", leasePayload "c" none "k" []⟩
  sending := ⟨requestId, 1, true⟩
  sur :=
    { context :=
        { libs := .ofTable (documents.map fun j => (j.render, j))
          validator := {}
          policies := fun _ => none
          metrics := {}
          env := { now := 1, now_pos := Int.one_pos } }
      answers := ⟨status, {}, ({}, none), ([], none)⟩ }

/-- The documents of two requests, of which the second is refused. -/
def documents : List (Json String) :=
  [.obj [], .obj [("consumerId", .str "c"), ("messageKey", .str "k")],
    .obj [("clientId", .str "c"), ("command", .str "ack"), ("deadlineMs", .int 30001),
      ("payload", .obj [("consumerId", .str "c"), ("messageKey", .str "k")]),
      ("requestId", .str "1"), ("timestampMs", .int 1)],
    .obj [("requestId", .str "1"), ("ok", .bool true), ("data", .obj [])],
    .obj [("clientId", .str "c"), ("command", .str "ack"), ("deadlineMs", .int 30001),
      ("payload", .obj [("consumerId", .str "c"), ("messageKey", .str "k")]),
      ("requestId", .str "2"), ("timestampMs", .int 1)],
    .obj [("requestId", .str "2"), ("ok", .bool false),
      ("error", .obj [("code", .str "ERR_INTERNAL_ERROR"), ("message", .str "no lease")])]]

/-- Two clients that acknowledge at the same time: the first holds a lease, the second does not. -/
def twoClients (b : Bool) : Exchange :=
  if b then acknowledging "1" (.ok ()) documents
  else acknowledging "2" (.error (some "no lease")) documents

/-- Turns of both, side by side. -/
def sideBySide : List (Bool × Party) :=
  [(true, .client), (false, .client), (true, .worker), (false, .worker), (true, .worker),
    (true, .worker), (false, .worker), (false, .worker), (true, .worker), (false, .worker),
    (true, .worker), (true, .client), (false, .worker), (false, .client)]

/-- Acknowledging is proper with documents that are written differently. -/
theorem proper_acknowledging {requestId : String} {status : Status}
    {documents : List (Json String)} (hdistinct : (documents.map Json.render).Nodup)
    (hencoded : ∀ j ∈ documents, j.WellEncoded)
    (hid : '/' ∉ requestId.toList ∧ '\x00' ∉ requestId.toList ∧ IsUtf8 requestId)
    (hstatus : ∀ e, status = .error (some e) → IsUtf8 e)
    (hpayload : leasePayload "c" none "k" [] ∈ documents)
    (hrequest : (acknowledging requestId status documents).requestDocument ∈ documents)
    (hresponse : responseJson (acknowledging requestId status documents).libs
      (statusAnswer (acknowledging requestId status documents).received
        MailboxErrorCode.internalError "ack failed"
        (buildSuccessResponse requestId "{}") status) ∈ documents) :
    (acknowledging requestId status documents).Proper := by
  -- The library is built from a table of documents, each of which it reads back.
  have hlawful : (acknowledging requestId status documents).libs.Lawful := by
    apply JsonLibrary.lawful_ofTable
    intro entry hentry
    obtain ⟨j, hj, rfl⟩ := List.mem_map.mp hentry
    exact hencoded j hj
  have hreads : ∀ j ∈ documents,
      ReadsBack (acknowledging requestId status documents).libs.toJsonLibrary j :=
    fun j hj => readsBack_ofTable hdistinct hj
  have hdlq : ∀ queue, IsUtf8 queue → (dlqData queue []).WellEncoded := by
    intro queue hqueue
    simp only [dlqData, List.map_nil, Json.wellEncoded_cons, Json.wellEncoded_str,
      Json.wellEncoded_int, Json.wellEncoded_empty, and_true]
    exact ⟨by decide, hqueue, by decide, by decide, by decide⟩
  -- What the command line asks for, and what the daemon makes of it.
  have hsent : cmdAck ⟨[("--message-key", "k")]⟩ { consumerId := "c" } =
    .ok ⟨"ack", leasePayload "c" none "k" []⟩ := rfl
  have hparse : (acknowledging requestId status documents).libs.parse
      (acknowledging requestId status documents).received.payloadJson =
        .ok (ClientRequest.mk "ack" (leasePayload "c" none "k" [])).payload :=
    @parse_payloadText _ ⟨"ack", leasePayload "c" none "k" []⟩ hlawful (hencoded _ hpayload)
      (hreads _ hpayload) rfl
  have hcommand : (acknowledging requestId status documents).handling =
      handleAck (acknowledging requestId status documents).sur.context
        (acknowledging requestId status documents).received := by
    have hack : (acknowledging requestId status documents).received.command = .ack :=
      parseCommand_commandText (.ack { consumerId := "c" })
    unfold handling handleRequest
    rw [hack]
  have hhandling := hcommand.trans (handleAck_eq hparse hsent)
  exact
    { understood := ⟨hlawful, hsent, trivial, trivial, hencoded _ hpayload,
        show IsUtf8 "" by decide,
        ⟨show (leaseData {}).WellEncoded by decide, hdlq, fun _ _ h => by cases h⟩⟩
      client_name := show IsName "c" by decide
      client_utf8 := show IsUtf8 "c" by decide
      id_slash := hid.1
      id_nul := hid.2.1
      id_utf8 := hid.2.2
      in_time := show (1 : Int) ≤ 1 + 30000 by decide
      sending_writable := rfl
      writable := rfl
      reads_request := hreads _ hrequest
      reads_payload := hreads _ hpayload
      reads_response := by
        apply hreads
        rw [responseDocument, response, hhandling]
        exact hresponse
      reported := by
        rw [hhandling]
        exact hstatus }

/-- Both exchanges are proper. -/
theorem proper_twoClients (b : Bool) : (twoClients b).Proper := by
  have hdistinct : (documents.map Json.render).Nodup := by decide +kernel
  have hencoded : ∀ j ∈ documents, j.WellEncoded := by decide
  have hmem : ∀ (n : Nat) j, documents[n]? = some j → j ∈ documents :=
    fun n j hj => List.mem_of_getElem? hj
  cases b with
  | true =>
    have hempty : (acknowledging "1" (.ok ()) documents).libs.parse "{}" = .ok (.obj []) :=
      readsBack_ofTable hdistinct (hmem 0 _ rfl) "{}" rfl
    refine proper_acknowledging hdistinct hencoded (by decide) (fun e h => nomatch h)
      (hmem 1 _ rfl) (hmem 2 _ rfl) ?_
    show responseJson _ (buildSuccessResponse "1" "{}") ∈ documents
    unfold responseJson buildSuccessResponse
    rw [hempty]
    exact hmem 3 _ rfl
  | false =>
    refine proper_acknowledging hdistinct hencoded (by decide) ?_ (hmem 1 _ rfl) (hmem 4 _ rfl)
      (hmem 5 _ rfl)
    intro e he
    obtain rfl := Option.some.inj (Except.error.inj he)
    decide

/-- The two have identifiers of their own. -/
theorem ids_twoClients :
    Pairwise fun b b' => (twoClients b).requestId ≠ (twoClients b').requestId := by
  intro b b' hne
  cases b with
  | true =>
    cases b' with
    | true => exact absurd rfl hne
    | false => exact show "1" ≠ "2" by decide
  | false =>
    cases b' with
    | true => exact show "2" ≠ "1" by decide
    | false => exact absurd rfl hne

/-- None of their files is there before. -/
theorem fresh_twoClients (b : Bool) (path : Directory) (_ : path ∈ (twoClients b).paths) :
    (∅ : Mail).lookup path = none := AList.lookup_empty path

section Run

variable {ι : Type} {x : ι → Exchange} {mail : Mail}

/-- Proper exchanges with different identifiers have no file in common. -/
theorem disjoint_sessions (h : ∀ i, (x i).Proper)
    (hids : Pairwise fun i j => (x i).requestId ≠ (x j).requestId) :
    Pairwise fun i j => Disjoint (h i).session.own (h j).session.own := by
  intro i j hij
  exact disjoint_paths (hids hij)

/-- A proper exchange stands at its beginning where none of its files is there. -/
theorem start_sessions (h : ∀ i, (x i).Proper)
    (hfresh : ∀ i, ∀ path ∈ (x i).paths, mail.lookup path = none) (i : ι) :
    (h i).session.Stands .unsent {} mail := ⟨rfl, rfl, rfl, hfresh i⟩

variable [DecidableEq ι]

/-- Exchanges that take turns in a given order, from the start. -/
def exchanges (x : ι → Exchange) (mail : Mail) (order : List (ι × Party)) :
    (ι → Exchanging) × Mail :=
  Sessions.run (fun i => (x i).turn) order (fun _ => {}, mail)

/-- How far its turns bring an exchange. -/
def Progress.after (turns : List Party) : Progress :=
  Sessions.leads Progress.next turns .unsent

variable (h : ∀ i, (x i).Proper) (hids : Pairwise fun i j => (x i).requestId ≠ (x j).requestId)
  (hfresh : ∀ i, ∀ path ∈ (x i).paths, mail.lookup path = none) (order : List (ι × Party))

include h hids hfresh

/-- Every exchange is as far as its own turns bring it. -/
theorem exchanges_stands (i : ι) :
    (x i).Stands (.after (Sessions.turnsOf i order)) ((exchanges x mail order).1 i)
      (exchanges x mail order).2 :=
  Sessions.run_stands (disjoint_sessions h hids) (start_sessions h hfresh) order i

/-- **No client returns 0 unless what it asked for was done**, in any order of the turns of proper
    exchanges whose identifiers differ: for a request, the backend is asked at most once, and for
    what the command line asks; a client that returns 0 knows that this was done, and achieved.  No
    other file is touched. -/
theorem exchanges_safe (i : ι) :
    (((exchanges x mail order).1 i).made = [] ∨
      ((exchanges x mail order).1 i).made = [(x i).purpose]) ∧
    (∀ result, ((exchanges x mail order).1 i).client = .done result → exitCode result = 0 →
      ((exchanges x mail order).1 i).made = [(x i).purpose] ∧
        Achieved (x i).sur.answers (x i).purpose) ∧
    ∀ path, (∀ i, path ∉ (x i).paths) →
      (exchanges x mail order).2.lookup path = mail.lookup path := by
  have hstands := exchanges_stands h hids hfresh order i
  refine ⟨hstands.made_cases, ?_, ?_⟩
  · intro result hdone hzero
    rcases hstands.done_cases hdone with ⟨rfl, hmade⟩ | rfl
    · exact ⟨hmade, (h i).exitCode_iff.mp hzero⟩
    · exact absurd hzero (by decide)
  · intro path hpath
    exact Sessions.run_frame (disjoint_sessions h hids) (start_sessions h hfresh) order hpath

/-- **An exchange with turns enough is complete**: the client has sent its request, the worker has
    taken five turns or more, and then the client has had another one before its time was over.
    The backend was asked once, for what the command line asks; the client returns 0 exactly when
    that was achieved, and no file of the exchange is left. -/
theorem exchanges_complete (i : ι) {front middle back : List Party}
    (hturns : Sessions.turnsOf i order = front ++ .client :: (middle ++ .client :: back))
    (hfront : Party.clock ∉ front) (hmiddle : Party.clock ∉ middle)
    (hworker : 5 ≤ middle.count .worker) :
    ∃ result, ((exchanges x mail order).1 i).client = .done result ∧
      ((exchanges x mail order).1 i).made = [(x i).purpose] ∧
      (exitCode result = 0 ↔ Achieved (x i).sur.answers (x i).purpose) ∧
      ∀ path ∈ (x i).paths, (exchanges x mail order).2.lookup path = none := by
  have hstands := exchanges_stands h hids hfresh order i
  rw [Progress.after, hturns, Progress.leads_complete hfront hmiddle hworker] at hstands
  exact ⟨_, hstands.client, hstands.made, (h i).exitCode_iff, hstands.files⟩

end Run

/-- The first client's request reaches the backend once, and that is what the client is told. -/
theorem exchanges_safe_two :
    ((exchanges twoClients ∅ sideBySide).1 true).made = [(twoClients true).purpose] ∧
      Achieved (twoClients true).sur.answers (twoClients true).purpose := by
  have hstands := exchanges_stands proper_twoClients ids_twoClients fresh_twoClients sideBySide
    true
  have hdone : ((exchanges twoClients ∅ sideBySide).1 true).client =
      .done (true, (twoClients true).responseDocument) := hstands.client
  have hzero : exitCode (true, (twoClients true).responseDocument) = 0 :=
    (proper_twoClients true).exitCode_iff.mpr rfl
  exact (exchanges_safe proper_twoClients ids_twoClients fresh_twoClients sideBySide true).2.1 _
    hdone hzero

/-- The second client is told of the refusal of its own request. -/
theorem exchanges_complete_two :
    ∃ result, ((exchanges twoClients ∅ sideBySide).1 false).client = .done result ∧
      ((exchanges twoClients ∅ sideBySide).1 false).made = [(twoClients false).purpose] ∧
      exitCode result ≠ 0 := by
  have hturns : Sessions.turnsOf false sideBySide =
      [] ++ .client :: ([.worker, .worker, .worker, .worker, .worker] ++ .client :: []) := rfl
  obtain ⟨result, hdone, hmade, hzero, -⟩ := exchanges_complete proper_twoClients ids_twoClients
    fresh_twoClients sideBySide false hturns (by decide) (by decide) (by decide)
  refine ⟨result, hdone, hmade, ?_⟩
  intro h
  -- The backend has refused.
  have hrefused : (Except.error (some "no lease") : Status) = .ok () := hzero.mp h
  cases hrefused

end YirangMQ.Samples

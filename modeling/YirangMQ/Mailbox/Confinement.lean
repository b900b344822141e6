import YirangMQ.Backends.Types
import YirangMQ.FileSystem.Confinement
import YirangMQ.Hybrid.Confinement
import YirangMQ.Mailbox.Disposal

namespace YirangMQ

open Mailbox

/-!
# Where requests lead to

Three builders splice strings of requests into paths: the response path, the FileSystem adapter's
queue path, and the Hybrid adapter's payload path.  None of them looks at the strings.

* `Host`, `HostInput` — the mailbox and the store of a backend; a request is processed with
  whatever the backend answers and whichever steps fail;
* `accepted`, `hostCall?` — the request of a file, and the call it makes;
* `Confined` — what a request touches is under the roots, in directories for its client and queue;
* `Named` — the strings that come into paths are names, and those of statements are plain;
* `confined_of_named` — **requests whose strings are names are confined.**
-/

namespace BackendType

variable (backend : BackendType)

/-- The call names queues by names.  The FileSystem adapter makes paths of keys as well; and the
    Hybrid adapter writes its texts into statements, from whose rows it takes queues again. -/
def KeepsNames : Call → Prop :=
  match backend with
  | .fileSystem => fun call => FileSystem.KeepsNames call ∧ FileSystem.Call.NulFree call
  | .sqlite => fun _ => True
  | .hybrid => fun call => (∀ message, call = .enqueue message → IsName message.queue) ∧ call.Plain

/-- The place of a file whose content changes at some moment of the call.  The places of SQLite's
    own files depend on no call. -/
def Touches (schema : SchemaFile) (env : Env) (call : Call) (s : backend.Store)
    (place : Directory) : Prop :=
  match backend, s with
  | .fileSystem, d => ∃ t ∈ (FileSystem.program env call).passedStates env.faults d,
      ∃ path, t.lookup path ≠ d.lookup path ∧ FileSystem.Path.place path = place
  | .sqlite, _ => False
  | .hybrid, s => ∃ t ∈ (Hybrid.program schema env call).passedStates env.faults s,
      ∃ path, t.files.lookup path ≠ s.files.lookup path ∧ resolve [] path = place

/-- The directories made for a queue. -/
def directories (queue : String) : List Directory :=
  match backend with
  | .fileSystem => FileSystem.queueDirectories queue
  | .sqlite => []
  | .hybrid => Hybrid.queueDirectories queue

/-- The directory of a queue under the root. -/
def directory (queue : String) : Directory :=
  match backend with
  | .fileSystem => [queue]
  | .sqlite => []
  | .hybrid => queue :: Hybrid.payloadRoot

/-- The place is in the directory of the queue that the call names, or of some queue if it names
    none; or it is among the FileSystem adapter's notes. -/
def Holds (call : Call) (place : Directory) : Prop :=
  (∃ queue, IsName queue ∧ (∀ q, call.queue? = some q → queue = q) ∧
    Inside (backend.directory queue) place) ∨
  backend = .fileSystem ∧ Inside [FileSystem.metaDir] place

end BackendType

/-- The files under the root of the mailbox, and the store of the backend. -/
structure Host (backend : BackendType) where
  mail : Mail
  store : backend.Store

/-- What a client, the request worker or another worker does next. -/
inductive HostInput where
  | send (name content : String) (lastWrite : Int)
  | process (sur : Surroundings) (name : String)
  | work (env : Env) (call : Call)

/-- The request of a file, when it is to be executed. -/
def accepted (sur : Surroundings) (name : String) (mail : Mail) : Option MailboxRequest :=
  match mail.lookup (name :: requestsDir) with
  | none => none
  | some file =>
    match judged sur file.content with
    | .ok request => some request
    | .error _ => none

variable {backend : BackendType} {schema : SchemaFile}

/-- The call that is made of the backend. -/
def hostCall? (s : Host backend) : HostInput → Option (Env × Call)
  | .send _ _ _ => none
  | .process sur name => do
    let request ← accepted sur name s.mail
    let call ← (handleRequest sur.context request).call?
    return (sur.context.env, call)
  | .work env call => some (env, call)

/-- The mailbox after an input. -/
def mailAfter (mail : Mail) : HostInput → Mail
  | .send name content lastWrite => mail.insert (name :: requestsDir) ⟨content, lastWrite, none⟩
  | .process sur name => (processFile sur name mail).2
  | .work _ _ => mail

/-- The mailbox over a backend, with its files. -/
def host (backend : BackendType) (schema : SchemaFile) :
    Machine (Host backend) HostInput Unit where
  start := ⟨∅, (backend.adapter schema).start⟩
  step s input :=
    let store :=
      match hostCall? s input with
      | none => s.store
      | some (env, call) => ((backend.adapter schema).perform env call s.store).2
    ((), ⟨mailAfter s.mail input, store⟩)

/-- The step of the backend in such a step. -/
def storeStep (schema : SchemaFile) (r : Step (Host backend) HostInput Unit) :
    Option (Step backend.Store (Env × Call) Reply) :=
  (hostCall? r.before r.input).map ((backend.adapter schema).machine.stepAt r.before.store)

/-- What a request touches is under the roots: files of the mailbox's own directories and its
    response, which is in one directory of `responses/` for its client; and files and directories
    of the backend in one for its queue. -/
structure Confined (schema : SchemaFile) (sur : Surroundings) (name : String)
    (s s' : Host backend) : Prop where
  mail : ∀ path, s'.mail.lookup path ≠ s.mail.lookup path →
    (∃ dir ∈ [requestsDir, processingDir, deadDir], Inside dir path) ∨
    ∃ request, accepted sur name s.mail = some request ∧
      (path = responsePath request.clientId request.requestId ∨
        path = responseTemp request.clientId request.requestId)
  response : ∀ request, accepted sur name s.mail = some request →
    ∃ client, IsName client ∧ resolve responsesDir request.clientId = client :: responsesDir ∧
      Inside (client :: responsesDir) (responsePath request.clientId request.requestId) ∧
      Inside (client :: responsesDir) (responseTemp request.clientId request.requestId)
  store : ∀ env call, hostCall? s (.process sur name) = some (env, call) → ∀ place,
    backend.Touches schema env call s.store place → backend.Holds call place
  directories : ∀ env message, hostCall? s (.process sur name) = some (env, .enqueue message) →
    ∀ dir ∈ backend.directories message.queue, backend.Holds (.enqueue message) dir

/-- The strings that come into paths are names: the client and the request, and the queue, or the
    key, of the call that is made. -/
structure Named (s : Host backend) (input : HostInput) : Prop where
  response : ∀ sur name request, input = .process sur name →
    accepted sur name s.mail = some request →
    IsName request.clientId ∧ '/' ∉ request.requestId.toList ∧ '\x00' ∉ request.requestId.toList
  call : ∀ env call, hostCall? s input = some (env, call) → backend.KeepsNames call

/-- They are; and the JSON library is as documented, and identifiers are fresh. -/
structure Orderly (schema : SchemaFile) (h : History (Host backend) HostInput Unit)
    (s : Host backend) (input : HostInput) : Prop where
  named : Named s input
  lawful : ∀ sur name, input = .process sur name → sur.context.libs.Lawful
  fresh : ∀ env call, hostCall? s input = some (env, call) →
    call.Fresh (publishedBy (h.filterMap (storeStep schema)))

/-! ### The mailbox -/

namespace Mailbox

variable {libs : Libraries} {name reason : String} {now : Int} {mail : Mail} {path : Directory}
  {sur : Surroundings} {request : MailboxRequest}

/-- A move to `dead/` touches the file, its new place and its reason. -/
theorem moveToDead_touched
    (h : (moveToDead libs now name reason mail).2.lookup path ≠ mail.lookup path) :
    ∃ dir ∈ [requestsDir, processingDir, deadDir], Inside dir path := by
  by_contra hnone
  push Not at hnone
  have hdead : path.drop 1 ≠ deadDir := by
    intro heq
    refine hnone deadDir (by simp) ?_
    exact ⟨[], by rw [List.nil_append, heq]⟩
  have hprocessing : path ≠ name :: processingDir := by
    intro heq
    exact hnone processingDir (by simp) (heq ▸ inside_cons name processingDir)
  rw [Disposal.lookup_moveToDead libs now name reason mail hdead, if_neg hprocessing] at h
  exact h rfl

/-- A response touches its file and the one it is written through. -/
theorem writeResponseFile_touched {clientId : String} {response : MailboxResponse}
    (h : (writeResponseFile sur clientId response mail).2.lookup path ≠ mail.lookup path) :
    path = responsePath clientId response.requestId ∨
      path = responseTemp clientId response.requestId := by
  by_contra hother
  push Not at hother
  refine h ?_
  rw [writeResponseFile]
  cases htext : sur.context.libs.dump (responseJson sur.context.libs response) with
  | error what => rfl
  | ok text =>
    dsimp only
    split
    · rw [Files.lookup_renamed, if_neg hother.1, if_neg hother.2, Files.lookup_insert',
        if_neg hother.2]
    · rfl

/-- A request is answered under its own identifier. -/
theorem answer_requestId (hlib : sur.context.libs.Lawful) :
    ((handleRequest sur.context request).answerWith sur.answers).requestId = request.requestId :=
  (@speaks_iff sur.context sur.answers request hlib).1.requestId

theorem executeRequest_touched (hlib : sur.context.libs.Lawful)
    (h : (executeRequest sur name request mail).2.lookup path ≠ mail.lookup path) :
    (∃ dir ∈ [requestsDir, processingDir, deadDir], Inside dir path) ∨
      path = responsePath request.clientId request.requestId ∨
      path = responseTemp request.clientId request.requestId := by
  by_contra hnone
  push Not at hnone
  obtain ⟨hdirs, htarget, htemp⟩ := hnone
  have hprocessing : path ≠ name :: processingDir := by
    intro heq
    exact hdirs processingDir (by simp) (heq ▸ inside_cons name processingDir)
  have hwritten : (writeResponseFile sur request.clientId
      ((handleRequest sur.context request).answerWith sur.answers) mail).2.lookup path =
        mail.lookup path := by
    by_contra hne
    rcases writeResponseFile_touched hne with heq | heq
    · rw [answer_requestId hlib] at heq
      exact htarget heq
    · rw [answer_requestId hlib] at heq
      exact htemp heq
  refine h ?_
  rw [executeRequest]
  rcases hwrite : writeResponseFile sur request.clientId
      ((handleRequest sur.context request).answerWith sur.answers) mail with ⟨what | written, mail'⟩
  · rw [hwrite] at hwritten
    exact hwritten
  · rw [hwrite] at hwritten
    dsimp only
    rw [deleteProcessed, Files.lookup_erase', if_neg hprocessing]
    exact hwritten

/-- Processing a file touches that file in the directories of the mailbox, and the response. -/
theorem processFile_touched (hlib : sur.context.libs.Lawful)
    (h : (processFile sur name mail).2.lookup path ≠ mail.lookup path) :
    (∃ dir ∈ [requestsDir, processingDir, deadDir], Inside dir path) ∨
    ∃ request, accepted sur name mail = some request ∧
      (path = responsePath request.clientId request.requestId ∨
        path = responseTemp request.clientId request.requestId) := by
  -- If nothing of this kind is touched, the path is neither that of the request nor that of its
  -- copy.
  by_contra hnone
  obtain ⟨hdirs, hresponse⟩ := not_or.mp hnone
  have hrequests : path ≠ name :: requestsDir := by
    intro heq
    exact hdirs ⟨requestsDir, by simp, heq ▸ inside_cons name requestsDir⟩
  have hprocessing : path ≠ name :: processingDir := by
    intro heq
    exact hdirs ⟨processingDir, by simp, heq ▸ inside_cons name processingDir⟩
  refine h ?_
  cases hfile : mail.lookup (name :: requestsDir) with
  | none => rw [processFile, moveToProcessing, Files.rename, hfile]
  | some file =>
    -- So the move to `processing/` does not change it.
    have hmoved : (Files.renamed (name :: requestsDir) (name :: processingDir) file mail).lookup
        path = mail.lookup path := by
      rw [Files.lookup_renamed, if_neg hprocessing, if_neg hrequests]
    obtain ⟨hrejected, hexecuted⟩ := @processFile_moved sur name mail file hfile
    cases hjudged : judged sur file.content with
    -- A rejected request goes to `dead/`, an executed one writes its response.
    | error reason =>
      rw [hrejected reason hjudged]
      by_contra hne
      rw [← hmoved] at hne
      exact hdirs (moveToDead_touched hne)
    | ok request =>
      have haccepted : accepted sur name mail = some request := by
        rw [accepted, hfile]
        dsimp only
        rw [hjudged]
      rw [hexecuted request hjudged]
      by_contra hne
      rw [← hmoved] at hne
      rcases executeRequest_touched hlib hne with hinside | hother
      · exact hdirs hinside
      · exact hresponse ⟨request, haccepted, hother⟩

/-- A response under a name for its client is in one directory of `responses/`. -/
theorem response_inside {clientId requestId : String} (hclient : IsName clientId)
    (hslash : '/' ∉ requestId.toList) (hnul : '\x00' ∉ requestId.toList) :
    Inside (clientId :: responsesDir) (responsePath clientId requestId) ∧
    Inside (clientId :: responsesDir) (responseTemp clientId requestId) := by
  have hpath : responsePath clientId requestId =
      (requestId ++ ".json") :: clientId :: responsesDir := by
    rw [responsePath_of_plain hclient.no_nul hnul, resolve_name hclient,
      resolve_file hslash (by decide) (by decide)]
  rw [responseTemp_of_plain hclient.no_nul hnul, hpath]
  exact ⟨inside_cons _ _, inside_cons (requestId ++ ".json" ++ ".tmp") _⟩

end Mailbox

/-! ### The store -/

/-- The calls whose queues are names, and whose identifiers are fresh. -/
def BackendType.Permitted (backend : BackendType)
    (h : History backend.Store (Env × Call) Reply) (_ : backend.Store) (i : Env × Call) : Prop :=
  backend.KeepsNames i.2 ∧ i.2.Fresh (publishedBy h)

/-- On the Hybrid backend all messages were published in queues that are names. -/
theorem Hybrid.names_of_run {h : History Hybrid.Store (Env × Call) Reply} {s : Hybrid.Store}
    (run : Run (Hybrid.adapter schema).machine (BackendType.Permitted .hybrid) h s) :
    ∀ m ∈ publishedBy h, IsName m.queue := by
  induction run with
  | start => simp [publishedBy]
  | @step h s i run ok ih =>
    obtain ⟨env, call⟩ := i
    cases call with
    | enqueue message =>
      intro m hm
      rcases List.mem_cons.mp hm with rfl | hold
      · exact ok.1.1 m rfl
      · exact ih m hold
    | _ => exact ih

/-- What a permitted call touches after permitted calls is where it should be. -/
theorem holds_of_run {h : History backend.Store (Env × Call) Reply} {s : backend.Store}
    (run : Run (backend.adapter schema).machine backend.Permitted h s) {env : Env} {call : Call}
    (hnames : backend.KeepsNames call) (hfresh : call.Fresh (publishedBy h)) {place : Directory}
    (htouches : backend.Touches schema env call s place) : backend.Holds call place := by
  cases backend with
  | fileSystem =>
    obtain ⟨t, ht, path, htouched, rfl⟩ := htouches
    have hkept := FileSystem.filed_of_run (fun _ _ _ ok => ⟨ok.1.1, ok.2⟩) run
    exact (FileSystem.touched_confined hkept hnames.1 hfresh ht htouched).imp_right fun hnote =>
      ⟨rfl, hnote⟩
  | sqlite => exact htouches.elim
  | hybrid =>
    obtain ⟨t, ht, path, htouched, rfl⟩ := htouches
    obtain ⟨hwell, howned⟩ := Hybrid.owned_of_run (fun _ _ _ ok => ok.2) run
    refine .inl (Hybrid.touched_confined hwell howned hfresh ?_ ht htouched)
    intro m hm
    cases call with
    | enqueue message =>
      rcases List.mem_cons.mp hm with rfl | hold
      · exact hnames.1 m rfl
      · exact Hybrid.names_of_run run m hold
    | _ => exact Hybrid.names_of_run run m hm

/-- The directories made for a queue that is a name. -/
theorem directories_held {message : MessageEnvelope} (h : backend.KeepsNames (.enqueue message)) :
    ∀ dir ∈ backend.directories message.queue, backend.Holds (.enqueue message) dir := by
  intro dir hdir
  have hheld : IsName message.queue → Inside (backend.directory message.queue) dir →
      backend.Holds (.enqueue message) dir := by
    intro hname hinside
    refine .inl ⟨message.queue, hname, ?_, hinside⟩
    intro q hq
    exact Option.some.inj hq
  cases backend with
  | sqlite => cases hdir
  | fileSystem =>
    have hname : IsName message.queue := h.1
    obtain ⟨sub, -, rfl⟩ := List.mem_map.mp hdir
    refine hheld hname ?_
    have hsub : IsName sub.name := by cases sub <;> decide
    rw [resolve_name hname, resolve_name hsub]
    exact inside_cons sub.name _
  | hybrid =>
    have hname : IsName message.queue := h.1 message rfl
    obtain ⟨sub, -, rfl⟩ := List.mem_map.mp hdir
    refine hheld hname ?_
    rw [Hybrid.resolve_directoryText, Hybrid.queueDirectory_of_name hname]
    exact inside_cons sub.name _

/-! ### Runs -/

/-- A run of orderly steps makes permitted calls of the backend. -/
theorem run_store {h : History (Host backend) HostInput Unit} {s : Host backend}
    (run : Run (host backend schema) (Orderly schema) h s) :
    Run (backend.adapter schema).machine backend.Permitted (h.filterMap (storeStep schema))
      s.store := by
  refine Run.map Host.store (storeStep schema) rfl ?_ run
  intro h s input run ok
  cases hcall : hostCall? s input with
  | none =>
    refine .inl ⟨?_, ?_⟩
    · show (hostCall? s input).map _ = none
      rw [hcall, Option.map_none]
    · simp only [host, hcall]
  | some i =>
    obtain ⟨env, call⟩ := i
    refine .inr ⟨(env, call), ?_, ?_, ok.named.call env call hcall, ok.fresh env call hcall⟩
    · show (hostCall? s input).map _ = _
      rw [hcall, Option.map_some]
      rfl
    · simp only [host, hcall]
      rfl

/-- **Requests whose strings are names are confined**, in every run in which all of them are. -/
theorem confined_of_named {h : History (Host backend) HostInput Unit} {s : Host backend}
    (run : Run (host backend schema) (Orderly schema) h s) :
    ∀ r ∈ h, ∀ sur name, r.input = .process sur name →
      Confined schema sur name r.before r.after := by
  intro r hr sur name hinput
  obtain ⟨older, hbefore, hok, hstep⟩ := run.allowed_of_mem r hr
  have hlawful := hok.lawful sur name hinput
  rw [hinput] at hok hstep
  have hstore := run_store hbefore
  refine ⟨?_, ?_, ?_, ?_⟩
  · intro path htouched
    rw [hstep] at htouched
    exact processFile_touched hlawful htouched
  · intro request haccepted
    obtain ⟨hclient, hslash, hnul⟩ := hok.named.response sur name request rfl haccepted
    exact ⟨request.clientId, hclient, resolve_name hclient responsesDir,
      response_inside hclient hslash hnul⟩
  · intro env call hcall place htouches
    exact holds_of_run hstore (hok.named.call env call hcall) (hok.fresh env call hcall) htouches
  · intro env message hcall
    exact directories_held (hok.named.call env (.enqueue message) hcall)

/-- A mailbox in which the client `c` may publish in the queue `q`. -/
def publishing : Surroundings :=
  let payload := "\x7b\"queue\":\"q\"\x7d"
  let table : List (String × Json String) :=
    [("publish", .obj [("requestId", .str "r"), ("clientId", .str "c"),
        ("command", .str "publish"), ("payload", .obj [("queue", .str "q")])]),
      (payload, .obj [("queue", .str "q")])]
  let env : Env := { now := 1000, now_pos := Int.succ_ofNat_pos 999, guid := "a" }
  { quietly table with context := { (quietly table).context with env } }

/-- A message is published on the FileSystem backend. -/
theorem confined_publish :
    let M := host .fileSystem .mainMq
    let sent := M.stepAt M.start (.send "a.json" "publish" 0)
    let r := M.stepAt sent.after (.process publishing "a.json")
    (hostCall? r.before r.input).isSome = true ∧
      Confined .mainMq publishing "a.json" r.before r.after := by
  intro M sent r
  have run : Run M (Orderly .mainMq) [] M.start := .start
  have run := run.stepAt (.send "a.json" "publish" 0) ⟨⟨by rintro _ _ _ ⟨⟩, by rintro _ _ ⟨⟩⟩,
    by rintro _ _ ⟨⟩, by rintro _ _ ⟨⟩⟩
  have hnames : (accepted publishing "a.json" sent.after.mail).all (fun request =>
      decide (IsName request.clientId ∧ '/' ∉ request.requestId.toList ∧
        '\x00' ∉ request.requestId.toList)) = true := by
    decide +kernel
  have hcalls : (hostCall? sent.after (.process publishing "a.json")).all (fun i =>
      decide ((FileSystem.KeepsNames i.2 ∧ FileSystem.Call.NulFree i.2) ∧ i.2.Fresh [])) = true := by
    decide +kernel
  have run := run.stepAt (.process publishing "a.json") ⟨⟨?_, ?_⟩, ?_, ?_⟩
  · exact ⟨by decide +kernel, confined_of_named run r List.mem_cons_self publishing "a.json" rfl⟩
  · rintro _ _ request ⟨⟩ haccepted
    have hall := Option.all_eq_true _ _ |>.mp hnames request haccepted
    exact of_decide_eq_true hall
  · intro env call hcall
    have hall := Option.all_eq_true _ _ |>.mp hcalls (env, call) hcall
    exact (of_decide_eq_true hall).1
  · rintro _ _ ⟨⟩
    exact JsonLibrary.lawful_ofTable (by decide)
  · intro env call hcall
    have hall := Option.all_eq_true _ _ |>.mp hcalls (env, call) hcall
    exact (of_decide_eq_true hall).2

/-- The response to the client `../..` is written above the root of the mailbox. -/
theorem client_escapes :
    let health : Json String := .obj [("requestId", .str "r"), ("clientId", .str "../.."),
      ("command", .str "health")]
    let sur := quietly [("health", health)]
    let M := host .sqlite .mainMq
    let sent := M.stepAt M.start (.send "a.json" "health" 0)
    let r := M.stepAt sent.after (.process sur "a.json")
    (r.after.mail.lookup ["r.json", ".."]).isSome = true ∧
      ¬Confined .mainMq sur "a.json" r.before r.after := by
  intro health sur M sent r
  refine ⟨by decide +kernel, ?_⟩
  intro h
  obtain ⟨request, haccepted⟩ : ∃ request, accepted sur "a.json" r.before.mail = some request :=
    Option.isSome_iff_exists.mp (by decide +kernel)
  have hclient : (accepted sur "a.json" r.before.mail).all (fun request =>
      decide (request.clientId = "../..")) = true := by
    decide +kernel
  obtain ⟨client, -, hplace, -⟩ := h.response request haccepted
  have hall := Option.all_eq_true _ _ |>.mp hclient request haccepted
  rw [of_decide_eq_true hall] at hplace
  have habove : resolve responsesDir "../.." = [".."] := by decide
  rw [habove] at hplace
  cases hplace

end YirangMQ

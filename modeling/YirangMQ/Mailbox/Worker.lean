import YirangMQ.Library.Files
import YirangMQ.Library.Paths
import YirangMQ.Mailbox.Handler

namespace YirangMQ.Mailbox

/-!
# The request worker

One iteration of the request loop: a file is moved to `processing/`, read, handled, answered and
removed, or moved to `dead/` with a reason.  Paths are relative to the root of the mailbox; a NUL
character in the name of a client or a request ends the path of its response.

* `Mail` — the files under the root;
* `moveToProcessing`, `readRequestFile`, `moveToDead`, `writeResponseFile`, `deleteProcessed`;
* `processFile`, `processFiles` — an iteration, and the loop over a list of files; an exception
  that no handler catches ends both;
* `Phase`, `workerStep` — the same, step by step;
* `workerSteps_eq` — an iteration is its steps without an interruption.
-/

/-! ### Files -/

/-- Where the clients put their requests. -/
def requestsDir : Directory := ["requests"]
/-- Where the worker keeps the request it is at. -/
def processingDir : Directory := ["processing"]
/-- Where the clients look for responses. -/
def responsesDir : Directory := ["responses"]
/-- Where unreadable and stale requests end. -/
def deadDir : Directory := ["dead"]

/-- A file.  Request files are numbered in the order in which clients wrote them. -/
structure MailFile where
  content : String
  lastWrite : Int
  request : Option Nat := none
  deriving DecidableEq, Repr

/-- The files of the mailbox. -/
abbrev Mail := Files Directory MailFile

/-- What the backend gives back, for each kind of call. -/
structure Answers where
  status : Status
  lease : LeaseResult
  metrics : QueueMetrics × Option String
  listDlq : List DlqMessageInfo × Option String

/-- What surrounds an iteration; `writable` tells whether the response file can be created. -/
structure Surroundings where
  context : Context
  answers : Answers
  writable : Bool := true

/-- The clock that the handler reads. -/
def Surroundings.now (sur : Surroundings) : Int := sur.context.env.now

/-- The response to a request, once the backend has answered. -/
def Handling.answerWith (answers : Answers) : Handling → MailboxResponse
  | .respond response => response
  | .status _ answer => answer answers.status
  | .lease _ _ _ answer => answer answers.lease
  | .metrics _ answer => answer answers.metrics
  | .listDlq _ _ answer => answer answers.listDlq

/-- `move_to_processing`, which overwrites a file of the same name. -/
def moveToProcessing (name : String) (mail : Mail) : Except String (Unit × Mail) :=
  Files.rename (name :: requestsDir) (name :: processingDir) mail

/-- `read_request_file`, parsing included. -/
def readRequestFile (libs : Libraries) (name : String) (mail : Mail) :
    Except String MailboxRequest :=
  match mail.lookup (name :: processingDir) with
  | none => .error ("cannot open file: ./ipc/processing/" ++ name)
  | some file => parseRequest libs file.content

/-- The document of a reason file. -/
def reasonJson (now : Int) (reason : String) : Json String :=
  .obj [("reason", .str reason), ("movedAt", .int now)]

/-- The path of a reason file. -/
def reasonPath (name : String) : Directory := (name ++ ".reason") :: deadDir

/-- `move_to_dead`: the file is moved first.  The exception of the reason's document escapes, and
    leaves an empty reason file. -/
def moveToDead (libs : Libraries) (now : Int) (name reason : String) (mail : Mail) :
    Except String Unit × Mail :=
  match Files.rename (name :: processingDir) (name :: deadDir) mail with
  | .error _ => (.ok (), mail)
  | .ok ((), mail) =>
    match libs.dump (reasonJson now reason) with
    | .error what => (.error what, mail.insert (reasonPath name) ⟨"", now, none⟩)
    | .ok text => (.ok (), mail.insert (reasonPath name) ⟨text, now, none⟩)

/-- The document of a response file; data that cannot be read are left out. -/
def responseJson (libs : Libraries) (response : MailboxResponse) : Json String :=
  .obj ([("requestId", .str response.requestId), ("ok", .bool response.ok)] ++
    if response.ok then
      match libs.parse response.dataJson with
      | .ok data => [("data", data)]
      | .error _ => [("data", .obj [])]
    else
      [("error", .obj [("code", .str response.errorCode),
        ("message", .str response.errorMessage)])])

/-- The file that is opened under the path of `build_response_path`, which ends at its first NUL
    character.  An absolute name of the file replaces the directory before it. -/
def responsePath (clientId requestId : String) : Directory :=
  if '\x00' ∈ clientId.toList ∧ isAbsolute requestId = false then
    resolve responsesDir (cText clientId)
  else resolve (resolve responsesDir clientId) (cText (requestId ++ ".json"))

/-- The path of the file through which another is written. -/
def tempPath : Directory → Directory
  | [] => [".tmp"]
  | name :: above => (name ++ ".tmp") :: above

/-- The file through which a response is written.  A NUL character ends its path, too. -/
def responseTemp (clientId requestId : String) : Directory :=
  if '\x00' ∈ requestId.toList ∨ '\x00' ∈ clientId.toList ∧ isAbsolute requestId = false then
    responsePath clientId requestId
  else tempPath (responsePath clientId requestId)

/-- The path of a response without a NUL character. -/
theorem responsePath_of_plain {clientId requestId : String} (hclient : '\x00' ∉ clientId.toList)
    (hrequest : '\x00' ∉ requestId.toList) : responsePath clientId requestId =
      resolve (resolve responsesDir clientId) (requestId ++ ".json") := by
  have hfile : '\x00' ∉ (requestId ++ ".json").toList := by
    rw [String.toList_append, List.mem_append]
    exact fun hmem => hmem.elim hrequest (by decide)
  rw [responsePath, if_neg fun h => hclient h.1, cText_of_plain hfile]

/-- Without NUL characters the temporary file is named after the response file. -/
theorem responseTemp_of_plain {clientId requestId : String} (hclient : '\x00' ∉ clientId.toList)
    (hrequest : '\x00' ∉ requestId.toList) :
    responseTemp clientId requestId = tempPath (responsePath clientId requestId) :=
  if_neg fun h => h.elim hrequest fun h => hclient h.1

/-- `write_response_file`, with whether the file was written.  The exception of the document
    escapes. -/
def writeResponseFile (sur : Surroundings) (clientId : String) (response : MailboxResponse)
    (mail : Mail) : Except String Bool × Mail :=
  let libs := sur.context.libs
  match libs.dump (responseJson libs response) with
  | .error what => (.error what, mail)
  | .ok text =>
    if sur.writable then
      let target := responsePath clientId response.requestId
      let temp := responseTemp clientId response.requestId
      let file : MailFile := ⟨text, sur.now, none⟩
      (.ok true, Files.renamed temp target file (mail.insert temp file))
    else (.ok false, mail)

/-- `delete_processed`, whose outcome nobody looks at. -/
def deleteProcessed (name : String) (mail : Mail) : Mail := mail.erase (name :: processingDir)

/-! ### An iteration -/

/-- The request came too late. -/
def MailboxRequest.expired (request : MailboxRequest) (now : Int) : Bool :=
  0 < request.deadlineMs && request.deadlineMs < now

/-- A request is handled, answered and removed. -/
def executeRequest (sur : Surroundings) (name : String) (request : MailboxRequest) (mail : Mail) :
    Except String Unit × Mail :=
  let response := (handleRequest sur.context request).answerWith sur.answers
  match writeResponseFile sur request.clientId response mail with
  | (.error what, mail) => (.error what, mail)
  | (.ok _, mail) => (.ok (), deleteProcessed name mail)

/-- The body of the loop over request files, with the exception that escapes from it. -/
def processFile (sur : Surroundings) (name : String) (mail : Mail) : Except String Unit × Mail :=
  let libs := sur.context.libs
  match moveToProcessing name mail with
  | .error _ => (.ok (), mail)
  | .ok ((), mail) =>
    match readRequestFile libs name mail with
    | .error reason => moveToDead libs sur.now name reason mail
    | .ok request =>
      if request.expired sur.now then moveToDead libs sur.now name "deadline exceeded" mail
      else executeRequest sur name request mail

/-- The same in `process_pending_requests`, which passes over files that are not there. -/
def processPending (sur : Surroundings) (name : String) (mail : Mail) :
    Except String Unit × Mail :=
  if mail.lookup (name :: requestsDir) = none then (.ok (), mail)
  else processFile sur name mail

/-- The loop over the files of a list. -/
def processFiles : List (Surroundings × String) → Mail → Except String Unit × Mail
  | [], mail => (.ok (), mail)
  | (sur, name) :: rest, mail =>
    match processFile sur name mail with
    | (.error what, mail) => (.error what, mail)
    | (.ok (), mail) => processFiles rest mail

/-- Both branches treat a file alike. -/
theorem processPending_eq (sur : Surroundings) (name : String) (mail : Mail) :
    processPending sur name mail = processFile sur name mail := by
  unfold processPending
  split
  case isTrue hnone =>
    rw [processFile, moveToProcessing, Files.rename, hnone]
  case isFalse => rfl

/-! ### Its steps -/

/-- How far the worker is with a file. -/
inductive Stage where
  | moved
  | rejected (reason : String)
  | parsed (request : MailboxRequest)
  | handled (request : MailboxRequest) (response : MailboxResponse)
  | answered

/-- What the worker does; an exception that escapes stops it for good. -/
inductive Phase where
  | idle
  | busy (name : String) (stage : Stage)
  | stopped (what : String)

/-- What comes of reading a file. -/
def readStage (sur : Surroundings) (name : String) (mail : Mail) : Stage :=
  match readRequestFile sur.context.libs name mail with
  | .error reason => .rejected reason
  | .ok request =>
    if request.expired sur.now then .rejected "deadline exceeded" else .parsed request

/-- The worker takes a file from `requests/`. -/
def pick (name : String) (mail : Mail) : Phase × Mail :=
  match moveToProcessing name mail with
  | .error _ => (.idle, mail)
  | .ok ((), mail) => (.busy name .moved, mail)

/-- The next step of a worker with a file. -/
def workerStep (sur : Surroundings) : Phase × Mail → Phase × Mail
  | (.busy name .moved, mail) => (.busy name (readStage sur name mail), mail)
  | (.busy name (.rejected reason), mail) =>
    match moveToDead sur.context.libs sur.now name reason mail with
    | (.error what, mail) => (.stopped what, mail)
    | (.ok (), mail) => (.idle, mail)
  | (.busy name (.parsed request), mail) =>
    (.busy name (.handled request
      ((handleRequest sur.context request).answerWith sur.answers)), mail)
  | (.busy name (.handled request response), mail) =>
    match writeResponseFile sur request.clientId response mail with
    | (.error what, mail) => (.stopped what, mail)
    | (.ok _, mail) => (.busy name .answered, mail)
  | (.busy name .answered, mail) => (.idle, deleteProcessed name mail)
  | (.idle, mail) => (.idle, mail)
  | (.stopped what, mail) => (.stopped what, mail)

/-- Where an iteration leaves the worker. -/
def Phase.after : Except String Unit × Mail → Phase × Mail
  | (.error what, mail) => (.stopped what, mail)
  | (.ok (), mail) => (.idle, mail)

/-- An iteration is its steps, taken without an interruption. -/
theorem workerSteps_eq (sur : Surroundings) (name : String) (mail : Mail) :
    workerStep sur (workerStep sur (workerStep sur (workerStep sur (pick name mail)))) =
      Phase.after (processFile sur name mail) := by
  unfold processFile pick
  cases hmove : moveToProcessing name mail with
  | error e => rfl
  | ok moved =>
    obtain ⟨⟨⟩, moved⟩ := moved
    dsimp only
    rw [workerStep, readStage]
    cases hread : readRequestFile sur.context.libs name moved with
    | error reason =>
      dsimp only
      rw [workerStep]
      rcases moveToDead sur.context.libs sur.now name reason moved with ⟨what | ⟨⟩, mail'⟩
      · rfl
      · rfl
    | ok request =>
      dsimp only
      by_cases hexpired : request.expired sur.now = true
      · rw [if_pos hexpired, if_pos hexpired, workerStep]
        rcases moveToDead sur.context.libs sur.now name "deadline exceeded" moved with
          ⟨what | ⟨⟩, mail'⟩
        · rfl
        · rfl
      · rw [if_neg hexpired, if_neg hexpired, executeRequest, workerStep, workerStep]
        rcases writeResponseFile sur request.clientId _ moved with ⟨what | written, mail'⟩
        · rfl
        · rfl

end YirangMQ.Mailbox

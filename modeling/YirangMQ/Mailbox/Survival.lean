import YirangMQ.Mailbox.Calls
import YirangMQ.Mailbox.Worker

namespace YirangMQ.Mailbox

/-!
# Requests that do not stop the worker

Two documents are written outside all handlers of exceptions: the reason of a dead request and the
response.  Both quote texts from elsewhere, and a text that is not UTF-8 raises an exception that
ends the worker.

* `Quotable` — the error about a text can be written;
* `Sane`, `Speaks` — what every response has, and what makes it writable;
* `Explained` — the texts from elsewhere in the response to a request are UTF-8;
* `speaks_iff` — a response is writable exactly when its request is explained;
* `Survives`, `survives_iff` — **an iteration ends with the request in `dead/` or with a response
  exactly when these texts are UTF-8 and the response file can be written**;
* `one_byte_stops` — a request of one byte that stops the worker.
-/

variable {ctx : Context} {libs : Libraries} {answers : Answers} {request : MailboxRequest}
  {response : MailboxResponse} {handling : Handling}

/-! ### Responses -/

/-- An error about the text can be written to a document. -/
def Quotable (libs : Libraries) (text : String) : Prop :=
  ∀ what, libs.parse text = .error what → IsUtf8 what

/-- What every response of a request has. -/
structure Sane (request : MailboxRequest) (response : MailboxResponse) : Prop where
  requestId : response.requestId = request.requestId
  errorCode : IsUtf8 response.errorCode

/-- The response is a success, or its error is well formed. -/
def Speaks (response : MailboxResponse) : Prop :=
  response.ok = true ∨ IsUtf8 response.errorMessage

/-- An error response answers its request, with the code it is given. -/
theorem sane_error {code : String} (message : String) (hcode : IsUtf8 code) :
    Sane request (buildErrorResponse request.requestId code message) := ⟨rfl, hcode⟩

/-- An error response can be written exactly when its message is UTF-8. -/
theorem speaks_error {code message : String} :
    Speaks (buildErrorResponse request.requestId code message) ↔ IsUtf8 message := by
  rw [Speaks]
  exact or_iff_right Bool.false_ne_true

/-- A success response answers its request. -/
theorem sane_success (data : String) :
    Sane request (buildSuccessResponse request.requestId data) :=
  ⟨rfl, show IsUtf8 "" by decide⟩

/-- A success response has no error to write. -/
theorem speaks_success (data : String) :
    Speaks (buildSuccessResponse request.requestId data) := .inl rfl

/-- A success whose data cannot be written is an error that can. -/
theorem successWith_speaks (hlib : libs.Lawful) (data : Json String) :
    Sane request (successWith libs request data) ∧ Speaks (successWith libs request data) := by
  by_cases hdata : data.WellEncoded
  · obtain ⟨text, hdump⟩ := hlib.written data hdata
    rw [successWith, hdump]
    exact ⟨sane_success text, speaks_success text⟩
  · obtain ⟨what, hdump, hwhat⟩ := hlib.refused data hdata
    rw [successWith, hdump]
    exact ⟨sane_error what (by decide), speaks_error.mpr hwhat⟩

/-- The document of a sane response is written exactly when the response speaks. -/
theorem dump_responseJson_iff (hlib : libs.Lawful) (hid : IsUtf8 request.requestId)
    (hsane : Sane request response) :
    (∃ text, libs.dump (responseJson libs response) = .ok text) ↔ Speaks response := by
  have hencoded : (responseJson libs response).WellEncoded ↔ Speaks response := by
    unfold responseJson
    have hrequest : IsUtf8 response.requestId := hsane.requestId ▸ hid
    have hnames : IsUtf8 "requestId" ∧ IsUtf8 "ok" ∧ IsUtf8 "data" ∧ IsUtf8 "error" ∧
        IsUtf8 "code" ∧ IsUtf8 "message" := by decide
    cases hok : response.ok with
    | true =>
      rw [if_pos rfl, Speaks, hok]
      cases hparse : libs.parse response.dataJson with
      | error what =>
        simp only [List.cons_append, List.nil_append, Json.wellEncoded_cons, Json.wellEncoded_str,
          Json.wellEncoded_bool, Json.wellEncoded_empty, hrequest, hnames, true_and, true_or]
      | ok data =>
        have hdata := hlib.wellEncoded _ _ hparse
        simp only [List.cons_append, List.nil_append, Json.wellEncoded_cons, Json.wellEncoded_str,
          Json.wellEncoded_bool, Json.wellEncoded_empty, hrequest, hdata, hnames, true_and, true_or]
    | false =>
      have hcode := hsane.errorCode
      rw [if_neg Bool.false_ne_true, Speaks, hok, or_iff_right Bool.false_ne_true]
      simp only [List.cons_append, List.nil_append, Json.wellEncoded_cons, Json.wellEncoded_str,
        Json.wellEncoded_bool, Json.wellEncoded_empty, hrequest, hcode, hnames, true_and, and_true]
  rw [← hencoded]
  constructor
  · rintro ⟨text, hdump⟩
    by_contra hnot
    obtain ⟨what, herror, -⟩ := hlib.refused _ hnot
    rw [herror] at hdump
    cases hdump
  · exact hlib.written _

/-! ### Handlers -/

/-- What the backend says of a failure is well formed. -/
def Reported (answers : Answers) : Handling → Prop
  | .respond _ => True
  | .status _ _ => ∀ e, answers.status = .error (some e) → IsUtf8 e
  | .lease _ _ _ _ => answers.lease.leased = false → ∀ e, answers.lease.error = some e → IsUtf8 e
  | .metrics _ _ => ∀ e, answers.metrics.2 = some e → IsUtf8 e
  | .listDlq _ _ _ => ∀ e, answers.listDlq.2 = some e → IsUtf8 e

/-- The response speaks exactly when the backend does. -/
structure Fine (request : MailboxRequest) (answers : Answers) (handling : Handling) : Prop where
  sane : Sane request (handling.answerWith answers)
  speaks : Speaks (handling.answerWith answers) ↔ Reported answers handling

/-- A response that is sane and can be written is a fine handling. -/
theorem fine_respond (h : Sane request response ∧ Speaks response) :
    Fine request answers (.respond response) :=
  ⟨h.1, fun _ => trivial, fun _ => h.2⟩

/-- A handling that asks for a status is fine where both outcomes answer as they should. -/
theorem fine_status {call : Call} {code default : String} {success : MailboxResponse}
    (hcode : IsUtf8 code) (hdefault : IsUtf8 default)
    (hsuccess : Sane request success ∧ Speaks success) :
    Fine request answers (.status call (statusAnswer request code default success)) := by
  have hanswer : ∀ status : Status,
      Sane request (statusAnswer request code default success status) ∧
      (Speaks (statusAnswer request code default success status) ↔
        ∀ e, status = .error (some e) → IsUtf8 e) := by
    intro status
    rcases status with (_ | e) | ⟨⟩
    · refine ⟨sane_error default hcode, ?_⟩
      exact ⟨fun _ e he => (nomatch he), fun _ => speaks_error.mpr hdefault⟩
    · refine ⟨sane_error e hcode, ?_⟩
      rw [statusAnswer, Option.getD_some, speaks_error]
      constructor
      · intro he e' heq
        cases heq
        exact he
      · intro h
        exact h e rfl
    · exact ⟨hsuccess.1, fun _ e he => (nomatch he), fun _ => hsuccess.2⟩
  exact ⟨(hanswer answers.status).1, (hanswer answers.status).2⟩

/-- An answer to what comes with an error of the backend, or without one. -/
theorem speaks_answer {α : Type} {answer : α × Option String → MailboxResponse}
    (herror : ∀ a e, answer (a, some e) =
      buildErrorResponse request.requestId MailboxErrorCode.internalError e)
    (hnone : ∀ a, Sane request (answer (a, none)) ∧ Speaks (answer (a, none)))
    (result : α × Option String) :
    Sane request (answer result) ∧ (Speaks (answer result) ↔ ∀ e, result.2 = some e → IsUtf8 e) := by
  obtain ⟨a, _ | e⟩ := result
  · exact ⟨(hnone a).1, fun _ e he => (nomatch he), fun _ => (hnone a).2⟩
  · rw [herror]
    refine ⟨sane_error e (by decide), ?_⟩
    rw [speaks_error]
    constructor
    · intro he e' heq
      cases heq
      exact he
    · intro h
      exact h e rfl

/-- A handling that asks for metrics is fine where both outcomes answer as they should. -/
theorem fine_metrics {queue : String} {answer : QueueMetrics × Option String → MailboxResponse}
    (herror : ∀ a e, answer (a, some e) =
      buildErrorResponse request.requestId MailboxErrorCode.internalError e)
    (hnone : ∀ a, Sane request (answer (a, none)) ∧ Speaks (answer (a, none))) :
    Fine request answers (.metrics queue answer) :=
  have h := speaks_answer herror hnone answers.metrics
  ⟨h.1, h.2⟩

/-- So is one that asks for the dead letters. -/
theorem fine_listDlq {queue : String} {limit : Int}
    {answer : List DlqMessageInfo × Option String → MailboxResponse}
    (herror : ∀ a e, answer (a, some e) =
      buildErrorResponse request.requestId MailboxErrorCode.internalError e)
    (hnone : ∀ a, Sane request (answer (a, none)) ∧ Speaks (answer (a, none))) :
    Fine request answers (.listDlq queue limit answer) :=
  have h := speaks_answer herror hnone answers.listDlq
  ⟨h.1, h.2⟩

/-- A lease that was granted, or that failed with a text, or without one. -/
theorem fine_lease {queue consumerId : String} {timeout : Int}
    {answer : LeaseResult → MailboxResponse}
    (hleased : ∀ r, r.leased = true → Sane request (answer r) ∧ Speaks (answer r))
    (herror : ∀ r e, r.leased = false → r.error = some e →
      answer r = buildErrorResponse request.requestId MailboxErrorCode.internalError e)
    (hnone : ∀ r, r.leased = false → r.error = none → Sane request (answer r) ∧ Speaks (answer r)) :
    Fine request answers (.lease queue consumerId timeout answer) := by
  have hfine : ∀ r : LeaseResult, Sane request (answer r) ∧ (Speaks (answer r) ↔
      (r.leased = false → ∀ e, r.error = some e → IsUtf8 e)) := by
    intro r
    cases hr : r.leased with
    | true =>
      have h := hleased r hr
      exact ⟨h.1, fun _ hfalse => (nomatch hfalse), fun _ => h.2⟩
    | false =>
      cases hr' : r.error with
      | none =>
        have h := hnone r hr hr'
        exact ⟨h.1, fun _ _ e he => (nomatch he), fun _ => h.2⟩
      | some e =>
        rw [herror r e hr hr']
        refine ⟨sane_error e (by decide), ?_⟩
        rw [speaks_error]
        constructor
        · intro he _ e' heq
          cases heq
          exact he
        · intro h
          exact h rfl e rfl
  exact ⟨(hfine answers.lease).1, (hfine answers.lease).2⟩

/-- A handling whose exception is caught is fine, for the texts of exceptions are UTF-8. -/
theorem fine_caught {x : Except String Handling} (herror : ∀ what, x = .error what → IsUtf8 what)
    (hok : ∀ handling, x = .ok handling → Fine request answers handling) :
    Fine request answers (.caught request x) := by
  cases x with
  | error what => exact fine_respond ⟨sane_error what (by decide), speaks_error.mpr (herror what rfl)⟩
  | ok handling => exact hok handling rfl

/-- The errors of a computation in two parts. -/
theorem error_of_bind {α β : Type} {x : Except String α} {f : α → Except String β} {what : String}
    (h : (x >>= f) = .error what) : x = .error what ∨ ∃ a, x = .ok a ∧ f a = .error what := by
  cases x with
  | error e =>
    have hsame : e = what := Except.error.inj h
    exact .inl (by rw [hsame])
  | ok a => exact .inr ⟨a, rfl, h⟩

section Bodies

variable {field : String} {body : Json String → String → Except String Handling}

/-- A handler whose payload can be read or refused well. -/
theorem fine_withField (hfield : IsUtf8 ("missing " ++ field ++ " in payload"))
    (hquote : Quotable ctx.libs request.payloadJson)
    (hbody : ∀ payload value, ctx.libs.parse request.payloadJson = .ok payload →
      payload.getStr? field = some value →
      (∀ what, body payload value = .error what → IsUtf8 what) ∧
      ∀ handling, body payload value = .ok handling → Fine request answers handling) :
    Fine request answers (withField ctx request field body) := by
  unfold withField
  cases hparse : ctx.libs.parse request.payloadJson with
  | error what =>
    exact fine_respond ⟨sane_error what (by decide), speaks_error.mpr (hquote what hparse)⟩
  | ok payload =>
    have hbind : ∀ f : Json String → Except String Handling,
        (Except.ok payload >>= f) = f payload := fun _ => rfl
    rw [hbind]
    cases hget : payload.getStr? field with
    | none => exact fine_respond ⟨sane_error _ (by decide), speaks_error.mpr hfield⟩
    | some value =>
      have h := hbody payload value hparse hget
      exact fine_caught h.1 h.2

/-- A handler whose payload cannot be refused well. -/
theorem not_speaks_withField (hquote : ¬Quotable ctx.libs request.payloadJson) :
    Sane request ((withField ctx request field body).answerWith answers) ∧
      ¬Speaks ((withField ctx request field body).answerWith answers) := by
  obtain ⟨what, hwhat⟩ := not_forall.mp hquote
  obtain ⟨hparse, hwhat⟩ := Classical.not_imp.mp hwhat
  have hrespond : withField ctx request field body = .respond
      (buildErrorResponse request.requestId MailboxErrorCode.parseError what) := by
    unfold withField
    rw [hparse]
    rfl
  rw [hrespond]
  exact ⟨sane_error what (by decide), mt speaks_error.mp hwhat⟩

end Bodies

/-- The errors of a message under its schema, when there are any, are well formed. -/
def Validated (ctx : Context) (request : MailboxRequest) : Prop :=
  ∀ payload queue envelope result, ctx.libs.parse request.payloadJson = .ok payload →
    payload.getStr? "queue" = some queue → publishedEnvelope ctx payload queue = .ok envelope →
    publishErrors ctx envelope = .ok result → result.valid = false →
    IsUtf8 ("; ".intercalate result.errors)

section Lawful

variable (hlib : ctx.libs.Lawful)

/-- The error about a document that cannot be written names one byte. -/
theorem dump_error {libs : Libraries} (hlib : libs.Lawful) {value : Json String} {what : String}
    (herror : libs.dump value = .error what) : IsUtf8 what := by
  by_cases hvalue : value.WellEncoded
  · obtain ⟨text, hok⟩ := hlib.written value hvalue
    rw [hok] at herror
    cases herror
  · obtain ⟨text, hrefused, htext⟩ := hlib.refused value hvalue
    rw [hrefused] at herror
    exact Except.error.inj herror ▸ htext

/-- Only the writing of a field for a custom validator fails. -/
theorem validate_error {libs : Libraries} (hlib : libs.Lawful) {payload : Json String}
    {rule : ValidationRule} {what : String} (h : rule.validate libs payload = .error what) :
    IsUtf8 what := by
  unfold ValidationRule.validate at h
  dsimp only at h
  cases htype : rule.type with
  | pattern =>
    rw [htype] at h
    dsimp only at h
    split at h
    case h_1 => split at h <;> cases h
    case h_2 => cases h
  | custom =>
    rw [htype] at h
    dsimp only at h
    split at h
    case h_1 =>
      rcases error_of_bind h with herror | ⟨text, -, hrest⟩
      · exact dump_error hlib herror
      · cases hrest
    case h_2 => cases h
  | _ => rw [htype] at h; cases h

/-- A rule that cannot be checked says so in UTF-8. -/
theorem ruleErrors_error {libs : Libraries} (hlib : libs.Lawful) {payload : Json String}
    {rules : List ValidationRule} {what : String}
    (h : MessageValidator.ruleErrors libs payload rules = .error what) : IsUtf8 what := by
  induction rules with
  | nil => cases h
  | cons rule rules ih =>
    rw [MessageValidator.ruleErrors] at h
    rcases error_of_bind h with herror | ⟨error, -, hrest⟩
    · exact validate_error hlib herror
    · rcases error_of_bind hrest with herror | ⟨errors, -, hdone⟩
      · exact ih herror
      · cases hdone

include hlib in
/-- So does a payload that cannot be read. -/
theorem publishErrors_error {envelope : MessageEnvelope} {what : String}
    (h : publishErrors ctx envelope = .error what) : IsUtf8 what := by
  unfold publishErrors at h
  split at h
  case isFalse => cases h
  case isTrue =>
    rw [MessageValidator.validate, MessageValidator.validateJson] at h
    split at h
    case h_1 => cases h
    case h_2 =>
      split at h
      case h_1 => cases h
      case h_2 =>
        rcases error_of_bind h with herror | ⟨errors, -, hdone⟩
        · exact ruleErrors_error hlib herror
        · cases hdone

include hlib in
/-- So does a publication that cannot be put together. -/
theorem publishedEnvelope_error {payload : Json String} {queue what : String}
    (h : publishedEnvelope ctx payload queue = .error what) : IsUtf8 what := by
  unfold publishedEnvelope at h
  rcases error_of_bind h with herror | ⟨payloadJson, -, h⟩
  · exact hlib.valueStr_error herror
  rcases error_of_bind h with herror | ⟨attributesJson, -, h⟩
  · exact hlib.valueStr_error herror
  rcases error_of_bind h with herror | ⟨priority, -, h⟩
  · exact hlib.valueInt32_error herror
  rcases error_of_bind h with herror | ⟨target, -, h⟩
  · exact hlib.valueStr_error herror
  rcases error_of_bind h with herror | ⟨delayMs, -, h⟩
  · exact hlib.valueInt_error herror
  · cases h

include hlib in
/-- So does a token that cannot be read. -/
theorem leaseToken_error {payload : Json String} {key what : String}
    (h : leaseToken ctx request payload key = .error what) : IsUtf8 what := by
  unfold leaseToken at h
  rcases error_of_bind h with herror | ⟨leaseId, -, h⟩
  · exact hlib.valueStr_error herror
  rcases error_of_bind h with herror | ⟨consumerId, -, h⟩
  · exact hlib.valueStr_error herror
  · cases h

end Lawful

section Commands

variable (hlib : ctx.libs.Lawful) (hquote : Quotable ctx.libs request.payloadJson)

include hlib hquote

/-- `consume_next` is handled finely. -/
theorem fine_consumeNext : Fine request answers (handleConsumeNext ctx request) := by
  apply fine_withField (by decide) hquote
  intro payload queue _ _
  constructor
  · intro what h
    rcases error_of_bind h with herror | ⟨consumerId, -, h⟩
    · exact hlib.valueStr_error herror
    rcases error_of_bind h with herror | ⟨timeout, -, h⟩
    · exact hlib.valueInt32_error herror
    · cases h
  · intro handling h
    obtain ⟨consumerId, -, h⟩ := ok_of_bind h
    obtain ⟨timeout, -, h⟩ := ok_of_bind h
    obtain rfl := Except.ok.inj h
    apply fine_lease
    · intro r hr
      rw [if_pos hr]
      exact successWith_speaks hlib _
    · intro r e hr he
      rw [if_neg (Bool.eq_false_iff.mp hr), he]
    · intro r hr hnone
      rw [if_neg (Bool.eq_false_iff.mp hr), hnone]
      exact successWith_speaks hlib _

/-- So is `ack`. -/
theorem fine_ack : Fine request answers (handleAck ctx request) := by
  apply fine_withField (by decide) hquote
  intro payload key _ _
  constructor
  · intro what h
    rcases error_of_bind h with herror | ⟨lease, -, h⟩
    · exact leaseToken_error hlib herror
    · cases h
  · intro handling h
    obtain ⟨lease, -, h⟩ := ok_of_bind h
    obtain rfl := Except.ok.inj h
    exact fine_status (by decide) (by decide) ⟨sane_success _, speaks_success _⟩

/-- So is `nack`. -/
theorem fine_nack : Fine request answers (handleNack ctx request) := by
  apply fine_withField (by decide) hquote
  intro payload key _ _
  constructor
  · intro what h
    rcases error_of_bind h with herror | ⟨lease, -, h⟩
    · exact leaseToken_error hlib herror
    rcases error_of_bind h with herror | ⟨reason, -, h⟩
    · exact hlib.valueStr_error herror
    rcases error_of_bind h with herror | ⟨requeue, -, h⟩
    · exact hlib.valueBool_error herror
    · cases h
  · intro handling h
    obtain ⟨lease, -, h⟩ := ok_of_bind h
    obtain ⟨reason, -, h⟩ := ok_of_bind h
    obtain ⟨requeue, -, h⟩ := ok_of_bind h
    obtain rfl := Except.ok.inj h
    exact fine_status (by decide) (by decide) ⟨sane_success _, speaks_success _⟩

/-- So is `extend_lease`. -/
theorem fine_extendLease : Fine request answers (handleExtendLease ctx request) := by
  apply fine_withField (by decide) hquote
  intro payload key _ _
  constructor
  · intro what h
    rcases error_of_bind h with herror | ⟨lease, -, h⟩
    · exact leaseToken_error hlib herror
    rcases error_of_bind h with herror | ⟨timeout, -, h⟩
    · exact hlib.valueInt32_error herror
    · cases h
  · intro handling h
    obtain ⟨lease, -, h⟩ := ok_of_bind h
    obtain ⟨timeout, -, h⟩ := ok_of_bind h
    obtain rfl := Except.ok.inj h
    exact fine_status (by decide) (by decide) ⟨sane_success _, speaks_success _⟩

/-- So is `status`. -/
theorem fine_queueStatus : Fine request answers (handleStatus ctx request) := by
  apply fine_withField (by decide) hquote
  intro payload queue _ _
  constructor
  · intro what h
    cases h
  · intro handling h
    obtain rfl := Except.ok.inj h
    apply fine_metrics
    · exact fun _ _ => rfl
    · exact fun _ => successWith_speaks hlib _

/-- So is `list_dlq`. -/
theorem fine_dlqListing : Fine request answers (handleListDlq ctx request) := by
  apply fine_withField (by decide) hquote
  intro payload queue _ _
  constructor
  · intro what h
    rcases error_of_bind h with herror | ⟨limit, -, h⟩
    · exact hlib.valueInt32_error herror
    · cases h
  · intro handling h
    obtain ⟨limit, -, h⟩ := ok_of_bind h
    obtain rfl := Except.ok.inj h
    apply fine_listDlq
    · exact fun _ _ => rfl
    · exact fun _ => successWith_speaks hlib _

/-- So is `reprocess_dlq`. -/
theorem fine_reprocessDlq : Fine request answers (handleReprocessDlq ctx request) := by
  apply fine_withField (by decide) hquote
  intro payload key _ _
  constructor
  · intro what h
    cases h
  · intro handling h
    obtain rfl := Except.ok.inj h
    exact fine_status (by decide) (by decide) (successWith_speaks hlib _)

/-- A publish request speaks when its validation and the backend do. -/
theorem speaks_publish :
    Sane request ((handlePublish ctx request).answerWith answers) ∧
    (Speaks ((handlePublish ctx request).answerWith answers) ↔
      Validated ctx request ∧ Reported answers (handlePublish ctx request)) := by
  by_cases hvalid : Validated ctx request
  · have hfine : Fine request answers (handlePublish ctx request) := by
      apply fine_withField (by decide) hquote
      intro payload queue hparse hqueue
      constructor
      · intro what h
        rcases error_of_bind h with herror | ⟨envelope, -, h⟩
        · exact publishedEnvelope_error hlib herror
        rcases error_of_bind h with herror | ⟨validation, -, h⟩
        · exact publishErrors_error hlib herror
        split at h
        · cases h
        · cases h
      · intro handling h
        obtain ⟨envelope, henvelope, h⟩ := ok_of_bind h
        obtain ⟨validation, hvalidation, h⟩ := ok_of_bind h
        cases hok : validation.valid with
        | false =>
          rw [hok, if_pos (by decide)] at h
          obtain rfl := Except.ok.inj h
          have herrors := hvalid payload queue envelope validation hparse hqueue henvelope
            hvalidation hok
          exact fine_respond ⟨sane_error _ (by decide), speaks_error.mpr herrors⟩
        | true =>
          rw [hok, if_neg (by decide)] at h
          obtain rfl := Except.ok.inj h
          exact fine_status (by decide) (by decide) (successWith_speaks hlib _)
    rw [and_iff_right hvalid]
    exact ⟨hfine.sane, hfine.speaks⟩
  · -- the errors of the message are the text of the response
    have hresponse : ∃ text, handlePublish ctx request = .respond (buildErrorResponse
        request.requestId MailboxErrorCode.validationFailed text) ∧ ¬IsUtf8 text := by
      unfold Validated at hvalid
      simp only [not_forall] at hvalid
      obtain ⟨payload, queue, envelope, result, hparse, hqueue, henvelope, hresult, hfail, htext⟩ :=
        hvalid
      refine ⟨_, ?_, htext⟩
      unfold handlePublish withField
      simp only [hparse, hqueue, henvelope, hresult, hfail, bind, Except.bind]
      rfl
    obtain ⟨text, hrespond, htext⟩ := hresponse
    rw [hrespond]
    refine ⟨sane_error text (by decide), ?_⟩
    constructor
    · intro hspeaks
      exact absurd (speaks_error.mp hspeaks) htext
    · intro hboth
      exact absurd hboth.1 hvalid

end Commands

/-- The command reads its payload. -/
def MailboxCommand.readsPayload : MailboxCommand → Bool
  | .health | .metrics | .unknown => false
  | _ => true

/-- The texts from elsewhere in the response to a request are well formed: those of the library
    about its payload, those of the validation, and those of the backend. -/
structure Explained (ctx : Context) (answers : Answers) (request : MailboxRequest) : Prop where
  payload : request.command.readsPayload = true → Quotable ctx.libs request.payloadJson
  validation : request.command = .publish → Validated ctx request
  backend : Reported answers (handleRequest ctx request)

/-- The request is answered as it should be, and its response can be written exactly when it is
    explained. -/
def Judges (ctx : Context) (answers : Answers) (request : MailboxRequest) : Prop :=
  Sane request ((handleRequest ctx request).answerWith answers) ∧
    (Speaks ((handleRequest ctx request).answerWith answers) ↔ Explained ctx answers request)

/-- A request that is answered without its payload and without the backend is explained. -/
theorem judges_of_silent {response : MailboxResponse}
    (hhandle : handleRequest ctx request = .respond response)
    (hreads : request.command.readsPayload = false)
    (h : Sane request response ∧ Speaks response) : Judges ctx answers request := by
  have hpublish : request.command ≠ .publish := by
    intro heq
    rw [heq] at hreads
    cases hreads
  have hexplained : Explained ctx answers request := by
    refine ⟨fun hread => ?_, fun heq => absurd heq hpublish, ?_⟩
    · rw [hreads] at hread
      cases hread
    · rw [hhandle]
      trivial
  rw [Judges, hhandle]
  exact ⟨h.1, fun _ => hexplained, fun _ => h.2⟩

/-- A request that is handled finely once its payload is read is explained by that and by the
    backend. -/
theorem judges_of_reading {field : String}
    {body : Json String → String → Except String Handling}
    (hhandle : handleRequest ctx request = withField ctx request field body)
    (hreads : request.command.readsPayload = true) (hpublish : request.command ≠ .publish)
    (hfine : Quotable ctx.libs request.payloadJson →
      Fine request answers (withField ctx request field body)) : Judges ctx answers request := by
  by_cases hquote : Quotable ctx.libs request.payloadJson
  · have h := hfine hquote
    rw [← hhandle] at h
    refine ⟨h.sane, h.speaks.trans ?_⟩
    exact ⟨fun hback => ⟨fun _ => hquote, fun heq => absurd heq hpublish, hback⟩,
      fun hexplained => hexplained.backend⟩
  · have h := @not_speaks_withField ctx answers request field body hquote
    rw [← hhandle] at h
    exact ⟨h.1, fun hspeaks => absurd hspeaks h.2,
      fun hexplained => absurd (hexplained.payload hreads) hquote⟩

/-- A publication is explained by its validation as well. -/
theorem judges_publish (hlib : ctx.libs.Lawful) (hcommand : request.command = .publish) :
    Judges ctx answers request := by
  have hhandle : handleRequest ctx request = handlePublish ctx request := by
    rw [handleRequest, hcommand]
  rw [Judges, hhandle]
  by_cases hquote : Quotable ctx.libs request.payloadJson
  · have h := @speaks_publish ctx answers request hlib hquote
    refine ⟨h.1, h.2.trans ?_⟩
    constructor
    · intro hboth
      exact ⟨fun _ => hquote, fun _ => hboth.1, hhandle ▸ hboth.2⟩
    · intro hexplained
      exact ⟨hexplained.validation hcommand, hhandle ▸ hexplained.backend⟩
  · have h : Sane request ((handlePublish ctx request).answerWith answers) ∧
        ¬Speaks ((handlePublish ctx request).answerWith answers) := not_speaks_withField hquote
    exact ⟨h.1, fun hspeaks => absurd hspeaks h.2,
      fun hexplained => absurd (hexplained.payload (by rw [hcommand]; rfl)) hquote⟩

/-- A response can be written exactly when its request is explained. -/
theorem speaks_iff (hlib : ctx.libs.Lawful) :
    Sane request ((handleRequest ctx request).answerWith answers) ∧
    (Speaks ((handleRequest ctx request).answerWith answers) ↔ Explained ctx answers request) := by
  show Judges ctx answers request
  cases hcommand : request.command with
  | publish => exact judges_publish hlib hcommand
  | consumeNext =>
    exact judges_of_reading (by rw [handleRequest, hcommand]; rfl) (by rw [hcommand]; rfl)
      (by rw [hcommand]; decide) (fine_consumeNext hlib)
  | ack =>
    exact judges_of_reading (by rw [handleRequest, hcommand]; rfl) (by rw [hcommand]; rfl)
      (by rw [hcommand]; decide) (fine_ack hlib)
  | nack =>
    exact judges_of_reading (by rw [handleRequest, hcommand]; rfl) (by rw [hcommand]; rfl)
      (by rw [hcommand]; decide) (fine_nack hlib)
  | extendLease =>
    exact judges_of_reading (by rw [handleRequest, hcommand]; rfl) (by rw [hcommand]; rfl)
      (by rw [hcommand]; decide) (fine_extendLease hlib)
  | status =>
    exact judges_of_reading (by rw [handleRequest, hcommand]; rfl) (by rw [hcommand]; rfl)
      (by rw [hcommand]; decide) (fine_queueStatus hlib)
  | listDlq =>
    exact judges_of_reading (by rw [handleRequest, hcommand]; rfl) (by rw [hcommand]; rfl)
      (by rw [hcommand]; decide) (fine_dlqListing hlib)
  | reprocessDlq =>
    exact judges_of_reading (by rw [handleRequest, hcommand]; rfl) (by rw [hcommand]; rfl)
      (by rw [hcommand]; decide) (fine_reprocessDlq hlib)
  | health =>
    exact judges_of_silent (by rw [handleRequest, hcommand]; rfl) (by rw [hcommand]; rfl)
      (successWith_speaks hlib _)
  | metrics =>
    exact judges_of_silent (by rw [handleRequest, hcommand]; rfl) (by rw [hcommand]; rfl)
      (successWith_speaks hlib _)
  | unknown =>
    exact judges_of_silent (by rw [handleRequest, hcommand]) (by rw [hcommand]; rfl)
      ⟨sane_error _ (by decide), speaks_error.mpr (by decide)⟩

/-! ### Requests -/

/-- The requests of files have well formed identifiers. -/
theorem requestId_utf8 (hlib : libs.Lawful) {content : String}
    (h : parseRequest libs content = .ok request) : IsUtf8 request.requestId := by
  unfold parseRequest at h
  cases hparse : libs.parse content with
  | error what => simp [hparse] at h
  | ok j =>
    rw [hparse] at h
    dsimp only at h
    split at h
    case h_1 => cases h
    case h_2 requestId hid =>
      split at h
      case h_1 => cases h
      case h_2 clientId hclient =>
        split at h
        case h_1 => cases h
        case h_2 command hcommand =>
          split at h
          case h_1 => cases h
          case h_2 hfields =>
            obtain rfl := Except.ok.inj h
            obtain ⟨timestamp, -, hfields⟩ := ok_of_bind hfields
            obtain ⟨deadline, -, hfields⟩ := ok_of_bind hfields
            obtain ⟨payload, -, hfields⟩ := ok_of_bind hfields
            obtain rfl := Except.ok.inj hfields
            exact (hlib.wellEncoded _ _ hparse).getStr? hid

/-- There is no error about the text of a request. -/
theorem quotable_of_parse {content : String} (h : parseRequest libs content = .ok request) :
    Quotable libs content := by
  intro what herror
  rw [parseRequest, herror] at h
  cases h

/-- The reason why a file is no request is well formed exactly when the library's is. -/
theorem reason_utf8_iff (hlib : libs.Lawful) {content reason : String}
    (h : parseRequest libs content = .error reason) : IsUtf8 reason ↔ Quotable libs content := by
  unfold parseRequest at h
  -- Only the text of the library can be no UTF-8: the others are the code's own.
  cases hparse : libs.parse content with
  | error what =>
    rw [hparse] at h
    obtain rfl := Except.error.inj h
    rw [isUtf8_append (by decide), Quotable, hparse]
    constructor
    · intro hwhat what' heq
      cases heq
      exact hwhat
    · intro hquote
      exact hquote what rfl
  | ok j =>
    -- A document was parsed, so nothing of the content is quoted.
    have hquote : Quotable libs content := by
      intro what herror
      rw [hparse] at herror
      cases herror
    refine iff_of_true ?_ hquote
    rw [hparse] at h
    dsimp only at h
    split at h
    case h_1 =>
      obtain rfl := Except.error.inj h
      decide
    case h_2 =>
      split at h
      case h_1 =>
        obtain rfl := Except.error.inj h
        decide
      case h_2 =>
        split at h
        case h_1 =>
          obtain rfl := Except.error.inj h
          decide
        case h_2 =>
          split at h
          case h_2 => cases h
          case h_1 what hfields =>
            obtain rfl := Except.error.inj h
            rw [isUtf8_append (by decide)]
            -- The three fields that can fail, in the order in which they are read.
            rcases error_of_bind hfields with herror | ⟨timestamp, -, hfields⟩
            · exact hlib.valueInt_error herror
            rcases error_of_bind hfields with herror | ⟨deadline, -, hfields⟩
            · exact hlib.valueInt_error herror
            rcases error_of_bind hfields with herror | ⟨payload, -, hfields⟩
            · unfold requestPayload at herror
              split at herror
              case h_1 => exact dump_error hlib herror
              case h_2 => cases herror
            · cases hfields

/-! ### Iterations -/

section Iteration

variable {sur : Surroundings} {name : String} {mail : Mail} {file : MailFile}

/-- The request of a text that is to be executed, or the reason why there is none. -/
def judged (sur : Surroundings) (content : String) : Except String MailboxRequest :=
  match parseRequest sur.context.libs content with
  | .error reason => .error reason
  | .ok request => if request.expired sur.now then .error "deadline exceeded" else .ok request

/-- The file is in `dead/`, and the reason beside it. -/
def DeadLettered (sur : Surroundings) (name : String) (file : MailFile) (reason : String)
    (mail : Mail) : Prop :=
  mail.lookup (name :: deadDir) = some file ∧
  ∃ text, sur.context.libs.dump (reasonJson sur.now reason) = .ok text ∧
    mail.lookup (reasonPath name) = some ⟨text, sur.now, none⟩

/-- The response to a request could be created, and is in its place. -/
def Answered (sur : Surroundings) (request : MailboxRequest) (mail : Mail) : Prop :=
  sur.writable = true ∧
  ∃ text, sur.context.libs.dump (responseJson sur.context.libs
      ((handleRequest sur.context request).answerWith sur.answers)) = .ok text ∧
    mail.lookup (responsePath request.clientId request.requestId) = some ⟨text, sur.now, none⟩

/-- No exception escapes from the iteration, the next request is processed after it, and the file
    is in `dead/` with its reason, or answered. -/
structure Survives (sur : Surroundings) (name : String) (file : MailFile) (mail : Mail) : Prop where
  returns : (processFile sur name mail).1 = .ok ()
  next : ∀ rest, processFiles ((sur, name) :: rest) mail =
    processFiles rest (processFile sur name mail).2
  dead : ∀ reason, judged sur file.content = .error reason →
    DeadLettered sur name file reason (processFile sur name mail).2
  answered : ∀ request, judged sur file.content = .ok request →
    Answered sur request (processFile sur name mail).2

/-- The texts that come into the reason or the response are well formed, and the response file can
    be created elsewhere than at the path of the request. -/
structure Harmless (sur : Surroundings) (name content : String) : Prop where
  text : Quotable sur.context.libs content
  request : ∀ request, judged sur content = .ok request →
    Explained sur.context sur.answers request ∧ sur.writable = true ∧
      responsePath request.clientId request.requestId ≠ name :: processingDir

/-- The file of the reason is not the buried file. -/
theorem reasonPath_ne (name : String) : reasonPath name ≠ name :: deadDir := by
  intro h
  have hname := congrArg (fun path : Directory => (path.headD "").length) h
  simp [reasonPath, String.length_append] at hname

/-- A file is moved to `dead/` without an exception exactly when its reason is well formed. -/
theorem moveToDead_spec (hlib : libs.Lawful) (now : Int) {reason : String}
    (hfile : mail.lookup (name :: processingDir) = some file) :
    (IsUtf8 reason → ∃ text mail', libs.dump (reasonJson now reason) = .ok text ∧
      moveToDead libs now name reason mail = (.ok (), mail') ∧
      mail'.lookup (name :: deadDir) = some file ∧
      mail'.lookup (reasonPath name) = some ⟨text, now, none⟩) ∧
    (¬IsUtf8 reason → (moveToDead libs now name reason mail).1 ≠ .ok ()) := by
  have hmove : Files.rename (name :: processingDir) (name :: deadDir) mail =
      .ok ((), Files.renamed (name :: processingDir) (name :: deadDir) file mail) := by
    rw [Files.rename, hfile]
  have hencoded : (reasonJson now reason).WellEncoded ↔ IsUtf8 reason := by
    have hnames : IsUtf8 "reason" ∧ IsUtf8 "movedAt" := by decide
    simp only [reasonJson, Json.wellEncoded_cons, Json.wellEncoded_str, Json.wellEncoded_int,
      Json.wellEncoded_empty, hnames, true_and, and_true]
  rw [moveToDead, hmove]
  dsimp only
  constructor
  · intro hreason
    obtain ⟨text, hdump⟩ := hlib.written _ (hencoded.mpr hreason)
    rw [hdump]
    refine ⟨text, _, rfl, rfl, ?_, ?_⟩
    · rw [Files.lookup_insert', if_neg (Ne.symm (reasonPath_ne name)), Files.lookup_renamed,
        if_pos rfl]
    · rw [Files.lookup_insert', if_pos rfl]
  · intro hreason
    obtain ⟨what, hdump, -⟩ := hlib.refused _ (mt hencoded.mp hreason)
    rw [hdump]
    show Except.error what ≠ Except.ok ()
    simp

/-- An iteration that returns is followed by the next one. -/
theorem processFiles_next (hok : (processFile sur name mail).1 = .ok ())
    (rest : List (Surroundings × String)) :
    processFiles ((sur, name) :: rest) mail = processFiles rest (processFile sur name mail).2 := by
  rw [processFiles]
  generalize processFile sur name mail = result at hok
  obtain ⟨_, mail'⟩ := result
  cases hok
  rfl

/-- The iteration of a file that is there, after it has been moved. -/
theorem processFile_moved (hfile : mail.lookup (name :: requestsDir) = some file) :
    (∀ reason, judged sur file.content = .error reason → processFile sur name mail =
      moveToDead sur.context.libs sur.now name reason
        (Files.renamed (name :: requestsDir) (name :: processingDir) file mail)) ∧
    ∀ request, judged sur file.content = .ok request → processFile sur name mail =
      executeRequest sur name request
        (Files.renamed (name :: requestsDir) (name :: processingDir) file mail) := by
  have hmove : moveToProcessing name mail =
      .ok ((), Files.renamed (name :: requestsDir) (name :: processingDir) file mail) := by
    rw [moveToProcessing, Files.rename, hfile]
  have hmoved : (Files.renamed (name :: requestsDir) (name :: processingDir) file mail).lookup
      (name :: processingDir) = some file := by
    rw [Files.lookup_renamed, if_pos rfl]
  constructor
  · intro reason hjudged
    rw [processFile, hmove]
    dsimp only
    rw [readRequestFile, hmoved]
    -- A request that is rejected was refused by the parser or has expired.
    dsimp only
    unfold judged at hjudged
    cases hparse : parseRequest sur.context.libs file.content with
    | error what =>
      rw [hparse] at hjudged
      rw [Except.error.inj hjudged]
    | ok request =>
      rw [hparse] at hjudged
      dsimp only at hjudged ⊢
      split at hjudged
      case isTrue hexpired =>
        rw [if_pos hexpired, ← Except.error.inj hjudged]
      case isFalse => cases hjudged
  · intro request hjudged
    rw [processFile, hmove]
    dsimp only
    rw [readRequestFile, hmoved]
    dsimp only
    -- One that is executed was parsed and has not.
    unfold judged at hjudged
    cases hparse : parseRequest sur.context.libs file.content with
    | error what =>
      rw [hparse] at hjudged
      cases hjudged
    | ok request' =>
      rw [hparse] at hjudged
      dsimp only at hjudged ⊢
      split at hjudged
      case isTrue => cases hjudged
      case isFalse hexpired =>
        rw [if_neg hexpired, Except.ok.inj hjudged]

/-- **A waiting file is moved and then judged:** buried with the reason, or carried out. -/
theorem processFile_eq (hfile : mail.lookup (name :: requestsDir) = some file) :
    ∃ moved : Mail, moved.lookup (name :: processingDir) = some file ∧
      (∀ reason, judged sur file.content = .error reason → processFile sur name mail =
        moveToDead sur.context.libs sur.now name reason moved) ∧
      ∀ request, judged sur file.content = .ok request →
        processFile sur name mail = executeRequest sur name request moved := by
  refine ⟨Files.renamed (name :: requestsDir) (name :: processingDir) file mail, ?_,
    processFile_moved hfile⟩
  rw [Files.lookup_renamed, if_pos rfl]

/-- The reason of a text that is not executed. -/
theorem judged_reason_iff (hlib : sur.context.libs.Lawful) {content reason : String}
    (h : judged sur content = .error reason) :
    IsUtf8 reason ↔ Quotable sur.context.libs content := by
  unfold judged at h
  cases hparse : parseRequest sur.context.libs content with
  | error what =>
    rw [hparse] at h
    rw [← Except.error.inj h]
    exact reason_utf8_iff hlib hparse
  | ok request =>
    rw [hparse] at h
    dsimp only at h
    split at h
    case isFalse => cases h
    case isTrue =>
      rw [← Except.error.inj h]
      exact iff_of_true (by decide) (quotable_of_parse hparse)

/-- A request is answered, and no exception escapes, exactly when it is explained and the response
    file can be created. -/
theorem executeRequest_spec (hlib : sur.context.libs.Lawful) (moved : Mail)
    (hid : IsUtf8 request.requestId) :
    ((executeRequest sur name request moved).1 = .ok () ∧
      Answered sur request (executeRequest sur name request moved).2) ↔
    Explained sur.context sur.answers request ∧ sur.writable = true ∧
      responsePath request.clientId request.requestId ≠ name :: processingDir := by
  obtain ⟨hsane, hspeaks⟩ := @speaks_iff sur.context sur.answers request hlib
  rw [← hspeaks, ← dump_responseJson_iff hlib hid hsane]
  unfold executeRequest writeResponseFile
  dsimp only
  -- The response can be written as a text or not.
  cases hdump : sur.context.libs.dump (responseJson sur.context.libs
      ((handleRequest sur.context request).answerWith sur.answers)) with
  | error what =>
    constructor
    · intro h
      exact nomatch h.1
    · intro h
      obtain ⟨text, htext⟩ := h.1
      exact nomatch htext
  | ok text =>
    -- The file can be created or not.
    cases hwritable : sur.writable with
    | false =>
      constructor
      · intro h
        exact nomatch hwritable.symm.trans h.2.1
      · intro h
        exact nomatch h.2.1
    | true =>
      dsimp only
      rw [if_pos rfl, hsane.requestId]
      dsimp only
      -- What is left at the path of the response: the text, unless that was the path of the
      -- request.
      have hleft : ∀ temp target, (deleteProcessed name (Files.renamed temp target
          ⟨text, sur.now, none⟩ (moved.insert temp ⟨text, sur.now, none⟩))).lookup
            target = if target = name :: processingDir then none
              else some ⟨text, sur.now, none⟩ := by
        intro temp target
        rw [deleteProcessed, Files.lookup_erase', Files.lookup_renamed, if_pos rfl]
      constructor
      · intro h
        obtain ⟨-, -, text', -, hlookup⟩ := h
        refine ⟨⟨text, rfl⟩, rfl, ?_⟩
        intro heq
        rw [hleft, if_pos heq] at hlookup
        cases hlookup
      · intro h
        refine ⟨rfl, hwritable, text, hdump, ?_⟩
        rw [hleft, if_neg h.2.2]

/-- **An iteration survives its request exactly when the request is harmless.** -/
theorem survives_iff (sur : Surroundings) (name : String) (mail : Mail) (file : MailFile)
    (hlib : sur.context.libs.Lawful) (hfile : mail.lookup (name :: requestsDir) = some file) :
    Survives sur name file mail ↔ Harmless sur name file.content := by
  obtain ⟨moved, hmoved, hrejected, hexecuted⟩ := @processFile_eq sur name mail file hfile
  cases hjudged : judged sur file.content with
  | error reason =>
    obtain ⟨hdead, hescape⟩ := @moveToDead_spec sur.context.libs name moved file hlib sur.now reason
      hmoved
    have hprocess := hrejected reason hjudged
    constructor
    -- The reason escapes as an exception unless it is UTF-8.
    · intro h
      have hreason : IsUtf8 reason := by
        by_contra hnot
        have hreturns := h.returns
        rw [hprocess] at hreturns
        exact hescape hnot hreturns
      refine ⟨(judged_reason_iff hlib hjudged).mp hreason, ?_⟩
      intro request hrequest
      exact nomatch hjudged.symm.trans hrequest
    -- It is, so the file is in `dead/` and the reason beside it.
    · intro h
      obtain ⟨text, mail', hdump, hmove, hlookup, hlookup'⟩ :=
        hdead ((judged_reason_iff hlib hjudged).mpr h.text)
      rw [hmove] at hprocess
      have hreturns : (processFile sur name mail).1 = .ok () := by rw [hprocess]
      refine ⟨hreturns, processFiles_next hreturns, ?_, ?_⟩
      · intro reason' hreason'
        obtain rfl := Except.error.inj (hjudged.symm.trans hreason')
        rw [hprocess]
        exact ⟨hlookup, text, hdump, hlookup'⟩
      · intro request hrequest
        exact nomatch hjudged.symm.trans hrequest
  | ok request =>
    have hparse : parseRequest sur.context.libs file.content = .ok request := by
      unfold judged at hjudged
      cases hparse : parseRequest sur.context.libs file.content with
      | error what =>
        rw [hparse] at hjudged
        cases hjudged
      | ok request' =>
        rw [hparse] at hjudged
        dsimp only at hjudged
        split at hjudged
        case isTrue => cases hjudged
        case isFalse => rw [Except.ok.inj hjudged]
    have hprocess := hexecuted request hjudged
    have hspec := @executeRequest_spec request sur name hlib moved (requestId_utf8 hlib hparse)
    -- An executed request survives as `executeRequest_spec` says.
    constructor
    · intro h
      have hboth : (executeRequest sur name request moved).1 = .ok () ∧
          Answered sur request (executeRequest sur name request moved).2 := by
        rw [← hprocess]
        exact ⟨h.returns, h.answered request hjudged⟩
      refine ⟨quotable_of_parse hparse, ?_⟩
      intro request' hrequest'
      obtain rfl := Except.ok.inj (hjudged.symm.trans hrequest')
      exact hspec.mp hboth
    · intro h
      obtain ⟨hreturns, hanswered⟩ := hspec.mpr (h.request request hjudged)
      rw [← hprocess] at hreturns hanswered
      refine ⟨hreturns, processFiles_next hreturns, ?_, ?_⟩
      · intro reason hreason
        exact nomatch hjudged.symm.trans hreason
      · intro request' hrequest'
        obtain rfl := Except.ok.inj (hjudged.symm.trans hrequest')
        exact hanswered

end Iteration

/-- A mailbox without schemas and policies, whose backend is never asked. -/
def quietly (table : List (String × Json String)) : Surroundings where
  context := ⟨.ofTable table, {}, fun _ => none, {}, { now := 1000, now_pos := by decide }⟩
  answers := ⟨.ok (), {}, ({}, none), ([], none)⟩

/-- A request file with a content. -/
def oneRequest (content : String) : Mail :=
  AList.insert ("a.json" :: requestsDir) ⟨content, 0, some 0⟩ ∅

/-- A request about the health of the daemon. -/
def healthJson : Json String :=
  .obj [("requestId", .str "r"), ("clientId", .str "c"), ("command", .str "health")]

/-- For a request about its health, what has to be harmless. -/
theorem survives_iff_health :
    Survives (quietly [("health", healthJson)]) "a.json" ⟨"health", 0, some 0⟩ (oneRequest "health") ↔
      Harmless (quietly [("health", healthJson)]) "a.json" "health" :=
  survives_iff (quietly [("health", healthJson)]) "a.json" (oneRequest "health")
    ⟨"health", 0, some 0⟩ (JsonLibrary.lawful_ofTable (by decide)) (by decide)

/-- The first byte of a character, alone in a file, is quoted in the reason, and the worker
    stops. -/
theorem one_byte_stops :
    (processFile (quietly []) "a.json" (oneRequest "Ã")).1 = .error "invalid UTF-8 byte" ∧
    ¬Survives (quietly []) "a.json" ⟨"Ã", 0, some 0⟩ (oneRequest "Ã") := by
  have hstop : (processFile (quietly []) "a.json" (oneRequest "Ã")).1 =
      .error "invalid UTF-8 byte" := by decide
  refine ⟨hstop, ?_⟩
  intro h
  exact nomatch hstop.symm.trans h.returns

end YirangMQ.Mailbox

import YirangMQ.Backend.Content
import YirangMQ.Mailbox.Calls

namespace YirangMQ.Mailbox

/-!
# The mailbox over a backend

The request worker hands one request after another to the backend; beside it the queue manager
and other workers of the daemon make calls of their own, which never publish.

* `Service`, `mailbox` — the handler with its backend, as a machine;
* `Step.asCall` — the call a step of the mailbox makes;
* `run_calls` — a run of the mailbox is a run of the backend.
-/

/-- What the handler is set up with. -/
structure Service where
  libs : Libraries
  validator : MessageValidator
  policies : String → Option QueuePolicy

/-- What the handlers refer to at a request. -/
def Service.context (service : Service) (env : Env) : Context where
  libs := service.libs
  validator := service.validator
  policies := service.policies
  metrics := {}
  env := env

/-- A request, or a call of another worker. -/
inductive Input where
  | request (env : Env) (request : MailboxRequest)
  | work (env : Env) (call : Call)

/-- The call of the backend, with its environment. -/
def Service.call? (service : Service) : Input → Option (Env × Call)
  | .request env request => (handleRequest (service.context env) request).call?.map (env, ·)
  | .work env call => some (env, call)

variable {σ : Type}

/-- The mailbox over a backend.  A step answers with the backend's reply, if it makes a call. -/
def mailbox (service : Service) (adapter : Adapter σ) : Machine σ Input (Option Reply) where
  start := adapter.start
  step s i :=
    match service.call? i with
    | none => (none, s)
    | some (env, call) => ((some (adapter.perform env call s).1), (adapter.perform env call s).2)

/-- The step of the backend in a step of the mailbox. -/
def asCall (service : Service) (r : Step σ Input (Option Reply)) :
    Option (Step σ (Env × Call) Reply) :=
  match service.call? r.input, r.output with
  | some i, some reply => some ⟨i, r.before, reply, r.after⟩
  | _, _ => none

variable {service : Service} {adapter : Adapter σ}
  {allowed : History σ Input (Option Reply) → σ → Input → Prop}
  {permitted : History σ (Env × Call) Reply → σ → Env × Call → Prop}

theorem asCall_stepAt (s : σ) (i : Input) :
    asCall service ((mailbox service adapter).stepAt s i) =
      (service.call? i).map fun call => adapter.machine.stepAt s call := by
  unfold asCall
  cases hcall : service.call? i with
  | none => simp [hcall]
  | some call => simp [mailbox, Machine.stepAt, Adapter.machine, hcall]

/-- **A run of the mailbox is a run of the backend**, when its calls are permitted there. -/
theorem run_calls
    (hpermitted : ∀ h s i call, Run (mailbox service adapter) allowed h s → allowed h s i →
      service.call? i = some call → permitted (h.filterMap (asCall service)) s call)
    {h : History σ Input (Option Reply)} {s : σ}
    (run : Run (mailbox service adapter) allowed h s) :
    Run adapter.machine permitted (h.filterMap (asCall service)) s := by
  refine Run.map id (asCall service) rfl ?_ run
  intro h s i run ok
  rw [asCall_stepAt]
  cases hcall : service.call? i with
  | none => exact .inl ⟨rfl, by simp [mailbox, hcall]⟩
  | some call =>
    refine .inr ⟨call, rfl, ?_, hpermitted h s i call run ok hcall⟩
    simp [mailbox, hcall, Adapter.machine]

/-- The messages of a run come from publish requests, when other workers publish none. -/
theorem published_of_run
    (hwork : ∀ h s env message, ¬ allowed h s (.work env (.enqueue message)))
    {h : History σ Input (Option Reply)} {s : σ}
    (run : Run (mailbox service adapter) allowed h s) :
    ∀ message ∈ publishedBy (h.filterMap (asCall service)), ∃ older before env request,
      allowed older before (.request env request) ∧
      Makes (service.context env) request (.enqueue message) := by
  induction run with
  | start => simp [publishedBy]
  | @step h s i run ok ih =>
    rw [List.filterMap_cons, asCall_stepAt]
    cases hcall : service.call? i with
    | none => exact ih
    | some call =>
      intro message hmessage
      simp only [Option.map_some, publishedBy_cons, Machine.stepAt_input] at hmessage
      obtain ⟨env, call⟩ := call
      cases call with
      | enqueue m =>
        rcases List.mem_cons.mp hmessage with rfl | hold
        · cases i with
          | work env' call' =>
            obtain ⟨rfl, rfl⟩ : env' = env ∧ call' = .enqueue message := by
              simpa [Service.call?] using hcall
            exact absurd ok (hwork _ _ _ _)
          | request env' request =>
            obtain ⟨call', hmakes, hsame⟩ := Option.map_eq_some_iff.mp hcall
            simp only [Prod.mk.injEq] at hsame
            obtain ⟨rfl, rfl⟩ := hsame
            exact ⟨h, s, env', request, ok, handleRequest_makes hmakes⟩
        · exact ih message hold
      | _ => exact ih message hmessage

end YirangMQ.Mailbox

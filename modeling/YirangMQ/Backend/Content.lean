import YirangMQ.Backend.Lifecycle
import Mathlib.Data.List.Nodup

namespace YirangMQ

/-!
# The content of a message

What a publisher hands over and a consumer should be given back, whatever was done to the stored
form of the message in between.

* `SameContent` — a message given to a consumer has the content of a published one;
* `Call.New` — publishing under a key and an identifier that have not been used before;
* `publishedBy`, `Distinct` — the messages published in a run of an adapter, and that they are
  told apart by their keys and by their identifiers;
* `Lifecycle.Admitted`, `inv_of_run` — the runs of an adapter with the life cycle;
* `Lifecycle.Sustains` — wider ones, which keep what it keeps and may move messages otherwise.
-/

/-- The content of `m`, as `message` gives it back.  A message may be published without a time of
    creation. -/
structure SameContent (m message : MessageEnvelope) : Prop where
  key : message.key = m.key
  messageId : message.messageId = m.messageId
  queue : message.queue = m.queue
  payload : message.payloadJson = m.payloadJson
  attributes : message.attributesJson = m.attributesJson
  priority : message.priority = m.priority
  createdAt : 0 < m.createdAtMs → message.createdAtMs = m.createdAtMs

/-- The call publishes, if it does, under a new key and a new identifier. -/
def Call.New (published : List MessageEnvelope) : Call → Prop
  | .enqueue message =>
    message.key ∉ published.map MessageEnvelope.key ∧
    message.messageId ∉ published.map MessageEnvelope.messageId
  | _ => True

/-- The messages published in a run of an adapter, newest first and
    failed calls included. -/
def publishedBy {σ : Type} (h : History σ (Env × Call) Reply) : List MessageEnvelope :=
  h.foldr (fun r messages => r.input.2.publishing messages) []

@[simp] theorem publishedBy_cons {σ : Type} (r : Step σ (Env × Call) Reply)
    (h : History σ (Env × Call) Reply) :
    publishedBy (r :: h) = r.input.2.publishing (publishedBy h) := rfl

/-- A message that a step of the run publishes. -/
theorem mem_publishedBy {σ : Type} {h : History σ (Env × Call) Reply}
    {r : Step σ (Env × Call) Reply} {m : MessageEnvelope} (hr : r ∈ h)
    (hpublish : r.input.2 = .enqueue m) : m ∈ publishedBy h := by
  induction h with
  | nil => cases hr
  | cons r' h ih =>
    rw [publishedBy_cons]
    rcases List.mem_cons.mp hr with rfl | hr
    · rw [hpublish]
      exact List.mem_cons_self
    · exact r'.input.2.publishing_of_mem (ih hr)

/-- A published message is one a step of the run publishes. -/
theorem exists_of_mem_publishedBy {σ : Type} {h : History σ (Env × Call) Reply}
    {m : MessageEnvelope} (hm : m ∈ publishedBy h) : ∃ r ∈ h, r.input.2 = .enqueue m := by
  induction h with
  | nil => cases hm
  | cons r h ih =>
    rw [publishedBy_cons] at hm
    have hlater : m ∈ publishedBy h → ∃ r' ∈ r :: h, r'.input.2 = .enqueue m := by
      intro hold
      obtain ⟨r', hr', hpublish⟩ := ih hold
      exact ⟨r', List.mem_cons_of_mem _ hr', hpublish⟩
    cases hcall : r.input.2 with
    | enqueue message =>
      rw [hcall] at hm
      rcases List.mem_cons.mp hm with rfl | hold
      · exact ⟨r, List.mem_cons_self, hcall⟩
      · exact hlater hold
    | _ => exact hlater (by rw [hcall] at hm; exact hm)

/-- A call that the adapter admits, publishing, if it does, as `handle_publish` does. -/
structure Lifecycle.Admitted {σ : Type} {adapter : Adapter σ} (cycle : Lifecycle adapter)
    (h : History σ (Env × Call) Reply) (_ : σ) (i : Env × Call) : Prop where
  calm : cycle.Calm i.1
  admits : cycle.Admits i.2
  fresh : i.2.Fresh (publishedBy h)

/-- The calls of a run publish, if they do, as `handle_publish` does, and keep what the adapter
    keeps. -/
structure Lifecycle.Sustains {σ : Type} {adapter : Adapter σ} (cycle : Lifecycle adapter)
    (allowed : History σ (Env × Call) Reply → σ → Env × Call → Prop) : Prop where
  fresh : ∀ {h s i}, allowed h s i → i.2.Fresh (publishedBy h)
  kept : ∀ {h s i}, allowed h s i → cycle.Inv (publishedBy h) s →
    cycle.Inv (i.2.publishing (publishedBy h)) (adapter.perform i.1 i.2 s).2

/-- What every run of such calls keeps. -/
theorem Lifecycle.Sustains.inv_of_run {σ : Type} {adapter : Adapter σ} {cycle : Lifecycle adapter}
    {allowed : History σ (Env × Call) Reply → σ → Env × Call → Prop}
    (hsustains : cycle.Sustains allowed) {h : History σ (Env × Call) Reply} {s : σ}
    (run : Run adapter.machine allowed h s) :
    cycle.Inv (publishedBy h) s ∧ WellPublished (publishedBy h) := by
  induction run with
  | start => exact ⟨cycle.start, trivial⟩
  | step run ok ih =>
    obtain ⟨hinv, hwell⟩ := ih
    exact ⟨hsustains.kept ok hinv, hwell.publishing (hsustains.fresh ok)⟩

theorem Lifecycle.Sustains.mono {σ : Type} {adapter : Adapter σ} {cycle : Lifecycle adapter}
    {allowed fewer : History σ (Env × Call) Reply → σ → Env × Call → Prop}
    (hsustains : cycle.Sustains allowed) (hfewer : ∀ {h s i}, fewer h s i → allowed h s i) :
    cycle.Sustains fewer where
  fresh ok := hsustains.fresh (hfewer ok)
  kept ok := hsustains.kept (hfewer ok)

/-- Admitted calls are such calls. -/
theorem Lifecycle.sustains_admitted {σ : Type} {adapter : Adapter σ} (cycle : Lifecycle adapter) :
    cycle.Sustains cycle.Admitted where
  fresh ok := ok.fresh
  kept ok hinv := (cycle.perform hinv ok.calm ok.admits ok.fresh).1

theorem Lifecycle.inv_of_run {σ : Type} {adapter : Adapter σ} (cycle : Lifecycle adapter)
    {h : History σ (Env × Call) Reply} {s : σ} (run : Run adapter.machine cycle.Admitted h s) :
    cycle.Inv (publishedBy h) s ∧ WellPublished (publishedBy h) :=
  cycle.sustains_admitted.inv_of_run run

/-- The messages are told apart by their keys and by their identifiers. -/
structure Distinct (published : List MessageEnvelope) : Prop where
  keys : (published.map MessageEnvelope.key).Nodup
  ids : (published.map MessageEnvelope.messageId).Nodup

theorem Distinct.publishing {published : List MessageEnvelope} {call : Call}
    (h : Distinct published) (hnew : call.New published) : Distinct (call.publishing published) := by
  cases call with
  | enqueue message =>
    exact ⟨List.nodup_cons.mpr ⟨hnew.1, h.keys⟩, List.nodup_cons.mpr ⟨hnew.2, h.ids⟩⟩
  | _ => exact h

/-- The messages published in a run that publishes under new keys and identifiers. -/
theorem distinct_of_run {σ : Type} {M : Machine σ (Env × Call) Reply}
    {allowed : History σ (Env × Call) Reply → σ → Env × Call → Prop}
    (hnew : ∀ h s i, allowed h s i → i.2.New (publishedBy h))
    {h : History σ (Env × Call) Reply} {s : σ} (run : Run M allowed h s) :
    Distinct (publishedBy h) := by
  induction run with
  | start => exact ⟨List.nodup_nil, List.nodup_nil⟩
  | step run ok ih => exact ih.publishing (hnew _ _ _ ok)

/-- A message with the key or the identifier of another is that message. -/
theorem Distinct.eq {published : List MessageEnvelope} (h : Distinct published)
    {m m' : MessageEnvelope} (hm : m ∈ published) (hm' : m' ∈ published)
    (hsame : m.key = m'.key ∨ m.messageId = m'.messageId) : m = m' := by
  rcases hsame with hkey | hid
  · exact List.inj_on_of_nodup_map h.keys hm hm' hkey
  · exact List.inj_on_of_nodup_map h.ids hm hm' hid

end YirangMQ

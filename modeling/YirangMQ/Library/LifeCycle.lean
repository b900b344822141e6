import Mathlib.Data.List.Sublists

namespace YirangMQ

/-!
# Objects that are started and stopped

An object has a running flag, and calls that start it or stop it.  It keeps its life cycle in a
sequence of calls when a start of the stopped object succeeds and leaves it able to work, a start
of the running object is refused without effect, and the flag says whether the last successful
call was a start.

* `Outcome`, `LifeCycle` — what a call comes to, and an object with its calls;
* `LifeCycle.Keeps` — the object keeps its life cycle in a sequence of calls;
* `LifeCycle.OneShot` — an object that can be started once;
* `OneShot.keeps_iff` — **it keeps its life cycle exactly as long as it is not started again.**
-/

/-- What a call comes to: it succeeds, it is refused with an error text, an exception leaves it, or
    it does what the language leaves undefined. -/
inductive Outcome where
  | ok
  | refused (error : String)
  | thrown
  | undefined
  deriving DecidableEq, Repr

/-- An object of states `σ` and calls `γ`. -/
structure LifeCycle (σ γ : Type) where
  /-- Whether the call starts the object; any other call stops it. -/
  starts : γ → Bool
  step : σ → γ → Outcome × σ
  running : σ → Bool
  able : σ → Prop

namespace LifeCycle

variable {σ γ : Type} {o : LifeCycle σ γ} {s : σ} {c : γ} {cs : List γ}

/-- The object keeps its life cycle in a sequence of calls; `last` says whether the last
    successful call before them was a start. -/
def Keeps (o : LifeCycle σ γ) (last : Bool) (s : σ) : List γ → Prop
  | [] => o.running s = last
  | c :: cs =>
    o.running s = last ∧
    (o.starts c = true → o.running s = false →
      (o.step s c).1 = .ok ∧ o.running (o.step s c).2 = true ∧ o.able (o.step s c).2) ∧
    (o.starts c = true → o.running s = true →
      (∃ error, (o.step s c).1 = .refused error) ∧ (o.step s c).2 = s) ∧
    Keeps o (if (o.step s c).1 = .ok then o.starts c else last) (o.step s c).2 cs

/-- An object that can be started once: from the state `fresh` by a call that is `good`.  After it
    has been stopped no start succeeds. -/
structure OneShot (o : LifeCycle σ γ) (fresh : σ) (good : γ → Prop) (up spent : σ → Prop) : Prop
  where
  fresh_running : o.running fresh = false
  start : ∀ c, o.starts c = true → good c →
    (o.step fresh c).1 = .ok ∧ up (o.step fresh c).2
  start_fails : ∀ c, o.starts c = true → ¬ good c → (o.step fresh c).1 ≠ .ok
  stop_fresh : ∀ c, o.starts c = false → (o.step fresh c).2 = fresh
  up_running : ∀ s, up s → o.running s = true
  up_able : ∀ s, up s → o.able s
  start_up : ∀ s c, up s → o.starts c = true →
    (∃ error, (o.step s c).1 = .refused error) ∧ (o.step s c).2 = s
  stop_up : ∀ s c, up s → o.starts c = false →
    (o.step s c).1 = .ok ∧ spent (o.step s c).2
  spent_running : ∀ s, spent s → o.running s = false
  start_spent : ∀ s c, spent s → o.starts c = true → (o.step s c).1 ≠ .ok
  stop_spent : ∀ s c, spent s → o.starts c = false → spent (o.step s c).2

theorem sublist_cons_of_ne {α : Type} {a b : α} {l l' : List α} (hne : a ≠ b) :
    (a :: l).Sublist (b :: l') ↔ (a :: l).Sublist l' := by
  constructor
  · intro h
    cases h with
    | cons _ h => exact h
    | cons_cons _ _ => exact absurd rfl hne
  · exact fun h => h.cons b

namespace OneShot

variable {fresh : σ} {good : γ → Prop} {up spent : σ → Prop}

/-- A stopped object that cannot be started again keeps its life cycle as long as no one tries. -/
theorem keeps_spent (h : o.OneShot fresh good up spent) (hs : spent s) :
    o.Keeps false s cs ↔ ¬ [true].Sublist (cs.map o.starts) := by
  induction cs generalizing s with
  | nil => simp [Keeps, h.spent_running s hs]
  | cons c cs ih =>
    have hrunning : o.running s = false := h.spent_running s hs
    cases hc : o.starts c with
    | true =>
      -- the start does not succeed
      have hfails : (o.step s c).1 ≠ .ok := h.start_spent s c hs hc
      simp [Keeps, hc, hrunning, hfails]
    | false =>
      have hrest := ih (h.stop_spent s c hs hc)
      rw [List.map_cons, hc, sublist_cons_of_ne (by decide)]
      rw [← hrest]
      simp [Keeps, hc, hrunning]

/-- A running object keeps its life cycle as long as it is not started after a stop. -/
theorem keeps_up (h : o.OneShot fresh good up spent) (hs : up s) :
    o.Keeps true s cs ↔ ¬ [false, true].Sublist (cs.map o.starts) := by
  induction cs generalizing s with
  | nil => simp [Keeps, h.up_running s hs]
  | cons c cs ih =>
    have hrunning : o.running s = true := h.up_running s hs
    rw [List.map_cons]
    cases hc : o.starts c with
    | true =>
      obtain ⟨⟨error, herror⟩, hsame⟩ := h.start_up s c hs hc
      rw [sublist_cons_of_ne (by decide), ← ih hs]
      simp [Keeps, hc, hrunning, herror, hsame]
    | false =>
      obtain ⟨hok, hspent⟩ := h.stop_up s c hs hc
      rw [List.cons_sublist_cons, ← h.keeps_spent hspent]
      simp [Keeps, hc, hrunning, hok]

/-- **The object keeps its life cycle exactly when the first start is a good one and there is no
    start after a stop of the started object.** -/
theorem keeps_iff (h : o.OneShot fresh good up spent) :
    o.Keeps false fresh cs ↔
      (∀ c, cs.find? o.starts = some c → good c) ∧
        ¬ [true, false, true].Sublist (cs.map o.starts) := by
  induction cs with
  | nil => simp [Keeps, h.fresh_running]
  | cons c cs ih =>
    rw [List.map_cons]
    cases hc : o.starts c with
    | true =>
      rw [List.find?_cons_of_pos hc, List.cons_sublist_cons]
      by_cases hgood : good c
      · obtain ⟨hok, hup⟩ := h.start c hc hgood
        have hable : o.able (o.step fresh c).2 := h.up_able _ hup
        rw [← h.keeps_up hup]
        simp [Keeps, hc, h.fresh_running, hok, h.up_running _ hup, hable, hgood]
      · have hfails := h.start_fails c hc hgood
        simp [Keeps, hc, h.fresh_running, hfails, hgood]
    | false =>
      have hsame : (o.step fresh c).2 = fresh := h.stop_fresh c hc
      rw [List.find?_cons_of_neg (by simp [hc]), sublist_cons_of_ne (by decide), ← ih]
      simp [Keeps, hc, h.fresh_running, hsame]

end OneShot

end LifeCycle

end YirangMQ

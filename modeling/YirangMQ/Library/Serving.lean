import Mathlib.Data.List.Nodup

namespace YirangMQ

/-!
# Serving what waits

A server has items waiting.  It answers a request with an item that the request may have, and which
then no longer waits, or with none.  It serves well if the item comes first among those the request
may have, and if it answers none only where there are none.

* `Serves` — one answer of such a server;
* `ServesAll` — its answers to a list of requests;
* `ServesAll.nodup`, `ServesAll.refused` — nothing is given twice, and a request that gets none
  finds everything that it may have given away;
* `ServesAll.drains` — **equal requests are given all they may have, in order, and then none.**
-/

universe u v

variable {α : Type u} {ρ : Type v}

/-- The answer to the request is the first of the items that it may have, or none. -/
structure Serves (may : ρ → α → Prop) (before : α → α → Prop) (waits : α → Prop) (r : ρ)
    (answer : Option α) (waits' : α → Prop) : Prop where
  refused : answer = none → ∀ a, waits a → ¬may r a
  given : ∀ a, answer = some a → waits a ∧ may r a ∧ ∀ b, waits b → may r b → ¬before b a
  left : ∀ a, waits' a ↔ waits a ∧ answer ≠ some a

/-- The answers to requests, oldest first. -/
inductive ServesAll (may : ρ → α → Prop) (before : α → α → Prop) :
    (α → Prop) → List (ρ × Option α) → (α → Prop) → Prop
  | nil {waits : α → Prop} : ServesAll may before waits [] waits
  | cons {waits between waits' : α → Prop} {r : ρ} {answer : Option α}
      {answers : List (ρ × Option α)} (first : Serves may before waits r answer between)
      (rest : ServesAll may before between answers waits') :
      ServesAll may before waits ((r, answer) :: answers) waits'

/-- The items that have been given. -/
def givenIn (answers : List (ρ × Option α)) : List α := answers.filterMap Prod.snd

@[simp] theorem givenIn_nil : givenIn ([] : List (ρ × Option α)) = [] := rfl
@[simp] theorem givenIn_none (r : ρ) (answers : List (ρ × Option α)) :
    givenIn ((r, none) :: answers) = givenIn answers := rfl
@[simp] theorem givenIn_some (r : ρ) (a : α) (answers : List (ρ × Option α)) :
    givenIn ((r, some a) :: answers) = a :: givenIn answers := rfl

theorem mem_givenIn_cons {r : ρ} {answer : Option α} {answers : List (ρ × Option α)} {a : α} :
    a ∈ givenIn ((r, answer) :: answers) ↔ answer = some a ∨ a ∈ givenIn answers := by
  cases answer with
  | none => simp
  | some b => simp [eq_comm]

namespace ServesAll

variable {may : ρ → α → Prop} {before : α → α → Prop} {waits waits' : α → Prop}
  {answers : List (ρ × Option α)}

/-- What still waits has waited from the start and has not been given. -/
theorem left_iff (h : ServesAll may before waits answers waits') (a : α) :
    waits' a ↔ waits a ∧ a ∉ givenIn answers := by
  induction h with
  | nil => simp
  | cons first rest ih =>
    rw [ih, first.left, mem_givenIn_cons]
    tauto

/-- What is given has waited from the start. -/
theorem waits_of_given (h : ServesAll may before waits answers waits') :
    ∀ a ∈ givenIn answers, waits a := by
  induction h with
  | nil => simp
  | cons first rest ih =>
    intro a ha
    rcases mem_givenIn_cons.mp ha with hfirst | hlater
    · exact (first.given a hfirst).1
    · exact ((first.left a).mp (ih a hlater)).1

/-- Nothing is given twice. -/
theorem nodup (h : ServesAll may before waits answers waits') : (givenIn answers).Nodup := by
  induction h with
  | nil => exact List.nodup_nil
  | @cons waits between waits' r answer answers first rest ih =>
    cases answer with
    | none => exact ih
    | some a =>
      rw [givenIn_some, List.nodup_cons]
      refine ⟨fun hagain => ?_, ih⟩
      exact ((first.left a).mp (rest.waits_of_given a hagain)).2 rfl

/-- An item is given to a request that may have it, and first of what is left for it. -/
theorem first_given (h : ServesAll may before waits answers waits')
    {older newer : List (ρ × Option α)} {r : ρ} {a : α}
    (hsplit : answers = older ++ (r, some a) :: newer) :
    may r a ∧ ∀ b, waits b → may r b → b ∉ givenIn older → ¬before b a := by
  induction h generalizing older with
  | nil => simp at hsplit
  | @cons waits between waits' r' answer answers first rest ih =>
    cases older with
    | nil =>
      obtain ⟨hhead, rfl⟩ := List.cons.inj hsplit
      obtain ⟨rfl, rfl⟩ := Prod.mk.inj hhead
      obtain ⟨-, hmay, hfirst⟩ := first.given a rfl
      exact ⟨hmay, fun b hwaits hb _ => hfirst b hwaits hb⟩
    | cons p older =>
      obtain ⟨rfl, hrest⟩ := List.cons.inj hsplit
      obtain ⟨hmay, hfirst⟩ := ih hrest
      refine ⟨hmay, fun b hwaits hb hnot => ?_⟩
      rw [mem_givenIn_cons, not_or] at hnot
      exact hfirst b ((first.left b).mpr ⟨hwaits, hnot.1⟩) hb hnot.2

/-- A request that gets none finds everything that it may have given away. -/
theorem refused (h : ServesAll may before waits answers waits')
    {older newer : List (ρ × Option α)} {r : ρ}
    (hsplit : answers = older ++ (r, none) :: newer) :
    ∀ a, waits a → may r a → a ∈ givenIn older := by
  induction h generalizing older with
  | nil => simp at hsplit
  | @cons waits between waits' r' answer answers first rest ih =>
    intro a hwaits hmay
    cases older with
    | nil =>
      obtain ⟨hhead, -⟩ := List.cons.inj hsplit
      obtain ⟨rfl, rfl⟩ := Prod.mk.inj hhead
      exact absurd hmay (first.refused rfl a hwaits)
    | cons p older =>
      obtain ⟨rfl, hrest⟩ := List.cons.inj hsplit
      rw [mem_givenIn_cons]
      by_cases hfirst : answer = some a
      · exact .inl hfirst
      · exact .inr (ih hrest a ((first.left a).mpr ⟨hwaits, hfirst⟩) hmay)

/-- Where nothing waits for the requests, none of them is given anything. -/
theorem all_none (h : ServesAll may before waits answers waits')
    (hnothing : ∀ p ∈ answers, ∀ a, waits a → ¬may p.1 a) :
    answers.map Prod.snd = List.replicate answers.length none := by
  induction h with
  | nil => rfl
  | @cons waits between waits' r answer answers first rest ih =>
    rw [List.forall_mem_cons] at hnothing
    cases answer with
    | some a =>
      obtain ⟨hwaits, hmay, -⟩ := first.given a rfl
      exact absurd hmay (hnothing.1 a hwaits)
    | none =>
      have hrest := ih fun p hp a hleft => hnothing.2 p hp a ((first.left a).mp hleft).1
      rw [List.map_cons, hrest, List.length_cons, List.replicate_succ]

/-- **Equal requests are given all they may have, in order, and then none.** -/
theorem drains {mine : α → Prop} (h : ServesAll may before waits answers waits')
    (hsame : ∀ p ∈ answers, ∀ a, may p.1 a ↔ mine a) :
    (∀ a ∈ givenIn answers, waits a ∧ mine a) ∧
    (givenIn answers).Pairwise (fun a b => ¬before b a) ∧
    answers.map Prod.snd = (givenIn answers).map some ++
      List.replicate (answers.length - (givenIn answers).length) none ∧
    ((givenIn answers).length < answers.length →
      ∀ a, waits a → mine a → a ∈ givenIn answers) := by
  induction h with
  | nil => simp
  | @cons waits between waits' r answer answers first rest ih =>
    rw [List.forall_mem_cons] at hsame
    obtain ⟨hthis, hsame⟩ := hsame
    cases answer with
    | none =>
      -- nothing is there for this request, nor for those after it
      have hnone : ∀ a, waits a → ¬mine a := fun a hwaits hmine =>
        first.refused rfl a hwaits ((hthis a).mpr hmine)
      have hnothing : ∀ p ∈ answers, ∀ a, between a → ¬may p.1 a := fun p hp a hleft hmay =>
        hnone a ((first.left a).mp hleft).1 ((hsame p hp a).mp hmay)
      have hrest := rest.all_none hnothing
      have hempty : givenIn answers = [] := by
        rw [List.eq_nil_iff_forall_not_mem]
        intro a ha
        obtain ⟨hleft, hmine⟩ := (ih hsame).1 a ha
        exact hnone a ((first.left a).mp hleft).1 hmine
      rw [givenIn_none, hempty]
      refine ⟨by simp, List.Pairwise.nil, ?_, fun _ a hwaits hmine => absurd hmine (hnone a hwaits)⟩
      rw [List.map_cons, hrest, List.map_nil, List.nil_append, List.length_nil, Nat.sub_zero,
        List.length_cons, List.replicate_succ]
    | some a =>
      obtain ⟨hmine, hsorted, hanswers, hall⟩ := ih hsame
      obtain ⟨hwaits, hmay, hfirst⟩ := first.given a rfl
      rw [givenIn_some]
      refine ⟨?_, ?_, ?_, ?_⟩
      · rw [List.forall_mem_cons]
        refine ⟨⟨hwaits, (hthis a).mp hmay⟩, fun b hb => ?_⟩
        exact ⟨((first.left b).mp (hmine b hb).1).1, (hmine b hb).2⟩
      · rw [List.pairwise_cons]
        refine ⟨fun b hb => ?_, hsorted⟩
        exact hfirst b ((first.left b).mp (hmine b hb).1).1 ((hthis b).mpr (hmine b hb).2)
      · rw [List.map_cons, hanswers, List.map_cons, List.cons_append, List.length_cons,
          List.length_cons, Nat.add_sub_add_right]
      · intro hshort b hb hmineb
        rw [List.length_cons, List.length_cons] at hshort
        by_cases hsame : b = a
        · rw [hsame]
          exact List.mem_cons_self
        · have hleft : between b := (first.left b).mpr ⟨hb, fun heq =>
            hsame (Option.some.inj heq).symm⟩
          exact List.mem_cons_of_mem _ (hall (by omega) b hleft hmineb)

end ServesAll

end YirangMQ

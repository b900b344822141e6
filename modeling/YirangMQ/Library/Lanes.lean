import Mathlib.Data.List.Perm.Basic
import Mathlib.Data.List.Nodup

namespace YirangMQ

/-!
# One line in lanes

A line of waiting entries, in the order they came, each of which is in a lane.  Whoever serves
lists the lanes it serves and takes the entry that has waited longest in the first of them that
has one.

* `lane` — the entries of a lane; `next` — the entry that is served; `serve` — the line after it;
* `next_eq_some`, `next_eq_none` — which entry is served, and when there is none;
* `serve_perm`, `lane_serve` — serving takes that entry and no other, from the front of its lane;
* `lanes_perm` — the lanes are all of the line.
-/

namespace Lanes

variable {α κ : Type} [DecidableEq κ] (key : α → κ)

/-- The entries of a lane, in the order they came. -/
def lane (k : κ) (waiting : List α) : List α := waiting.filter fun a => key a = k

/-- The entry that has waited longest in the first of the lanes that has one. -/
def next : List κ → List α → Option α
  | [], _ => none
  | k :: ks, waiting => ((lane key k waiting).head?).or (next ks waiting)

/-- The line without the entry that is served. -/
def serve (ks : List κ) (waiting : List α) : List α :=
  (next key ks waiting).elim waiting fun a => waiting.eraseP fun b => key b = key a

variable {key} {k : κ} {ks : List κ} {waiting : List α} {a b : α}

/-- A lane has the waiting things of its key. -/
theorem mem_lane : a ∈ lane key k waiting ↔ a ∈ waiting ∧ key a = k := by
  simp [lane, List.mem_filter]

/-- No lane of nothing has anything. -/
@[simp] theorem lane_nil : lane key k [] = [] := rfl

/-- The lane of two lists, one after the other. -/
theorem lane_append (k : κ) (waiting later : List α) :
    lane key k (waiting ++ later) = lane key k waiting ++ lane key k later :=
  List.filter_append waiting later

/-- The lane of one thing. -/
theorem lane_single (k : κ) (a : α) : lane key k [a] = if key a = k then [a] else [] := by
  by_cases h : key a = k
  · simp [lane, h]
  · simp [lane, h]

/-- A lane is empty when nothing with its key waits. -/
theorem lane_eq_nil : lane key k waiting = [] ↔ ∀ a ∈ waiting, key a ≠ k := by
  simp [lane, List.filter_eq_nil_iff]

/-- Taking the first entry of a lane out of the line takes it from the front of its lane, and
    leaves the other lanes. -/
theorem lane_eraseP (l : κ) : lane key k (waiting.eraseP fun b => key b = l) =
    if k = l then (lane key k waiting).tail else lane key k waiting := by
  induction waiting with
  | nil => simp
  | cons b rest ih =>
    by_cases hb : key b = l
    · rw [List.eraseP_cons_of_pos (by simp [hb])]
      by_cases hk : k = l
      · have hbk : key b = k := hb.trans hk.symm
        rw [if_pos hk, lane, lane, List.filter_cons_of_pos (by simp [hbk]), List.tail_cons]
      · have hbk : key b ≠ k := fun h => hk (h.symm.trans hb)
        rw [if_neg hk, lane, lane, List.filter_cons_of_neg (by simp [hbk])]
    · rw [List.eraseP_cons_of_neg (by simp [hb])]
      by_cases hbk : key b = k
      · -- an entry of another lane than the one served, at the front of this one
        have hk : k ≠ l := fun h => hb (hbk.trans h)
        rw [if_neg hk] at ih ⊢
        simp only [lane] at ih ⊢
        rw [List.filter_cons_of_pos (by simp [hbk]), List.filter_cons_of_pos (by simp [hbk]), ih]
      · simp only [lane] at ih ⊢
        rw [List.filter_cons_of_neg (by simp [hbk]), List.filter_cons_of_neg (by simp [hbk]), ih]

/-- The first of the first lane is next. -/
theorem next_cons_of_lane {rest : List α} (h : lane key k waiting = a :: rest) :
    next key (k :: ks) waiting = some a := by
  rw [next, h, List.head?_cons, Option.some_or]

/-- An empty lane is passed over. -/
theorem next_cons_of_empty (h : lane key k waiting = []) :
    next key (k :: ks) waiting = next key ks waiting := by
  rw [next, h, List.head?_nil, Option.none_or]

/-- Nothing is served exactly when none of the lanes has an entry. -/
theorem next_eq_none : next key ks waiting = none ↔ ∀ a ∈ waiting, key a ∉ ks := by
  induction ks with
  | nil => simp [next]
  | cons k ks ih =>
    cases hlane : lane key k waiting with
    | nil =>
      have hempty := lane_eq_nil.mp hlane
      rw [next_cons_of_empty hlane, ih]
      constructor
      · intro h a ha hmem
        rcases List.mem_cons.mp hmem with heq | hmem
        · exact hempty a ha heq
        · exact h a ha hmem
      · intro h a ha hmem
        exact h a ha (List.mem_cons_of_mem k hmem)
    | cons b rest =>
      have hb : b ∈ waiting ∧ key b = k := mem_lane.mp (hlane ▸ List.mem_cons_self)
      rw [next_cons_of_lane hlane]
      constructor
      · intro h
        cases h
      · intro h
        exact absurd (hb.2 ▸ List.mem_cons_self) (h b hb.1)

/-- The entry that is served: the first of its lane, which is the first of the lanes that has
    one. -/
theorem next_eq_some (h : next key ks waiting = some a) :
    (∃ rest, lane key (key a) waiting = a :: rest) ∧
    ∃ before after, ks = before ++ key a :: after ∧ ∀ b ∈ waiting, key b ∉ before := by
  induction ks with
  | nil => cases h
  | cons k ks ih =>
    cases hlane : lane key k waiting with
    | nil =>
      rw [next_cons_of_empty hlane] at h
      obtain ⟨hfirst, before, after, heq, hbefore⟩ := ih h
      refine ⟨hfirst, k :: before, after, by rw [heq, List.cons_append], ?_⟩
      intro b hb hmem
      rcases List.mem_cons.mp hmem with hk | hmem
      · exact lane_eq_nil.mp hlane b hb hk
      · exact hbefore b hb hmem
    | cons b rest =>
      rw [next_cons_of_lane hlane] at h
      have hba : b = a := Option.some.inj h
      have hb : b ∈ waiting ∧ key b = k := mem_lane.mp (hlane ▸ List.mem_cons_self)
      subst hba
      exact ⟨⟨rest, by rw [hb.2, hlane]⟩, [], ks, by rw [hb.2, List.nil_append], by simp⟩

/-- What is next waits, in one of the lanes asked for. -/
theorem mem_of_next (h : next key ks waiting = some a) : a ∈ waiting ∧ key a ∈ ks := by
  obtain ⟨⟨rest, hlane⟩, before, after, hks, -⟩ := next_eq_some h
  have ha : a ∈ lane key (key a) waiting := by
    rw [hlane]
    exact List.mem_cons_self
  refine ⟨(mem_lane.mp ha).1, ?_⟩
  rw [hks]
  exact List.mem_append_right before List.mem_cons_self

/-- Where nothing is next nothing leaves. -/
theorem serve_of_none (h : next key ks waiting = none) : serve key ks waiting = waiting := by
  rw [serve, h, Option.elim_none]

/-- Where something is next, the first with its key leaves. -/
theorem serve_of_some (h : next key ks waiting = some a) :
    serve key ks waiting = waiting.eraseP fun b => key b = key a := by
  rw [serve, h, Option.elim_some]

/-- Serving keeps the order of the entries that are left. -/
theorem serve_sublist : (serve key ks waiting).Sublist waiting := by
  cases h : next key ks waiting with
  | none =>
    rw [serve_of_none h]
  | some a =>
    rw [serve_of_some h]
    exact List.eraseP_sublist

/-- Serving shortens the lane that was served and leaves the others. -/
theorem lane_serve (h : next key ks waiting = some a) :
    lane key k (serve key ks waiting) =
      if k = key a then (lane key k waiting).tail else lane key k waiting := by
  rw [serve_of_some h, lane_eraseP]

/-- The entry that is served leaves the line, and no other does. -/
theorem serve_perm (h : next key ks waiting = some a) :
    waiting.Perm (a :: serve key ks waiting) := by
  obtain ⟨⟨rest, hlane⟩, -⟩ := next_eq_some h
  have hfirst : waiting.find? (fun b => key b = key a) = some a := by
    rw [← List.head?_filter]
    show (lane key (key a) waiting).head? = some a
    rw [hlane]
    rfl
  rw [serve_of_some h]
  obtain ⟨ha, before, after, hsplit, hbefore⟩ := List.find?_eq_some_iff_append.mp hfirst
  have hskip : ∀ b ∈ before, ¬(decide (key b = key a)) = true := by
    intro b hb
    simpa using hbefore b hb
  have hserved : (a :: after).eraseP (fun b => key b = key a) = after :=
    List.eraseP_cons_of_pos ha
  rw [hsplit, List.eraseP_append_right (a :: after) hskip, hserved]
  exact List.perm_middle

/-- The lanes together are the line. -/
theorem lanes_perm (hall : ∀ a ∈ waiting, key a ∈ ks) (hks : ks.Nodup) (h : waiting.Nodup) :
    (ks.flatMap fun k => lane key k waiting).Perm waiting := by
  have hlanes : (ks.flatMap fun k => lane key k waiting).Nodup := by
    rw [List.nodup_flatMap]
    refine ⟨fun k _ => h.filter _, ?_⟩
    refine hks.imp ?_
    intro k l hkl a hk hl
    exact hkl ((mem_lane.mp hk).2.symm.trans (mem_lane.mp hl).2)
  rw [List.perm_ext_iff_of_nodup hlanes h]
  intro a
  rw [List.mem_flatMap]
  constructor
  · rintro ⟨k, -, ha⟩
    exact (mem_lane.mp ha).1
  · intro ha
    exact ⟨key a, hall a ha, mem_lane.mpr ⟨ha, rfl⟩⟩

end Lanes

end YirangMQ

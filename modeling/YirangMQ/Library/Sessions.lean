import Mathlib.Data.Set.Pairwise.Basic
import Mathlib.Data.Set.Lattice
import Mathlib.Order.CompletePartialOrder
import YirangMQ.Library.Files

namespace YirangMQ

/-!
# Sessions over common files

Sessions take turns over the same files.  Each owns some paths, and has an abstract state in which
it stands; what this state says of the files it says of the owned paths only.  When no path has two
owners, a session is where its own turns have led it, in whatever order the turns came.

* `Session` — the turns of a session, and the abstract state that they simulate;
* `Sessions.run` — the turns of all of them, in a given order;
* `Sessions.run_stands` — **each session stands where its own turns lead**;
* `Sessions.run_frame` — a path without an owner keeps its file.
-/

/-- A session: its turns, and the abstract states that they go through. -/
structure Session (T S A P C : Type) [DecidableEq P] where
  /-- The paths that belong to the session. -/
  own : Set P
  turn : T → S × Files P C → S × Files P C
  /-- The session and its files are as the abstract state says. -/
  Stands : A → S → Files P C → Prop
  next : T → A → A
  /-- The abstract state speaks of the owned paths only. -/
  stands_of_agree : ∀ {a s files files'}, Stands a s files →
    (∀ path ∈ own, files'.lookup path = files.lookup path) → Stands a s files'
  /-- A turn follows the abstract state, … -/
  stands_turn : ∀ {a s files} t, Stands a s files →
    Stands (next t a) (turn t (s, files)).1 (turn t (s, files)).2
  /-- … and leaves the files of others as they are. -/
  frame : ∀ {a s files} t path, Stands a s files → path ∉ own →
    (turn t (s, files)).2.lookup path = files.lookup path

namespace Sessions

variable {ι T S A P C : Type} [DecidableEq ι] [DecidableEq P]

/-- The turns of one session. -/
def turnsOf (i : ι) (order : List (ι × T)) : List T :=
  order.filterMap fun t => if t.1 = i then some t.2 else none

@[simp] theorem turnsOf_nil (i : ι) : turnsOf i ([] : List (ι × T)) = [] := rfl

theorem turnsOf_cons_self (i : ι) (t : T) (order : List (ι × T)) :
    turnsOf i ((i, t) :: order) = t :: turnsOf i order :=
  List.filterMap_cons_some (if_pos rfl)

theorem turnsOf_cons_ne {i j : ι} (h : j ≠ i) (t : T) (order : List (ι × T)) :
    turnsOf i ((j, t) :: order) = turnsOf i order :=
  List.filterMap_cons_none (if_neg h)

/-- Turns of the sessions, one after the other. -/
def run (turn : ι → T → S × Files P C → S × Files P C) :
    List (ι × T) → (ι → S) × Files P C → (ι → S) × Files P C
  | [], state => state
  | (i, t) :: order, (states, files) =>
    let (s, files) := turn i t (states i, files)
    run turn order (Function.update states i s, files)

/-- Where turns lead. -/
def leads (next : T → A → A) (turns : List T) (a : A) : A :=
  turns.foldl (fun a t => next t a) a

variable {sessions : ι → Session T S A P C} {states : ι → S} {files : Files P C} {stages : ι → A}

/-- A turn of one session leaves the others standing where they are. -/
theorem stands_update (hdisjoint : Pairwise fun i j => Disjoint (sessions i).own (sessions j).own)
    (hstands : ∀ i, (sessions i).Stands (stages i) (states i) files) (i : ι) (t : T) (j : ι) :
    (sessions j).Stands (Function.update stages i ((sessions i).next t (stages i)) j)
      (Function.update states i ((sessions i).turn t (states i, files)).1 j)
      ((sessions i).turn t (states i, files)).2 := by
  by_cases hj : j = i
  · subst hj
    rw [Function.update_self, Function.update_self]
    exact (sessions j).stands_turn t (hstands j)
  · rw [Function.update_of_ne hj, Function.update_of_ne hj]
    refine (sessions j).stands_of_agree (hstands j) ?_
    intro path hpath
    have hother : path ∉ (sessions i).own :=
      Set.disjoint_left.mp (hdisjoint hj) hpath
    exact (sessions i).frame t path (hstands i) hother

/-- **Each session stands where its own turns lead**, whatever the others do in between. -/
theorem run_stands (hdisjoint : Pairwise fun i j => Disjoint (sessions i).own (sessions j).own)
    (hstands : ∀ i, (sessions i).Stands (stages i) (states i) files) (order : List (ι × T)) (j : ι) :
    let r := run (fun i => (sessions i).turn) order (states, files)
    (sessions j).Stands (leads (sessions j).next (turnsOf j order) (stages j)) (r.1 j) r.2 := by
  induction order generalizing states files stages with
  | nil => exact hstands j
  | cons turn order ih =>
    obtain ⟨i, t⟩ := turn
    have hnext := ih (stands_update hdisjoint hstands i t)
    by_cases hj : j = i
    · subst hj
      rw [Function.update_self] at hnext
      rw [turnsOf_cons_self]
      exact hnext
    · rw [Function.update_of_ne hj] at hnext
      rw [turnsOf_cons_ne (Ne.symm hj)]
      exact hnext

/-- A path without an owner keeps its file. -/
theorem run_frame (hdisjoint : Pairwise fun i j => Disjoint (sessions i).own (sessions j).own)
    (hstands : ∀ i, (sessions i).Stands (stages i) (states i) files) (order : List (ι × T)) {path : P}
    (hpath : ∀ i, path ∉ (sessions i).own) :
    (run (fun i => (sessions i).turn) order (states, files)).2.lookup path = files.lookup path := by
  induction order generalizing states files stages with
  | nil => rfl
  | cons turn order ih =>
    obtain ⟨i, t⟩ := turn
    have hnext := ih (stands_update hdisjoint hstands i t)
    exact hnext.trans ((sessions i).frame t path (hstands i) (hpath i))

end Sessions

end YirangMQ

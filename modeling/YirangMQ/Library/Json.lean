import Mathlib.Data.List.Basic
import Mathlib.Data.Rat.Defs

namespace YirangMQ

/-!
# JSON documents

The documents of a JSON library with C++ style access: `get?` looks a field up, `set` is
the assignment `j[key] = v`, `erase` drops a field, and `valueStr` / `valueInt` are the
reads with a default, which fail when the field is there with another type.  The order of an
object's fields carries no meaning, and `S` is the type of the strings.
-/

/-- A JSON document over strings of type `S`. -/
inductive Json (S : Type) where
  | null
  | bool (b : Bool)
  | int (n : Int)
  | real (q : ℚ)
  | str (s : S)
  | arr (items : List (Json S))
  | obj (fields : List (S × Json S))

namespace Json

variable {S : Type} [DecidableEq S]

/-- The value of field `k`, when the document is an object that has it. -/
def get? : Json S → S → Option (Json S)
  | .obj fields, k => fields.lookup k
  | _, _ => none

/-- `j[k] = v`: defined on objects, and on `null`, which becomes one. -/
def set : Json S → S → Json S → Option (Json S)
  | .obj fields, k, v => some (.obj ((k, v) :: fields.filter (fun f => f.1 ≠ k)))
  | .null, k, v => some (.obj [(k, v)])
  | _, _, _ => none

/-- `j.erase(k)`: defined on objects. -/
def erase : Json S → S → Option (Json S)
  | .obj fields, k => some (.obj (fields.filter (fun f => f.1 ≠ k)))
  | _, _ => none

/-- `j.value(k, d)` at a string; `none` is the type error. -/
def valueStr : Json S → S → S → Option S
  | .obj fields, k, d =>
    match fields.lookup k with
    | none => some d
    | some (.str s) => some s
    | some _ => none
  | _, _, _ => none

/-- `j.value(k, d)` at an integer; `none` is the type error. -/
def valueInt : Json S → S → Int → Option Int
  | .obj fields, k, d =>
    match fields.lookup k with
    | none => some d
    | some (.int n) => some n
    | some (.real q) => some (q.num.tdiv q.den)
    | some _ => none
  | _, _, _ => none

/-- `j.is_object()` -/
def isObject : Json S → Bool
  | .obj _ => true
  | _ => false

/-- `j.is_string()` -/
def isString : Json S → Bool
  | .str _ => true
  | _ => false

/-- Looking up after dropping the fields of one name. -/
theorem lookup_filter_ne {V : Type} (fields : List (S × V)) (k k' : S) :
    (fields.filter (fun f => f.1 ≠ k)).lookup k' = if k' = k then none else fields.lookup k' := by
  induction fields with
  | nil => simp
  | cons f fields ih =>
    obtain ⟨a, v⟩ := f
    by_cases ha : a = k
    · subst ha
      rw [List.filter_cons_of_neg (by simp), ih]
      by_cases hk : k' = a
      · simp [hk]
      · have hne : (k' == a) = false := by simpa using hk
        simp only [if_neg hk, List.lookup_cons, hne]
    · rw [List.filter_cons_of_pos (by simpa using ha), List.lookup_cons, ih, List.lookup_cons]
      by_cases hk : k' = a
      · subst hk; simp [ha]
      · have hne : (k' == a) = false := by simpa using hk
        simp only [hne]

/-- A field is read back after an assignment, and the other fields are as before. -/
theorem get?_set {j j' : Json S} {k : S} {v : Json S} (hset : j.set k v = some j') (k' : S) :
    j'.get? k' = if k' = k then some v else j.get? k' := by
  cases j <;> simp only [set, Option.some.injEq, reduceCtorEq] at hset
  case null =>
    subst hset
    by_cases hk : k' = k
    · simp [get?, hk]
    · have : (k' == k) = false := by simpa using hk
      simp [get?, hk, this, List.lookup_cons]
  case obj fields =>
    subst hset
    simp only [get?, List.lookup_cons, lookup_filter_ne]
    by_cases hk : k' = k
    · simp [hk]
    · have : (k' == k) = false := by simpa using hk
      simp [hk, this]

/-- An erased field is gone, and the other fields are as before. -/
theorem get?_erase {j j' : Json S} {k : S} (herase : j.erase k = some j') (k' : S) :
    j'.get? k' = if k' = k then none else j.get? k' := by
  cases j <;> simp only [erase, Option.some.injEq, reduceCtorEq] at herase
  subst herase
  exact lookup_filter_ne _ _ _

/-- Assignments and erasures on an object succeed and leave an object. -/
theorem set_of_isObject {j : Json S} (hobj : j.isObject = true) (k : S) (v : Json S) :
    ∃ j', j.set k v = some j' ∧ j'.isObject = true := by
  cases j <;> simp_all [isObject, set]

theorem erase_of_isObject {j : Json S} (hobj : j.isObject = true) (k : S) :
    ∃ j', j.erase k = some j' ∧ j'.isObject = true := by
  cases j <;> simp_all [isObject, erase]

theorem isObject_set {j j' : Json S} {k : S} {v : Json S} (hset : j.set k v = some j') :
    j'.isObject = true := by
  cases j <;> simp only [set, Option.some.injEq, reduceCtorEq] at hset <;> subst hset <;> rfl

/-- A string field is what `value` reads. -/
theorem valueStr_of_get? {j : Json S} {k : S} {s : S} (d : S) (hget : j.get? k = some (.str s)) :
    j.valueStr k d = some s := by
  cases j <;> simp_all [get?, valueStr]

/-- An integer field is what `value` reads. -/
theorem valueInt_of_get? {j : Json S} {k : S} {n : Int} (d : Int)
    (hget : j.get? k = some (.int n)) : j.valueInt k d = some n := by
  cases j <;> simp_all [get?, valueInt]

/-- What is read with some default is read with itself as the default. -/
theorem valueStr_self {j : Json S} {k d s : S} (h : j.valueStr k d = some s) :
    j.valueStr k s = some s := by
  cases j with
  | obj fields =>
    unfold valueStr at h ⊢
    dsimp only at h ⊢
    cases hlookup : fields.lookup k with
    | none => rfl
    | some v =>
      rw [hlookup] at h
      cases v with
      | str => exact h
      | _ => cases h
  | _ => cases h

/-- Reads with a default agree on objects that agree at the field. -/
theorem valueStr_congr {j j' : Json S} {k d : S} (hobj : j.isObject = true)
    (hobj' : j'.isObject = true) (hget : j'.get? k = j.get? k) :
    j'.valueStr k d = j.valueStr k d := by
  cases j <;> simp only [isObject, Bool.false_eq_true] at hobj
  cases j' <;> simp only [isObject, Bool.false_eq_true] at hobj'
  simp only [get?] at hget
  simp only [valueStr, hget]

theorem valueInt_congr {j j' : Json S} {k : S} {d : Int} (hobj : j.isObject = true)
    (hobj' : j'.isObject = true) (hget : j'.get? k = j.get? k) :
    j'.valueInt k d = j.valueInt k d := by
  cases j <;> simp only [isObject, Bool.false_eq_true] at hobj
  cases j' <;> simp only [isObject, Bool.false_eq_true] at hobj'
  simp only [get?] at hget
  simp only [valueInt, hget]

end Json

end YirangMQ

import Mathlib.Data.List.Basic

namespace YirangMQ

/-!
# UTF-8

A text of a program with byte strings is a `String` with one character for each byte.  It is
well formed UTF-8 when it is read off by first bytes, each of which tells the ranges of the
bytes that complete its character.

* `IsUtf8` — the text is well formed UTF-8;
* `isUtf8_append` — a text in front of another;
* `isUtf8_of_ascii` — texts of ASCII characters.
-/

/-- The ranges of the bytes that follow a first byte; `none` is no first byte. -/
def continuations (lead : Nat) : Option (List (Nat × Nat)) :=
  if lead < 0x80 then some []
  else if lead < 0xC2 then none
  else if lead < 0xE0 then some [(0x80, 0xBF)]
  else if lead = 0xE0 then some [(0xA0, 0xBF), (0x80, 0xBF)]
  else if lead = 0xED then some [(0x80, 0x9F), (0x80, 0xBF)]
  else if lead < 0xF0 then some [(0x80, 0xBF), (0x80, 0xBF)]
  else if lead = 0xF0 then some [(0x90, 0xBF), (0x80, 0xBF), (0x80, 0xBF)]
  else if lead < 0xF4 then some [(0x80, 0xBF), (0x80, 0xBF), (0x80, 0xBF)]
  else if lead = 0xF4 then some [(0x80, 0x8F), (0x80, 0xBF), (0x80, 0xBF)]
  else none

/-- Read bytes off, those that complete a character of the given ranges first. -/
def scanUtf8 : List Char → List (Nat × Nat) → Bool
  | [], ranges => ranges.isEmpty
  | c :: cs, [] =>
    match continuations c.toNat with
    | none => false
    | some ranges => scanUtf8 cs ranges
  | c :: cs, (low, high) :: ranges => low ≤ c.toNat && c.toNat ≤ high && scanUtf8 cs ranges

/-- The text is well formed UTF-8. -/
def IsUtf8 (text : String) : Prop := scanUtf8 text.toList [] = true

instance (text : String) : Decidable (IsUtf8 text) := inferInstanceAs (Decidable (_ = true))

/-- What follows whole characters is read off as it would be alone. -/
theorem scanUtf8_append {ranges : List (Nat × Nat)} {front : List Char}
    (h : scanUtf8 front ranges = true) (back : List Char) :
    scanUtf8 (front ++ back) ranges = scanUtf8 back [] := by
  induction front generalizing ranges with
  | nil =>
    have hranges : ranges = [] := by simpa [scanUtf8] using h
    rw [hranges, List.nil_append]
  | cons c cs ih =>
    rw [List.cons_append]
    cases ranges with
    | nil =>
      rw [scanUtf8] at h ⊢
      cases hc : continuations c.toNat with
      | none => simp [hc] at h
      | some ranges =>
        simp only [hc] at h ⊢
        exact ih h
    | cons range ranges =>
      simp only [scanUtf8, Bool.and_eq_true] at h ⊢
      rw [ih h.2]
      simp [h.1]

/-- A well formed text in front of another one. -/
theorem isUtf8_append {front : String} (h : IsUtf8 front) (back : String) :
    IsUtf8 (front ++ back) ↔ IsUtf8 back := by
  rw [IsUtf8, String.toList_append, scanUtf8_append h]
  rfl

/-- Well formed texts one after another. -/
theorem IsUtf8.append {front back : String} (h : IsUtf8 front) (h' : IsUtf8 back) :
    IsUtf8 (front ++ back) := (isUtf8_append h back).mpr h'

theorem scanUtf8_ascii {cs : List Char} (h : ∀ c ∈ cs, c.toNat < 0x80) :
    scanUtf8 cs [] = true := by
  induction cs with
  | nil => rfl
  | cons c cs ih =>
    have hc : continuations c.toNat = some [] := by
      have hlt : c.toNat < 0x80 := h c (by simp)
      simp [continuations, hlt]
    rw [scanUtf8, hc]
    exact ih fun c' hc' => h c' (by simp [hc'])

/-- A text of ASCII characters is well formed. -/
theorem isUtf8_of_ascii {text : String} (h : ∀ c ∈ text.toList, c.toNat < 0x80) :
    IsUtf8 text := scanUtf8_ascii h

/-- The first byte of a character alone is not well formed. -/
example : ¬ IsUtf8 "last read: 'Ã'" := by decide

end YirangMQ

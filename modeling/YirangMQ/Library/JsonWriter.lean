import YirangMQ.Library.JsonText
import YirangMQ.Library.SqlText

namespace YirangMQ

/-!
# Written documents between apostrophes

A JSON library escapes control characters, quotation marks and backslashes in the strings of a
document, and copies the rest.

* `JsonLibrary.Escapes` — what that says about NUL characters and apostrophes;
* `JsonLibrary.Escapes.plain_iff` — when the text of a document can stand between apostrophes;
* `JsonLibrary.writer` — a lawful library that escapes.
-/

/-- The text of a document has no NUL character, and the apostrophes of its strings. -/
structure JsonLibrary.Escapes (lib : JsonLibrary) : Prop where
  nul : ∀ j text, lib.dump j = .ok text → '\x00' ∉ text.toList
  apostrophe : ∀ j text, lib.dump j = .ok text →
    ('\'' ∈ text.toList ↔ ∃ v ∈ j.strings, '\'' ∈ v.toList)

/-- The text of a document can stand between apostrophes when its strings contain none. -/
theorem JsonLibrary.Escapes.plain_iff {lib : JsonLibrary} (h : lib.Escapes) {j : Json String}
    {text : String} (htext : lib.dump j = .ok text) :
    SqlText.Plain text ↔ ∀ v ∈ j.strings, '\'' ∉ v.toList := by
  have hnul : '\x00' ∉ text.toList := h.nul j text htext
  rw [SqlText.Plain, h.apostrophe j text htext]
  simp [hnul]

/-! ### A library that escapes -/

/-- A control character as `\\u00XX`; every other character as it is. -/
def escapeControl (c : Char) : List Char :=
  if c.toNat < 32 then
    ['\\', 'u', '0', '0', Nat.digitChar (c.toNat / 16), Nat.digitChar (c.toNat % 16)]
  else [c]

/-- A joined text has a character other than the comma exactly when one of the parts has it. -/
theorem mem_intercalate {c : Char} (hc : c ≠ ',') (l : List String) :
    c ∈ (",".intercalate l).toList ↔ ∃ s ∈ l, c ∈ s.toList := by
  induction l with
  | nil => simp
  | cons s l ih =>
    by_cases hl : l = []
    · simp [hl]
    · rw [String.intercalate_cons_of_ne_nil hl, String.toList_append, String.toList_append,
        List.mem_append, List.mem_append, ih]
      simp [hc]

/-- No apostrophe is in the digits of an integer. -/
theorem apostrophe_int (n : Int) : '\'' ∉ (toString n).toList := by
  have hnat : ∀ k : ℕ, '\'' ∉ (toString k).toList := fun k hmem =>
    absurd (SqlText.isDigit_digits k _ hmem) (by decide)
  cases n with
  | ofNat n => exact hnat n
  | negSucc n =>
    rw [show toString (Int.negSucc n) = "-" ++ toString (n + 1) from rfl, String.toList_append]
    simpa using hnat (n + 1)

/-- No apostrophe is in the text of a rational number. -/
theorem apostrophe_rat (q : ℚ) : '\'' ∉ (toString q).toList := by
  have hnum : '\'' ∉ (toString q.num).toList := apostrophe_int q.num
  have hden : '\'' ∉ (toString q.den).toList := apostrophe_int q.den
  have htext : toString q =
      if q.den = 1 then toString q.num else toString q.num ++ "/" ++ toString q.den := rfl
  rw [htext]
  split
  · exact hnum
  · rw [String.toList_append, String.toList_append, List.mem_append, List.mem_append]
    exact not_or.mpr ⟨not_or.mpr ⟨hnum, by decide⟩, hden⟩

namespace Json

/-- Quoting adds no apostrophe and drops none. -/
theorem apostrophe_quoted (v : String) : '\'' ∈ (quoted v).toList ↔ '\'' ∈ v.toList := by
  have hchar : ∀ c : Char,
      '\'' ∈ (if c = '"' ∨ c = '\\' then "\\" ++ String.singleton c
        else if c = '\n' then "\\n" else String.singleton c).toList ↔ '\'' = c := by
    intro c
    split
    case isTrue h =>
      rcases h with rfl | rfl <;> decide
    case isFalse =>
      split
      case isTrue h => exact h ▸ by decide
      case isFalse => simp
  unfold quoted
  simp only [String.toList_append, String.toList_join, List.mem_append, List.mem_flatMap,
    List.mem_map, exists_exists_and_eq_and, hchar]
  simp

mutual

/-- The text of a document has an apostrophe exactly when one of its strings has one. -/
theorem apostrophe_render : ∀ j : Json String,
    '\'' ∈ j.render.toList ↔ ∃ v ∈ j.strings, '\'' ∈ v.toList
  | .null => by simp [render, strings]
  | .bool b => by cases b <;> simp [render, strings, toString]
  | .int n => ⟨fun h => absurd h (apostrophe_int n), by simp [strings]⟩
  | .real q => ⟨fun h => absurd h (apostrophe_rat q), by simp [strings]⟩
  | .str s => by simp [render, strings, apostrophe_quoted]
  | .arr items => by
    simp only [render, strings, String.toList_append, List.mem_append,
      mem_intercalate (show '\'' ≠ ',' by decide), apostrophe_renderItems items]
    simp
  | .obj fields => by
    simp only [render, strings, String.toList_append, List.mem_append,
      mem_intercalate (show '\'' ≠ ',' by decide), apostrophe_renderFields fields]
    simp

/-- The same of the items of an array. -/
theorem apostrophe_renderItems : ∀ items : List (Json String),
    (∃ s ∈ renderItems items, '\'' ∈ s.toList) ↔ ∃ v ∈ stringsOfItems items, '\'' ∈ v.toList
  | [] => by simp [renderItems, stringsOfItems]
  | item :: items => by
    have hitem := apostrophe_render item
    have hitems := apostrophe_renderItems items
    simp only [renderItems, stringsOfItems, List.mem_cons, List.mem_append, or_and_right,
      exists_or, exists_eq_left, hitem, hitems]

/-- The same of the fields of an object, names included. -/
theorem apostrophe_renderFields : ∀ fields : List (String × Json String),
    (∃ s ∈ renderFields fields, '\'' ∈ s.toList) ↔ ∃ v ∈ stringsOfFields fields, '\'' ∈ v.toList
  | [] => by simp [renderFields, stringsOfFields]
  | (name, value) :: fields => by
    have hvalue := apostrophe_render value
    have hfields := apostrophe_renderFields fields
    simp only [renderFields, stringsOfFields, List.mem_cons, List.mem_append, or_and_right,
      exists_or, exists_eq_left, String.toList_append, apostrophe_quoted, hvalue, hfields]
    simp [or_assoc]

end

end Json

/-- Escaping leaves no NUL character and neither adds nor drops an apostrophe. -/
theorem escapeControl_spec (c : Char) :
    '\x00' ∉ escapeControl c ∧ ('\'' ∈ escapeControl c ↔ '\'' = c) := by
  unfold escapeControl
  split
  case isTrue h =>
    have hdigits : ∀ n < 32, Nat.digitChar (n / 16) ≠ '\x00' ∧ Nat.digitChar (n / 16) ≠ '\'' ∧
        Nat.digitChar (n % 16) ≠ '\x00' ∧ Nat.digitChar (n % 16) ≠ '\'' := by decide
    obtain ⟨h₁, h₂, h₃, h₄⟩ := hdigits c.toNat h
    have hne : '\'' ≠ c := by
      rintro rfl
      exact absurd h (by decide)
    simp [h₁.symm, h₂.symm, h₃.symm, h₄.symm, hne]
  case isFalse h =>
    have hne : '\x00' ≠ c := by
      rintro rfl
      exact h (by decide)
    simp [hne]

/-- A library that writes every document of well formed strings, and reads none. -/
def JsonLibrary.writer : JsonLibrary where
  parse text := .error ("parse error; last read: " ++ text)
  dump j :=
    if j.WellEncoded then .ok (String.ofList (j.render.toList.flatMap escapeControl))
    else .error "invalid UTF-8 byte"
  typeError wanted _ := if IsUtf8 wanted then "type must be " ++ wanted else "type error"

/-- The writer reads back what it has written, by its table. -/
theorem JsonLibrary.lawful_writer : writer.Lawful where
  wellEncoded text j hparse := by cases hparse
  written j hj := ⟨_, if_pos hj⟩
  refused j hj := ⟨_, if_neg hj, by decide⟩
  typeError_utf8 wanted j := by
    unfold writer
    dsimp only
    split
    case isTrue hwanted => exact (isUtf8_append (by decide) wanted).mpr hwanted
    case isFalse => decide

/-- A text that the writer gives is the rendered document with its control characters escaped. -/
theorem JsonLibrary.dump_writer {j : Json String} {text : String}
    (h : writer.dump j = .ok text) : text = String.ofList (j.render.toList.flatMap escapeControl) := by
  unfold writer at h
  dsimp only at h
  split at h
  case isTrue => exact (Except.ok.inj h).symm
  case isFalse => cases h

/-- The writer's texts have no NUL character, and apostrophes only from the strings. -/
theorem JsonLibrary.escapes_writer : writer.Escapes where
  nul j text h := by
    rw [dump_writer h, String.toList_ofList, List.mem_flatMap]
    rintro ⟨c, -, hc⟩
    exact (escapeControl_spec c).1 hc
  apostrophe j text h := by
    rw [dump_writer h, String.toList_ofList, List.mem_flatMap, ← Json.apostrophe_render]
    simp [(escapeControl_spec _).2]

end YirangMQ

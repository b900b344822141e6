import YirangMQ.Library.CodePoints
import YirangMQ.Mailbox.Validator

namespace YirangMQ.Mailbox

/-!
# Length rules

A `minLength` or `maxLength` rule compares its bound with the length of a `std::string`, which is
its number of bytes; its message speaks of characters.

* `exists_chars` — the string fields of a payload are encodings of code points;
* `minLength_accepts_iff`, `maxLength_accepts_iff` — what the rules compare;
* `length_rules_iff` — **they count the code points exactly for the bounds that do not lie between
  the two numbers, and for all bounds exactly when the string is in ASCII**;
* `maxLength_rejects_two` — two characters that are too many for a limit of three.
-/

variable {libs : Libraries} {payload : Json String} {rule : ValidationRule} {chars : List Char}

/-- The rule has no error to report. -/
def ValidationRule.Accepts (libs : Libraries) (payload : Json String) (rule : ValidationRule) :
    Prop := rule.validate libs payload = .ok none

/-- A string field of a payload that was read is an encoding of code points. -/
theorem exists_chars (hlib : libs.Lawful) {text field value : String}
    (hparse : libs.parse text = .ok payload) (hget : payload.get? field = some (.str value)) :
    ∃ chars, value = encode chars := by
  have hpayload : payload.WellEncoded := hlib.wellEncoded text payload hparse
  have hvalue : IsUtf8 value := (Json.wellEncoded_str value).mp (hpayload.get? hget)
  exact exists_encode hvalue

theorem minLength_accepts_iff (hget : payload.get? rule.field = some (.str (encode chars)))
    (n : Int) :
    ({ rule with type := .minLength, minLength := n } : ValidationRule).Accepts libs payload ↔
      n ≤ (encode chars).length := by
  simp only [ValidationRule.Accepts, ValidationRule.validate, ValidationRule.failsAt, hget]
  by_cases h : ((encode chars).length : Int) < n
  · simp [h]
  · simpa [h] using Int.not_lt.mp h

theorem maxLength_accepts_iff (hget : payload.get? rule.field = some (.str (encode chars)))
    (n : Int) :
    ({ rule with type := .maxLength, maxLength := n } : ValidationRule).Accepts libs payload ↔
      (encode chars).length ≤ n := by
  simp only [ValidationRule.Accepts, ValidationRule.validate, ValidationRule.failsAt, hget]
  by_cases h : n < ((encode chars).length : Int)
  · simp [h]
  · simpa [h] using Int.not_lt.mp h

/-- A length rule on the field accepts a string of so many characters as its message says. -/
structure CountsCharacters (libs : Libraries) (payload : Json String) (rule : ValidationRule)
    (characters : Nat) (n : Int) : Prop where
  minLength :
    ({ rule with type := .minLength, minLength := n } : ValidationRule).Accepts libs payload ↔
      n ≤ characters
  maxLength :
    ({ rule with type := .maxLength, maxLength := n } : ValidationRule).Accepts libs payload ↔
      characters ≤ n

/-- One bound is met by the bytes and by the characters alike. -/
theorem countsCharacters_iff (hget : payload.get? rule.field = some (.str (encode chars)))
    (n : Int) :
    CountsCharacters libs payload rule chars.length n ↔
      ¬(chars.length < n ∧ n ≤ (encode chars).length) ∧
      ¬(chars.length ≤ n ∧ n < (encode chars).length) := by
  have hle := length_le_encode chars
  have hmin : ((n ≤ (encode chars).length) ↔ n ≤ chars.length) ↔
      ¬(chars.length < n ∧ n ≤ (encode chars).length) := by omega
  have hmax : (((encode chars).length ≤ n) ↔ chars.length ≤ n) ↔
      ¬(chars.length ≤ n ∧ n < (encode chars).length) := by omega
  rw [← hmin, ← hmax]
  constructor
  · intro h
    rw [← minLength_accepts_iff hget, ← maxLength_accepts_iff hget]
    exact ⟨h.minLength, h.maxLength⟩
  · intro h
    rw [← minLength_accepts_iff hget, ← maxLength_accepts_iff hget] at h
    exact ⟨h.1, h.2⟩

/-- **A length rule counts the code points exactly when its bound does not lie between their number
    and the number of bytes; it does so for every bound exactly when the string is in ASCII.** -/
theorem length_rules_iff (libs : Libraries) (payload : Json String) (rule : ValidationRule)
    (chars : List Char) (hget : payload.get? rule.field = some (.str (encode chars))) :
    (∀ n : Int, CountsCharacters libs payload rule chars.length n ↔
      ¬(chars.length < n ∧ n ≤ (encode chars).length) ∧
      ¬(chars.length ≤ n ∧ n < (encode chars).length)) ∧
    ((∀ n : Int, CountsCharacters libs payload rule chars.length n) ↔
      ∀ c ∈ chars, c.toNat < 0x80) := by
  have hbound : ∀ n : Int, CountsCharacters libs payload rule chars.length n ↔
      ¬(chars.length < n ∧ n ≤ (encode chars).length) ∧
      ¬(chars.length ≤ n ∧ n < (encode chars).length) := countsCharacters_iff hget
  refine ⟨hbound, ?_⟩
  rw [← length_encode_eq_iff]
  have hle := length_le_encode chars
  constructor
  · intro hall
    have hchars := (hbound chars.length).mp (hall chars.length)
    omega
  · intro heq n
    rw [hbound n, heq]
    omega

/-- A field with the two characters of a Korean word. -/
def namePayload : Json String := .obj [("name", .str (encode ['이', '름']))]

theorem length_rules_iff_name :
    (∀ n : Int, CountsCharacters (.ofTable []) namePayload { field := "name", type := .minLength }
        2 n ↔ ¬(2 < n ∧ n ≤ 6) ∧ ¬(2 ≤ n ∧ n < 6)) ∧
    ((∀ n : Int, CountsCharacters (.ofTable []) namePayload
        { field := "name", type := .minLength } 2 n) ↔ ∀ c ∈ ['이', '름'], c.toNat < 0x80) :=
  length_rules_iff (.ofTable []) namePayload { field := "name", type := .minLength } ['이', '름'] rfl

theorem maxLength_rejects_two : ['이', '름'].length ≤ 3 ∧
    ({ field := "name", type := .maxLength, maxLength := 3 } : ValidationRule).validate
      (.ofTable []) namePayload = .ok (some "field 'name' must be at most 3 characters") := by
  exact ⟨by decide, rfl⟩

end YirangMQ.Mailbox

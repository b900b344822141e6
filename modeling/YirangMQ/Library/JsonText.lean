import YirangMQ.Library.Json
import YirangMQ.Library.Utf8

namespace YirangMQ

/-!
# JSON texts

Documents are read from texts and written to texts by a library.  It writes a document
whose strings are well formed UTF-8 and refuses any other, and it reads only such documents; the
text of its error for a text it cannot read is not restricted.

* `Json.strings` — the strings of a document, names of fields included;
* `JsonLibrary` — `parse` and `dump`;
* `JsonLibrary.Lawful` — what is known of them;
* `JsonLibrary.ofTable` — a lawful library that reads the texts of a table.
-/

namespace Json

variable {S : Type}

/-- `j.contains(k) && j[k].is_string()`, with the string. -/
def getStr? (j : Json String) (k : String) : Option String :=
  match j.get? k with
  | some (.str s) => some s
  | _ => none

mutual

/-- The strings of a document, names of fields included. -/
def strings : Json S → List S
  | .str s => [s]
  | .arr items => stringsOfItems items
  | .obj fields => stringsOfFields fields
  | _ => []

/-- The strings of the items of an array. -/
def stringsOfItems : List (Json S) → List S
  | [] => []
  | item :: items => item.strings ++ stringsOfItems items

/-- The strings of the fields of an object. -/
def stringsOfFields : List (S × Json S) → List S
  | [] => []
  | (name, value) :: fields => name :: (value.strings ++ stringsOfFields fields)

end

/-- All strings of the document are well formed. -/
def WellEncoded (j : Json String) : Prop := ∀ s ∈ j.strings, IsUtf8 s

/-- Whether a document is well encoded can be computed. -/
instance (j : Json String) : Decidable j.WellEncoded :=
  inferInstanceAs (Decidable (∀ s ∈ j.strings, IsUtf8 s))

/-- A string is well encoded as a document when it is UTF-8. -/
@[simp] theorem wellEncoded_str (s : String) : WellEncoded (.str s) ↔ IsUtf8 s := by
  simp [WellEncoded, strings]

/-- A number is well encoded. -/
@[simp] theorem wellEncoded_int (n : Int) : WellEncoded (.int n) := by
  simp [WellEncoded, strings]

/-- A boolean is well encoded. -/
@[simp] theorem wellEncoded_bool (b : Bool) : WellEncoded (.bool b) := by
  simp [WellEncoded, strings]

/-- `null` is well encoded. -/
@[simp] theorem wellEncoded_null : WellEncoded .null := by
  simp [WellEncoded, strings]

/-- The empty object is well encoded. -/
@[simp] theorem wellEncoded_empty : WellEncoded (.obj []) := by
  simp [WellEncoded, strings, stringsOfFields]

/-- An object is well formed when its names and its values are. -/
theorem wellEncoded_cons (name : String) (value : Json String)
    (fields : List (String × Json String)) :
    WellEncoded (.obj ((name, value) :: fields)) ↔
      IsUtf8 name ∧ WellEncoded value ∧ WellEncoded (.obj fields) := by
  simp [WellEncoded, strings, stringsOfFields, or_imp, forall_and]

/-- A field of a well formed object is well formed. -/
theorem WellEncoded.get? {j v : Json String} {k : String} (h : j.WellEncoded)
    (hget : j.get? k = some v) : v.WellEncoded := by
  cases j <;> simp only [Json.get?, reduceCtorEq] at hget
  case obj fields =>
    induction fields with
    | nil => simp at hget
    | cons field fields ih =>
      obtain ⟨name, value⟩ := field
      obtain ⟨-, hvalue, hfields⟩ := (wellEncoded_cons name value fields).mp h
      rw [List.lookup_cons] at hget
      cases hname : k == name with
      | true =>
        simp only [hname, Option.some.injEq] at hget
        exact hget ▸ hvalue
      | false =>
        simp only [hname] at hget
        exact ih hfields hget

/-- A string in a well encoded document is UTF-8. -/
theorem WellEncoded.getStr? {j : Json String} {k s : String} (h : j.WellEncoded)
    (hget : j.getStr? k = some s) : IsUtf8 s := by
  unfold Json.getStr? at hget
  split at hget
  case h_1 s' hs' =>
    have hs : IsUtf8 s' := (wellEncoded_str s').mp (h.get? hs')
    exact Option.some.inj hget ▸ hs
  case h_2 => cases hget

/-- A string read off a well formed document is well formed, when the default is. -/
theorem WellEncoded.valueStr {j : Json String} {k d s : String} (h : j.WellEncoded)
    (hd : IsUtf8 d) (hvalue : j.valueStr k d = some s) : IsUtf8 s := by
  cases j <;> simp only [Json.valueStr, reduceCtorEq] at hvalue
  case obj fields =>
    cases hget : fields.lookup k with
    | none =>
      rw [hget] at hvalue
      exact Option.some.inj hvalue ▸ hd
    | some v =>
      have hv : v.WellEncoded := h.get? (k := k) hget
      rw [hget] at hvalue
      cases v <;> simp_all

/-- A string between quotes, with the characters escaped that must be. -/
def quoted (s : String) : String :=
  "\"" ++ String.join (s.toList.map fun c =>
    if c = '"' ∨ c = '\\' then "\\" ++ String.singleton c
    else if c = '\n' then "\\n" else String.singleton c) ++ "\""

mutual

/-- The document as a text. -/
def render : Json String → String
  | .null => "null"
  | .bool b => toString b
  | .int n => toString n
  | .real q => toString q
  | .str s => quoted s
  | .arr items => "[" ++ ",".intercalate (renderItems items) ++ "]"
  | .obj fields => "\x7b" ++ ",".intercalate (renderFields fields) ++ "\x7d"

/-- The texts of the items of an array. -/
def renderItems : List (Json String) → List String
  | [] => []
  | item :: items => item.render :: renderItems items

/-- The texts of the fields of an object, names included. -/
def renderFields : List (String × Json String) → List String
  | [] => []
  | (name, value) :: fields => (quoted name ++ ":" ++ value.render) :: renderFields fields

end

end Json

/-- The functions of a JSON library; `parse` and `dump` fail with the text of an exception, and
    `typeError` is the text of the exception for a value that is not of the wanted type. -/
structure JsonLibrary where
  parse : String → Except String (Json String)
  dump : Json String → Except String String
  typeError : String → Json String → String

namespace JsonLibrary

/-- What the library guarantees. -/
structure Lawful (lib : JsonLibrary) : Prop where
  /-- A text is read as a document of well formed strings. -/
  wellEncoded : ∀ text j, lib.parse text = .ok j → j.WellEncoded
  /-- A document of well formed strings is written. -/
  written : ∀ j, j.WellEncoded → ∃ text, lib.dump j = .ok text
  /-- Any other document is refused, with the text of an exception that names one byte. -/
  refused : ∀ j, ¬ j.WellEncoded → ∃ text, lib.dump j = .error text ∧ IsUtf8 text
  /-- The texts about types name types only. -/
  typeError_utf8 : ∀ wanted j, IsUtf8 (lib.typeError wanted j)

variable (lib : JsonLibrary)

/-- `j.value(k, d)` at a string, with its exception. -/
def valueStr (j : Json String) (k d : String) : Except String String :=
  match j.valueStr k d with
  | some s => .ok s
  | none => .error (lib.typeError "string" ((j.get? k).getD j))

/-- `j.value(k, d)` at an `int64_t`, with its exception. -/
def valueInt (j : Json String) (k : String) (d : Int) : Except String Int :=
  match j.valueInt k d with
  | some n => .ok n
  | none => .error (lib.typeError "number" ((j.get? k).getD j))

/-- `j.value(k, d)` at an `int32_t`, which takes a boolean for 0 or 1 and cuts a longer integer
    off, with its exception. -/
def valueInt32 (j : Json String) (k : String) (d : Int) : Except String Int :=
  match j.get? k with
  | some (.bool b) => .ok b.toInt
  | _ => (lib.valueInt j k d).map fun n => (BitVec.ofInt 32 n).toInt

/-- `j.value(k, d)` at a `bool`, with its exception. -/
def valueBool (j : Json String) (k : String) (d : Bool) : Except String Bool :=
  match j.get? k with
  | none => .ok d
  | some (.bool b) => .ok b
  | some v => .error (lib.typeError "boolean" v)

variable {lib}

/-- The exception of a string that is none is UTF-8. -/
theorem Lawful.valueStr_error (hlib : lib.Lawful) {j : Json String} {k d e : String}
    (h : lib.valueStr j k d = .error e) : IsUtf8 e := by
  unfold valueStr at h
  split at h
  case h_1 => cases h
  case h_2 => exact Except.error.inj h ▸ hlib.typeError_utf8 _ _

/-- The exception of a number that is none is UTF-8. -/
theorem Lawful.valueInt_error (hlib : lib.Lawful) {j : Json String} {k e : String} {d : Int}
    (h : lib.valueInt j k d = .error e) : IsUtf8 e := by
  unfold valueInt at h
  split at h
  case h_1 => cases h
  case h_2 => exact Except.error.inj h ▸ hlib.typeError_utf8 _ _

/-- So is that of a number of 32 bits. -/
theorem Lawful.valueInt32_error (hlib : lib.Lawful) {j : Json String} {k e : String} {d : Int}
    (h : lib.valueInt32 j k d = .error e) : IsUtf8 e := by
  unfold valueInt32 at h
  split at h
  case h_1 => cases h
  case h_2 =>
    cases hvalue : lib.valueInt j k d with
    | ok n => simp [hvalue, Except.map] at h
    | error text =>
      have htext : text = e := by simpa [hvalue, Except.map] using h
      exact htext ▸ hlib.valueInt_error hvalue

/-- So is that of a boolean that is none. -/
theorem Lawful.valueBool_error (hlib : lib.Lawful) {j : Json String} {k e : String} {d : Bool}
    (h : lib.valueBool j k d = .error e) : IsUtf8 e := by
  unfold valueBool at h
  split at h
  case h_3 => exact Except.error.inj h ▸ hlib.typeError_utf8 _ _
  all_goals cases h

/-- A library that reads the texts of a table. -/
def ofTable (table : List (String × Json String)) : JsonLibrary where
  parse text :=
    match table.lookup text with
    | some j => .ok j
    | none => .error ("parse error; last read: " ++ text)
  dump j := if j.WellEncoded then .ok j.render else .error "invalid UTF-8 byte"
  typeError wanted _ := if IsUtf8 wanted then "type must be " ++ wanted else "type error"

/-- A library that knows finitely many texts is lawful when their documents are well encoded. -/
theorem lawful_ofTable {table : List (String × Json String)}
    (h : ∀ entry ∈ table, entry.2.WellEncoded) : (ofTable table).Lawful where
  wellEncoded text j hparse := by
    unfold ofTable at hparse
    dsimp only at hparse
    split at hparse
    case h_1 j' hlookup =>
      obtain rfl := Except.ok.inj hparse
      obtain ⟨front, back, rfl, -⟩ := List.lookup_eq_some_iff.mp hlookup
      exact h (text, j') (by simp)
    case h_2 => cases hparse
  written j hj := ⟨j.render, if_pos hj⟩
  refused j hj := ⟨_, if_neg hj, by decide⟩
  typeError_utf8 wanted j := by
    unfold ofTable
    dsimp only
    split
    case isTrue hwanted => exact (isUtf8_append (by decide) wanted).mpr hwanted
    case isFalse => decide

end JsonLibrary

end YirangMQ

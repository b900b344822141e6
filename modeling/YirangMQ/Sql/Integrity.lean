import YirangMQ.Sql.Tables

namespace YirangMQ

open Table

/-!
# Integrity of the tables

What the constraints of `kv` and the foreign key give, whatever keys and statements are used:
keys are distinct in both tables, also where `msg_index` declares no primary key, and every
index row refers to a value.

* `Tables.Integrity` — the integrity of the tables;
* `Integrity.updateIndex`, `Integrity.updateKvValue`, `Integrity.deleteKv`,
  `Integrity.insertKv`, `Integrity.insertMessage` — the statements that keep it;
* `Backed` — what every row and its value are to each other, with a lemma for each statement;
* `policyKey_ne` — the keys of policies and of messages differ.
-/

namespace Tables

variable {t : Tables} {key k : String}

/-- Keys are distinct in both tables, and every index row refers to a value. -/
structure Integrity (t : Tables) : Prop where
  kvKeyed : Keyed KvRow.key t.kv
  indexKeyed : Keyed IndexRow.messageKey t.index
  referenced : ∀ k ∈ t.indexKeys, t.value? k ≠ none

/-- The empty tables have integrity. -/
theorem integrity_empty : empty.Integrity :=
  ⟨List.nodup_nil, List.nodup_nil, by simp [empty, indexKeys]⟩

namespace Integrity

/-- The row of a key that the table has. -/
theorem row?_of_mem (h : t.Integrity) {r : IndexRow} (hr : r ∈ t.index) :
    t.row? r.messageKey = some r := h.indexKeyed.row?_of_mem hr

/-- An update of the index that keeps keys keeps it. -/
theorem updateIndex (h : t.Integrity) {p : IndexRow → Bool} {f : IndexRow → IndexRow}
    (hkey : ∀ r, (f r).messageKey = r.messageKey) : (t.updateIndex p f).Integrity where
  kvKeyed := h.kvKeyed
  indexKeyed := h.indexKeyed.update hkey
  referenced := by
    rw [indexKeys_updateIndex hkey]
    exact h.referenced

/-- So does an update of a value. -/
theorem updateKvValue (h : t.Integrity) (value : JsonText) (now : Int) :
    (t.updateKvValue key value now).Integrity where
  kvKeyed := h.kvKeyed.update fun _ => rfl
  indexKeyed := h.indexKeyed
  referenced k hk := by
    rw [value?_updateKvValue]
    have hvalue := h.referenced k hk
    split
    · simpa using hvalue
    · exact hvalue

/-- So does an edit of a value. -/
theorem editsValue {t' : Tables} (h : t.Integrity) {now : Int}
    {edit : Json String → Option (Json String)} (hedits : EditsValue key now edit t t') :
    t'.Integrity := by
  rcases hedits with rfl | ⟨j, j', -, -, rfl⟩
  · exact h
  · exact h.updateKvValue _ _

/-- So does a deletion, which takes the row with the value. -/
theorem deleteKv (h : t.Integrity) (key : String) : (t.deleteKv key).Integrity where
  kvKeyed := h.kvKeyed.delete
  indexKeyed := h.indexKeyed.delete
  referenced k hk := by
    obtain ⟨hmem, hne⟩ := mem_indexKeys_deleteKv.mp hk
    rw [(deleteKv_of_ne hne).1]
    exact h.referenced k hmem

/-- A new value. -/
theorem insertKv (h : t.Integrity) {row : KvRow} (hnew : row.key ∉ t.kv.map KvRow.key) :
    Integrity ⟨t.kv ++ [row], t.index⟩ where
  kvKeyed := h.kvKeyed.append hnew
  indexKeyed := h.indexKeyed
  referenced k hk := by
    rw [value?_append]
    simp [h.referenced k hk]

/-- A key without a value has no index row. -/
theorem not_mem_indexKeys (h : t.Integrity) (hnew : key ∉ t.kv.map KvRow.key) :
    key ∉ t.indexKeys := fun hmem => h.referenced _ hmem (value?_eq_none.mpr hnew)

/-- A new value and its index row. -/
theorem insertMessage (h : t.Integrity) {row : KvRow} {r : IndexRow}
    (hnew : row.key ∉ t.kv.map KvRow.key) (hkey : r.messageKey = row.key) :
    Integrity ⟨t.kv ++ [row], t.index ++ [r]⟩ where
  kvKeyed := h.kvKeyed.append hnew
  indexKeyed := h.indexKeyed.append (hkey ▸ h.not_mem_indexKeys hnew)
  referenced k hk := by
    rw [value?_append]
    simp only [indexKeys, List.map_append, List.mem_append] at hk
    rcases hk with hk | hk
    · simp [h.referenced k hk]
    · obtain rfl : k = r.messageKey := by simpa using hk
      simp [hkey]

/-- Deleting a key that has no value changes nothing. -/
theorem deleteKv_of_absent (h : t.Integrity) (habsent : t.value? key = none) :
    t.deleteKv key = t := by
  have hkv := value?_eq_none.mp habsent
  have hindex := h.not_mem_indexKeys hkv
  simp only [indexKeys, List.mem_map, not_exists, not_and] at hkv hindex
  cases t with
  | mk kv index =>
    simp only [Tables.deleteKv, delete, Tables.mk.injEq, List.filter_eq_self]
    exact ⟨fun r hr => by simpa using hkv r hr, fun r hr => by simpa using hindex r hr⟩

end Integrity

/-! ### Rows and their values -/

/-- Every index row has a value that is as `P` says of the two. -/
def Backed (P : IndexRow → Json String → Prop) (t : Tables) : Prop :=
  ∀ r ∈ t.index, ∃ j, t.value? r.messageKey = some (some j) ∧ P r j

namespace Backed

variable {P Q : IndexRow → Json String → Prop}

/-- What backs the rows may be weakened. -/
theorem weaken (h : t.Backed P) (hPQ : ∀ r j, P r j → Q r j) : t.Backed Q := by
  intro r hr
  obtain ⟨j, hj, hP⟩ := h r hr
  exact ⟨j, hj, hPQ r j hP⟩

/-- An index update that keeps keys, and `P` of the rows it changes. -/
theorem updateIndex (h : t.Backed P) {p : IndexRow → Bool} {f : IndexRow → IndexRow}
    (hkey : ∀ r, (f r).messageKey = r.messageKey)
    (hrows : ∀ r ∈ t.index, ∀ j, p r = true → P r j → P (f r) j) :
    (t.updateIndex p f).Backed P := by
  intro r hr
  obtain ⟨r, hmem, rfl⟩ := mem_update.mp hr
  obtain ⟨j, hj, hP⟩ := h r hmem
  split
  case isTrue hp =>
    refine ⟨j, ?_, hrows r hmem j hp hP⟩
    rw [value?_updateIndex, hkey]
    exact hj
  case isFalse => exact ⟨j, hj, hP⟩

/-- An edit of a key's value that keeps `P`. -/
theorem editsValue {t' : Tables} (h : t.Backed P) {time : Int}
    {edit : Json String → Option (Json String)}
    (hedit : ∀ r j j', edit j = some j' → P r j → P r j')
    (hedits : EditsValue key time edit t t') : t'.Backed P := by
  rcases hedits with rfl | ⟨i, i', hvalue, hi, rfl⟩
  · exact h
  · intro r hr
    obtain ⟨j, hj, hP⟩ := h r hr
    rw [value?_updateKvValue, hj]
    split
    case isTrue hkey =>
      rw [hkey, hvalue, Option.some.injEq, Option.some.injEq] at hj
      subst hj
      exact ⟨i', rfl, hedit r i i' hi hP⟩
    case isFalse => exact ⟨j, rfl, hP⟩

/-- Deleting a key leaves the other rows backed. -/
theorem deleteKv (h : t.Backed P) (key : String) : (t.deleteKv key).Backed P := by
  intro r hr
  obtain ⟨hmem, hne⟩ := List.mem_filter.mp hr
  rw [(deleteKv_of_ne (by simpa using hne)).1]
  exact h r hmem

/-- A new value of no row. -/
theorem insertKv (h : t.Backed P) (row : KvRow) : Backed P ⟨t.kv ++ [row], t.index⟩ := by
  intro r hr
  obtain ⟨j, hj, hP⟩ := h r hr
  refine ⟨j, ?_, hP⟩
  rw [value?_append, hj]
  rfl

/-- A value under a key that no row has. -/
theorem upsertKv (h : t.Backed P) {row : KvRow} (hother : row.key ∉ t.indexKeys) :
    (t.upsertKv row).Backed P := by
  unfold Tables.upsertKv
  split
  case isTrue =>
    intro r hr
    have hne : r.messageKey ≠ row.key := fun hkey => hother (hkey ▸ List.mem_map_of_mem hr)
    rw [value?_updateKvValue, if_neg hne]
    exact h r hr
  case isFalse => exact h.insertKv row

/-- A new value and its index row. -/
theorem insertMessage (h : t.Backed P) {row : KvRow} {r : IndexRow} {j : Json String}
    (hnew : row.key ∉ t.kv.map KvRow.key) (hkey : r.messageKey = row.key)
    (hvalue : row.value = some j) (hP : P r j) :
    Backed P ⟨t.kv ++ [row], t.index ++ [r]⟩ := by
  intro r' hr'
  rw [value?_append]
  rcases List.mem_append.mp hr' with hr' | hr'
  · obtain ⟨j', hj', hP'⟩ := h r' hr'
    exact ⟨j', by rw [hj']; rfl, hP'⟩
  · obtain rfl := List.mem_singleton.mp hr'
    refine ⟨j, ?_, hP⟩
    rw [hkey, value?_eq_none.mpr hnew, if_pos rfl, hvalue]
    rfl

end Backed

end Tables

/-- No message has the key of a policy. -/
theorem policyKey_ne (policyQueue queue id : String) :
    "policy:" ++ policyQueue ≠ messageKey queue id := by
  intro h
  have hlist := congrArg String.toList h
  simp [messageKey, String.toList_append] at hlist

end YirangMQ

import YirangMQ.Backend.Content
import YirangMQ.Sql.Integrity

namespace YirangMQ

open Table

/-!
# The columns of a message

No statement updates the key, the queue, the priority or the target of a row, so a row has
those of the message it was inserted for.

* `IndexRow.Describes` — the row has the columns of the message;
* `readyRow?_least` — no ready row comes before the selected one;
* `row?_updated`, `row?_inserted`, … — where the row of a key after a statement comes from.
-/

/-- The row has the key, the queue, the priority and the target of the message. -/
structure IndexRow.Describes (r : IndexRow) (m : MessageEnvelope) : Prop where
  key : r.messageKey = m.key
  queue : r.queue = m.queue
  priority : r.priority = m.priority
  target : r.targetConsumerId = m.targetConsumerId

/-- The update changes none of those columns. -/
def KeepsColumns (f : IndexRow → IndexRow) : Prop :=
  ∀ r, (f r).messageKey = r.messageKey ∧ (f r).queue = r.queue ∧ (f r).priority = r.priority ∧
    (f r).targetConsumerId = r.targetConsumerId

theorem IndexRow.Describes.update {r : IndexRow} {m : MessageEnvelope} (h : r.Describes m)
    {f : IndexRow → IndexRow} (hf : KeepsColumns f) : (f r).Describes m := by
  obtain ⟨hkey, hqueue, hpriority, htarget⟩ := hf r
  exact ⟨hkey.trans h.key, hqueue.trans h.queue, hpriority.trans h.priority, htarget.trans h.target⟩

namespace Tables

/-- **No ready row comes before the selected one.** -/
theorem readyRow?_least {t : Tables} {schema : SchemaFile} {queue c : String} {now : Int}
    {row : IndexRow} (h : t.readyRow? schema queue c now = some row) {r : IndexRow} (hr : r ∈ t.index)
    (hready : isReadyFor queue c now r = true) : precedes r row = false := by
  have hirrefl : ∀ r, precedes r r = false := by simp [precedes]
  have htrans : ∀ a b c, precedes b a = false → precedes c b = false → precedes c a = false := by
    intro a b c hba hcb
    simp only [precedes, decide_eq_false_iff_not, not_or, not_and, not_lt] at hba hcb ⊢
    refine ⟨hcb.1.trans hba.1, fun hca => ?_⟩
    -- equal priorities at both ends are equal in between
    have hcb' : c.priority = b.priority := le_antisymm hcb.1 (hca ▸ hba.1)
    have hba' : b.priority = a.priority := hcb'.symm.trans hca
    exact (hba.2 hba').trans (hcb.2 hcb')
  have hasymm : ∀ a b, precedes a b = true → precedes b a = false := by
    intro a b hab
    simp only [precedes, decide_eq_true_eq, decide_eq_false_iff_not, not_or, not_and,
      not_lt] at hab ⊢
    omega
  exact firstBy_least hirrefl htrans hasymm h r (mem_readyRows.mpr ⟨hr, hready⟩)

/-- **The largest number is served first**, as `ORDER BY priority DESC` says. -/
theorem readyRow?_priority {t : Tables} {schema : SchemaFile} {queue c : String} {now : Int}
    {row : IndexRow} (h : t.readyRow? schema queue c now = some row) {r : IndexRow} (hr : r ∈ t.index)
    (hready : isReadyFor queue c now r = true) : r.priority ≤ row.priority := by
  have hleast := readyRow?_least h hr hready
  simp only [precedes, decide_eq_false_iff_not, not_or, not_lt] at hleast
  exact hleast.1

/-- Of the ready rows of one priority, the selected one has been available longest. -/
theorem readyRow?_availableAt {t : Tables} {schema : SchemaFile} {queue c : String} {now : Int}
    {row : IndexRow} (h : t.readyRow? schema queue c now = some row) {r : IndexRow} (hr : r ∈ t.index)
    (hready : isReadyFor queue c now r = true) (hpriority : r.priority = row.priority) :
    row.availableAt ≤ r.availableAt := by
  have hleast := readyRow?_least h hr hready
  simp only [precedes, decide_eq_false_iff_not, not_or, not_and, not_lt] at hleast
  exact hleast.2 hpriority

/-- A row after an update was there before it, and is updated or as it was. -/
theorem row?_updated {t : Tables} {p : IndexRow → Bool} {f : IndexRow → IndexRow}
    (hf : ∀ r, (f r).messageKey = r.messageKey) {k : String} {r' : IndexRow}
    (h : (t.updateIndex p f).row? k = some r') :
    ∃ r, t.row? k = some r ∧ (r' = r ∨ p r = true ∧ r' = f r) := by
  rw [row?_updateIndex hf] at h
  obtain ⟨r, hrow, hr'⟩ := Option.map_eq_some_iff.mp h
  refine ⟨r, hrow, ?_⟩
  split at hr'
  case isTrue hp => exact .inr ⟨hp, hr'.symm⟩
  case isFalse => exact .inl hr'.symm

/-- Editing a value changes no row. -/
theorem row?_editsValue {t t' : Tables} {key : String} {time : Int}
    {edit : Json String → Option (Json String)} (hedits : EditsValue key time edit t t')
    (k : String) : t'.row? k = t.row? k := by
  rcases hedits with rfl | ⟨j, j', -, -, rfl⟩
  · rfl
  · exact row?_updateKvValue _ _

/-- A row left by a deletion was there before it. -/
theorem row?_deleted {t : Tables} {key k : String} {r : IndexRow}
    (h : (t.deleteKv key).row? k = some r) : t.row? k = some r := by
  by_cases hk : k = key
  · rw [hk, deleteKv_self.2] at h
    cases h
  · rwa [(deleteKv_of_ne hk).2] at h

/-- The row of a key after the insertion of a new one. -/
theorem row?_inserted {t : Tables} {kv : List KvRow} {row : IndexRow} {k : String} {r : IndexRow}
    (h : row? ⟨kv, t.index ++ [row]⟩ k = some r) :
    t.row? k = some r ∨ t.row? k = none ∧ row.messageKey = k ∧ r = row := by
  rw [row?, Table.row?_append] at h
  cases hrow : Table.row? IndexRow.messageKey t.index k with
  | some r' =>
    rw [hrow] at h
    exact .inl (hrow.trans h)
  | none =>
    rw [hrow, Option.none_or] at h
    split at h
    case isTrue hkey => exact .inr ⟨hrow, hkey, (Option.some.inj h).symm⟩
    case isFalse => cases h

end Tables

end YirangMQ

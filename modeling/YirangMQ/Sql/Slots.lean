import YirangMQ.Backend.Lifecycle
import YirangMQ.Sql.Integrity

namespace YirangMQ

open Table

/-!
# Rows as slots

Where a row of `msg_index` puts its message, and how statements on the index move messages.

* `IndexRow.slot`, `Tables.slot` — the slot of a row and of a key;
* `slot_updateIndex`, `slot_updateKvValue`, … — the slot of a key after a statement;
* `moves_updateIndex` — an update moves each message as it moves its row.
-/

/-- Where a row puts its message.  No row is ever archived. -/
def IndexRow.slot (r : IndexRow) : Slot where
  queue := r.queue
  target := r.targetConsumerId
  attempt := r.attempt
  phase :=
    match r.state with
    | .ready => .ready
    | .inflight => .inflight (r.leaseUntil.getD 0)
    | .delayed => .delayed r.availableAt
    | .dlq | .archived => .dlq

/-- A row with a lease time exactly when inflight is inflight until that time. -/
theorem IndexRow.slot_inflight_iff {r : IndexRow} {u : Int}
    (hlease : r.leaseUntil.isSome ↔ r.state = .inflight) :
    r.slot.phase = .inflight u ↔ r.state = .inflight ∧ r.leaseUntil = some u := by
  unfold IndexRow.slot
  cases hstate : r.state with
  | inflight =>
    obtain ⟨v, hv⟩ := Option.isSome_iff_exists.mp (hlease.mpr hstate)
    simp [hv]
  | _ => simp

/-- A row with an inflight slot is inflight. -/
theorem IndexRow.state_of_inflight {r : IndexRow} {u : Int} (h : r.slot.phase = .inflight u) :
    r.state = .inflight := by
  unfold IndexRow.slot at h
  cases hstate : r.state <;> simp [hstate] at h ⊢

/-- A row has a ready slot exactly when it is ready. -/
theorem IndexRow.slot_ready_iff {r : IndexRow} : r.slot.phase = .ready ↔ r.state = .ready := by
  unfold IndexRow.slot
  cases r.state <;> simp

namespace Tables

variable {t : Tables} {key k : String}

/-- Where the message of a key is. -/
def slot (t : Tables) (key : String) : Option Slot := (t.row? key).map IndexRow.slot

/-- The slot of a key after an update that keeps keys. -/
theorem slot_updateIndex {p : IndexRow → Bool} {f : IndexRow → IndexRow}
    (hf : ∀ r, (f r).messageKey = r.messageKey) :
    (t.updateIndex p f).slot k = (t.row? k).map fun r => (if p r then f r else r).slot := by
  rw [slot, row?_updateIndex hf, Option.map_map]
  rfl

/-- An update of rows takes no message away. -/
theorem slot_updateIndex_ne_none {p : IndexRow → Bool} {f : IndexRow → IndexRow}
    (hf : ∀ r, (f r).messageKey = r.messageKey) (hslot : t.slot k ≠ none) :
    (t.updateIndex p f).slot k ≠ none := by
  rw [slot_updateIndex hf]
  have hrow : t.row? k ≠ none := fun hnone => hslot (by rw [slot, hnone, Option.map_none])
  simpa using hrow

/-- Updating a value changes no slot. -/
@[simp] theorem slot_updateKvValue (value : JsonText) (now : Int) :
    (t.updateKvValue key value now).slot k = t.slot k := rfl

/-- Deleting a key takes its slot, and no other. -/
theorem slot_deleteKv :
    (t.deleteKv key).slot k = if k = key then none else t.slot k := by
  rw [slot]
  by_cases hk : k = key
  · rw [if_pos hk, hk, deleteKv_self.2]
    rfl
  · rw [if_neg hk, (deleteKv_of_ne hk).2]
    rfl

/-- Editing a value changes no slot. -/
theorem slot_editsValue {t' : Tables} {time : Int} {edit : Json String → Option (Json String)}
    (hedits : EditsValue key time edit t t') : t'.slot k = t.slot k := by
  rcases hedits with rfl | ⟨j, j', -, -, rfl⟩
  · rfl
  · exact slot_updateKvValue _ _

/-- A key with a slot is indexed. -/
theorem slot_ne_none (h : t.slot k ≠ none) : k ∈ t.indexKeys := by
  by_contra hnot
  apply h
  rw [slot, row?, Table.row?_eq_none.mpr hnot]
  rfl

/-- The slot of a new row, and of the others. -/
theorem slot_append {kv : List KvRow} {row : IndexRow} (hnew : row.messageKey ∉ t.indexKeys) :
    slot ⟨kv, t.index ++ [row]⟩ k = if row.messageKey = k then some row.slot else t.slot k := by
  rw [slot, row?, Table.row?_append]
  by_cases hk : row.messageKey = k
  · have hnone : Table.row? IndexRow.messageKey t.index k = none :=
      Table.row?_eq_none.mpr (hk ▸ hnew)
    rw [hnone, if_pos hk, if_pos hk]
    rfl
  · rw [if_neg hk, if_neg hk, Option.or_none]
    rfl

end Tables

section Moves

variable {names revives : String → Prop} {k : String} {now : Int} {t : Tables} {call : Call}
  {reply : Reply}

/-- **An update moves each message as it moves its row**, when every answer that owes a move
    is about an updated row. -/
theorem moves_updateIndex {p : IndexRow → Bool} {f : IndexRow → IndexRow}
    (hf : ∀ r, (f r).messageKey = r.messageKey)
    (hmove : ∀ r, t.row? k = some r → p r = true →
      Moves names revives k now call reply (some r.slot) (some (f r).slot))
    (howed : Owes names revives k call reply (t.slot k) → ∃ r, t.row? k = some r ∧ p r = true) :
    Moves names revives k now call reply (t.slot k) ((t.updateIndex p f).slot k) := by
  rw [Tables.slot_updateIndex hf, Tables.slot] at *
  cases hrow : t.row? k with
  | none =>
    rw [hrow] at howed
    refine .stay fun howes => ?_
    obtain ⟨r, hr, -⟩ := howed howes
    cases hr
  | some r =>
    rw [hrow] at howed
    rw [Option.map_some, Option.map_some]
    by_cases hp : p r = true
    · rw [if_pos hp]
      exact hmove r hrow hp
    · rw [if_neg hp]
      refine .stay fun howes => ?_
      obtain ⟨r', hr', hp'⟩ := howed howes
      rw [Option.some.injEq] at hr'
      exact hp (hr' ▸ hp')

/-- The row behind a slot. -/
theorem Tables.row?_of_slot {slot : Slot} (h : t.slot k = some slot) :
    ∃ r, t.row? k = some r ∧ r.messageKey = k ∧ r.slot = slot := by
  obtain ⟨r, hrow, hslot⟩ := Option.map_eq_some_iff.mp h
  exact ⟨r, hrow, row?_key hrow, hslot⟩

end Moves

/-- The row's key and queue are read as they are. -/
def IndexRow.Legible (r : IndexRow) : Prop :=
  '\x00' ∉ r.messageKey.toList ∧ '\x00' ∉ r.queue.toList

/-- A legible row is read as it is. -/
theorem IndexRow.Legible.expiredInfo {r : IndexRow} (h : r.Legible) :
    Tables.expiredInfo r = ⟨r.messageKey, r.queue, r.attempt⟩ := by
  rw [Tables.expiredInfo, Tables.columnText_eq_iff.mpr h.1, Tables.columnText_eq_iff.mpr h.2]

/-- The rows behind the list of expired leases, each once. -/
theorem Tables.expiredRows_perm (t : Tables) (now : Int) :
    (t.expiredRows now).Perm ((t.index.filter (isExpired now)).map Tables.expiredInfo) :=
  (List.perm_insertionSort _ _).map _

/-- What `get_expired_inflight_messages` lists are the leases that have ended. -/
theorem Tables.expired_slots {t : Tables} {env : Env} (h : t.Integrity)
    (hlease : ∀ r ∈ t.index, r.leaseUntil.isSome ↔ r.state = .inflight)
    (hlegible : ∀ r ∈ t.index, r.state = .inflight → r.Legible)
    {listed : List ExpiredLeaseInfo} (hsub : listed.Sublist (t.expiredRows env.now))
    (hall : env.faults = [] → listed = t.expiredRows env.now) :
    (listed.map ExpiredLeaseInfo.messageKey).Nodup ∧
    (∀ info ∈ listed, ∃ k target u, info.messageKey = k ∧ u < env.now ∧
      t.slot k = some ⟨info.queue, target, info.attempt, .inflight u⟩) ∧
    (env.faults = [] → ∀ k found u, t.slot k = some found → found.phase = .inflight u →
      u < env.now → ∃ info ∈ listed, info.messageKey = k) := by
  -- What is listed: the inflight rows whose lease has ended, with their keys as they are.
  have hexpired : ∀ r ∈ t.index.filter (isExpired env.now),
      r ∈ t.index ∧ r.state = .inflight ∧ r.leaseUntil.any (· < env.now) = true ∧
        expiredInfo r = ⟨r.messageKey, r.queue, r.attempt⟩ := by
    intro r hr
    obtain ⟨hmem, hr⟩ := List.mem_filter.mp hr
    simp only [isExpired, decide_eq_true_eq] at hr
    exact ⟨hmem, hr.1, hr.2, (hlegible r hmem hr.1).expiredInfo⟩
  refine ⟨?_, ?_, ?_⟩
  -- Keys are distinct in the index, and the sorting does not change that.
  · have hkeys : ((t.expiredRows env.now).map ExpiredLeaseInfo.messageKey).Perm
        ((t.index.filter (isExpired env.now)).map IndexRow.messageKey) := by
      refine ((t.expiredRows_perm env.now).map _).trans ?_
      rw [List.map_map, List.map_congr_left (g := IndexRow.messageKey)]
      intro r hr
      show (expiredInfo r).messageKey = r.messageKey
      rw [(hexpired r hr).2.2.2]
    have hnodup : ((t.expiredRows env.now).map ExpiredLeaseInfo.messageKey).Nodup :=
      hkeys.nodup_iff.mpr (h.indexKeyed.sublist (List.filter_sublist.map _))
    exact hnodup.sublist (hsub.map _)
  · intro info hinfo
    obtain ⟨r, hr, rfl⟩ := List.mem_map.mp ((t.expiredRows_perm env.now).subset (hsub.subset hinfo))
    obtain ⟨hmem, hstate, hbefore, hinfo⟩ := hexpired r hr
    obtain ⟨u, hu⟩ := Option.isSome_iff_exists.mp ((hlease r hmem).mpr hstate)
    have hphase : r.slot.phase = .inflight u :=
      (IndexRow.slot_inflight_iff (hlease r hmem)).mpr ⟨hstate, hu⟩
    rw [hinfo]
    refine ⟨r.messageKey, r.targetConsumerId, u, rfl, by simpa [hu] using hbefore, ?_⟩
    rw [slot, h.row?_of_mem hmem, Option.map_some, ← hphase]
    rfl
  -- Without faults every such row is listed.
  · intro hfaults k found u hslot hphase hu
    obtain ⟨r, hrow, hk, rfl⟩ := row?_of_slot hslot
    have hmem : r ∈ t.index := row?_mem hrow
    obtain ⟨hstate, huntil⟩ := (IndexRow.slot_inflight_iff (hlease r hmem)).mp hphase
    have hfound : r ∈ t.index.filter (isExpired env.now) :=
      List.mem_filter.mpr ⟨hmem, by simp [isExpired, hstate, huntil, hu]⟩
    rw [hall hfaults]
    refine ⟨_, (t.expiredRows_perm env.now).symm.subset (List.mem_map_of_mem hfound), ?_⟩
    rw [(hexpired r hfound).2.2.2]
    exact hk

end YirangMQ

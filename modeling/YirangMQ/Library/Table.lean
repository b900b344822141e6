import Mathlib.Data.List.Nodup

namespace YirangMQ

/-!
# Tables of keyed rows

A table is the list of its rows in the order of their insertion, and `key` reads a row's key.
A table need not declare the key unique: `Keyed` says that it is.

* `update`, `delete` — `UPDATE … WHERE`, `DELETE … WHERE`; `row?` — the first row of a key;
* `firstBy`, `firstBy_least` — `ORDER BY … LIMIT 1`, and that no row comes before its row;
* `Keyed.update`, `Keyed.delete`, `Keyed.append` — what keeps the keys distinct;
* `row?_update`, `row?_delete`, `row?_append` — what a key's row is after a statement.
-/

namespace Table

variable {ρ κ : Type} {key : ρ → κ} {rows : List ρ} {k : κ} {r : ρ}

/-- `UPDATE … SET f WHERE p` -/
def update (p : ρ → Bool) (f : ρ → ρ) (rows : List ρ) : List ρ :=
  rows.map fun r => if p r then f r else r

/-- `DELETE … WHERE p` -/
def delete (p : ρ → Bool) (rows : List ρ) : List ρ := rows.filter fun r => !p r

/-- `ORDER BY … LIMIT 1`, with the order as a comparison; among rows none of which comes before
    the other, the first inserted. -/
def firstBy (precedes : ρ → ρ → Bool) : List ρ → Option ρ
  | [] => none
  | r :: rows =>
    match firstBy precedes rows with
    | none => some r
    | some r' => if precedes r' r then some r' else some r

/-- The first row by an order is a row of the table. -/
theorem firstBy_mem {precedes : ρ → ρ → Bool} (h : firstBy precedes rows = some r) :
    r ∈ rows := by
  induction rows generalizing r with
  | nil => cases h
  | cons r₁ rows ih =>
    unfold firstBy at h
    split at h
    case h_1 => exact List.mem_cons.mpr (.inl (Option.some.inj h).symm)
    case h_2 r₂ hrest =>
      split at h
      case isTrue => exact Option.some.inj h ▸ List.mem_cons_of_mem _ (ih hrest)
      case isFalse => exact List.mem_cons.mpr (.inl (Option.some.inj h).symm)

/-- There is a first row unless there are no rows. -/
theorem firstBy_eq_none {precedes : ρ → ρ → Bool} : firstBy precedes rows = none ↔ rows = [] := by
  cases rows with
  | nil => simp [firstBy]
  | cons r rows =>
    unfold firstBy
    split
    case h_1 => simp
    case h_2 => split <;> simp

/-- **No row comes before the selected one**, when what does not come before is transitive. -/
theorem firstBy_least {precedes : ρ → ρ → Bool} (hirrefl : ∀ r, precedes r r = false)
    (htrans : ∀ a b c, precedes b a = false → precedes c b = false → precedes c a = false)
    (hasymm : ∀ a b, precedes a b = true → precedes b a = false)
    (h : firstBy precedes rows = some r) : ∀ r' ∈ rows, precedes r' r = false := by
  induction rows generalizing r with
  | nil => cases h
  | cons r₁ rows ih =>
    unfold firstBy at h
    split at h
    case h_1 hrest =>
      obtain rfl := Option.some.inj h
      rw [firstBy_eq_none.mp hrest]
      simpa using hirrefl r₁
    case h_2 r₂ hrest =>
      have hleast := ih hrest
      split at h
      case isTrue hfirst =>
        obtain rfl := Option.some.inj h
        intro r' hr'
        rcases List.mem_cons.mp hr' with rfl | hr'
        · exact hasymm _ _ hfirst
        · exact hleast r' hr'
      case isFalse hfirst =>
        obtain rfl := Option.some.inj h
        intro r' hr'
        rcases List.mem_cons.mp hr' with rfl | hr'
        · exact hirrefl r'
        · exact htrans _ _ _ (by simpa using hfirst) (hleast r' hr')

/-- No two rows have the same key. -/
def Keyed (key : ρ → κ) (rows : List ρ) : Prop := (rows.map key).Nodup

/-- The rows after an update. -/
theorem mem_update {p : ρ → Bool} {f : ρ → ρ} :
    r ∈ update p f rows ↔ ∃ r' ∈ rows, (if p r' then f r' else r') = r := List.mem_map

/-- An update that keeps a column keeps the list of its values. -/
theorem map_update {β : Type} {g : ρ → β} {p : ρ → Bool} {f : ρ → ρ}
    (hf : ∀ r, g (f r) = g r) : (update p f rows).map g = rows.map g := by
  induction rows with
  | nil => rfl
  | cons r rows ih =>
    simp only [update, List.map_cons, List.cons.injEq] at ih ⊢
    refine ⟨?_, ih⟩
    split
    · exact hf r
    · rfl

/-- An update that keeps keys keeps them distinct. -/
theorem Keyed.update {p : ρ → Bool} {f : ρ → ρ} (hkeyed : Keyed key rows)
    (hf : ∀ r, key (f r) = key r) : Keyed key (update p f rows) := by
  rw [Keyed, map_update hf]
  exact hkeyed

/-- So does a deletion. -/
theorem Keyed.delete {p : ρ → Bool} (hkeyed : Keyed key rows) : Keyed key (delete p rows) :=
  List.Nodup.sublist (List.filter_sublist.map _) hkeyed

/-- So does the insertion of a row under a new key. -/
theorem Keyed.append (hkeyed : Keyed key rows) (hfresh : key r ∉ rows.map key) :
    Keyed key (rows ++ [r]) := by
  rw [Keyed, List.map_append]
  exact List.Nodup.append hkeyed (by simp) (by simpa using hfresh)

/-! ### The row of a key -/

variable [DecidableEq κ]

/-- The first row of the key `k`. -/
def row? (key : ρ → κ) (rows : List ρ) (k : κ) : Option ρ := rows.find? (fun r => key r = k)

/-- The row of a key is in the table. -/
theorem row?_mem (h : row? key rows k = some r) : r ∈ rows := List.mem_of_find?_eq_some h

/-- The row of a key has that key. -/
theorem row?_key (h : row? key rows k = some r) : key r = k := by
  simpa using List.find?_some h

/-- A key has no row exactly when no row has that key. -/
theorem row?_eq_none : row? key rows k = none ↔ k ∉ rows.map key := by
  simp [row?, List.find?_eq_none]

/-- Where keys are distinct a row is the row of its key. -/
theorem Keyed.row?_of_mem (hkeyed : Keyed key rows) (hmem : r ∈ rows) :
    row? key rows (key r) = some r := by
  cases hrow : row? key rows (key r) with
  | none => exact absurd (List.mem_map_of_mem hmem) (row?_eq_none.mp hrow)
  | some r' =>
    rw [List.inj_on_of_nodup_map hkeyed (row?_mem hrow) hmem (row?_key hrow)]

/-- The row of a key after an update that keeps keys. -/
theorem row?_update {p : ρ → Bool} {f : ρ → ρ} (hf : ∀ r, key (f r) = key r) :
    row? key (update p f rows) k = (row? key rows k).map fun r => if p r then f r else r := by
  have hkey : (fun r => decide (key r = k)) ∘ (fun r => if p r then f r else r) =
      fun r => decide (key r = k) := by
    funext r
    by_cases hp : p r <;> simp [hp, hf]
  rw [row?, update, List.find?_map, hkey]
  rfl

/-- The row of a key stays when no row of that key is deleted. -/
theorem row?_delete_of_ne {p : ρ → Bool} (hp : ∀ r ∈ rows, p r = true → key r ≠ k) :
    row? key (delete p rows) k = row? key rows k := by
  induction rows with
  | nil => rfl
  | cons r rows ih =>
    have ih := ih fun r' hr' => hp r' (List.mem_cons_of_mem _ hr')
    by_cases hpr : p r = true
    · have hne : key r ≠ k := hp r List.mem_cons_self hpr
      simpa [delete, row?, hpr, hne] using ih
    · by_cases hk : key r = k
      · simp [delete, row?, hpr, hk]
      · simpa [delete, row?, hpr, hk] using ih

/-- Where keys are distinct the row of a key after a deletion. -/
theorem row?_delete (hkeyed : Keyed key rows) {p : ρ → Bool} :
    row? key (delete p rows) k = (row? key rows k).filter fun r => !p r := by
  cases hrow : row? key rows k with
  | none =>
    have hk := row?_eq_none.mp hrow
    refine row?_eq_none.mpr fun hmem => hk ?_
    exact (List.filter_sublist.map key).subset hmem
  | some r =>
    have hsame : ∀ r' ∈ rows, key r' = k → r' = r := fun r' hr' hk' =>
      List.inj_on_of_nodup_map hkeyed hr' (row?_mem hrow) (hk'.trans (row?_key hrow).symm)
    by_cases hp : p r = true
    · have hgone : row? key (delete p rows) k = none := by
        rw [row?_eq_none]
        simp only [delete, List.mem_map, List.mem_filter]
        rintro ⟨r', ⟨hr', hpr'⟩, hk'⟩
        simp [hsame r' hr' hk', hp] at hpr'
      simp [hgone, Option.filter, hp]
    · rw [row?_delete_of_ne fun r' hr' hpr' hk' => hp (hsame r' hr' hk' ▸ hpr'), hrow]
      simp [Option.filter, hp]

/-- The row of a key after an insertion. -/
theorem row?_append :
    row? key (rows ++ [r]) k = (row? key rows k).or (if key r = k then some r else none) := by
  rw [row?, List.find?_append]
  by_cases hk : key r = k <;> simp [row?, hk]

end Table

end YirangMQ

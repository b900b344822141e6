import YirangMQ.Backend.Types
import YirangMQ.Library.Table
import YirangMQ.Library.Transaction
import Mathlib.Data.Int.Order.Basic
import Mathlib.Data.List.Sort
import Mathlib.Data.List.TakeWhile

namespace YirangMQ

open Table

/-!
# The two tables

The SQLite and Hybrid adapters keep a `kv` table of JSON values and a `msg_index` table of
message states.  `msg_index.message_key` references `kv.key` with `ON DELETE CASCADE`, and
`PRAGMA foreign_keys = ON` makes SQLite apply it.  Two schema files are shipped; only one
declares `message_key` a primary key.

* `Tables` and the statements on them: `insertKv`, `replaceKv`, `upsertKv`, `deleteKv`,
  `updateKvValue`, `insertIndex`, `updateIndex`, `deleteIndex`, `readyRow?`;
* `columnText`, `readRow` — what is read of a text, which ends at its first NUL character;
* `prepare`, `step`, `prepared` — running one of them, with the failures the caller sees;
* `SatE.prepared`, `SatE.prepared_always`, `SatE.prepared_selecting` — their rules.
-/

/-- The shipped schema files: `src/MainMQ/sqlite_schema.sql`, where `message_key` is a primary
    key, and `src/MainMQ/BackendAdapter/sqlite_schema.sql`, where it is not. -/
inductive SchemaFile where
  | mainMq
  | backendAdapter
  deriving DecidableEq, Repr

/-- Whether the schema declares `PRIMARY KEY (message_key)` on `msg_index`. -/
def SchemaFile.declaresPrimaryKey : SchemaFile → Bool
  | .mainMq => true
  | .backendAdapter => false

/-- Whether the schema has `idx_msg_target`, an index on the ready rows of a queue by their
    targets. -/
def SchemaFile.indexesTargets : SchemaFile → Bool
  | .mainMq => true
  | .backendAdapter => false

/-- A row of `kv`. -/
structure KvRow where
  key : String
  value : JsonText
  valueType : String
  createdAt : Int
  updatedAt : Int

/-- A row of `msg_index`. -/
structure IndexRow where
  queue : String
  state : MessageState
  priority : Int
  availableAt : Int
  leaseUntil : Option Int := none
  attempt : Int
  dlqReason : Option String := none
  dlqAt : Option Int := none
  targetConsumerId : String := ""
  messageKey : String
  deriving DecidableEq, Repr

/-- The two tables; a row that is inserted comes last. -/
structure Tables where
  kv : List KvRow
  index : List IndexRow

namespace Tables

/-- The tables right after the schema file has run. -/
def empty : Tables := ⟨[], []⟩

/-! ### Statements -/

/-- `SELECT value FROM kv WHERE key = ?` -/
def value? (t : Tables) (key : String) : Option JsonText :=
  (row? KvRow.key t.kv key).map KvRow.value

/-- The `msg_index` row of a key. -/
def row? (t : Tables) (key : String) : Option IndexRow :=
  Table.row? IndexRow.messageKey t.index key

/-- `INSERT INTO kv`: the key is the primary key. -/
def insertKv (row : KvRow) (t : Tables) : Except String (Unit × Tables) :=
  if row.key ∈ t.kv.map KvRow.key then .error "UNIQUE constraint failed: kv.key"
  else .ok ((), { t with kv := t.kv ++ [row] })

/-- `DELETE FROM kv WHERE key = ?`, with the cascade to `msg_index`. -/
def deleteKv (key : String) (t : Tables) : Tables where
  kv := delete (fun r => r.key = key) t.kv
  index := delete (fun r => r.messageKey = key) t.index

/-- `INSERT OR REPLACE INTO kv`: a row of the same key is deleted first. -/
def replaceKv (row : KvRow) (t : Tables) : Tables :=
  { t.deleteKv row.key with kv := (t.deleteKv row.key).kv ++ [row] }

/-- `UPDATE kv SET value = ?, updated_at = ? WHERE key = ?` -/
def updateKvValue (key : String) (value : JsonText) (now : Int) (t : Tables) : Tables :=
  { t with
    kv := update (fun r => r.key = key) (fun r => { r with value, updatedAt := now }) t.kv }

/-- `INSERT INTO kv … ON CONFLICT(key) DO UPDATE SET value = ?, updated_at = ?` -/
def upsertKv (row : KvRow) (t : Tables) : Tables :=
  if row.key ∈ t.kv.map KvRow.key then t.updateKvValue row.key row.value row.updatedAt
  else { t with kv := t.kv ++ [row] }

/-- `INSERT INTO msg_index`: the foreign key must exist, and the primary key be new where it
    is declared. -/
def insertIndex (schema : SchemaFile) (row : IndexRow) (t : Tables) :
    Except String (Unit × Tables) :=
  if row.messageKey ∉ t.kv.map KvRow.key then .error "FOREIGN KEY constraint failed"
  else if schema.declaresPrimaryKey ∧ row.messageKey ∈ t.index.map IndexRow.messageKey then
    .error "UNIQUE constraint failed: msg_index.message_key"
  else .ok ((), { t with index := t.index ++ [row] })

/-- `UPDATE msg_index SET … WHERE …` -/
def updateIndex (p : IndexRow → Bool) (f : IndexRow → IndexRow) (t : Tables) : Tables :=
  { t with index := update p f t.index }

/-- `DELETE FROM msg_index WHERE …` -/
def deleteIndex (p : IndexRow → Bool) (t : Tables) : Tables :=
  { t with index := delete p t.index }

/-- The row is ready for consumer `c` of `queue` at time `now`. -/
def isReadyFor (queue c : String) (now : Int) (r : IndexRow) : Bool :=
  r.queue = queue ∧ r.state = .ready ∧ r.availableAt ≤ now ∧
    (r.targetConsumerId = "" ∨ r.targetConsumerId = c)

/-- `ORDER BY priority DESC, available_at ASC` -/
def precedes (r r' : IndexRow) : Bool :=
  r'.priority < r.priority ∨ r.priority = r'.priority ∧ r.availableAt < r'.availableAt

/-- The ready rows for a consumer in the order in which SQLite comes to them: by their insertion,
    but where the targets are indexed the untargeted rows first. -/
def readyRows (schema : SchemaFile) (queue c : String) (now : Int) (t : Tables) : List IndexRow :=
  let rows := t.index.filter (isReadyFor queue c now)
  if schema.indexesTargets then
    rows.filter (fun r => r.targetConsumerId = "") ++ rows.filter fun r => r.targetConsumerId ≠ ""
  else rows

/-- `SELECT … FROM msg_index WHERE queue = ? AND state = 'ready' AND available_at <= ? AND …
    ORDER BY priority DESC, available_at ASC LIMIT 1`; of rows that agree in both it gives the
    first it comes to. -/
def readyRow? (schema : SchemaFile) (queue c : String) (now : Int) (t : Tables) : Option IndexRow :=
  firstBy precedes (t.readyRows schema queue c now)

/-- The row is inflight with a lease that ended before `now`. -/
def isExpired (now : Int) (r : IndexRow) : Bool :=
  r.state = .inflight ∧ r.leaseUntil.any (· < now)

/-- A text column as it is read: `NULL` is empty, and a text ends where its first NUL character
    is. -/
def columnText (text : Option String) : String :=
  String.ofList ((text.getD "").toList.takeWhile (· ≠ '\x00'))

/-- A row as `lease_next` reads it. -/
def readRow (r : IndexRow) : IndexRow := { r with messageKey := columnText (some r.messageKey) }

/-- The row that `lease_next` selects, as it reads it. -/
def nextRow? (schema : SchemaFile) (queue c : String) (now : Int) (t : Tables) : Option IndexRow :=
  (t.readyRow? schema queue c now).map readRow

/-- A row as `get_expired_inflight_messages` reads it. -/
def expiredInfo (r : IndexRow) : ExpiredLeaseInfo where
  messageKey := columnText (some r.messageKey)
  queue := columnText (some r.queue)
  attempt := r.attempt

/-- `SELECT message_key, queue, attempt FROM msg_index WHERE state = 'inflight' AND
    lease_until < ?`, answered from `idx_msg_lease`: the leases that ended first come first. -/
def expiredRows (now : Int) (t : Tables) : List ExpiredLeaseInfo :=
  ((t.index.filter (isExpired now)).insertionSort fun r r' =>
    r.leaseUntil.getD 0 ≤ r'.leaseUntil.getD 0).map expiredInfo

/-- The row as `list_dlq_messages` reads it. -/
def dlqInfo (r : IndexRow) : DlqMessageInfo where
  messageKey := columnText (some r.messageKey)
  queue := columnText (some r.queue)
  reason := columnText r.dlqReason
  dlqAtMs := r.dlqAt.getD 0
  attempt := r.attempt

/-- `ORDER BY dlq_at DESC`, where `NULL` comes last. -/
def notOlder (r r' : IndexRow) : Bool :=
  match r.dlqAt, r'.dlqAt with
  | _, none => true
  | none, some _ => false
  | some time, some time' => time' ≤ time

/-- `SELECT … FROM msg_index WHERE queue = ? AND state = 'dlq' ORDER BY dlq_at DESC LIMIT ?`; a
    negative limit is none. -/
def deadRows (queue : String) (limit : Int) (t : Tables) : List IndexRow :=
  let rows := (t.index.filter fun r => r.queue = queue ∧ r.state = .dlq).insertionSort
    fun r r' => notOlder r r' = true
  if limit < 0 then rows else rows.take limit.toNat

end Tables

/-! ### What a statement leaves of a key's row and value -/

namespace Tables

variable {t : Tables} {key k : String}

/-- The keys and value types of the rows of `kv`. -/
def storedKeys (t : Tables) : List (String × String) := t.kv.map fun r => (r.key, r.valueType)

/-- The keys of the rows of `msg_index`. -/
def indexKeys (t : Tables) : List String := t.index.map IndexRow.messageKey

/-- An update of the index leaves `kv` as it is. -/
@[simp] theorem updateIndex_kv (p : IndexRow → Bool) (f : IndexRow → IndexRow) :
    (t.updateIndex p f).kv = t.kv := rfl

/-- An update of a value leaves the index as it is. -/
@[simp] theorem updateKvValue_index (value : JsonText) (now : Int) :
    (t.updateKvValue key value now).index = t.index := rfl

/-- So the row of every key stays. -/
@[simp] theorem row?_updateKvValue (value : JsonText) (now : Int) :
    (t.updateKvValue key value now).row? k = t.row? k := rfl

/-- An update of the index leaves every value as it is. -/
@[simp] theorem value?_updateIndex (p : IndexRow → Bool) (f : IndexRow → IndexRow) :
    (t.updateIndex p f).value? k = t.value? k := rfl

/-- An update of a value keeps the keys and their types. -/
@[simp] theorem storedKeys_updateKvValue (value : JsonText) (now : Int) :
    (t.updateKvValue key value now).storedKeys = t.storedKeys :=
  map_update (g := fun r : KvRow => (r.key, r.valueType)) fun _ => rfl

/-- The row of a key after an update that keeps keys. -/
theorem row?_updateIndex {p : IndexRow → Bool} {f : IndexRow → IndexRow}
    (hf : ∀ r, (f r).messageKey = r.messageKey) :
    (t.updateIndex p f).row? k = (t.row? k).map fun r => if p r then f r else r :=
  Table.row?_update hf

/-- An update that keeps keys keeps the indexed keys. -/
theorem indexKeys_updateIndex {p : IndexRow → Bool} {f : IndexRow → IndexRow}
    (hf : ∀ r, (f r).messageKey = r.messageKey) :
    (t.updateIndex p f).indexKeys = t.indexKeys :=
  map_update hf

/-- No key appears by it. -/
theorem mem_indexKeys_updateIndex {p : IndexRow → Bool} {f : IndexRow → IndexRow}
    (h : k ∈ (t.updateIndex p f).indexKeys) (hf : ∀ r, (f r).messageKey = r.messageKey) :
    k ∈ t.indexKeys :=
  indexKeys_updateIndex hf ▸ h

/-- The value of a key after an update of a value. -/
theorem value?_updateKvValue (value : JsonText) (now : Int) :
    (t.updateKvValue key value now).value? k =
      if k = key then (t.value? k).map fun _ => value else t.value? k := by
  unfold value? updateKvValue
  rw [row?_update (by intro r; rfl)]
  cases hrow : Table.row? KvRow.key t.kv k with
  | none => simp
  | some r =>
    have hkey : r.key = k := row?_key hrow
    by_cases hk : k = key
    · simp [hkey, hk]
    · simp [hkey, hk]

/-- A key has no value exactly when it is not stored. -/
theorem value?_eq_none : t.value? k = none ↔ k ∉ t.kv.map KvRow.key := by
  rw [value?, Option.map_eq_none_iff, row?_eq_none]

/-- Deleting a key leaves the others as they are. -/
theorem deleteKv_of_ne (hne : k ≠ key) :
    (t.deleteKv key).value? k = t.value? k ∧ (t.deleteKv key).row? k = t.row? k := by
  constructor
  · unfold value?
    rw [deleteKv, row?_delete_of_ne]
    rintro r - hr rfl
    exact hne (by simpa using hr)
  · unfold row?
    rw [deleteKv, row?_delete_of_ne]
    rintro r - hr rfl
    exact hne (by simpa using hr)

/-- A deleted key has neither value nor row. -/
theorem deleteKv_self : (t.deleteKv key).value? key = none ∧ (t.deleteKv key).row? key = none := by
  constructor
  · rw [value?_eq_none]
    simp [deleteKv, delete]
  · rw [row?, row?_eq_none]
    simp [deleteKv, delete]

/-- The other keys stay indexed. -/
theorem mem_indexKeys_deleteKv : k ∈ (t.deleteKv key).indexKeys ↔ k ∈ t.indexKeys ∧ k ≠ key := by
  simp only [indexKeys, deleteKv, delete, List.mem_map, List.mem_filter]
  constructor
  · rintro ⟨r, ⟨hr, hne⟩, rfl⟩
    exact ⟨⟨r, hr, rfl⟩, by simpa using hne⟩
  · rintro ⟨⟨r, hr, rfl⟩, hne⟩
    exact ⟨r, ⟨hr, by simpa using hne⟩, rfl⟩

/-- The other keys stay stored, with their types. -/
theorem mem_storedKeys_deleteKv {type : String} :
    (k, type) ∈ (t.deleteKv key).storedKeys ↔ (k, type) ∈ t.storedKeys ∧ k ≠ key := by
  simp only [storedKeys, deleteKv, delete, List.mem_map, List.mem_filter, Prod.mk.injEq]
  constructor
  · rintro ⟨r, ⟨hr, hne⟩, rfl, rfl⟩
    exact ⟨⟨r, hr, rfl, rfl⟩, by simpa using hne⟩
  · rintro ⟨⟨r, hr, rfl, rfl⟩, hne⟩
    exact ⟨r, ⟨hr, by simpa using hne⟩, rfl, rfl⟩

/-- The value of a key after an insertion. -/
theorem value?_append {row : KvRow} {index : List IndexRow} :
    value? ⟨t.kv ++ [row], index⟩ k =
      (t.value? k).or (if row.key = k then some row.value else none) := by
  rw [value?, row?_append, value?]
  cases Table.row? KvRow.key t.kv k <;> by_cases hk : row.key = k <;> simp [hk]

/-- The rows that SQLite comes to are the rows that are ready. -/
theorem mem_readyRows {schema : SchemaFile} {queue c : String} {now : Int} {r : IndexRow} :
    r ∈ t.readyRows schema queue c now ↔ r ∈ t.index ∧ isReadyFor queue c now r = true := by
  rw [readyRows]
  split
  case isFalse => exact List.mem_filter
  case isTrue =>
    rw [List.mem_append, List.mem_filter (p := fun r : IndexRow => decide (r.targetConsumerId = "")),
      List.mem_filter (p := fun r : IndexRow => decide (r.targetConsumerId ≠ "")), ← and_or_left,
      List.mem_filter]
    by_cases htarget : r.targetConsumerId = ""
    · simp [htarget]
    · simp [htarget]

/-- The selected row is in the table and ready for the consumer. -/
theorem readyRow?_some {schema : SchemaFile} {queue c : String} {now : Int} {row : IndexRow}
    (h : t.readyRow? schema queue c now = some row) :
    row ∈ t.index ∧ isReadyFor queue c now row = true :=
  mem_readyRows.mp (firstBy_mem h)

/-- No row is selected exactly when none is ready. -/
theorem readyRow?_eq_none {schema : SchemaFile} {queue c : String} {now : Int} :
    t.readyRow? schema queue c now = none ↔
      ∀ r ∈ t.index, isReadyFor queue c now r = false := by
  rw [readyRow?, firstBy_eq_none, List.eq_nil_iff_forall_not_mem]
  simp only [mem_readyRows, not_and, Bool.not_eq_true]

/-- A text without a NUL character is read as it is. -/
theorem columnText_eq_iff {text : String} : columnText (some text) = text ↔ '\x00' ∉ text.toList := by
  have hlist : (columnText (some text)).toList = text.toList.takeWhile (· ≠ '\x00') :=
    String.toList_ofList
  rw [← String.toList_inj, hlist, List.takeWhile_eq_self_iff]
  constructor
  · intro hall hmem
    simpa using hall _ hmem
  · intro hnul c hc
    have hne : c ≠ '\x00' := fun heq => hnul (heq ▸ hc)
    simpa using hne

/-- A key without a NUL character is read as it is. -/
theorem readRow_eq {r : IndexRow} (h : '\x00' ∉ r.messageKey.toList) : readRow r = r := by
  rw [readRow, columnText_eq_iff.mpr h]

/-- The keys of the rows that are ready for a consumer are read as they are. -/
def Legible (queue c : String) (now : Int) (t : Tables) : Prop :=
  ∀ r ∈ t.index, isReadyFor queue c now r = true → '\x00' ∉ r.messageKey.toList

/-- Then the selected row is read as it is. -/
theorem Legible.nextRow?_eq {schema : SchemaFile} {queue c : String} {now : Int}
    (h : t.Legible queue c now) :
    t.nextRow? schema queue c now = t.readyRow? schema queue c now := by
  rw [nextRow?]
  cases hrow : t.readyRow? schema queue c now with
  | none => rfl
  | some row =>
    obtain ⟨hmem, hready⟩ := readyRow?_some hrow
    rw [Option.map_some, readRow_eq (h row hmem hready)]

end Tables

/-- The value of `key` stays as it is or is replaced by what `edit` makes of it. -/
def EditsValue (key : String) (now : Int) (edit : Json String → Option (Json String))
    (t t' : Tables) : Prop :=
  t' = t ∨ ∃ j j', t.value? key = some (some j) ∧ edit j = some j' ∧
    t' = t.updateKvValue key (some j') now

/-- Editing a value changes no key. -/
theorem Tables.indexKeys_editsValue {key : String} {now : Int}
    {edit : Json String → Option (Json String)} {t t' : Tables}
    (hedits : EditsValue key now edit t t') : t'.indexKeys = t.indexKeys := by
  rcases hedits with rfl | ⟨j, j', -, -, rfl⟩
  · rfl
  · rfl

/-! ### Statements that can fail -/

/-- An insertion that succeeds is of a new key, and appends the row. -/
theorem Tables.insertKv_ok {row : KvRow} {t t' : Tables} {u : Unit}
    (h : Tables.insertKv row t = .ok (u, t')) :
    row.key ∉ t.kv.map KvRow.key ∧ t' = { t with kv := t.kv ++ [row] } := by
  unfold Tables.insertKv at h
  split at h
  case isTrue => simp at h
  case isFalse hnew => exact ⟨hnew, by simpa using h.symm⟩

/-- An insertion that fails is of a stored key. -/
theorem Tables.insertKv_error {row : KvRow} {t : Tables} {text : String}
    (h : Tables.insertKv row t = .error text) : row.key ∈ t.kv.map KvRow.key := by
  unfold Tables.insertKv at h
  split at h
  case isTrue hdup => exact hdup
  case isFalse => simp at h

/-- An insertion into the index that succeeds appends the row. -/
theorem Tables.insertIndex_ok {schema : SchemaFile} {row : IndexRow} {t t' : Tables} {u : Unit}
    (h : Tables.insertIndex schema row t = .ok (u, t')) :
    t' = { t with index := t.index ++ [row] } := by
  unfold Tables.insertIndex at h
  split at h
  case isTrue => simp at h
  case isFalse =>
    split at h
    case isTrue => simp at h
    case isFalse => simpa using h.symm

/-- An insertion into the index that fails is of a key that is not stored, or already indexed. -/
theorem Tables.insertIndex_error {schema : SchemaFile} {row : IndexRow} {t : Tables}
    {text : String} (h : Tables.insertIndex schema row t = .error text) :
    row.messageKey ∉ t.kv.map KvRow.key ∨ row.messageKey ∈ t.index.map IndexRow.messageKey := by
  unfold Tables.insertIndex at h
  split at h
  case isTrue hfk => exact .inl hfk
  case isFalse =>
    split at h
    case isTrue hpk => exact .inr hpk.2
    case isFalse => simp at h

/-! ### Running a statement -/

section Statements

variable {F α : Type}

/-- A connection to the tables, for a program that keeps files of type `F` beside them. -/
abbrev SqlConn (F : Type) := Conn Tables F

/-- `SQLite::prepare`, which fails with its own text. -/
def prepare : Abortable (SqlConn F) Unit := Abortable.attempt (Conn.onData fun t => .ok ((), t))

/-- `SQLiteStatement::step`; the caller reports a fixed error when it fails. -/
def step (error : Option String) (f : Tables → Except String (α × Tables)) :
    Abortable (SqlConn F) α :=
  Abortable.attemptOr error (Conn.onData f)

/-- Prepare a statement, bind its arguments and step it. -/
def prepared (error : Option String) (f : Tables → Except String (α × Tables)) :
    Abortable (SqlConn F) α := do
  prepare
  step error f

/-- A statement that always succeeds in itself. -/
def always (f : Tables → Tables) (t : Tables) : Except String (Unit × Tables) := .ok ((), f t)

/-- A query that must have a row. -/
def selecting (g : Tables → Option α) (t : Tables) : Except String (α × Tables) :=
  match g t with
  | some a => .ok (a, t)
  | none => .error "no row"

variable {faulty : Prop} {t : SqlConn F} {Q : α → SqlConn F → Prop}
  {E : Option String → SqlConn F → Prop}

open Abortable

/-- The rule of preparing: it fails by a fault only. -/
theorem SatE.prepare {Q : Unit → SqlConn F → Prop} (hok : Q () t)
    (hfault : faulty → ∀ e, E e t) : SatE faulty (fun _ => True) t prepare Q E :=
  SatE.onData (by rintro a d ⟨rfl, rfl⟩; exact hok) (by simp) fun hf e => hfault hf (some e)

/-- The rule of a step: it succeeds, it fails in itself, or a fault makes it fail. -/
theorem SatE.step {error : Option String} {f : Tables → Except String (α × Tables)}
    (hok : ∀ a d, f t.data = .ok (a, d) → Q a { t with data := d })
    (herr : ∀ text, f t.data = .error text → E error t)
    (hfault : faulty → E error t) : SatE faulty (fun _ => True) t (step error f) Q E := by
  refine SatE.attemptOr ?_ ?_ hfault
  · intro a u h
    cases hf : f t.data with
    | error text => simp [Conn.onData, hf, Except.map] at h
    | ok r =>
      simp only [Conn.onData, hf, Except.map, Except.ok.injEq, Prod.mk.injEq] at h
      obtain ⟨rfl, rfl⟩ := h
      exact ⟨trivial, hok _ _ hf⟩
  · intro text h
    cases hf : f t.data with
    | error text' => exact herr _ hf
    | ok r => simp [Conn.onData, hf, Except.map] at h

/-- The rule of a prepared statement. -/
theorem SatE.prepared {error : Option String} {f : Tables → Except String (α × Tables)}
    (hok : ∀ a d, f t.data = .ok (a, d) → Q a { t with data := d })
    (herr : ∀ text, f t.data = .error text → E error t)
    (hfault : faulty → ∀ e, E e t) :
    SatE faulty (fun _ => True) t (prepared error f) Q E :=
  SatE.bind <| SatE.prepare (SatE.step hok herr fun hf => hfault hf error) hfault

/-- The rule of a prepared statement that always succeeds in itself. -/
theorem SatE.prepared_always {error : Option String} {f : Tables → Tables}
    {Q : Unit → SqlConn F → Prop} (hok : Q () { t with data := f t.data })
    (hfault : faulty → ∀ e, E e t) :
    SatE faulty (fun _ => True) t (YirangMQ.prepared error (always f)) Q E :=
  SatE.prepared (by rintro a d ⟨rfl, rfl⟩; exact hok) (by simp [always]) hfault

/-- The rule of a query that must have a row. -/
theorem SatE.step_selecting {error : Option String} {g : Tables → Option α}
    (hsome : ∀ a, g t.data = some a → Q a t) (hnone : g t.data = none → E error t)
    (hfault : faulty → E error t) :
    SatE faulty (fun _ => True) t (YirangMQ.step error (selecting g)) Q E := by
  refine SatE.step ?_ ?_ hfault
  · intro a d h
    unfold selecting at h
    split at h
    case h_1 b hb =>
      simp only [Except.ok.injEq, Prod.mk.injEq] at h
      obtain ⟨rfl, rfl⟩ := h
      exact hsome _ hb
    case h_2 => simp at h
  · intro text h
    unfold selecting at h
    split at h
    case h_1 => simp at h
    case h_2 hnone' => exact hnone hnone'

/-- The rule of a prepared query that must have a row. -/
theorem SatE.prepared_selecting {error : Option String} {g : Tables → Option α}
    (hsome : ∀ a, g t.data = some a → Q a t) (hnone : g t.data = none → E error t)
    (hfault : faulty → ∀ e, E e t) :
    SatE faulty (fun _ => True) t (YirangMQ.prepared error (selecting g)) Q E :=
  SatE.bind <| SatE.prepare (SatE.step_selecting hsome hnone fun hf => hfault hf error) hfault

end Statements

end YirangMQ

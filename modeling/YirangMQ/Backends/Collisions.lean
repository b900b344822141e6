import YirangMQ.Backend.Content
import YirangMQ.Backends.Types
import YirangMQ.Hybrid.Atomicity

namespace YirangMQ

open Program

/-!
# Publishing under an identifier that is in use

No caller checks whether an identifier is in use.  What protects the stored message is a key
constraint in the tables, and nothing in the directories.

* `Collides` — an envelope with the key, the queue and the identifier of a stored message;
* `BackendType.Same` — the rows and the files of the stored message are as they were;
* `BackendType.Spared` — what keeps a collision from doing harm;
* `collision_harmless_iff` — **the collision is refused and harmless exactly when the stored
  message is spared**: on SQLite always, on Hybrid when it has no file in `active/` and the clean-up
  does not throw, on FileSystem when the envelope cannot be written;
* `collision_loses_payload`, `collision_doubles_message` — two collisions that do harm.
-/

/-- The envelope has the key, the queue and the identifier of the message. -/
structure Collides (m e : MessageEnvelope) : Prop where
  key : e.key = m.key
  queue : e.queue = m.queue
  messageId : e.messageId = m.messageId

/-! ### Writes under a plan -/

/-- The creation or the rename of a write through a temporary file fails. -/
def WriteFails (faults : List (Option String)) (n : Nat) : Prop :=
  fault faults n ≠ none ∨ fault faults (n + 1) ≠ none

/-- Where the plan goes on after the write; a failing rename is followed by a removal. -/
def afterWrite (faults : List (Option String)) (n : Nat) : Nat :=
  if fault faults n ≠ none then n + 1
  else if fault faults (n + 1) ≠ none then n + 3
  else n + 2

section Writes

variable {faults : List (Option String)} {n : Nat}

/-- A write fails when its temporary file cannot be made, which is one step. -/
theorem writeFails_of_create (h : fault faults n ≠ none) :
    WriteFails faults n ∧ afterWrite faults n = n + 1 :=
  ⟨.inl h, if_pos h⟩

/-- It fails when the rename does, after which the temporary file is removed. -/
theorem writeFails_of_rename (hcreate : fault faults n = none)
    (h : fault faults (n + 1) ≠ none) : WriteFails faults n ∧ afterWrite faults n = n + 3 := by
  refine ⟨.inr h, ?_⟩
  rw [afterWrite, if_neg (not_not.mpr hcreate), if_pos h]

/-- Otherwise it succeeds, in two steps. -/
theorem not_writeFails (hcreate : fault faults n = none) (hrename : fault faults (n + 1) = none) :
    ¬WriteFails faults n ∧ afterWrite faults n = n + 2 := by
  refine ⟨by simp [WriteFails, hcreate, hrename], ?_⟩
  rw [afterWrite, if_neg (not_not.mpr hcreate), if_neg (not_not.mpr hrename)]

end Writes

/-! ### The SQLite adapter -/

/-- The rows of the message are as they were. -/
def SameRows (m : MessageEnvelope) (t t' : Tables) : Prop :=
  t'.index.filter (·.messageKey = m.key) = t.index.filter (·.messageKey = m.key) ∧
  t'.kv.filter (·.key = m.key) = t.kv.filter (·.key = m.key)

/-- No row of the message has changed where nothing has. -/
theorem SameRows.of_eq {m : MessageEnvelope} {t t' : Tables} (h : t' = t) : SameRows m t t' := by
  rw [h]
  exact ⟨rfl, rfl⟩

/-- A message with a slot has a row in each table. -/
theorem Tables.Integrity.stored {t : Tables} (h : t.Integrity) {key : String}
    (hslot : t.slot key ≠ none) : key ∈ t.kv.map KvRow.key := by
  have hvalue : t.value? key ≠ none := h.referenced key (Tables.slot_ne_none hslot)
  by_contra hnone
  exact hvalue (Tables.value?_eq_none.mpr hnone)

namespace SQLite

variable {schema : SchemaFile} {s : Store} {m e : MessageEnvelope} {env : Env}

/-- On SQLite a collision is refused and leaves the tables. -/
theorem collision_refused (hsaved : s.saved = none) (hstored : m.key ∈ s.data.kv.map KvRow.key)
    (hcollides : Collides m e) :
    ((adapter schema).perform env (.enqueue e) s).1.reportsFailure = true ∧
    ((adapter schema).perform env (.enqueue e) s).2.data = s.data := by
  obtain ⟨-, hperforms⟩ := @perform_performs True schema env s hsaved (.inl trivial) (.enqueue e)
  rcases hperforms with ⟨hrefusal, hsame, -⟩ | ⟨-, hnew, -⟩
  · refine ⟨?_, hsame⟩
    have hnot : ((adapter schema).perform env (.enqueue e) s).1.succeeded = false :=
      hrefusal.succeeded
    obtain ⟨status, hstatus⟩ : ∃ status,
        ((adapter schema).perform env (.enqueue e) s).1 = .status status := ⟨_, rfl⟩
    rw [hstatus] at hnot ⊢
    cases status with
    | ok u => cases hnot
    | error text => rfl
  · rw [hcollides.key] at hnew
    exact absurd hstored hnew

end SQLite

/-! ### The Hybrid adapter -/

namespace Hybrid

open Abortable

variable {schema : SchemaFile} {s t : Store} {m e : MessageEnvelope} {env : Env}

/-- The rows and the payload files of the message are as they were. -/
def Same (m : MessageEnvelope) (s t : Store) : Prop :=
  SameRows m s.data t.data ∧ ∀ dir,
    t.files.lookup (payloadPath dir m.queue m.messageId) =
      s.files.lookup (payloadPath dir m.queue m.messageId)

/-- The payload is not written, or there was no file at its path and its removal does not throw. -/
def Spared (env : Env) (e : MessageEnvelope) (s : Store) : Prop :=
  fault env.faults 0 ≠ none ∨ fault env.faults 1 ≠ none ∨ WriteFails env.faults 2 ∨
  fault env.faults 5 = none ∧ s.files.lookup (buildPayloadPath e.queue e.messageId) = none

/-- Where everything else is as it was, the file in `active/` decides. -/
theorem same_iff {u : Store} (hcollides : Collides m e) (hdata : u.data = s.data)
    (hother : ∀ dir, dir ≠ .active → u.files.lookup (payloadPath dir e.queue e.messageId) =
      s.files.lookup (payloadPath dir e.queue e.messageId)) :
    Same m s u ↔ u.files.lookup (buildPayloadPath e.queue e.messageId) =
      s.files.lookup (buildPayloadPath e.queue e.messageId) := by
  rw [Same, ← hcollides.queue, ← hcollides.messageId]
  constructor
  · exact fun hsame => hsame.2 .active
  · intro hactive
    refine ⟨.of_eq hdata, fun dir => ?_⟩
    by_cases hdir : dir = .active
    · rw [hdir]
      exact hactive
    · exact hother dir hdir

/-- The tables are as before, and the payload that has been written lies in `active/`. -/
structure Written (e : MessageEnvelope) (s t : Store) : Prop where
  saved : t.saved = some s.data
  active : t.files.lookup (buildPayloadPath e.queue e.messageId) = some (some (payloadJson e))
  other : ∀ dir, dir ≠ .active → t.files.lookup (payloadPath dir e.queue e.messageId) =
    s.files.lookup (payloadPath dir e.queue e.messageId)

/-- The rollback of a refused insert, and the removal of the payload that has been written. -/
theorem undo_collision (hcollides : Collides m e) (hid : '/' ∉ e.messageId.toList)
    (hwritten : Written e s t) (hdirs : fault env.faults 0 = none)
    (hbegin : fault env.faults 1 = none) (hwrite : ¬WriteFails env.faults 2)
    (error : Option String) :
    Planned env.faults 5 t (undoEnqueue (buildPayloadPath e.queue e.messageId) error)
      fun _ reply u => reply.reportsFailure = true ∧ Same m s u ↔ Spared env e s := by
  have hspared : Spared env e s ↔ fault env.faults 5 = none ∧
      s.files.lookup (buildPayloadPath e.queue e.messageId) = none := by
    rw [Spared]
    simp [hdirs, hbegin, hwrite]
  have hback : t.rolledBack.data = s.data := by simp [Conn.rolledBack, hwritten.saved]
  refine Planned.bind (Planned.modify (Planned.bind ?_))
  refine Planned.onFiles ?_ ?_ (by simp [Files.remove])
  · intro text hfault
    -- the exception is no answer
    refine Planned.pure (iff_of_false (fun h => Bool.false_ne_true h.1) fun h => ?_)
    have hnone := (hspared.mp h).1
    rw [hfault] at hnone
    cases hnone
  · rintro hremove _ _ ⟨rfl, rfl⟩
    refine Planned.pure ((and_iff_right rfl).trans
      ((same_iff hcollides (by exact hback) ?_).trans ?_))
    · intro dir hdir
      have hne : payloadPath dir e.queue e.messageId ≠
          payloadPath .active e.queue e.messageId :=
        fun heq => hdir (payloadPath_inj hid hid heq).1
      show AList.lookup _ (t.files.erase (payloadPath .active e.queue e.messageId)) = _
      rw [Files.lookup_erase', if_neg hne]
      exact hwritten.other dir hdir
    · show AList.lookup _ (t.files.erase _) = _ ↔ _
      rw [Files.lookup_erase', if_pos rfl, hspared, and_iff_right hremove, eq_comm]

/-- The first insert of a stored key fails. -/
theorem insertMessage_refused (hstored : e.key ∈ t.data.kv.map KvRow.key) :
    PlannedE env.faults 4 t (insertMessage schema env e) (fun _ _ _ => False)
      (fun k _ u => k = 5 ∧ u = t) := by
  refine PlannedE.bind (PlannedE.execute ?_ ?_ ?_)
  · exact fun _ _ => ⟨rfl, rfl⟩
  · intro _ _ _ hinserted
    exact absurd hstored (Tables.insertKv_ok hinserted).1
  · exact fun _ _ _ => ⟨rfl, rfl⟩

/-- What `enqueue` does under an identifier that is in use. -/
theorem collision_planned (hsaved : s.saved = none) (hcollides : Collides m e)
    (hid : '/' ∉ e.messageId.toList) (hstored : e.key ∈ s.data.kv.map KvRow.key) :
    Planned env.faults 0 s (enqueue schema env e) fun _ reply u =>
      reply.reportsFailure = true ∧ Same m s u ↔ Spared env e s := by
  have htemp : ∀ dir, payloadPath dir e.queue e.messageId ≠
      buildPayloadPath e.queue e.messageId ++ ".tmp" := fun dir => payloadPath_ne_temp _ _ _ _
  -- All that can differ is the file in `active/`: no payload path is that of the temporary file.
  have hsame : ∀ u : Store, u.data = s.data → (∀ dir,
      u.files.lookup (payloadPath dir e.queue e.messageId) =
        s.files.lookup (payloadPath dir e.queue e.messageId)) → Same m s u :=
    fun u hdata hfiles =>
      (same_iff hcollides hdata fun dir _ => hfiles dir).mpr (hfiles .active)
  refine Planned.bind (Planned.onFiles ?_ ?_ (by simp))
  -- The directories cannot be made.
  · intro text hfault
    exact Planned.pure
      (iff_of_true ⟨rfl, hsame s rfl fun _ => rfl⟩ (.inl (by simp [hfault])))
  rintro hdirs _ _ ⟨rfl, rfl⟩
  refine Planned.bind (Planned.prim ?_ ?_ ?_)
  -- `BEGIN` fails.
  · intro text hfault
    exact Planned.pure
      (iff_of_true ⟨rfl, hsame _ rfl fun _ => rfl⟩ (.inr (.inl (by simp [hfault]))))
  · intro hbegin _ t hbegun
    simp only [Conn.begun, hsaved, Option.isSome_none, Bool.false_eq_true, if_false,
      Except.ok.injEq, Prod.mk.injEq] at hbegun
    obtain ⟨-, rfl⟩ := hbegun
    refine Planned.bind (atomicWrite_planned ?_ ?_)
    -- The payload is not written, and only the temporary file may be left behind.
    · intro k error files hfails hfiles
      refine Planned.bind (Planned.modify (Planned.pure (iff_of_true ⟨rfl, ?_⟩ ?_)))
      · exact hsame _ rfl fun dir => hfiles _ (htemp dir)
      · exact .inr (.inr (.inl hfails))
    -- The payload is written over the stored one, and the insertion meets the key.
    · intro hcreate hrename files hfiles
      have hwritten : Written e s { s with saved := some s.data, files } := by
        refine ⟨rfl, ?_, fun dir hdir => ?_⟩
        · exact (hfiles _ (htemp .active)).trans (if_pos rfl)
        · have hne : payloadPath dir e.queue e.messageId ≠
              payloadPath .active e.queue e.messageId :=
            fun heq => hdir (payloadPath_inj hid hid heq).1
          exact (hfiles _ (htemp dir)).trans (if_neg hne)
      refine Planned.bind (Planned.weaken (insertMessage_refused hstored) fun k r t ht => ?_)
      cases r with
      | ok u => exact ht.elim
      | error error =>
        obtain ⟨rfl, rfl⟩ := ht
        exact undo_collision hcollides hid hwritten hdirs hbegin
          (not_writeFails hcreate hrename).1 error
  -- A transaction cannot be open already.
  · intro _ text hbegun
    simp [Conn.begun, hsaved] at hbegun

end Hybrid

/-! ### The FileSystem adapter -/

namespace FileSystem

variable {d : Disk} {m e : MessageEnvelope} {env : Env}

/-- The file of the message in each directory, its lease file and its delay file are as they
    were. -/
def Same (m : MessageEnvelope) (d d' : Disk) : Prop :=
  (∀ dir, d'.lookup (filePath m dir) = d.lookup (filePath m dir)) ∧
  d'.lookup (leasePath m) = d.lookup (leasePath m) ∧
  d'.lookup (notePath m) = d.lookup (notePath m)

/-- The files of the message are those of the envelope that collides with it. -/
theorem same_iff {d' : Disk} (hcollides : Collides m e) : Same m d d' ↔ Same e d d' := by
  unfold Same filePath leasePath notePath
  rw [hcollides.key, hcollides.queue, hcollides.messageId]

/-- The delay file that `enqueue` writes. -/
def noteOf (e : MessageEnvelope) : DelayedMeta := ⟨e.key, e.queue, e.availableAtMs, e.attempt⟩

/-- The envelope is not written, nor is a delay file that differs from the one there is. -/
def Spared (env : Env) (e : MessageEnvelope) (d : Disk) : Prop :=
  fault env.faults 0 ≠ none ∨
  if env.now < e.availableAtMs then
    (WriteFails env.faults 1 ∨ d.lookup (notePath e) = some (some (noteOf e).toJson)) ∧
      WriteFails env.faults (afterWrite env.faults 1)
  else WriteFails env.faults 1

/-- A write that fails leaves every file but the temporary one as it was. -/
theorem atomicWrite_planned {target : Path} {content : JsonText} {n : Nat}
    {Q : Nat → Except String Unit → Disk → Prop}
    (hfailed : ∀ error d', WriteFails env.faults n →
      (∀ path, path ≠ .temp target → d'.lookup path = d.lookup path) →
      Q (afterWrite env.faults n) (.error error) d')
    (hok : ¬WriteFails env.faults n → ∀ d' : Disk, (∀ path, path ≠ .temp target →
      d'.lookup path = if path = target then some content else d.lookup path) →
      Q (afterWrite env.faults n) (.ok ()) d') :
    Planned env.faults n d (atomicWrite target content) Q := by
  refine Planned.bind (Planned.prim ?_ ?_ (by simp [Files.create]))
  -- The temporary file cannot be opened: nothing has changed.
  · intro text hfault
    obtain ⟨hfails, hafter⟩ := @writeFails_of_create env.faults n (by simp [hfault])
    refine Planned.pure ?_
    rw [← hafter]
    exact hfailed _ _ hfails fun _ _ => rfl
  rintro hcreate _ _ ⟨rfl, rfl⟩
  refine Planned.bind (Planned.prim ?_ ?_ ?_)
  -- The rename fails, and then the removal of the temporary file may fail too.
  · intro text hfault
    obtain ⟨hfails, hafter⟩ := @writeFails_of_rename env.faults n hcreate (by simp [hfault])
    refine Planned.bind (Planned.prim ?_ ?_ (by simp [Files.remove]))
    · intro _ _
      refine Planned.pure ?_
      rw [← hafter]
      refine hfailed _ _ hfails fun path hpath => ?_
      rw [Files.lookup_insert', if_neg hpath]
    · rintro _ _ _ ⟨rfl, rfl⟩
      refine Planned.pure ?_
      rw [← hafter]
      refine hfailed _ _ hfails fun path hpath => ?_
      rw [Files.lookup_erase', if_neg hpath, Files.lookup_insert', if_neg hpath]
  -- The rename takes place.
  · intro hrename _ d' hrenamed
    obtain ⟨hnot, hafter⟩ := not_writeFails hcreate hrename
    simp only [Files.rename, AList.lookup_insert, Except.ok.injEq, Prod.mk.injEq] at hrenamed
    obtain ⟨-, rfl⟩ := hrenamed
    refine Planned.pure ?_
    rw [← hafter]
    refine hok hnot _ fun path hpath => ?_
    rw [Files.lookup_renamed, if_neg hpath, Files.lookup_insert', if_neg hpath]
  -- The temporary file is there, so the rename has no other reason to fail.
  · intro _ text hrenamed
    simp [Files.rename] at hrenamed

/-- The last write of `enqueue`.  Up to there only the delay file may have changed, and it has not
    if and only if `unnoted`. -/
theorem envelope_planned {d' : Disk} {n : Nat} {dir : SubDir} {unnoted : Prop}
    (hcollides : Collides m e) (hqueue : IsName e.queue)
    (hfiles : ∀ dir, d'.lookup (filePath e dir) = d.lookup (filePath e dir))
    (hlease : d'.lookup (leasePath e) = d.lookup (leasePath e))
    (hnote : d'.lookup (notePath e) = d.lookup (notePath e) ↔ unnoted) :
    Planned env.faults n d'
      (do
        match ← atomicWrite (queuePath e.queue dir e.messageId)
            (some (serializeEnvelope e)) with
        | .error error => return .error (some error)
        | .ok () => return .ok () : Program Disk Status)
      fun _ r u => (Reply.status r).reportsFailure = true ∧ Same m d u ↔
        unnoted ∧ WriteFails env.faults n := by
  rw [queuePath_of_name hqueue]
  refine Planned.bind (atomicWrite_planned ?_ ?_)
  · intro error u hfails hsame
    refine Planned.pure ?_
    rw [same_iff hcollides, Same]
    constructor
    · rintro ⟨-, -, -, hkept⟩
      exact ⟨hnote.mp ((hsame _ (by simp)).symm.trans hkept), hfails⟩
    · rintro ⟨hunnoted, -⟩
      refine ⟨rfl, fun dir => ?_, ?_, ?_⟩
      · exact (hsame _ (by simp)).trans (hfiles dir)
      · exact (hsame _ (by simp)).trans hlease
      · exact (hsame _ (by simp)).trans (hnote.mpr hunnoted)
  · intro hnot u _
    refine Planned.pure (iff_of_false ?_ fun h => hnot h.2)
    rintro ⟨hfailed, -⟩
    cases hfailed

/-- What `enqueue` does under an identifier that is in use. -/
theorem collision_planned (hcollides : Collides m e) (hqueue : IsName e.queue)
    (hname : '/' ∉ e.key.toList) :
    Planned env.faults 0 d (enqueue env e) fun _ r u =>
      (Reply.status r).reportsFailure = true ∧ Same m d u ↔ Spared env e d := by
  refine Planned.bind (Planned.prim ?_ ?_ (by simp))
  · intro text hfault
    have hsame : Same m d d := ⟨fun _ => rfl, rfl, rfl⟩
    exact Planned.pure (iff_of_true ⟨rfl, hsame⟩ (.inl (by simp [hfault])))
  rintro hdirs _ _ ⟨rfl, rfl⟩
  by_cases hlater : env.now < e.availableAtMs
  · have hspared : Spared env e d ↔
        (WriteFails env.faults 1 ∨ d.lookup (notePath e) = some (some (noteOf e).toJson)) ∧
          WriteFails env.faults (afterWrite env.faults 1) := by
      simp [Spared, hdirs, hlater]
    rw [if_pos hlater, hspared]
    refine Planned.bind (Planned.bind ?_)
    rw [writeNamed, if_neg hname]
    refine atomicWrite_planned ?_ ?_
    · intro error d' hfails hsame
      refine Planned.pure (Planned.bind (Planned.pure (envelope_planned hcollides hqueue ?_ ?_ ?_)))
      · exact fun dir => hsame _ (by simp)
      · exact hsame _ (by simp)
      · exact iff_of_true (hsame _ (by simp)) (.inl hfails)
    · intro hnot d' hwritten
      refine Planned.pure (Planned.bind (Planned.pure (envelope_planned hcollides hqueue ?_ ?_ ?_)))
      · exact fun dir => (hwritten _ (by simp)).trans (if_neg (by simp))
      · exact (hwritten _ (by simp)).trans (if_neg (by simp))
      · rw [hwritten _ (by simp), if_pos rfl, eq_comm]
        exact (or_iff_right hnot).symm
  · have hspared : Spared env e d ↔ True ∧ WriteFails env.faults 1 := by
      simp [Spared, hdirs, hlater]
    rw [if_neg hlater, hspared]
    refine Planned.bind (Planned.pure (envelope_planned hcollides hqueue ?_ rfl ?_))
    · exact fun _ => rfl
    · exact iff_of_true rfl trivial

end FileSystem

/-! ### The three backends -/

/-- What is stored of the message is as it was, and where it was. -/
def BackendType.Same : (backend : BackendType) → MessageEnvelope → backend.Store →
    backend.Store → Prop
  | .sqlite, m, s, t => SameRows m (Conn.data s) (Conn.data t)
  | .hybrid, m, s, t => Hybrid.Same m s t
  | .fileSystem, m, s, t => FileSystem.Same m s t

/-- What keeps the collision from doing harm. -/
def BackendType.Spared (env : Env) (e : MessageEnvelope) : (backend : BackendType) →
    backend.Store → Prop
  | .sqlite, _ => True
  | .hybrid, s => Hybrid.Spared env e s
  | .fileSystem, s => FileSystem.Spared env e s

/-- **The collision is refused and harmless exactly when the stored message is spared**, in every
    reachable store and whichever primitives of the call fail. -/
theorem collision_harmless_iff (schema : SchemaFile) (backend : BackendType)
    {h : History backend.Store (Env × Call) Reply} {s : backend.Store}
    (run : Run (backend.adapter schema).machine (backend.Given schema) h s)
    {m e : MessageEnvelope} (hm : m ∈ publishedBy h)
    (hstored : (backend.lifecycle schema).slot s m.key ≠ none) (hcollides : Collides m e)
    (env : Env) :
    (((backend.adapter schema).perform env (.enqueue e) s).1.reportsFailure = true ∧
      backend.Same m s ((backend.adapter schema).perform env (.enqueue e) s).2) ↔
    backend.Spared env e s := by
  obtain ⟨hinv, hwell⟩ := (backend.sustains_given schema).inv_of_run run
  -- The insertion meets the key and the whole transaction is rolled back.
  cases backend with
  | sqlite =>
    have hkeeps : SQLite.Keeps (publishedBy h) s := hinv
    obtain ⟨now, hinvariant⟩ := hkeeps.invariant
    obtain ⟨hfailed, hsame⟩ := @SQLite.collision_refused schema _ _ _ env hkeeps.saved
      (hinvariant.toIntegrity.stored hstored) hcollides
    exact iff_of_true ⟨hfailed, .of_eq hsame⟩ trivial
  | hybrid =>
    -- Identifiers of published messages have no slash, so the payload path is that of the message.
    have hkeeps : Hybrid.Keeps (publishedBy h) s := hinv
    have hid : '/' ∉ e.messageId.toList := by
      rw [hcollides.messageId]
      exact Hybrid.not_slash_of_guid (hwell.formed m hm).2
    have hkey : e.key ∈ (Conn.data s).kv.map KvRow.key := by
      rw [hcollides.key]
      exact hkeeps.invariant.toIntegrity.stored hstored
    obtain ⟨_, hsame⟩ :=
      (@Hybrid.collision_planned schema s m e env hkeeps.saved hcollides hid hkey).run
    exact hsame
  | fileSystem =>
    -- Nothing is refused here; what counts is which files the duplicate's writes reach.
    have hkeeps : FileSystem.Keeps False (publishedBy h) s := hinv
    have hnamed : FileSystem.Named m := hkeeps.named m hm
    have hqueue : IsName e.queue := by
      rw [hcollides.queue]
      exact hnamed.queue
    have hname : '/' ∉ e.key.toList := by
      rw [hcollides.key]
      exact hnamed.no_slash
    obtain ⟨_, hsame⟩ := (@FileSystem.collision_planned s m e env hcollides hqueue hname).run
    exact hsame

/-! ### Two collisions -/

section Example

/-- A message, and another one published under its identifier. -/
def original : MessageEnvelope := {
  key := "msg:q:a", messageId := "a", queue := "q", payloadJson := "1", attributesJson := "" }
/-- A message under the same key and identifier with another payload. -/
def duplicate : MessageEnvelope := { original with payloadJson := "2" }

/-- On Hybrid the duplicate is refused, and the clean-up removes the payload of the original, which
    is then leased without one. -/
theorem collision_loses_payload :
    let adapter := Hybrid.adapter .mainMq
    let published := (adapter.perform ⟨1, by decide, "", []⟩ (.enqueue original) adapter.start).2
    let collided := adapter.perform ⟨2, by decide, "", []⟩ (.enqueue duplicate) published
    let leased := adapter.perform ⟨3, by decide, "", []⟩ (.leaseNext "q" "c" 30) collided.2
    (published.files.lookup "./data/payloads/q/active/a.json").isSome = true ∧
      collided.1.reportsFailure = true ∧
      (collided.2.files.lookup "./data/payloads/q/active/a.json").isSome = false ∧
      leased.1.granted.map (fun lease => lease.1.payloadJson) = some "" := by
  decide

/-- On FileSystem the duplicate of a leased message is taken, and the message lies in
    `processing/` and in `inbox/`. -/
theorem collision_doubles_message :
    let adapter := FileSystem.adapter
    let published := (adapter.perform ⟨1, by decide, "", []⟩ (.enqueue original) adapter.start).2
    let leased := (adapter.perform ⟨2, by decide, "", []⟩ (.leaseNext "q" "c" 30) published).2
    let collided := adapter.perform ⟨3, by decide, "", []⟩ (.enqueue duplicate) leased
    ¬(collided.1.reportsFailure = true ∧ FileSystem.Same original leased collided.2) ∧
      (collided.2.lookup (FileSystem.filePath original .processing)).isSome = true ∧
      (collided.2.lookup (FileSystem.filePath original .inbox)).isSome = true := by
  intro adapter published leased collided
  refine ⟨fun hharmless => ?_, by decide, by decide⟩
  let lease : Env × Call := (⟨2, by decide, "", []⟩, .leaseNext "q" "c" 30)
  have hpublish : FileSystem.nulFree.Admits (.enqueue original) :=
    FileSystem.nulFree_admits (by decide) (by decide)
  have hlease : FileSystem.nulFree.Admits (.leaseNext "q" "c" 30) :=
    FileSystem.nulFree_admits (by decide) (by decide)
  have hpublished : Run adapter.machine FileSystem.nulFree.Admitted
      [adapter.machine.stepAt adapter.start (⟨1, by decide, "", []⟩, .enqueue original)]
      published := .step .start ⟨rfl, hpublish, by decide⟩
  have hleased : Run adapter.machine FileSystem.nulFree.Admitted
      [adapter.machine.stepAt published lease,
        adapter.machine.stepAt adapter.start (⟨1, by decide, "", []⟩, .enqueue original)]
      leased := .step hpublished ⟨rfl, hlease, trivial⟩
  have hthere : FileSystem.nulFree.slot leased original.key ≠ none := by
    show leased.slot original.key ≠ none
    decide
  have hspared : FileSystem.Spared ⟨3, by decide, "", []⟩ duplicate leased :=
    (collision_harmless_iff (m := original) (e := duplicate) .mainMq .fileSystem hleased
      List.mem_cons_self hthere ⟨rfl, rfl, rfl⟩ ⟨3, by decide, "", []⟩).mp hharmless
  -- nothing fails
  rcases hspared with hdirs | hwrite
  · exact hdirs rfl
  · rcases hwrite with hcreate | hrename
    · exact hcreate rfl
    · exact hrename rfl

end Example

end YirangMQ

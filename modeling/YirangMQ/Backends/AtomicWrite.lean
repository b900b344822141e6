import YirangMQ.Hybrid.Adapter
import YirangMQ.Library.Plan
import Mathlib.Data.List.TakeDrop

namespace YirangMQ

open Program

/-!
# Writing a file through a temporary one

`atomic_write`, which the two adapters with files and the mailbox each have a copy of, down to
the bytes a stream manages to write.  The stream is not asked whether it has failed, so a short
write goes unnoticed.

* `writeAndRename` — the body of the three copies;
* `AllOrNothing` — what the function is for;
* `writeAndRename_iff`, `atomicWrite_iff` — **it is all-or-nothing exactly when a short write is
  followed by a failing rename**;
* `short_write_replaces` — a short write that replaces a stored file;
* `Reads.hybrid_atomicWrite` — the model of the Hybrid adapter takes every write to be whole.
-/

/-- Files, byte by byte. -/
abbrev ByteFiles := Files String (List UInt8)

/-- `targetPath + ".tmp"` is opened and truncated, `accepted` of the bytes of `content` reach it
    through `<<`, `flush` and `close`, and it is renamed.  A failing open, rename or removal is
    told by the environment; the removal that follows a failing rename overwrites its error code.
    The path has no NUL character, at which both names would end. -/
def writeAndRename (targetPath : String) (content : List UInt8) (accepted : Nat) :
    Program ByteFiles (Except String Unit) := do
  let tempPath := targetPath ++ ".tmp"
  match ← prim (Files.create tempPath []) with
  | .error _ => return .error ("cannot create temp file: " ++ tempPath)
  | .ok () =>
    -- the state of the stream is not checked after this
    modify fun files => files.insert tempPath (content.take accepted)
    match ← prim (Files.rename tempPath targetPath) with
    | .error _ =>
      let removed ← prim (Files.remove tempPath)
      return .error ("rename failed: " ++ Files.errorMessage removed)
    | .ok () => return .ok ()

/-- `FileSystemAdapter::atomic_write` -/
def FileSystemAdapter.atomicWrite := writeAndRename

/-- `HybridAdapter::atomic_write` -/
def HybridAdapter.atomicWrite := writeAndRename

/-- `MailboxHandler::atomic_write` -/
def MailboxHandler.atomicWrite := writeAndRename

/-- The three copies. -/
inductive AtomicWriter where
  | fileSystemAdapter
  | hybridAdapter
  | mailboxHandler
  deriving DecidableEq, Repr

/-- The three copies by their place in the source. -/
def AtomicWriter.atomicWrite : AtomicWriter → String → List UInt8 → Nat →
    Program ByteFiles (Except String Unit)
  | .fileSystemAdapter => FileSystemAdapter.atomicWrite
  | .hybridAdapter => HybridAdapter.atomicWrite
  | .mailboxHandler => MailboxHandler.atomicWrite

/-- After writing `content` to `targetPath`, the file has the new content if the answer is
    success, and the one it had before if it is failure. -/
def AllOrNothing (targetPath : String) (content : List UInt8) (before : ByteFiles)
    (result : Except String Unit × ByteFiles) : Prop :=
  match result.1 with
  | .ok () => result.2.lookup targetPath = some content
  | .error _ => result.2.lookup targetPath = before.lookup targetPath

variable {targetPath : String} {content : List UInt8} {accepted : Nat} {files : ByteFiles}
  {faults : List (Option String)}

/-- The temporary file is not the target. -/
theorem tempPath_ne (targetPath : String) : targetPath ≠ targetPath ++ ".tmp" := by
  intro heq
  have hlength := congrArg String.length heq
  have htmp : ".tmp".length = 4 := rfl
  rw [String.length_append] at hlength
  omega

/-! ### What a plan makes of a write -/

/-- Whether writing `c` to `targetPath` succeeds under a plan, and the files it leaves. -/
def written {C : Type} (faults : List (Option String)) (targetPath : String) (c : C)
    (files : Files String C) : Bool × Files String C :=
  let tempPath := targetPath ++ ".tmp"
  if fault faults 0 ≠ none then (false, files)
  else if fault faults 1 = none then
    (true, Files.renamed tempPath targetPath c (files.insert tempPath c))
  else if fault faults 2 = none then (false, (files.insert tempPath c).erase tempPath)
  else (false, files.insert tempPath c)

/-- A failing write leaves the target as it was. -/
theorem lookup_written {C : Type} (c : C) (files : Files String C) :
    (written faults targetPath c files).2.lookup targetPath =
      if (written faults targetPath c files).1 then some c else files.lookup targetPath := by
  have hne := tempPath_ne targetPath
  unfold written
  dsimp only
  split
  · rfl
  · split
    · rw [if_pos rfl, Files.lookup_renamed, if_pos rfl]
    · split
      · simp [hne]
      · simp [hne]

/-- **What a write answers and leaves behind**, for every plan of faults. -/
theorem writeAndRename_run (targetPath : String) (content : List UInt8) (accepted : Nat)
    (files : ByteFiles) (faults : List (Option String)) :
    let result := (writeAndRename targetPath content accepted).run faults files
    (result.1.isOk, result.2) = written faults targetPath (content.take accepted) files := by
  have hplanned : Planned faults 0 files (writeAndRename targetPath content accepted)
      fun _ r after =>
        (r.isOk, after) = written faults targetPath (content.take accepted) files := by
    refine Planned.bind (Planned.prim ?_ ?_ (by simp [Files.create]))
    · intro text hopen
      refine Planned.pure ?_
      simp [written, hopen, Except.isOk, Except.toBool]
    · rintro hopen _ _ ⟨rfl, rfl⟩
      refine Planned.bind (Planned.modify (Planned.bind (Planned.prim ?_ ?_ ?_)))
      · intro text hrename
        refine Planned.bind (Planned.prim ?_ ?_ (by simp [Files.remove]))
        · intro e hremove
          refine Planned.pure ?_
          simp [written, hopen, hrename, hremove, Except.isOk, Except.toBool]
        · rintro hremove _ _ ⟨rfl, rfl⟩
          refine Planned.pure ?_
          simp [written, hopen, hrename, hremove, Except.isOk, Except.toBool]
      · intro hrename a after hrenamed
        simp only [Files.rename, AList.lookup_insert, Except.ok.injEq, Prod.mk.injEq] at hrenamed
        obtain ⟨-, rfl⟩ := hrenamed
        refine Planned.pure ?_
        simp [written, hopen, hrename, Except.isOk, Except.toBool]
      · intro _ text hrenamed
        simp [Files.rename] at hrenamed
  obtain ⟨_, h⟩ := hplanned.run
  exact h

/-- The target has the content where the write reports success, and what it had where it does
    not. -/
theorem allOrNothing_iff {before : ByteFiles} {result : Except String Unit × ByteFiles} :
    AllOrNothing targetPath content before result ↔
      result.2.lookup targetPath =
        if result.1.isOk then some content else before.lookup targetPath := by
  obtain ⟨_ | _, after⟩ := result
  · rfl
  · rfl

/-- **The function is all-or-nothing** unless the file opens, a short write is not noticed and
    the rename succeeds. -/
theorem writeAndRename_iff (targetPath : String) (content : List UInt8) (accepted : Nat)
    (files : ByteFiles) (faults : List (Option String)) :
    AllOrNothing targetPath content files
        ((writeAndRename targetPath content accepted).run faults files) ↔
      fault faults 0 ≠ none ∨ fault faults 1 ≠ none ∨ content.length ≤ accepted := by
  have hrun := writeAndRename_run targetPath content accepted files faults
  obtain ⟨hok, hafter⟩ := Prod.ext_iff.mp hrun
  dsimp only at hok hafter
  rw [allOrNothing_iff, hok, hafter, lookup_written]
  by_cases hopen : fault faults 0 = none
  · by_cases hrename : fault faults 1 = none
    · -- the target has what has reached the temporary file
      simp [written, hopen, hrename, List.take_eq_self_iff]
    · have hfailed : (written faults targetPath (content.take accepted) files).1 = false := by
        rw [written, if_neg (by simp [hopen]), if_neg hrename]
        split
        · rfl
        · rfl
      simp [hfailed, hrename]
  · simp [written, hopen]

/-- **Each copy of the function is all-or-nothing exactly** when the open fails, the rename fails
    or the stream takes every byte. -/
theorem atomicWrite_iff (writer : AtomicWriter) (targetPath : String) (content : List UInt8)
    (accepted : Nat) (files : ByteFiles) (faults : List (Option String)) :
    AllOrNothing targetPath content files
        ((writer.atomicWrite targetPath content accepted).run faults files) ↔
      fault faults 0 ≠ none ∨ fault faults 1 ≠ none ∨ content.length ≤ accepted := by
  have hbody : writer.atomicWrite = writeAndRename := by cases writer <;> rfl
  rw [hbody]
  exact writeAndRename_iff targetPath content accepted files faults

/-- Two of the four new bytes reach the disk: the call reports success, and the message of three
    bytes that was stored is gone. -/
theorem short_write_replaces :
    let files : ByteFiles := AList.insert "processing/a.json" [1, 2, 3] ∅
    let result := (FileSystemAdapter.atomicWrite "processing/a.json" [4, 5, 6, 7] 2).run [] files
    result.1.isOk = true ∧ result.2.lookup "processing/a.json" = some [4, 5] ∧
      ¬AllOrNothing "processing/a.json" [4, 5, 6, 7] files result := by
  have hnot : ¬AllOrNothing "processing/a.json" [4, 5, 6, 7]
      (AList.insert "processing/a.json" [1, 2, 3] ∅)
      ((writeAndRename "processing/a.json" [4, 5, 6, 7] 2).run []
        (AList.insert "processing/a.json" [1, 2, 3] ∅)) := by
    rw [writeAndRename_iff]
    decide
  exact ⟨by decide, by decide, hnot⟩

/-! ### Whole writes -/

/-- The documents are what `parse` reads from the bytes. -/
def Reads (parse : List UInt8 → JsonText) (files : ByteFiles) (payloads : Hybrid.Payloads) :
    Prop := ∀ path, payloads.lookup path = (files.lookup path).map parse

variable {parse : List UInt8 → JsonText} {payloads : Hybrid.Payloads}

/-- Reading the written bytes is writing what they are read as. -/
theorem Reads.insert (h : Reads parse files payloads) (path : String) (bytes : List UInt8) :
    Reads parse (files.insert path bytes) (payloads.insert path (parse bytes)) := by
  intro path'
  rw [Files.lookup_insert', Files.lookup_insert']
  split
  · rfl
  · exact h path'

/-- A file that is removed is removed in both. -/
theorem Reads.erase (h : Reads parse files payloads) (path : String) :
    Reads parse (files.erase path) (payloads.erase path) := by
  intro path'
  rw [Files.lookup_erase', Files.lookup_erase']
  split
  · rfl
  · exact h path'

/-- A write over bytes and a write over documents run alike. -/
theorem Reads.written (h : Reads parse files payloads) (targetPath : String)
    (faults : List (Option String)) (bytes : List UInt8) :
    (YirangMQ.written faults targetPath (parse bytes) payloads).1 =
      (YirangMQ.written faults targetPath bytes files).1 ∧
    Reads parse (YirangMQ.written faults targetPath bytes files).2
      (YirangMQ.written faults targetPath (parse bytes) payloads).2 := by
  have htemp := h.insert (targetPath ++ ".tmp") bytes
  unfold YirangMQ.written
  dsimp only
  split
  · exact ⟨rfl, h⟩
  · split
    · exact ⟨rfl, (htemp.erase _).insert _ _⟩
    · split
      · exact ⟨rfl, htemp.erase _⟩
      · exact ⟨rfl, htemp⟩

/-- The adapter's write of a document is the write of its bytes. -/
theorem Hybrid.atomicWrite_run (targetPath : String) (text : JsonText) (s : Hybrid.Store)
    (faults : List (Option String)) :
    let result := (Hybrid.atomicWrite targetPath text).run faults s
    (result.1.isOk, result.2.files) = written faults targetPath text s.files := by
  have hplanned : Planned faults 0 s (Hybrid.atomicWrite targetPath text)
      fun _ r after => (r.isOk, after.files) = written faults targetPath text s.files := by
    refine Planned.bind (Planned.onFiles ?_ ?_ (by simp [Files.create]))
    · intro e hopen
      refine Planned.pure ?_
      simp [written, hopen, Except.isOk, Except.toBool]
    · rintro hopen _ _ ⟨rfl, rfl⟩
      refine Planned.bind (Planned.onFiles ?_ ?_ ?_)
      · intro e hrename
        refine Planned.bind (Planned.onFiles ?_ ?_ (by simp [Files.remove]))
        · intro e' hremove
          refine Planned.pure ?_
          simp [written, hopen, hrename, hremove, Except.isOk, Except.toBool]
        · rintro hremove _ _ ⟨rfl, rfl⟩
          refine Planned.pure ?_
          simp [written, hopen, hrename, hremove, Except.isOk, Except.toBool]
      · intro hrename _ after hrenamed
        simp only [Files.rename, AList.lookup_insert, Except.ok.injEq, Prod.mk.injEq] at hrenamed
        obtain ⟨-, rfl⟩ := hrenamed
        refine Planned.pure ?_
        simp [written, hopen, hrename, Except.isOk, Except.toBool]
      · intro _ e hrenamed
        simp [Files.rename] at hrenamed
  obtain ⟨_, h⟩ := hplanned.run
  exact h

/-- A whole write on the bytes is a write of the document: both succeed or both fail, and what
    was read from the bytes before is read from them after. -/
theorem Reads.hybrid_atomicWrite {s : Hybrid.Store} (h : Reads parse files s.files)
    (hwhole : content.length ≤ accepted) :
    let onBytes := (HybridAdapter.atomicWrite targetPath content accepted).run faults files
    let onStore := (Hybrid.atomicWrite targetPath (parse content)).run faults s
    onStore.1.isOk = onBytes.1.isOk ∧ Reads parse onBytes.2 onStore.2.files := by
  intro onBytes onStore
  have hbytes := writeAndRename_run targetPath content accepted files faults
  have hstore := Hybrid.atomicWrite_run targetPath (parse content) s faults
  rw [List.take_of_length_le hwhole] at hbytes
  obtain ⟨hok, hafter⟩ := Prod.ext_iff.mp hbytes
  obtain ⟨hok', hafter'⟩ := Prod.ext_iff.mp hstore
  obtain ⟨hsame, hreads⟩ := h.written targetPath faults content
  refine ⟨hok'.trans (hsame.trans hok.symm), ?_⟩
  rw [← hafter, ← hafter'] at hreads
  exact hreads

end YirangMQ

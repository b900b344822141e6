import YirangMQ.Backend.Lifecycle
import YirangMQ.Library.Files
import YirangMQ.Library.Paths

namespace YirangMQ.FileSystem

/-!
# Paths and message keys

Where the FileSystem adapter keeps its files, and what it reads off a message key.  A queue
string is followed as a path from the root, so two strings may lead to one directory; message
keys are taken to have no slash, and no text of a path to have a NUL character.

* `Path`, `Disk` — the files under the root, and their contents as `json::parse` reads them;
* `messageIdOf`, `extractQueueFromKey`, `safeKey` — the adapter's readings of a key;
* `locate` — the queue and identifier of a published message;
* `locate_messageKey`, `safeKey_inj` — published messages are told apart.
-/

/-- The directories of a queue. -/
inductive SubDir where
  | inbox
  | processing
  | archive
  | dlq
  | delayed
  deriving DecidableEq, Repr

def SubDir.name : SubDir → String
  | .inbox => "inbox"
  | .processing => "processing"
  | .archive => "archive"
  | .dlq => "dlq"
  | .delayed => "delayed"

/-- The files: `<location>/<dir>/<id>.json` in the directory a queue string leads to,
    `<meta>/leases/<key>.json`, `<meta>/delayed/<key>.json`, `<meta>/policy_<queue>.json`, and each
    of them with `.tmp`. -/
inductive Path where
  | message (location : Directory) (dir : SubDir) (id : String)
  | leaseMeta (safeKey : String)
  | delayedMeta (safeKey : String)
  | policy (queue : String)
  | temp (path : Path)
  deriving DecidableEq, Repr

/-- The path as the adapter writes it, with the default root and directories. -/
def Path.text : Path → String
  | .message location dir id =>
    "./data/fs/" ++ "/".intercalate location.reverse ++ "/" ++ dir.name ++ "/" ++ id ++ ".json"
  | .leaseMeta safeKey => "./data/fs/meta/leases/" ++ safeKey ++ ".json"
  | .delayedMeta safeKey => "./data/fs/meta/delayed/" ++ safeKey ++ ".json"
  | .policy queue => "./data/fs/meta/policy_" ++ queue ++ ".json"
  | .temp path => path.text ++ ".tmp"

/-- The files of an adapter; `none` is a content that does not parse. -/
abbrev Disk := Files Path JsonText

/-- `fs_config_.meta_dir` -/
def metaDir : String := "meta"

/-- `build_queue_path` for the file of a message. -/
def queuePath (queue : String) (dir : SubDir) (id : String) : Path :=
  .message (resolve [] queue) dir id

/-- The path of a message in a queue whose string is a name. -/
theorem queuePath_of_name {queue : String} (h : IsName queue) (dir : SubDir) (id : String) :
    queuePath queue dir id = .message [queue] dir id := by
  rw [queuePath, resolve_name h]

/-! ### Message keys -/

/-- The part of the key after its last colon. -/
def messageIdOf (key : String) : Option String :=
  if ':' ∈ key.toList then
    some (String.ofList (key.toList.reverse.takeWhile (· ≠ ':')).reverse)
  else none

/-- The part of the key between its first two colons. -/
def extractQueueFromKey (key : String) : String :=
  let rest := (key.toList.dropWhile (· ≠ ':')).tail
  if ':' ∈ rest then String.ofList (rest.takeWhile (· ≠ ':')) else ""

/-- The key as a part of a file name.  The key has no NUL character, at which the name would end. -/
def safeKey (key : String) : String :=
  String.ofList (key.toList.map fun c => if c = ':' then '_' else c)

/-- The queue and the identifier of a key as `handle_publish` makes it. -/
def locate (key : String) : Option (String × String) :=
  let back := key.toList.reverse
  let id := String.ofList (back.takeWhile (· ≠ ':')).reverse
  let queue := String.ofList ((back.dropWhile (· ≠ ':')).tail.reverse.drop 4)
  if key = messageKey queue id then some (queue, id) else none

/-! ### Published keys -/

variable {queue id key : String}

/-- An identifier made of the characters of identifiers has no colon. -/
theorem not_mem_of_guid {id : String} (hid : ∀ c ∈ id.toList, isGuidChar c = true) :
    ':' ∉ id.toList ∧ '_' ∉ id.toList :=
  ⟨fun h => (isGuidChar_ne (hid _ h)).1 rfl, fun h => (isGuidChar_ne (hid _ h)).2.1 rfl⟩

theorem toList_messageKey (queue id : String) :
    (messageKey queue id).toList = "msg:".toList ++ queue.toList ++ ':' :: id.toList := by
  simp [messageKey, String.toList_append, List.append_assoc]

/-- What comes after the last separator, and before it. -/
theorem split_last {front back : List Char} {sep : Char} (hback : sep ∉ back) :
    ((front ++ sep :: back).reverse.takeWhile (· ≠ sep)).reverse = back ∧
    ((front ++ sep :: back).reverse.dropWhile (· ≠ sep)).tail.reverse = front := by
  have hreverse : (front ++ sep :: back).reverse = back.reverse ++ sep :: front.reverse := by
    simp
  have hall : ∀ c ∈ back.reverse, decide (c ≠ sep) = true := by
    intro c hc
    have hne : c ≠ sep := fun heq => hback (heq ▸ List.mem_reverse.mp hc)
    simpa using hne
  rw [hreverse, List.takeWhile_append_of_pos hall, List.dropWhile_append_of_pos hall]
  simp

theorem messageIdOf_messageKey (hid : ':' ∉ id.toList) :
    messageIdOf (messageKey queue id) = some id := by
  have hmem : ':' ∈ (messageKey queue id).toList := by simp [toList_messageKey]
  rw [messageIdOf, if_pos hmem, toList_messageKey, (split_last hid).1, String.ofList_toList]

/-- A published key is located at its queue and identifier. -/
theorem locate_messageKey (hid : ':' ∉ id.toList) :
    locate (messageKey queue id) = some (queue, id) := by
  have hsplit := @split_last ("msg:".toList ++ queue.toList) id.toList ':' hid
  rw [← toList_messageKey] at hsplit
  have hqueue : ("msg:".toList ++ queue.toList).drop 4 = queue.toList := rfl
  simp only [locate, hsplit.1, hsplit.2, hqueue, String.ofList_toList, if_true]

/-- Only such a key is located. -/
theorem locate_some (h : locate key = some (queue, id)) : key = messageKey queue id := by
  unfold locate at h
  dsimp only at h
  split at h
  case isTrue hkey =>
    simp only [Option.some.injEq, Prod.mk.injEq] at h
    rw [← h.1, ← h.2]
    exact hkey
  case isFalse => cases h

/-- A text without a colon is left as it is. -/
theorem map_safe {back : List Char} (hback : ':' ∉ back) :
    back.map (fun c => if c = ':' then '_' else c) = back := by
  refine (List.map_congr_left (g := fun c => c) fun c hc => if_neg ?_).trans (List.map_id _)
  exact fun heq => hback (heq ▸ hc)

/-- The file names of published keys determine their identifiers. -/
theorem safeKey_inj {queue' id' : String} (hid : '_' ∉ id.toList ∧ ':' ∉ id.toList)
    (hid' : '_' ∉ id'.toList ∧ ':' ∉ id'.toList)
    (h : safeKey (messageKey queue id) = safeKey (messageKey queue' id')) : id = id' := by
  have hlists : (messageKey queue id).toList.map (fun c => if c = ':' then '_' else c) =
      (messageKey queue' id').toList.map (fun c => if c = ':' then '_' else c) :=
    String.ofList_injective h
  rw [toList_messageKey, toList_messageKey] at hlists
  simp only [List.map_append, List.map_cons, if_true, map_safe hid.2, map_safe hid'.2] at hlists
  exact String.toList_injective (append_cons_inj hid.1 hid'.1 hlists).2

/-- The identifier read off a key comes after a colon and has none. -/
theorem messageIdOf_some (h : messageIdOf key = some id) :
    ∃ front, key.toList = front ++ ':' :: id.toList ∧ ':' ∉ id.toList := by
  unfold messageIdOf at h
  split at h
  case isFalse => cases h
  case isTrue hmem =>
    rw [Option.some.injEq] at h
    subst h
    obtain ⟨front, back, hsplit, hback⟩ : ∃ front back, key.toList = front ++ ':' :: back ∧
        ':' ∉ back := by
      obtain ⟨before, after, hreverse, hbefore⟩ :=
        List.eq_append_cons_of_mem (List.mem_reverse.mpr hmem)
      refine ⟨after.reverse, before.reverse, ?_, by simpa using hbefore⟩
      rw [← List.reverse_reverse key.toList, hreverse]
      simp
    refine ⟨front, ?_, ?_⟩
    · rw [hsplit, (split_last hback).1, String.toList_ofList]
    · rw [hsplit, (split_last hback).1, String.toList_ofList]
      exact hback

/-- A key with the file name of a published one has its identifier, unless its own has an
    underscore. -/
theorem messageIdOf_of_safeKey {K id' : String} (hid : '_' ∉ id.toList ∧ ':' ∉ id.toList)
    (hK : messageIdOf K = some id') (hid' : '_' ∉ id'.toList)
    (h : safeKey K = safeKey (messageKey queue id)) : id' = id := by
  obtain ⟨front, hfront, hcolon⟩ := messageIdOf_some hK
  have hlists : K.toList.map (fun c => if c = ':' then '_' else c) =
      (messageKey queue id).toList.map (fun c => if c = ':' then '_' else c) :=
    String.ofList_injective h
  rw [hfront, toList_messageKey] at hlists
  simp only [List.map_append, List.map_cons, if_true, map_safe hid.2, map_safe hcolon] at hlists
  exact String.toList_injective (append_cons_inj hid' hid.1 hlists).2

end YirangMQ.FileSystem

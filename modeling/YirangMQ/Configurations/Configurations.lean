import YirangMQ.Configurations.Documents

namespace YirangMQ

/-!
# The configuration of the daemon

What the constructor of `Configurations` makes of the configuration file and of the command line:
the defaults, then the document, then the arguments, and at last the repairs.

* `ArgumentParser` — the arguments, with `to_int`;
* `Configurations.load`, `parse`, `validate` — the steps, `Configurations.construct` — all of them;
* `construct_normal` — **whatever the file and the arguments are, the daemon gets valid policies and
  positive times, and the repair does not touch valid policies**;
* `loadDocument_entry_iff` — **an entry is loaded as it stands exactly when no rule up to it
  throws**, `loadDocument_drops` — a document that loses all its queues to one rule.
-/

open Mailbox Json

/-! ### Command-line arguments -/

/-- The parsed arguments, a map from names to values. -/
structure ArgumentParser where
  arguments : List (String × String) := []

namespace ArgumentParser

/-- `to_string` -/
def toString (parser : ArgumentParser) (key : String) : Option String :=
  parser.arguments.lookup key

/-- `insert`, which keeps a value that is there. -/
def insert (parser : ArgumentParser) (key value : String) : ArgumentParser :=
  match parser.toString key with
  | some _ => parser
  | none => ⟨(key, value) :: parser.arguments⟩

/-- The value of a name is set. -/
def assign (parser : ArgumentParser) (key value : String) : ArgumentParser :=
  ⟨(key, value) :: parser.arguments.filter fun argument => argument.1 ≠ key⟩

/-- The loop of `parse`: an argument that starts with two dashes takes the next one as its value,
    whatever this is. -/
def parseInto (parser : ArgumentParser) : List String → ArgumentParser
  | [] => parser
  | argumentId :: arguments =>
    if ['-', '-'].isPrefixOf argumentId.toList then
      if argumentId = "--help" then
        (parser.insert argumentId "display help").parseInto arguments
      else if argumentId = "--version" then
        (parser.insert argumentId "display version").parseInto arguments
      else
        match arguments with
        | [] => parser
        | value :: arguments => (parser.assign argumentId value).parseInto arguments
    else parser.parseInto arguments

/-- `parse` of the words after the program's name. -/
def parse (arguments : List String) : ArgumentParser := parseInto {} arguments

/-- `isspace` -/
def isSpace (c : Char) : Bool := c = ' ' || ('\t' ≤ c && c ≤ '\r')

/-- The number the leading digits make. -/
def digitsValue (chars : List Char) : Nat :=
  (chars.takeWhile Char.isDigit).foldl (fun n c => 10 * n + (c.toNat - '0'.toNat)) 0

/-- `strtol` with the base ten, which stays in the range of `long`. -/
def strtol (text : List Char) : Int :=
  let value : Int :=
    match text.dropWhile isSpace with
    | '-' :: digits => -digitsValue digits
    | '+' :: digits => digitsValue digits
    | digits => digitsValue digits
  max (-2 ^ 63) (min value (2 ^ 63 - 1))

/-- `to_int`, where `atoi` cuts the `long` to an `int`. -/
def toInt (parser : ArgumentParser) (key : String) : Option Int :=
  (parser.toString key).map fun text => (strtol text.toList).bmod (2 ^ 32)

example : (parse ["file", "--node-id", "--help", "--visibility-timeout", " 45s"]).toInt
    "--visibility-timeout" = some 45 := by decide

end ArgumentParser

/-! ### The configuration -/

/-- The ways the daemon can be run. -/
inductive OperationMode where
  | mailboxSqlite
  | mailboxFileSystem
  | hybrid
  deriving DecidableEq, Repr

/-- `SQLiteConfig`, with its defaults. -/
structure SQLiteConfig where
  dbPath : String := "./data/yirangmq.db"
  kvTable : String := "kv"
  messageIndexTable : String := "msg_index"
  busyTimeoutMs : Int := 5000
  journalMode : String := "WAL"
  synchronous : String := "NORMAL"

/-- `FileSystemConfig`, with its defaults. -/
structure FileSystemConfig where
  root : String := "./data/fs"
  inboxDir : String := "inbox"
  processingDir : String := "processing"
  archiveDir : String := "archive"
  dlqDir : String := "dlq"
  metaDir : String := "meta"

/-- `MailboxConfig`, with its defaults. -/
structure MailboxConfig where
  root : String := "./ipc"
  requestsDir : String := "requests"
  processingDir : String := "processing"
  responsesDir : String := "responses"
  deadDir : String := "dead"
  staleTimeoutMs : Int := 30000
  pollIntervalMs : Int := 100
  useFolderWatcher : Bool := true

/-- The defaults are those of the constructor.  A log type is the number of its kind. -/
structure Configurations where
  writeFile : Int := 0
  writeConsole : Int := 3
  dataRoot : String := "./data"
  logRoot : String := "./logs"
  schemaVersion : String := "0.1"
  nodeId : String := "local-01"
  backendType : BackendType := .sqlite
  operationMode : OperationMode := .mailboxSqlite
  mailbox : MailboxConfig := {}
  sqlite : SQLiteConfig := {}
  filesystem : FileSystemConfig := {}
  leaseVisibilityTimeoutSec : Int := 30
  leaseSweepIntervalMs : Int := 1000
  policyDefaults : QueuePolicy := ⟨30, ⟨5, "exponential", 1, 60⟩, ⟨true, "", 14⟩⟩
  queues : List QueueConfig := []

namespace Configurations

/-- The backends a configuration file can name. -/
def backendTypeOf : String → Option BackendType
  | "sqlite" => some .sqlite
  | "filesystem" | "fs" => some .fileSystem
  | "hybrid" => some .hybrid
  | _ => none

/-- The names of the modes; any other name leaves the mode as it is. -/
def operationModeOf : String → Option OperationMode
  | "mailbox_sqlite" => some .mailboxSqlite
  | "mailbox_fs" | "mailbox_filesystem" => some .mailboxFileSystem
  | "hybrid" => some .hybrid
  | _ => none

/-- A section that is not there, or is no object, is read like an empty one. -/
def sectionOf (config : Json String) (key : String) : Json String :=
  (config.read key asObject).getD (.obj [])

/-- The section of the SQLite adapter: what it does not have, or has of another type, stays. -/
def loadSqlite (sqlite : SQLiteConfig) (obj : Json String) : SQLiteConfig where
  dbPath := (obj.read "dbPath" asString).getD sqlite.dbPath
  kvTable := (obj.read "kvTable" asString).getD sqlite.kvTable
  messageIndexTable := (obj.read "messageIndexTable" asString).getD sqlite.messageIndexTable
  busyTimeoutMs := (obj.read "busyTimeoutMs" (asInt 32)).getD sqlite.busyTimeoutMs
  journalMode := (obj.read "journalMode" asString).getD sqlite.journalMode
  synchronous := (obj.read "synchronous" asString).getD sqlite.synchronous

/-- The section of the FileSystem adapter, read in the same way. -/
def loadFilesystem (fs : FileSystemConfig) (obj : Json String) : FileSystemConfig where
  root := (obj.read "root" asString).getD fs.root
  inboxDir := (obj.read "inboxDir" asString).getD fs.inboxDir
  processingDir := (obj.read "processingDir" asString).getD fs.processingDir
  archiveDir := (obj.read "archiveDir" asString).getD fs.archiveDir
  dlqDir := (obj.read "dlqDir" asString).getD fs.dlqDir
  metaDir := (obj.read "metaDir" asString).getD fs.metaDir

/-- The section of the mailbox, read in the same way. -/
def loadMailbox (mailbox : MailboxConfig) (obj : Json String) : MailboxConfig where
  root := (obj.read "root" asString).getD mailbox.root
  requestsDir := (obj.read "requestsDir" asString).getD mailbox.requestsDir
  processingDir := (obj.read "processingDir" asString).getD mailbox.processingDir
  responsesDir := (obj.read "responsesDir" asString).getD mailbox.responsesDir
  deadDir := (obj.read "deadDir" asString).getD mailbox.deadDir
  staleTimeoutMs := (obj.read "staleTimeoutMs" (asInt 32)).getD mailbox.staleTimeoutMs
  pollIntervalMs := (obj.read "pollIntervalMs" (asInt 32)).getD mailbox.pollIntervalMs
  useFolderWatcher := (obj.read "useFolderWatcher" asBool).getD mailbox.useFolderWatcher

/-- The policy defaults of a document. -/
def loadPolicyDefaults (defaults : QueuePolicy) (config : Json String) : QueuePolicy :=
  match config.read "policyDefaults" asObject with
  | some policy => loadQueuePolicy defaults policy
  | none => defaults

/-- The entries of `queues`. -/
def queueEntries (config : Json String) : List (Json String) :=
  (config.read "queues" asArray).getD []

section Steps

variable (libs : Libraries) (compiles : String → Bool)

/-- What `load` takes from a document.  An exception in the last part leaves what was loaded. -/
def loadDocument (config : Json String) (self : Configurations) : Configurations :=
  let policyDefaults := loadPolicyDefaults self.policyDefaults config
  { self with
    schemaVersion := (config.read "schemaVersion" asString).getD self.schemaVersion
    nodeId := (config.read "nodeId" asString).getD self.nodeId
    backendType :=
      ((config.read "backend" asString).bind backendTypeOf).getD self.backendType
    operationMode :=
      ((config.read "mode" asString).bind operationModeOf).getD self.operationMode
    dataRoot := ((sectionOf config "paths").read "dataRoot" asString).getD self.dataRoot
    logRoot := ((sectionOf config "paths").read "logRoot" asString).getD self.logRoot
    sqlite := loadSqlite self.sqlite (sectionOf config "sqlite")
    filesystem := loadFilesystem self.filesystem (sectionOf config "filesystem")
    mailbox := loadMailbox self.mailbox (sectionOf config "ipc")
    leaseVisibilityTimeoutSec :=
      ((sectionOf config "lease").read "visibilityTimeoutSec" (asInt 32)).getD
        self.leaseVisibilityTimeoutSec
    leaseSweepIntervalMs :=
      ((sectionOf config "lease").read "sweepIntervalMs" (asInt 32)).getD self.leaseSweepIntervalMs
    policyDefaults
    queues :=
      match config.read "queues" asArray with
      | some entries => loadQueues libs compiles policyDefaults entries
      | none => self.queues }

/-- `Converter::to_string`, which leaves the last byte of a byte order mark. -/
def withoutMark (bytes : String) : String :=
  match bytes.toList with
  | '\u00ef' :: '\u00bb' :: '\u00bf' :: rest => String.ofList ('\u00bf' :: rest)
  | _ => bytes

/-- `load`, of the bytes of the configuration file when it could be read. -/
def load (source : Option String) (self : Configurations) : Configurations :=
  match source with
  | none => self
  | some bytes =>
    match libs.parse (withoutMark bytes) with
    | .error _ => self
    | .ok config => loadDocument libs compiles config self

end Steps

/-- The backends the command line can name. -/
def backendArgument : String → Option BackendType
  | "sqlite" => some .sqlite
  | "filesystem" | "fs" => some .fileSystem
  | _ => none

/-- `parse`.  A log type is one byte. -/
def parse (arguments : ArgumentParser) (self : Configurations) : Configurations :=
  { self with
    backendType :=
      ((arguments.toString "--backend").bind backendArgument).getD self.backendType
    sqlite :=
      { self.sqlite with dbPath := (arguments.toString "--db-path").getD self.sqlite.dbPath }
    dataRoot := (arguments.toString "--data-root").getD self.dataRoot
    logRoot := (arguments.toString "--log-root").getD self.logRoot
    nodeId := (arguments.toString "--node-id").getD self.nodeId
    leaseVisibilityTimeoutSec :=
      (arguments.toInt "--visibility-timeout").getD self.leaseVisibilityTimeoutSec
    writeConsole := ((arguments.toInt "--write-console-log").map (· % 2 ^ 8)).getD self.writeConsole
    writeFile := ((arguments.toInt "--write-file-log").map (· % 2 ^ 8)).getD self.writeFile }

/-- The part of `validate` that concerns one queue; its name is reported, not repaired. -/
def validateQueue (queue : QueueConfig) : QueueConfig :=
  { queue with policy := validateQueuePolicy queue.policy }

/-- `validate_values`: every bound that is broken is put right. -/
def validate (self : Configurations) : Configurations :=
  { self with
    leaseVisibilityTimeoutSec := positiveOr 30 self.leaseVisibilityTimeoutSec
    leaseSweepIntervalMs := positiveOr 1000 self.leaseSweepIntervalMs
    policyDefaults := validateQueuePolicy self.policyDefaults
    queues := self.queues.map validateQueue }

/-- The constructor. -/
def construct (libs : Libraries) (compiles : String → Bool) (source : Option String)
    (arguments : List String) : Configurations :=
  let defaults : Configurations := {}
  ((defaults.load libs compiles source).parse (.parse arguments)).validate

/-! ### What the daemon gets -/

/-- The policies are valid and the times positive. -/
structure Normal (self : Configurations) : Prop where
  policyDefaults : self.policyDefaults.Valid
  queues : ∀ queue ∈ self.queues, queue.policy.Valid
  leaseVisibilityTimeout : 0 < self.leaseVisibilityTimeoutSec
  leaseSweepInterval : 0 < self.leaseSweepIntervalMs

/-- **Validated settings are normal**, whatever they were. -/
theorem validate_normal (self : Configurations) : self.validate.Normal where
  policyDefaults := validateQueuePolicy_valid _
  queues := by
    intro queue hqueue
    obtain ⟨loaded, -, rfl⟩ := List.mem_map.mp hqueue
    exact validateQueuePolicy_valid loaded.policy
  leaseVisibilityTimeout := positiveOr_pos (by decide) _
  leaseSweepInterval := positiveOr_pos (by decide) _

/-- **Whatever the configuration file and the arguments are, the policies are valid and the times
    positive; repairing twice is repairing once, and the policies that the repair leaves as they are
    are the valid ones.** -/
theorem construct_normal (libs : Libraries) (compiles : String → Bool) (source : Option String)
    (arguments : List String) (policy : QueuePolicy) :
    (construct libs compiles source arguments).Normal ∧
    validateQueuePolicy (validateQueuePolicy policy) = validateQueuePolicy policy ∧
    (validateQueuePolicy policy = policy ↔ policy.Valid) := by
  have hnormal : (construct libs compiles source arguments).Normal := validate_normal _
  exact ⟨hnormal, validateQueuePolicy_idempotent policy, validateQueuePolicy_eq_self_iff policy⟩

/-! ### One entry and the others -/

/-- **What is loaded for an entry is what the entry says, with the policy defaults, exactly when no
    rule of it or of an earlier entry throws.** -/
theorem loadDocument_entry_iff (libs : Libraries) (compiles : String → Bool)
    (self : Configurations) (config : Json String) (i : Fin (queueEntries config).length) :
    (loadDocument libs compiles config self).queues[i.val]? =
        some (intendedConfig libs compiles (loadPolicyDefaults self.policyDefaults config)
          (queueEntries config)[i]) ↔
      ∀ entry ∈ (queueEntries config).take (i + 1), ∀ rule ∈ entryRules entry,
        Throwing rule = false := by
  have hqueues : (loadDocument libs compiles config self).queues =
      loadQueues libs compiles (loadPolicyDefaults self.policyDefaults config)
        (queueEntries config) := by
    cases hread : config.read "queues" asArray with
    | none =>
      have hempty : (queueEntries config).length = 0 := by
        rw [queueEntries, hread]
        rfl
      exact absurd i.isLt (by omega)
    | some entries =>
      have hentries : queueEntries config = entries := by
        rw [queueEntries, hread]
        rfl
      rw [hentries, loadDocument]
      simp only [hread]
  rw [hqueues]
  exact loadQueues_getElem? (queueEntries config) i.val i.isLt

/-- Two queues; the error message of a rule of the first one is a number. -/
def twoQueues : Json String :=
  let rule : Json String :=
    .obj [("field", .str "amount"), ("type", .str "required"), ("errorMessage", .int 5)]
  .obj [("queues", .arr [
    .obj [("name", .str "orders"), ("messageSchema", .obj [("rules", .arr [rule])])],
    .obj [("name", .str "invoices")]])]

/-- Of two queues in a document, of which the second cannot be read, the second is dropped. -/
theorem loadDocument_drops : (queueEntries twoQueues).length = 2 ∧
    (loadDocument (.ofTable []) (fun _ => true) twoQueues {}).queues[1]? = none := by
  exact ⟨rfl, rfl⟩

end Configurations

end YirangMQ

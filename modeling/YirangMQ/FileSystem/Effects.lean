import YirangMQ.FileSystem.Adapter

namespace YirangMQ.FileSystem

open Program

/-!
# What the FileSystem operations do

Without failing primitives each operation goes through certain disks, one after each
primitive.  Its rule asks for `C` on every disk that a cut can leave behind, and for `Q` on the
answer and the last one.

* `written`, `released` — the disks after a file has been written, or has left `processing/`;
* `Reaches` — the lease file of a key leads to a message file;
* `enqueue_sat`, `leaseNext_sat`, `ack_sat`, … — the rule of each operation.
-/

variable {C : Disk → Prop} {d : Disk} {env : Env} {α : Type} {key queue id : String}

/-! ### Files -/

/-- The disk after a file has been written through its temporary file. -/
def written (path : Path) (content : JsonText) (d : Disk) : Disk :=
  Files.renamed (.temp path) path content (d.insert (.temp path) content)

/-- The disk after a file has been moved and the lease file of a key deleted. -/
def released (key : String) (src dest : Path) (content : JsonText) (d : Disk) : Disk :=
  (Files.renamed src dest content d).erase (.leaseMeta (safeKey key))

/-- The files after a file has been written. -/
theorem lookup_written (path : Path) (content : JsonText) (d : Disk) (p : Path) :
    (written path content d).lookup p =
      if p = path then some content else if p = .temp path then none else d.lookup p := by
  rw [written, Files.lookup_renamed, Files.lookup_insert']
  by_cases htemp : p = .temp path
  · simp [htemp]
  · simp [htemp]

/-- The files after a file has been moved and a lease file removed. -/
theorem lookup_released (key : String) (src dest : Path) (content : JsonText) (d : Disk)
    (p : Path) :
    (released key src dest content d).lookup p =
      if p = .leaseMeta (safeKey key) then none
      else if p = dest then some content else if p = src then none else d.lookup p := by
  rw [released, Files.lookup_erase', Files.lookup_renamed]

/-- The lease of a key, as `read_lease_meta` reads it. -/
def Disk.lease (d : Disk) (key : String) : Option LeaseMeta :=
  (d.lookup (.leaseMeta (safeKey key))).bind LeaseMeta.ofJson

/-- The envelope in a file of a queue, as `deserialize_envelope` reads it. -/
def Disk.envelope (d : Disk) (queue : String) (dir : SubDir) (id : String) :
    Option MessageEnvelope :=
  (d.lookup (queuePath queue dir id)).bind deserializeEnvelope

/-- The rule of `read_file`. -/
theorem readFile_sat {path : Path} {Q : Except String JsonText → Disk → Prop} (hC : C d)
    (hok : ∀ content, d.lookup path = some content → Q (.ok content) d)
    (herr : d.lookup path = none → ∀ e, Q (.error e) d) : Sat False C d (readFile path) Q := by
  refine Sat.bind (Sat.prim ?_ ?_ (fun h => h.elim))
  · intro content t hread
    unfold Files.read at hread
    split at hread
    case h_1 => cases hread
    case h_2 content' hcontent =>
      simp only [Except.ok.injEq, Prod.mk.injEq] at hread
      obtain ⟨rfl, rfl⟩ := hread
      exact ⟨hC, Sat.pure (hok _ hcontent)⟩
  · intro text hread
    unfold Files.read at hread
    split at hread
    case h_1 hnone => exact Sat.pure (herr hnone _)
    case h_2 => cases hread

/-- The rule of a rename: it fails exactly where the source is missing. -/
theorem rename_sat {src dest : Path} {Q : Except String Unit → Disk → Prop}
    (hok : ∀ content, d.lookup src = some content →
      C (Files.renamed src dest content d) ∧ Q (.ok ()) (Files.renamed src dest content d))
    (herr : d.lookup src = none → ∀ e, Q (.error e) d) :
    Sat False C d (prim (Files.rename src dest)) Q := by
  refine Sat.prim ?_ ?_ (fun h => h.elim)
  · intro u t hrename
    unfold Files.rename at hrename
    split at hrename
    case h_1 => cases hrename
    case h_2 content hcontent =>
      simp only [Except.ok.injEq, Prod.mk.injEq] at hrename
      obtain ⟨-, rfl⟩ := hrename
      exact hok content hcontent
  · intro text hrename
    unfold Files.rename at hrename
    split at hrename
    case h_1 hnone => exact herr hnone text
    case h_2 => cases hrename

/-- The rule of `move_file`. -/
theorem moveFile_sat {src dest : Path} {Q : Except String Unit → Disk → Prop}
    (hok : ∀ content, d.lookup src = some content →
      C (Files.renamed src dest content d) ∧ Q (.ok ()) (Files.renamed src dest content d))
    (herr : d.lookup src = none → ∀ e, Q (.error e) d) :
    Sat False C d (moveFile src dest) Q :=
  Sat.bind <| rename_sat (fun content hcontent => (hok content hcontent).imp_right Sat.pure)
    fun hnone _ => Sat.pure (herr hnone _)

/-- The rule of `delete_file`. -/
theorem deleteFile_sat {path : Path} {Q : Unit → Disk → Prop} (hC : C (d.erase path))
    (h : Q () (d.erase path)) : Sat False C d (deleteFile path) Q := by
  refine Sat.bind (Sat.prim ?_ (by simp [Files.remove]) fun hf => hf.elim)
  rintro u t ⟨rfl, rfl⟩
  exact ⟨hC, Sat.pure h⟩

/-- A write goes through the disk with the temporary file. -/
theorem atomicWrite_sat {target : Path} {content : JsonText} {Q : Except String Unit → Disk → Prop}
    (htemp : C (d.insert (.temp target) content)) (hC : C (written target content d))
    (h : Q (.ok ()) (written target content d)) :
    Sat False C d (atomicWrite target content) Q := by
  refine Sat.bind (Sat.prim ?_ (by simp [Files.create]) fun hf => hf.elim)
  rintro u t ⟨rfl, rfl⟩
  refine ⟨htemp, Sat.bind (rename_sat ?_ ?_)⟩
  · intro content' hcontent'
    rw [AList.lookup_insert, Option.some.injEq] at hcontent'
    subst hcontent'
    exact ⟨hC, Sat.pure h⟩
  · intro hnone
    rw [AList.lookup_insert] at hnone
    cases hnone

/-- The file of a name without a slash can be written. -/
theorem writeNamed_sat {name : String} {path : Path} {content : JsonText}
    {Q : Except String Unit → Disk → Prop} (hname : '/' ∉ name.toList)
    (htemp : C (d.insert (.temp path) content)) (hC : C (written path content d))
    (h : Q (.ok ()) (written path content d)) :
    Sat False C d (writeNamed name path content) Q := by
  rw [writeNamed, if_neg hname]
  exact atomicWrite_sat htemp hC h

/-- The rule of a listing. -/
theorem listDirectory_sat {entries : Disk → List α} {Q : List α → Disk → Prop} (hC : C d)
    (h : Q (entries d) d) : Sat False C d (listDirectory entries) Q := by
  refine Sat.bind (Sat.prim ?_ (by simp) fun hf => hf.elim)
  rintro l t ⟨rfl, rfl⟩
  exact ⟨hC, Sat.pure h⟩

/-- The identifiers a directory lists are those of its files. -/
theorem mem_ids {location : Directory} {dir : SubDir} :
    id ∈ d.ids location dir ↔ d.lookup (.message location dir id) ≠ none ∧ id ≠ "" := by
  rw [ne_eq, AList.lookup_eq_none, not_not, AList.mem_keys, Disk.ids, List.mem_filterMap]
  constructor
  · rintro ⟨path, hpath, hid⟩
    cases path with
    | message q dir' id' =>
      simp only [Option.ite_none_right_eq_some, Option.some.injEq] at hid
      obtain ⟨⟨rfl, rfl, hne⟩, rfl⟩ := hid
      exact ⟨hpath, hne⟩
    | _ => cases hid
  · rintro ⟨hpath, hne⟩
    exact ⟨_, hpath, by simp [hne]⟩

/-- The order of the files in a directory. -/
def Sorted (ids : List String) : Prop := ids.Pairwise fun id id' => id ++ ".json" ≤ id' ++ ".json"

/-- The files of a directory are listed in the order of their names. -/
theorem listJsonFiles_sat {dir : SubDir} {Q : List String → Disk → Prop} (hC : C d)
    (h : ∀ ids, (∀ id, id ∈ ids ↔ d.lookup (queuePath queue dir id) ≠ none ∧ id ≠ "") →
      Sorted ids → Q ids d) :
    Sat False C d (listJsonFiles queue dir) Q := by
  have htotal : Std.Total fun a b : String => a ++ ".json" ≤ b ++ ".json" :=
    ⟨fun _ _ => String.le_total _ _⟩
  have htrans : IsTrans String fun a b => a ++ ".json" ≤ b ++ ".json" :=
    ⟨fun _ _ _ => String.le_trans⟩
  refine Sat.bind (listDirectory_sat hC (Sat.pure (h _ (fun id => ?_) ?_)))
  · rw [List.mem_insertionSort]
    exact mem_ids
  · exact List.pairwise_insertionSort _ _

/-- The rule of `read_lease_meta`. -/
theorem readLeaseMeta_sat {Q : Except String LeaseMeta → Disk → Prop} (hC : C d)
    (hok : ∀ lease, d.lease key = some lease → Q (.ok lease) d)
    (herr : d.lease key = none → ∀ e, Q (.error e) d) :
    Sat False C d (readLeaseMeta key) Q := by
  refine Sat.bind (readFile_sat hC ?_ ?_)
  · intro content hcontent
    cases hlease : LeaseMeta.ofJson content with
    | none =>
      simp only [hlease]
      exact Sat.pure (herr (by simp [Disk.lease, hcontent, hlease]) _)
    | some lease =>
      simp only [hlease]
      exact Sat.pure (hok lease (by simp [Disk.lease, hcontent, hlease]))
  · exact fun hnone e => Sat.pure (herr (by simp [Disk.lease, hnone]) _)

/-- The rule of `write_delayed_meta`, for a name without a slash. -/
theorem writeDelayedMeta_sat {delayed : DelayedMeta} {Q : Unit → Disk → Prop}
    (hname : '/' ∉ delayed.messageKey.toList)
    (htemp : C (d.insert (.temp (.delayedMeta (safeKey delayed.messageKey)))
      (some delayed.toJson)))
    (hC : C (written (.delayedMeta (safeKey delayed.messageKey)) (some delayed.toJson) d))
    (h : Q () (written (.delayedMeta (safeKey delayed.messageKey)) (some delayed.toJson) d)) :
    Sat False C d (writeDelayedMeta delayed) Q :=
  Sat.bind (writeNamed_sat hname htemp hC (Sat.pure h))

/-- The rule of a file that leaves `processing/` with its lease. -/
theorem leaveProcessing_sat {src dest : Path} {Q : Status → Disk → Prop}
    (hok : ∀ content, d.lookup src = some content →
      C (Files.renamed src dest content d) ∧ C (released key src dest content d) ∧
      Q (.ok ()) (released key src dest content d))
    (herr : d.lookup src = none → ∀ e, Q (.error e) d) :
    Sat False C d (leaveProcessing key src dest) Q := by
  refine Sat.bind (moveFile_sat ?_ fun hnone e => Sat.pure (herr hnone _))
  intro content hcontent
  obtain ⟨hmoved, hreleased, hQ⟩ := hok content hcontent
  exact ⟨hmoved, Sat.bind (deleteFile_sat hreleased (Sat.pure hQ))⟩

/-- Editing a file that holds an editable document. -/
theorem editFile_sat {path : Path} {edit : Json String → Option (Json String)}
    {Q : Unit → Disk → Prop} {j j' : Json String} (hC : C d)
    (hfile : d.lookup path = some (some j)) (hedit : edit j = some j')
    (htemp : C (d.insert (.temp path) (some j'))) (hwritten : C (written path (some j') d))
    (h : Q () (written path (some j') d)) : Sat False C d (editFile path edit) Q := by
  refine Sat.bind (readFile_sat hC ?_ fun hnone => ?_)
  · intro content hcontent
    rw [hfile, Option.some.injEq] at hcontent
    subst hcontent
    simp only [Option.bind_some, hedit]
    exact Sat.bind (atomicWrite_sat htemp hwritten (Sat.pure h))
  · rw [hfile] at hnone
    cases hnone

/-- Editing a file that is not there. -/
theorem editFile_sat_missing {path : Path} {edit : Json String → Option (Json String)}
    {Q : Unit → Disk → Prop} (hC : C d) (hfile : d.lookup path = none) (h : Q () d) :
    Sat False C d (editFile path edit) Q := by
  refine Sat.bind (readFile_sat hC ?_ fun _ _ => Sat.pure h)
  intro content hcontent
  rw [hfile] at hcontent
  cases hcontent

/-- The contents read are those of the files that are there. -/
theorem readFiles_sat {Q : List JsonText → Disk → Prop} (hC : C d) (paths : List Path)
    (h : Q (paths.filterMap d.lookup) d) : Sat False C d (readFiles paths) Q := by
  induction paths generalizing Q with
  | nil => exact Sat.pure h
  | cons path paths ih =>
    refine Sat.bind (readFile_sat hC ?_ ?_)
    · intro content hcontent
      simp only [List.filterMap_cons, hcontent] at h
      exact Sat.bind (ih (Sat.pure h))
    · intro hnone e
      simp only [List.filterMap_cons, hnone] at h
      exact ih h

/-! ### Operations -/

/-- The lease file of the key leads to a message file with this content. -/
def Reaches (d : Disk) (key : String) (stored : LeaseMeta) (id : String) (content : JsonText) :
    Prop :=
  d.lease key = some stored ∧ messageIdOf key = some id ∧
    d.lookup (queuePath stored.queue .processing id) = some content

/-- The delay file of a message that is published for later. -/
def delayedOf (message : MessageEnvelope) : DelayedMeta :=
  ⟨message.key, message.queue, message.availableAtMs, message.attempt⟩

/-- A message that is published for now. -/
theorem enqueue_sat_ready {message : MessageEnvelope} {Q : Status → Disk → Prop} (hC : C d)
    (hready : ¬env.now < message.availableAtMs)
    (hdone :
      let path := queuePath message.queue .inbox message.messageId
      let content := some (serializeEnvelope message)
      C (d.insert (.temp path) content) ∧ C (written path content d) ∧
      Q (.ok ()) (written path content d)) :
    Sat False C d (enqueue env message) Q := by
  refine Sat.bind (Sat.prim ?_ (by simp) fun hf => hf.elim)
  rintro u t ⟨rfl, rfl⟩
  refine ⟨hC, ?_⟩
  obtain ⟨htemp, hwritten, hQ⟩ := hdone
  simp only [if_neg hready]
  exact Sat.bind (Sat.pure (Sat.bind (atomicWrite_sat htemp hwritten (Sat.pure hQ))))

/-- A message that is published for later: its delay file is written first. -/
theorem enqueue_sat_delayed {message : MessageEnvelope} {Q : Status → Disk → Prop} (hC : C d)
    (hlater : env.now < message.availableAtMs) (hname : '/' ∉ message.key.toList)
    (hdone :
      let path := queuePath message.queue .delayed message.messageId
      let content := some (serializeEnvelope message)
      let note : Path := .delayedMeta (safeKey message.key)
      let noted := written note (some (delayedOf message).toJson) d
      C (d.insert (.temp note) (some (delayedOf message).toJson)) ∧ C noted ∧
      C (noted.insert (.temp path) content) ∧ C (written path content noted) ∧
      Q (.ok ()) (written path content noted)) :
    Sat False C d (enqueue env message) Q := by
  refine Sat.bind (Sat.prim ?_ (by simp) fun hf => hf.elim)
  rintro u t ⟨rfl, rfl⟩
  refine ⟨hC, ?_⟩
  obtain ⟨hnote, hnoted, htemp, hwritten, hQ⟩ := hdone
  simp only [if_pos hlater]
  refine Sat.bind (writeDelayedMeta_sat hname hnote hnoted (Sat.bind (Sat.pure ?_)))
  exact Sat.bind (atomicWrite_sat htemp hwritten (Sat.pure hQ))

/-- The consumer may be given the message. -/
def Eligible (consumerId : String) (envelope : MessageEnvelope) : Prop :=
  envelope.targetConsumerId = "" ∨ envelope.targetConsumerId = consumerId

/-- No listed file before this one has a message for the consumer. -/
def IsFirst (d : Disk) (queue consumerId id : String) (ids : List String) : Prop :=
  ∀ id' ∈ ids, ∀ envelope, d.envelope queue .inbox id' = some envelope →
    Eligible consumerId envelope → id ++ ".json" ≤ id' ++ ".json"

/-- A match is the envelope of the first listed file for the consumer, and there is one unless
    no listed file has one. -/
theorem findMatch_sat {consumerId : String} {ids : List String}
    {Q : Option (String × MessageEnvelope) → Disk → Prop} (hC : C d) (hsorted : Sorted ids)
    (hsome : ∀ id ∈ ids, ∀ envelope, d.envelope queue .inbox id = some envelope →
      Eligible consumerId envelope → IsFirst d queue consumerId id ids → Q (some (id, envelope)) d)
    (hnone : (∀ id ∈ ids, ∀ envelope, d.envelope queue .inbox id = some envelope →
      ¬Eligible consumerId envelope) → Q none d) :
    Sat False C d (findMatch queue consumerId ids) Q := by
  -- The induction is on the names still to be read; they are sorted, so the first that is eligible
  -- comes before all later ones.
  induction ids with
  | nil => exact Sat.pure (hnone (by simp))
  | cons id ids ih =>
    obtain ⟨hbefore, hrest⟩ := List.pairwise_cons.mp hsorted
    -- A file that gives no eligible message is passed over.
    have hskip : (∀ envelope, d.envelope queue .inbox id = some envelope →
        ¬Eligible consumerId envelope) → Sat False C d (findMatch queue consumerId ids) Q := by
      intro hid
      refine ih hrest ?_ fun hall => hnone fun id' hid' => ?_
      · intro id' hid' envelope henvelope heligible hfirst
        refine hsome id' (List.mem_cons_of_mem _ hid') envelope henvelope heligible ?_
        intro id'' hid'' envelope' henvelope' heligible'
        rcases List.mem_cons.mp hid'' with rfl | hid''
        · exact absurd heligible' (hid envelope' henvelope')
        · exact hfirst id'' hid'' envelope' henvelope' heligible'
      · rcases List.mem_cons.mp hid' with rfl | hid'
        · exact hid
        · exact hall id' hid'
    refine Sat.bind (readFile_sat hC ?_ fun hmissing e => hskip ?_)
    · intro content hcontent
      have henvelope : d.envelope queue .inbox id = deserializeEnvelope content := by
        rw [Disk.envelope, hcontent, Option.bind_some]
      dsimp only
      -- A file that cannot be read as an envelope is passed over as well.
      split
      case h_1 hparse => exact hskip (by simp [henvelope, hparse])
      case h_2 envelope hparse =>
        rw [hparse] at henvelope
        split
        case isTrue heligible =>
          refine Sat.pure (hsome id List.mem_cons_self envelope henvelope heligible ?_)
          intro id' hid' _ _ _
          rcases List.mem_cons.mp hid' with rfl | hid'
          · exact String.le_refl _
          · exact hbefore id' hid'
        case isFalse heligible =>
          refine hskip fun envelope' henvelope' => ?_
          rw [henvelope, Option.some.injEq] at henvelope'
          exact henvelope' ▸ heligible
    · simp [Disk.envelope, hmissing]

/-- The lease file that `lease_next` writes. -/
def leaseOf (env : Env) (queue consumerId : String) (timeout : Int) (envelope : MessageEnvelope) :
    LeaseMeta :=
  ⟨consumerId, env.guid, env.now + timeout * 1000, envelope.attempt + 1, queue⟩

/-- The answer of `lease_next` with a lease. -/
def leaseReply (env : Env) (consumerId : String) (timeout : Int) (envelope : MessageEnvelope) :
    LeaseResult where
  leased := true
  message := some { envelope with attempt := envelope.attempt + 1 }
  lease := some ⟨env.guid, envelope.key, consumerId, env.now + timeout * 1000⟩

/-- `lease_next` takes the first message for the consumer, whose key is to have no slash. -/
theorem leaseNext_sat_first {consumerId : String} {timeout : Int} {Q : LeaseResult → Disk → Prop}
    (hC : C d)
    (hnames : ∀ id envelope, id ≠ "" → d.envelope queue .inbox id = some envelope →
      Eligible consumerId envelope →
      (∀ id' envelope', id' ≠ "" → d.envelope queue .inbox id' = some envelope' →
        Eligible consumerId envelope' → id ++ ".json" ≤ id' ++ ".json") →
      '/' ∉ envelope.key.toList)
    (hleased : ∀ id content envelope, id ≠ "" →
      d.lookup (queuePath queue .inbox id) = some content →
      deserializeEnvelope content = some envelope → Eligible consumerId envelope →
      (∀ id' envelope', id' ≠ "" → d.envelope queue .inbox id' = some envelope' →
        Eligible consumerId envelope' → id ++ ".json" ≤ id' ++ ".json") →
      let processing := queuePath queue .processing id
      let leasePath : Path := .leaseMeta (safeKey envelope.key)
      let lease := some ((leaseOf env queue consumerId timeout envelope).toJson envelope.key)
      let next := some (serializeEnvelope { envelope with attempt := envelope.attempt + 1 })
      let moved := Files.renamed (queuePath queue .inbox id) processing content d
      C moved ∧ C (moved.insert (.temp leasePath) lease) ∧ C (written leasePath lease moved) ∧
      C ((written leasePath lease moved).insert (.temp processing) next) ∧
      C (written processing next (written leasePath lease moved)) ∧
      Q (leaseReply env consumerId timeout envelope)
        (written processing next (written leasePath lease moved)))
    (hnone : (∀ id envelope, id ≠ "" → d.envelope queue .inbox id = some envelope →
      ¬Eligible consumerId envelope) → Q {} d) :
    Sat False C d (leaseNext env queue consumerId timeout) Q := by
  refine Sat.bind (listJsonFiles_sat hC fun ids hids hsorted => ?_)
  -- a file with an envelope is listed
  have hlisted : ∀ id envelope, id ≠ "" → d.envelope queue .inbox id = some envelope → id ∈ ids := by
    intro id envelope hne henvelope
    refine (hids id).mpr ⟨?_, hne⟩
    intro hmissing
    simp [Disk.envelope, hmissing] at henvelope
  refine Sat.bind (findMatch_sat hC hsorted ?_ ?_)
  · intro id hid envelope henvelope heligible hfirst
    obtain ⟨content, hcontent, hparse⟩ := Option.bind_eq_some_iff.mp henvelope
    have hlowest : ∀ id' envelope', id' ≠ "" → d.envelope queue .inbox id' = some envelope' →
        Eligible consumerId envelope' → id ++ ".json" ≤ id' ++ ".json" :=
      fun id' envelope' hne henvelope' => hfirst id' (hlisted id' envelope' hne henvelope')
        envelope' henvelope'
    obtain ⟨hmoved, htemp, hlease, htemp', hnext, hQ⟩ :=
      hleased id content envelope ((hids id).mp hid).2 hcontent hparse heligible hlowest
    refine Sat.bind (moveFile_sat ?_ ?_)
    · intro content' hcontent'
      rw [hcontent, Option.some.injEq] at hcontent'
      subst hcontent'
      have hname : '/' ∉ envelope.key.toList :=
        hnames id envelope ((hids id).mp hid).2 henvelope heligible hlowest
      refine ⟨hmoved, Sat.bind (writeNamed_sat hname htemp hlease ?_)⟩
      exact Sat.bind (atomicWrite_sat htemp' hnext (Sat.pure hQ))
    · intro hmissing
      rw [hcontent] at hmissing
      cases hmissing
  · intro hall
    refine Sat.pure (hnone fun id envelope hne henvelope => ?_)
    exact hall id (hlisted id envelope hne henvelope) envelope henvelope

/-- The same where no key in the inbox has a slash. -/
theorem leaseNext_sat {consumerId : String} {timeout : Int} {Q : LeaseResult → Disk → Prop}
    (hC : C d)
    (hnames : ∀ id envelope, d.envelope queue .inbox id = some envelope →
      '/' ∉ envelope.key.toList)
    (hleased : ∀ id content envelope, id ≠ "" →
      d.lookup (queuePath queue .inbox id) = some content →
      deserializeEnvelope content = some envelope → Eligible consumerId envelope →
      (∀ id' envelope', id' ≠ "" → d.envelope queue .inbox id' = some envelope' →
        Eligible consumerId envelope' → id ++ ".json" ≤ id' ++ ".json") →
      let processing := queuePath queue .processing id
      let leasePath : Path := .leaseMeta (safeKey envelope.key)
      let lease := some ((leaseOf env queue consumerId timeout envelope).toJson envelope.key)
      let next := some (serializeEnvelope { envelope with attempt := envelope.attempt + 1 })
      let moved := Files.renamed (queuePath queue .inbox id) processing content d
      C moved ∧ C (moved.insert (.temp leasePath) lease) ∧ C (written leasePath lease moved) ∧
      C ((written leasePath lease moved).insert (.temp processing) next) ∧
      C (written processing next (written leasePath lease moved)) ∧
      Q (leaseReply env consumerId timeout envelope)
        (written processing next (written leasePath lease moved)))
    (hnone : (∀ id envelope, id ≠ "" → d.envelope queue .inbox id = some envelope →
      ¬Eligible consumerId envelope) → Q {} d) :
    Sat False C d (leaseNext env queue consumerId timeout) Q :=
  leaseNext_sat_first hC (fun id envelope _ henvelope _ _ => hnames id envelope henvelope) hleased
    hnone

/-- The rule of `ack`: it archives the file of a running lease of the consumer, or does nothing. -/
theorem ack_sat {lease : LeaseToken} {Q : Status → Disk → Prop} (hC : C d)
    (hdone : ∀ stored id content, Reaches d lease.messageKey stored id content →
      env.now ≤ stored.leaseUntilMs → stored.consumerId = lease.consumerId →
      let src := queuePath stored.queue .processing id
      let dest := queuePath stored.queue .archive id
      C (Files.renamed src dest content d) ∧
      C (released lease.messageKey src dest content d) ∧
      Q (.ok ()) (released lease.messageKey src dest content d))
    (hrefuse : (∀ stored id content, Reaches d lease.messageKey stored id content →
      env.now ≤ stored.leaseUntilMs → stored.consumerId ≠ lease.consumerId) →
      ∀ e, Q (.error e) d) :
    Sat False C d (ack env lease) Q := by
  refine Sat.bind (readLeaseMeta_sat hC ?_ fun hnone e => Sat.pure (hrefuse ?_ _))
  · intro stored hstored
    -- The lease is looked at first, then the owner, then the identifier in the key, then the file.
    dsimp only
    split
    case isTrue hexpired =>
      refine Sat.pure (hrefuse ?_ _)
      rintro stored' id content ⟨hstored', -, -⟩ hle
      rw [hstored, Option.some.injEq] at hstored'
      subst hstored'
      omega
    case isFalse hlive =>
      split
      case isTrue hother =>
        refine Sat.pure (hrefuse ?_ _)
        rintro stored' id content ⟨hstored', -, -⟩ -
        rw [hstored, Option.some.injEq] at hstored'
        exact hstored' ▸ hother
      case isFalse hsame =>
        split
        case h_1 hformat =>
          refine Sat.pure (hrefuse ?_ _)
          rintro stored' id content ⟨-, hid, -⟩
          rw [hformat] at hid
          cases hid
        case h_2 id hid =>
          refine leaveProcessing_sat (fun content hcontent => ?_) fun hmissing e => ?_
          · exact hdone stored id content ⟨hstored, hid, hcontent⟩ (not_lt.mp hlive)
              (not_not.mp hsame)
          · refine hrefuse ?_ e
            rintro stored' id' content ⟨hstored', hid', hcontent⟩
            rw [hstored, Option.some.injEq] at hstored'
            rw [hid, Option.some.injEq] at hid'
            rw [← hstored', ← hid', hmissing] at hcontent
            cases hcontent
  -- There is no lease file, so the key reaches nothing.
  · rintro stored id content ⟨hstored, -, -⟩
    rw [hnone] at hstored
    cases hstored

/-- The common part of `nack`, `delay_message` and `move_to_dlq`. -/
theorem withLease_sat {Q : Status → Disk → Prop} {body : LeaseMeta → String → Program Disk Status}
    (describe : String → String) (hC : C d)
    (hbody : ∀ stored id, d.lease key = some stored → messageIdOf key = some id →
      Sat False C d (body stored id) Q)
    (hrefuse : (∀ stored id content, ¬Reaches d key stored id content) → ∀ e, Q (.error e) d) :
    Sat False C d (do
      match ← readLeaseMeta key with
      | .error e => return .error (some (describe e))
      | .ok stored =>
        match messageIdOf key with
        | none => return .error (some "invalid message key format")
        | some id => body stored id) Q := by
  refine Sat.bind (readLeaseMeta_sat hC ?_ fun hnone e => Sat.pure (hrefuse ?_ _))
  · intro stored hstored
    dsimp only
    split
    case h_1 hformat =>
      refine Sat.pure (hrefuse ?_ _)
      rintro stored' id content ⟨-, hid, -⟩
      rw [hformat] at hid
      cases hid
    case h_2 id hid => exact hbody stored id hstored hid
  · rintro stored id content ⟨hstored, -, -⟩
    rw [hnone] at hstored
    cases hstored

/-- A key whose lease leads to no file reaches nothing. -/
theorem not_reaches {stored : LeaseMeta} (hstored : d.lease key = some stored)
    (hid : messageIdOf key = some id)
    (hmissing : d.lookup (queuePath stored.queue .processing id) = none) :
    ∀ stored' id' content, ¬Reaches d key stored' id' content := by
  rintro stored' id' content ⟨hstored', hid', hcontent⟩
  rw [hstored, Option.some.injEq] at hstored'
  rw [hid, Option.some.injEq] at hid'
  rw [← hstored', ← hid', hmissing] at hcontent
  cases hcontent

/-- Leaving `processing/` as it is. -/
theorem release_sat {dir : SubDir} {Q : Status → Disk → Prop} {stored : LeaseMeta}
    (hstored : d.lease key = some stored) (hid : messageIdOf key = some id)
    (hdone : ∀ content, Reaches d key stored id content →
      let src := queuePath stored.queue .processing id
      let dest := queuePath stored.queue dir id
      C (Files.renamed src dest content d) ∧ C (released key src dest content d) ∧
      Q (.ok ()) (released key src dest content d))
    (hrefuse : (∀ stored id content, ¬Reaches d key stored id content) → ∀ e, Q (.error e) d) :
    Sat False C d (leaveProcessing key (queuePath stored.queue .processing id)
      (queuePath stored.queue dir id)) Q :=
  leaveProcessing_sat (fun content hcontent => hdone content ⟨hstored, hid, hcontent⟩)
    fun hmissing => hrefuse (not_reaches hstored hid hmissing)

/-- Leaving `processing/` with an edited envelope. -/
theorem rewrite_sat {dir : SubDir} {edit : Json String → Option (Json String)}
    {Q : Status → Disk → Prop} {stored : LeaseMeta} (hC : C d)
    (hstored : d.lease key = some stored) (hid : messageIdOf key = some id)
    (hdone : ∀ content, Reaches d key stored id content → ∃ j j', content = some j ∧
      edit j = some j' ∧
      let src := queuePath stored.queue .processing id
      let dest := queuePath stored.queue dir id
      let edited := written src (some j') d
      C (d.insert (.temp src) (some j')) ∧ C edited ∧
      C (Files.renamed src dest (some j') edited) ∧
      C (released key src dest (some j') edited) ∧
      Q (.ok ()) (released key src dest (some j') edited))
    (hrefuse : (∀ stored id content, ¬Reaches d key stored id content) → ∀ e, Q (.error e) d) :
    Sat False C d (do
      editFile (queuePath stored.queue .processing id) edit
      leaveProcessing key (queuePath stored.queue .processing id)
        (queuePath stored.queue dir id)) Q := by
  -- Editing and moving need the same file: it is there for both or for neither.
  cases hfile : d.lookup (queuePath stored.queue .processing id) with
  | none =>
    refine Sat.bind (editFile_sat_missing hC hfile (leaveProcessing_sat ?_ fun _ => ?_))
    · intro content hcontent
      rw [hfile] at hcontent
      cases hcontent
    · exact hrefuse (not_reaches hstored hid hfile)
  | some content =>
    obtain ⟨j, j', rfl, hedit, htemp, hwritten, hmoved, hreleased, hQ⟩ :=
      hdone content ⟨hstored, hid, hfile⟩
    refine Sat.bind (editFile_sat hC hfile hedit htemp hwritten (leaveProcessing_sat ?_ ?_))
    · intro content hcontent
      rw [lookup_written, if_pos rfl, Option.some.injEq] at hcontent
      subst hcontent
      exact ⟨hmoved, hreleased, hQ⟩
    · intro hmissing
      rw [lookup_written, if_pos rfl] at hmissing
      cases hmissing

/-- Leaving `processing/` for `delayed/`, with an edited envelope and a delay file. -/
theorem postpone_sat {time : Int} {Q : Status → Disk → Prop} {stored : LeaseMeta} (hC : C d)
    (hname : '/' ∉ key.toList) (hstored : d.lease key = some stored)
    (hid : messageIdOf key = some id)
    (hdone : ∀ content, Reaches d key stored id content → ∃ j j', content = some j ∧
      withAvailableAt time j = some j' ∧
      let src := queuePath stored.queue .processing id
      let dest := queuePath stored.queue .delayed id
      let edited := written src (some j') d
      let moved := Files.renamed src dest (some j') edited
      let note : Path := .delayedMeta (safeKey key)
      let noted := some (DelayedMeta.mk key stored.queue time stored.attempt).toJson
      C (d.insert (.temp src) (some j')) ∧ C edited ∧ C moved ∧
      C (moved.insert (.temp note) noted) ∧ C (written note noted moved) ∧
      C ((written note noted moved).erase (.leaseMeta (safeKey key))) ∧
      Q (.ok ()) ((written note noted moved).erase (.leaseMeta (safeKey key))))
    (hrefuse : (∀ stored id content, ¬Reaches d key stored id content) → ∀ e, Q (.error e) d) :
    Sat False C d (do
      editFile (queuePath stored.queue .processing id) (withAvailableAt time)
      match ← moveFile (queuePath stored.queue .processing id)
          (queuePath stored.queue .delayed id) with
      | .error e => return .error (some e)
      | .ok () =>
        writeDelayedMeta ⟨key, stored.queue, time, stored.attempt⟩
        deleteLeaseMeta key
        return .ok ()) Q := by
  -- Editing the file and moving it fail together, since both need the file in `processing/`.
  cases hfile : d.lookup (queuePath stored.queue .processing id) with
  | none =>
    refine Sat.bind (editFile_sat_missing hC hfile (Sat.bind (moveFile_sat ?_ fun _ e => ?_)))
    · intro content hcontent
      rw [hfile] at hcontent
      cases hcontent
    · exact Sat.pure (hrefuse (not_reaches hstored hid hfile) _)
  | some content =>
    obtain ⟨j, j', rfl, hedit, htemp, hwritten, hmoved, htemp', hnoted, hdeleted, hQ⟩ :=
      hdone content ⟨hstored, hid, hfile⟩
    refine Sat.bind (editFile_sat hC hfile hedit htemp hwritten (Sat.bind (moveFile_sat ?_ ?_)))
    -- The edited file is there, so the move succeeds.
    · intro content hcontent
      rw [lookup_written, if_pos rfl, Option.some.injEq] at hcontent
      subst hcontent
      refine ⟨hmoved, Sat.bind (writeDelayedMeta_sat hname htemp' hnoted ?_)⟩
      exact Sat.bind (deleteFile_sat hdeleted (Sat.pure hQ))
    · intro hmissing
      rw [lookup_written, if_pos rfl] at hmissing
      cases hmissing

/-- The rule of `extend_lease`: it writes the lease file, or does nothing. -/
theorem extendLease_sat {lease : LeaseToken} {timeout : Int} {Q : Status → Disk → Prop}
    (hC : C d) (hname : '/' ∉ lease.messageKey.toList)
    (hdone : ∀ stored, d.lease lease.messageKey = some stored →
      stored.consumerId = lease.consumerId → env.now ≤ stored.leaseUntilMs →
      let path : Path := .leaseMeta (safeKey lease.messageKey)
      let next := some (LeaseMeta.toJson
        { stored with leaseUntilMs := env.now + timeout * 1000 } lease.messageKey)
      C (d.insert (.temp path) next) ∧ C (written path next d) ∧
      Q (.ok ()) (written path next d))
    (hrefuse : (∀ stored, d.lease lease.messageKey = some stored →
      stored.consumerId = lease.consumerId → stored.leaseUntilMs < env.now) →
      ∀ e, Q (.error e) d) :
    Sat False C d (extendLease env lease timeout) Q := by
  refine Sat.bind (readLeaseMeta_sat hC ?_ fun hnone e => Sat.pure (hrefuse ?_ _))
  -- The owner is looked at first, then the end of the lease.
  · intro stored hstored
    dsimp only
    split
    case isTrue hother =>
      refine Sat.pure (hrefuse ?_ _)
      intro stored' hstored' hsame
      rw [hstored, Option.some.injEq] at hstored'
      exact absurd (hstored' ▸ hsame) hother
    case isFalse hsame =>
      split
      case isTrue hexpired =>
        refine Sat.pure (hrefuse ?_ _)
        intro stored' hstored' _
        rw [hstored, Option.some.injEq] at hstored'
        exact hstored' ▸ hexpired
      case isFalse hlive =>
        obtain ⟨htemp, hwritten, hQ⟩ := hdone stored hstored (not_not.mp hsame) (not_lt.mp hlive)
        exact Sat.bind (writeNamed_sat hname htemp hwritten (Sat.pure hQ))
  · intro stored hstored
    rw [hnone] at hstored
    cases hstored

/-- The rule of `save_policy`: a name without a slash is written, any other one refused. -/
theorem savePolicy_sat {policy : QueuePolicy} {Q : Status → Disk → Prop} (hC : C d)
    (hdone : '/' ∉ queue.toList → C (d.insert (.temp (.policy queue)) (some policy.toJson)) ∧
      C (written (.policy queue) (some policy.toJson) d) ∧
      Q (.ok ()) (written (.policy queue) (some policy.toJson) d))
    (hrefuse : ∀ e, Q (.error e) d) : Sat False C d (savePolicy queue policy) Q := by
  refine Sat.bind (Sat.prim ?_ (by simp) fun hf => hf.elim)
  rintro u t ⟨rfl, rfl⟩
  refine ⟨hC, Sat.bind ?_⟩
  by_cases hname : '/' ∈ queue.toList
  · rw [writeNamed, if_pos hname]
    exact Sat.pure (Sat.pure (hrefuse _))
  · obtain ⟨htemp, hwritten, hQ⟩ := hdone hname
    exact writeNamed_sat hname htemp hwritten (Sat.pure hQ)

/-- The rule of `reprocess_dlq_message`: the file goes from `dlq/` to `inbox/`, or nothing
    happens. -/
theorem reprocessDlqMessage_sat {Q : Status → Disk → Prop} (hC : C d)
    (hdone : ∀ id content j', messageIdOf key = some id → extractQueueFromKey key ≠ "" →
      d.lookup (queuePath (extractQueueFromKey key) .dlq id) = some content →
      content.bind (reprocessed env.now) = some j' →
      let src := queuePath (extractQueueFromKey key) .dlq id
      let dest := queuePath (extractQueueFromKey key) .inbox id
      C (d.insert (.temp src) (some j')) ∧ C (written src (some j') d) ∧
      C (Files.renamed src dest (some j') (written src (some j') d)) ∧
      Q (.ok ()) (Files.renamed src dest (some j') (written src (some j') d)))
    (hrefuse : (∀ id content, messageIdOf key = some id → extractQueueFromKey key ≠ "" →
      d.lookup (queuePath (extractQueueFromKey key) .dlq id) = some content →
      content.bind (reprocessed env.now) = none) → ∀ e, Q (.error e) d) :
    Sat False C d (reprocessDlqMessage env key) Q := by
  unfold reprocessDlqMessage
  split
  -- The checks come in the source's order: the queue in the key, its identifier, the file, its
  -- content.
  case isTrue hempty => exact Sat.pure (hrefuse (fun _ _ _ hne => absurd hempty hne) _)
  case isFalse hqueue =>
    split
    case h_1 hformat => exact Sat.pure (hrefuse (by simp [hformat]) _)
    case h_2 id hid =>
      refine Sat.bind (readFile_sat hC ?_ fun hmissing e => Sat.pure (hrefuse ?_ _))
      · intro content hcontent
        dsimp only
        split
        case h_1 hparse =>
          refine Sat.pure (hrefuse ?_ _)
          intro id' content' hid' _ hcontent'
          rw [hid, Option.some.injEq] at hid'
          rw [← hid', hcontent, Option.some.injEq] at hcontent'
          exact hcontent' ▸ hparse
        case h_2 j' hparse =>
          obtain ⟨htemp, hwritten, hmoved, hQ⟩ := hdone id content j' hid hqueue hcontent hparse
          -- The file is edited in place first and then moved to the inbox.
          refine Sat.bind (atomicWrite_sat htemp hwritten (Sat.bind (moveFile_sat ?_ ?_)))
          · intro content' hcontent'
            rw [lookup_written, if_pos rfl, Option.some.injEq] at hcontent'
            subst hcontent'
            exact ⟨hmoved, Sat.pure hQ⟩
          · intro hmissing
            rw [lookup_written, if_pos rfl] at hmissing
            cases hmissing
      · intro id' content' hid' _ hcontent'
        rw [hid, Option.some.injEq] at hid'
        rw [← hid', hmissing] at hcontent'
        cases hcontent'

/-- One round of `recover_expired_leases`. -/
theorem recoverLease_sat {path : Path} {Q : Nat → Disk → Prop} (hC : C d)
    (hskip : Q 0 d)
    (hmove : ∀ content queue id text, d.lookup path = some content →
      expiredLease env.now content = some (queue, id) →
      d.lookup (queuePath queue .processing id) = some text →
      let moved := Files.renamed (queuePath queue .processing id) (queuePath queue .inbox id) text d
      C moved ∧ C (moved.erase path) ∧ Q 1 (moved.erase path))
    (hdrop : ∀ content queue id, d.lookup path = some content →
      expiredLease env.now content = some (queue, id) →
      d.lookup (queuePath queue .processing id) = none →
      C (d.erase path) ∧ Q 0 (d.erase path)) :
    Sat False C d (recoverLease env path) Q := by
  refine Sat.bind (readFile_sat hC ?_ fun _ _ => Sat.pure hskip)
  intro content hcontent
  dsimp only
  split
  case h_1 => exact Sat.pure hskip
  case h_2 queue id hexpired =>
    refine Sat.bind (rename_sat ?_ ?_)
    · intro text htext
      obtain ⟨hmoved, hdeleted, hQ⟩ := hmove content queue id text hcontent hexpired htext
      exact ⟨hmoved, Sat.bind (deleteFile_sat hdeleted (Sat.pure hQ))⟩
    · intro hmissing e
      obtain ⟨hdeleted, hQ⟩ := hdrop content queue id hcontent hexpired hmissing
      exact Sat.bind (deleteFile_sat hdeleted (Sat.pure hQ))

/-- One round of `process_delayed_messages`. -/
theorem processDelayed_sat {Q : Nat → Disk → Prop} (hC : C d) (hskip : Q 0 d)
    (hmove : ∀ j available, d.lookup (queuePath queue .delayed id) = some (some j) →
      j.valueInt "availableAt" 0 = some available → available ≤ env.now →
      let moved :=
        Files.renamed (queuePath queue .delayed id) (queuePath queue .inbox id) (some j) d
      C moved ∧
      match j.valueStr "key" "" with
      | none | some "" => Q 1 moved
      | some key => C (moved.erase (.delayedMeta (safeKey key))) ∧
        Q 1 (moved.erase (.delayedMeta (safeKey key)))) :
    Sat False C d (processDelayed env queue id) Q := by
  refine Sat.bind (readFile_sat hC ?_ fun _ _ => Sat.pure hskip)
  intro content hcontent
  dsimp only
  split
  -- What is no document of a delayed message stays where it is.
  case h_1 => exact Sat.pure hskip
  case h_2 j available hread =>
    obtain ⟨j', rfl, hvalue⟩ := Option.bind_eq_some_iff.mp hread
    obtain ⟨time, htime, hpair⟩ := Option.map_eq_some_iff.mp hvalue
    simp only [Prod.mk.injEq] at hpair
    obtain ⟨rfl, rfl⟩ := hpair
    split
    -- A rename is made, and it can fail only where the file is gone.
    case isTrue hdue =>
      refine Sat.bind (rename_sat ?_ ?_)
      · intro text htext
        rw [hcontent, Option.some.injEq] at htext
        subst htext
        obtain ⟨hmoved, hkey⟩ := hmove j' time hcontent htime hdue
        refine ⟨hmoved, ?_⟩
        dsimp only
        split
        case h_1 hnone =>
          rw [hnone] at hkey
          exact Sat.pure hkey
        -- The delay file is named by the key in the document, if there is one that is not empty.
        case h_2 key hsome =>
          rw [hsome] at hkey
          by_cases hempty : key = ""
          · subst hempty
            exact Sat.pure hkey
          · have hfile : C ((Files.renamed (queuePath queue .delayed id)
                (queuePath queue .inbox id) (some j') d).erase (.delayedMeta (safeKey key))) ∧
                Q 1 ((Files.renamed (queuePath queue .delayed id)
                  (queuePath queue .inbox id) (some j') d).erase (.delayedMeta (safeKey key))) := by
              split at hkey
              case h_1 hnone => cases hnone
              case h_2 hsame => exact absurd (Option.some.inj hsame) hempty
              case h_3 key' _ hsame => exact Option.some.inj hsame ▸ hkey
            rw [if_pos hempty]
            exact Sat.bind (deleteFile_sat hfile.1 (Sat.pure hfile.2))
      · intro hmissing
        rw [hcontent] at hmissing
        cases hmissing
    case isFalse => exact Sat.pure hskip

/-- The rule of `get_expired_inflight_messages`, which reads only. -/
theorem getExpired_sat {Q : List ExpiredLeaseInfo → Disk → Prop} (hC : C d)
    (h : Q ((d.leasePaths.filterMap d.lookup).filterMap (expiredInfo env.now)) d) :
    Sat False C d (getExpiredInflightMessages env) Q :=
  Sat.bind (listDirectory_sat hC (Sat.bind (readFiles_sat hC _ (Sat.pure h))))

end YirangMQ.FileSystem

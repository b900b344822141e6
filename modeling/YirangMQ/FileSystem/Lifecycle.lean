import YirangMQ.FileSystem.Turns

namespace YirangMQ.FileSystem

open Program

/-!
# The FileSystem adapter has the life cycle of messages

Without failing primitives, and on texts the adapter is modelled for, every call moves every
message as the life cycle tells.

* `perform_turns` — a call of the adapter turns its disk;
* `Keeps.leased_slot`, `Keeps.dead_slot` — the slot of a message with a lease file, or in `dlq/`;
* `expired_eq`, `expired_slots` — the sweep lists the expired leases, each once;
* `lifecycle` — **the life cycle.**
-/

variable {exact : Prop} {d : Disk} {m : MessageEnvelope} {published : List MessageEnvelope}
  {env : Env} {call : Call}

/-- A call of the adapter turns its disk. -/
theorem perform_turns (h : Keeps exact published d) (hcalm : env.faults = [])
    (hfresh : call.Fresh published) (hplain : Call.Plain call)
    (hexact : exact → Call.Exact published env d call) :
    Turns exact published env call (adapter.perform env call d).1
      d (adapter.perform env call d).2 :=
  ((program_turns h hfresh hplain hexact).run (.inr hcalm) trivial).1

/-! ### Expired leases -/

/-- What `get_expired_inflight_messages` reads off a path. -/
def Disk.expiredAt (d : Disk) (now : Int) (path : Path) : Option ExpiredLeaseInfo :=
  (d.lookup path).bind (expiredInfo now)

theorem expired_eq {listed : List ExpiredLeaseInfo} (hcalm : env.faults = [])
    (h : adapter.expired env d = .ok listed) :
    listed = d.leasePaths.filterMap (d.expiredAt env.now) := by
  have hsat : Sat False (fun _ => True) d (getExpiredInflightMessages env)
      fun l _ => l = d.leasePaths.filterMap (d.expiredAt env.now) := by
    refine getExpired_sat trivial ?_
    rw [List.filterMap_filterMap]
    rfl
  obtain rfl := Except.ok.inj h
  exact (hsat.run (.inr hcalm) trivial).1

theorem expiredInfo_toJson (stored : LeaseMeta) (K : String) (now : Int) :
    expiredInfo now (some (stored.toJson K)) =
      if stored.leaseUntilMs < now then some ⟨K, stored.queue, stored.attempt⟩ else none := rfl

/-- An entry of the sweep is the lease file of a message. -/
theorem Keeps.expiredAt (h : Keeps exact published d) {path : Path} {info : ExpiredLeaseInfo}
    {now : Int} (hpath : path ∈ d.leasePaths) (hinfo : d.expiredAt now path = some info) :
    ∃ m ∈ published, path = leasePath m ∧ safeKey info.messageKey = safeKey m.key ∧
      ∃ u < now, d.slot m.key =
        some ⟨info.queue, m.targetConsumerId, info.attempt, .inflight u⟩ := by
  obtain ⟨content, hfile, hread⟩ := Option.bind_eq_some_iff.mp hinfo
  obtain ⟨m, hm, rfl, K, stored, j, rfl, hheld, -⟩ := h.leaseFile (mem_leasePaths hpath) hfile
  rw [expiredInfo_toJson] at hread
  split at hread
  case isFalse => cases hread
  case isTrue hexpired =>
    obtain rfl := Option.some.inj hread
    refine ⟨m, hm, rfl, hheld.names, stored.leaseUntilMs, hexpired, ?_⟩
    rw [hheld.stands.slot_eq (h.named m hm), Place.slot, hheld.queue]

/-- The sweep lists the expired leases, each once. -/
theorem Keeps.expired_slots (h : Keeps exact published d) {now : Int}
    {listed : List ExpiredLeaseInfo}
    (hlisted : listed = d.leasePaths.filterMap (d.expiredAt now)) :
    (listed.map (safeKey ·.messageKey)).Nodup ∧
    (∀ info ∈ listed, ∃ key target u, safeKey info.messageKey = safeKey key ∧ u < now ∧
      d.slot key = some ⟨info.queue, target, info.attempt, .inflight u⟩) ∧
    ∀ key found u, d.slot key = some found → found.phase = .inflight u → u < now →
      ∃ info ∈ listed, safeKey info.messageKey = safeKey key := by
  subst hlisted
  -- the file name of an entry tells its path
  have hpath : ∀ path ∈ d.leasePaths, ∀ info, d.expiredAt now path = some info →
      path = .leaseMeta (safeKey info.messageKey) := by
    intro path hmem info hinfo
    obtain ⟨m, -, rfl, hnames, -⟩ := h.expiredAt hmem hinfo
    rw [hnames]
  have hnodup : d.leasePaths.Nodup := List.Nodup.filter _ d.nodupKeys
  refine ⟨?_, ?_, ?_⟩
  · have hpairs : d.leasePaths.Pairwise (· ≠ ·) := hnodup
    rw [List.Nodup, List.pairwise_map, List.pairwise_filterMap]
    refine hpairs.imp_of_mem ?_
    intro path path' hmem hmem' hne info hinfo info' hinfo' hsame
    refine hne ?_
    rw [hpath path hmem info hinfo, hpath path' hmem' info' hinfo', hsame]
  · intro info hinfo
    obtain ⟨path, hmem, hread⟩ := List.mem_filterMap.mp hinfo
    obtain ⟨m, -, -, hnames, u, hu, hslot⟩ := h.expiredAt hmem hread
    exact ⟨m.key, m.targetConsumerId, u, hnames, hu, hslot⟩
  · intro key found u hslot hphase hu
    have hthere : d.slot key ≠ none := by simp [hslot]
    obtain ⟨m, hm, rfl⟩ := h.known hthere
    obtain ⟨place, hplace⟩ := h.stands m hm
    rw [hplace.slot_eq (h.named m hm)] at hslot
    cases hplace with
    | absent | archived | stranded => cases hslot
    | @waits dir j attempt available phase hwaiting =>
      obtain rfl := Option.some.inj hslot
      simp only at hphase
      subst hphase
      cases dir <;> cases hwaiting
    | @leased j available stored K honly henvelope hstored hkey hexact hqueue hnote =>
      obtain rfl := Option.some.inj hslot
      simp only [Phase.inflight.injEq] at hphase
      subst hphase
      refine ⟨⟨K, stored.queue, stored.attempt⟩, List.mem_filterMap.mpr ⟨leasePath m, ?_, ?_⟩, hkey⟩
      · refine List.mem_filter.mpr ⟨?_, rfl⟩
        rw [← AList.mem_keys, ← AList.lookup_isSome, hstored]
        rfl
      · rw [Disk.expiredAt, hstored, Option.bind_some, expiredInfo_toJson, if_pos hu]

/-! ### Slots told by single files -/

/-- Keys with one file name have one lease. -/
theorem lease_congr {K key : String} (h : safeKey K = safeKey key) : d.lease K = d.lease key := by
  rw [Disk.lease, Disk.lease, h]

/-- A message with a lease is inflight until its end, and its file is in `processing/`. -/
theorem Keeps.leased_slot (h : Keeps False published d) (hm : m ∈ published) {stored : LeaseMeta}
    (hlease : d.lease m.key = some stored) :
    d.slot m.key = some ⟨m.queue, m.targetConsumerId, stored.attempt,
      .inflight stored.leaseUntilMs⟩ ∧
    d.lookup (queuePath stored.queue .processing m.messageId) ≠ none := by
  obtain ⟨m', hm', j, hheld⟩ := h.held hlease
  obtain rfl := h.eq_of_safeKey hm hm' hheld.names
  have hnamed := h.named m hm
  have hfile : d.lookup (.message [m.queue] .processing m.messageId) = some (some j) :=
    (hheld.file .processing).trans (if_pos rfl)
  refine ⟨(hheld.stands.slot_eq hnamed).trans rfl, ?_⟩
  rw [hheld.path hnamed, hfile]
  exact Option.some_ne_none _

/-- A message in `dlq/` is a dead letter. -/
theorem Keeps.dead_slot (h : Keeps False published d) (hm : m ∈ published)
    (hfile : d.lookup (filePath m .dlq) ≠ none) :
    ∃ found j, d.slot m.key = some found ∧ found.phase = .dlq ∧
      d.lookup (filePath m .dlq) = some (some j) ∧ ∃ j', reprocessed env.now j = some j' := by
  obtain ⟨content, hcontent⟩ := Option.ne_none_iff_exists'.mp hfile
  obtain ⟨m', hm', -, hid, j, attempt, available, phase, rfl, hphase, -, henvelope, -, -, hstands⟩ :=
    h.waiting (by simp) hcontent
  obtain rfl := h.well.eq_of_id hm hm' hid
  obtain ⟨j', hj', -⟩ := henvelope.reprocessed env.now
  refine ⟨_, j, (hstands.slot_eq (h.named m hm)).trans rfl, ?_, hcontent, j', hj'⟩
  exact (Option.some.inj hphase).symm

/-! ### The life cycle -/

/-- A key with the file name of a published one has a character, other than those the file name
    replaces, exactly if the published one has it. -/
theorem mem_of_safeKey {K key : String} (h : safeKey K = safeKey key) {c : Char} (hcolon : c ≠ ':')
    (hunderscore : c ≠ '_') : c ∈ K.toList ↔ c ∈ key.toList := by
  have hmem : ∀ k : String, c ∈ k.toList ↔ c ∈ (safeKey k).toList := by
    intro k
    rw [safeKey, String.toList_ofList, List.mem_map]
    constructor
    · exact fun hc => ⟨c, hc, if_neg hcolon⟩
    · rintro ⟨c', hc', hsame⟩
      split at hsame
      case isTrue => exact absurd hsame.symm hunderscore
      case isFalse => exact hsame ▸ hc'
  rw [hmem, h, ← hmem]

/-- **The FileSystem adapter has the life cycle of messages**, in runs in which nothing fails, of
    plain calls: queues are names and keys have no slash. -/
def lifecycle : Lifecycle adapter where
  Calm env := env.faults = []
  Admits := Call.Plain
  Inv := Keeps False
  slot := Disk.slot
  address := safeKey
  revives := Revives
  start := by
    refine ⟨trivial, by simp, by simp, ?_, ?_, ?_, ?_⟩ <;> simp [adapter]
  known h hslot := by
    obtain ⟨m, hm, rfl⟩ := h.known hslot
    exact List.mem_map_of_mem hm
  address_inj h hkey hkey' haddress := by
    obtain ⟨m, hm, rfl⟩ := List.mem_map.mp hkey
    obtain ⟨m', hm', rfl⟩ := List.mem_map.mp hkey'
    rw [h.eq_of_safeKey hm hm' haddress]
  admits_sweep := by
    intro _ _ info _ _ h hkey haddress hsettles
    obtain ⟨m, hm, rfl⟩ := List.mem_map.mp hkey
    have hslash : '/' ∉ info.messageKey.toList := fun hmem =>
      (h.named m hm).no_slash ((mem_of_safeKey haddress (by decide) (by decide)).mp hmem)
    cases hsettles with
    | delay => exact hslash
    | dead => exact hslash
  perform h hcalm hplain hfresh := by
    have hturns := perform_turns h hcalm hfresh hplain False.elim
    exact ⟨hturns.keeps, hturns.moves⟩
  expired h hcalm hlisted := by
    obtain ⟨hnodup, hslots, hall⟩ := h.expired_slots (expired_eq hcalm hlisted)
    exact ⟨hnodup, hslots, fun _ => hall⟩

/-- The call is given no key with a NUL character.  The C functions would end the names of its files
    there. -/
def Call.NulFree (call : Call) : Prop := ∀ key ∈ Call.givenKey call, '\x00' ∉ key.toList

instance (call : Call) : Decidable (Call.NulFree call) :=
  inferInstanceAs (Decidable (∀ key ∈ Call.givenKey call, '\x00' ∉ key.toList))

/-- The published keys have no NUL character. -/
theorem Named.nul_free {m : MessageEnvelope} (h : Named m) : '\x00' ∉ m.key.toList := by
  rw [h.key, nul_mem_messageKey h.guid]
  exact fun hmem => (h.queue.2.2.2 _ hmem).2 rfl

/-- **The life cycle of the adapter under keys that are opened as they are.** -/
def nulFree : Lifecycle adapter :=
  lifecycle.restrict Call.NulFree (by
    intro _ _ info _ _ h hkey haddress hsettles
    obtain ⟨m, hm, rfl⟩ := List.mem_map.mp hkey
    have hnul : '\x00' ∉ info.messageKey.toList := fun hmem =>
      (h.named m hm).nul_free ((mem_of_safeKey haddress (by decide) (by decide)).mp hmem)
    cases hsettles with
    | delay => exact fun key hkey => Option.some.inj hkey ▸ hnul
    | dead => exact fun key hkey => Option.some.inj hkey ▸ hnul)

theorem nulFree_admits {call : Call} (hplain : Call.Plain call) (hnul : Call.NulFree call) :
    nulFree.Admits call := ⟨hplain, hnul⟩

end YirangMQ.FileSystem

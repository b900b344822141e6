import YirangMQ.Hybrid.Placement

namespace YirangMQ.Hybrid

/-!
# Check and repair of a store in use

Checks, and repairs of what any check has reported before, come between the calls.  A report may be
old when it is repaired.

* `Chore`, `tended` — calls, checks and repairs;
* `Tends` — the calls are careful, the checks are of queues, and a repair is about an earlier report;
* `Cared` — what calls and repairs keep; `Harmless` — a report that names archives only;
* `tended_placed` — **repairs change no row and no payload in use, every check finds nothing to
  mend, and what is leased has the payload that was published.**
-/

open Program Abortable

variable {schema : SchemaFile} {env : Env} {s : Store} {published : List MessageEnvelope}
  {m : MessageEnvelope} {report : ConsistencyReport} {now : Int}

/-- What is done with a store in use. -/
inductive Chore where
  | call (env : Env) (call : Call)
  | check (now : Int) (lastWrite : String → Option Int) (queue : String)
  | repair (now : Int) (report : ConsistencyReport)

/-- What comes of it. -/
inductive Outcome where
  | reply (reply : Reply)
  | report (report : ConsistencyReport)
  | repaired (count : Nat)

/-- The store after the repair of a report. -/
def repairStore (schema : SchemaFile) (now : Int) (report : ConsistencyReport) (s : Store) :
    Nat × Store :=
  let (count, data, files) := repairConsistency schema now report (s.data, s.files)
  (count, { s with data, files })

/-- A store that is called, checked and repaired. -/
def tended (schema : SchemaFile) : Machine Store Chore Outcome where
  start := (adapter schema).start
  step s
    | .call env call =>
      let (reply, s) := (adapter schema).perform env call s
      (.reply reply, s)
    | .check now lastWrite queue =>
      (.report (checkConsistency now lastWrite s.data s.files queue), s)
    | .repair now report =>
      let (count, s) := repairStore schema now report s
      (.repaired count, s)

abbrev TendedHistory := History Store Chore Outcome

/-- The messages that the calls have published, newest first. -/
def publishedIn (h : TendedHistory) : List MessageEnvelope :=
  h.foldr (fun r messages =>
    match r.input with
    | .call _ call => call.publishing messages
    | _ => messages) []

/-- Calls are careful, a check is asked for one of the queues or for all, and a repair is about a
    report that was made before. -/
def Tends (h : TendedHistory) (s : Store) : Chore → Prop
  | .call env call =>
    env.faults = [] ∧ call.Plain ∧ call.Fresh (publishedIn h) ∧
      (∀ m ∈ call.publishing (publishedIn h), m.messageId ≠ "") ∧
      Apart (call.publishing (publishedIn h)) ∧ Spares call s.data
  | .check _ _ queue => Checkable (publishedIn h) queue
  | .repair _ report => ∃ r ∈ h, r.output = .report report

/-! ### What is kept -/

/-- What careful calls keep of a store. -/
structure Cared (published : List MessageEnvelope) (s : Store) : Prop where
  well : WellPublished published
  keeps : Keeps published s
  owned : Owned published s
  carried : s.data.Backed (Carries published)
  housed : Housed published s.data s.files
  identified : ∀ m ∈ published, m.messageId ≠ ""
  apart : Apart published

theorem Cared.wellPlaced (h : Cared published s) : WellPlaced published s :=
  h.housed.wellPlaced h.well h.keeps.invariant h.owned.data h.identified h.apart

/-- A careful call. -/
theorem Cared.perform (h : Cared published s) {call : Call} (hcalm : env.faults = [])
    (hplain : call.Plain) (hfresh : call.Fresh published)
    (hids : ∀ m ∈ call.publishing published, m.messageId ≠ "")
    (hapart : Apart (call.publishing published)) (hspares : Spares call s.data) :
    Cared (call.publishing published) ((adapter schema).perform env call s).2 := by
  have hwell : WellPublished (call.publishing published) := h.well.publishing hfresh
  have hwider : Owned (call.publishing published) s :=
    ⟨h.owned.data.widen call, fun d hd => (h.owned.saved d hd).widen call,
      h.owned.files.widen call⟩
  have hguards : Guards (Owned _) (program schema env call) fun _ => True :=
    program_owned hwell (publishes_publishing _ call)
  have hcarried : ((adapter schema).perform env call s).2.data.Backed
      (Carries (call.publishing published)) := by
    obtain ⟨-, hperforms⟩ :=
      @perform_performs False schema env s h.keeps.saved (.inr hcalm) call
    rcases hperforms with ⟨-, hsame, -⟩ | heffect
    · rw [hsame]
      refine h.carried.weaken fun r j hcarries => ?_
      obtain ⟨m, hm, hcontent⟩ := hcarries
      exact ⟨m, call.publishing_of_mem hm, hcontent⟩
    · exact Effect.carried h.carried h.keeps.invariant.formed heffect
  exact
    { well := hwell
      keeps := (h.keeps.perform hplain hfresh).1
      owned := (hguards.run hwider env.faults).1
      carried := hcarried
      housed := h.housed.perform h.well h.keeps h.owned.data hcalm hfresh hspares
      identified := hids
      apart := hapart }

/-! ### Reports -/

/-- The report names archived payloads only. -/
def Harmless (report : ConsistencyReport) : Prop :=
  ∀ issue ∈ report.issues, issue.type = .staleArchive ∧ IsArchive issue.payloadPath

/-- A check finds nothing to mend. -/
theorem Cared.check (h : Cared published s) (lastWrite : String → Option Int) (queue : String) :
    (checkConsistency now lastWrite s.data s.files queue).orphanPayloads = 0 ∧
      (checkConsistency now lastWrite s.data s.files queue).missingPayloads = 0 ∧
      Harmless (checkConsistency now lastWrite s.data s.files queue) := by
  have hmatches : ∀ q, Matches s.data s.files q :=
    h.housed.matches h.well h.keeps.invariant h.owned.data h.identified
  have hclean : (checkConsistency now lastWrite s.data s.files queue).orphanPayloads = 0 ∧
      (checkConsistency now lastWrite s.data s.files queue).missingPayloads = 0 :=
    clean_iff.mpr fun q _ => hmatches q
  refine ⟨hclean.1, hclean.2, ?_⟩
  intro issue hissue
  obtain ⟨q, -, hmem⟩ := List.mem_flatMap.mp hissue
  have htype : issue.type = .staleArchive := matches_iff.mp (hmatches q) issue hmem
  obtain ⟨id, hid, -, rfl⟩ := (mem_checkQueue_stale htype).mp hmem
  exact ⟨htype, q, id, (mem_listPayloadFiles.mp hid).2.1, rfl⟩

/-- The repair of a report that names archives only leaves the tables as they are. -/
theorem Harmless.data (h : Harmless report) :
    (repairStore schema now report s).2.data = s.data := by
  have hissues : ∀ (issues : List ConsistencyIssue) (s : Tables × Payloads),
      (∀ issue ∈ issues, issue.type = .staleArchive) →
      (repairIssues schema now issues s).2.1 = s.1 := by
    intro issues
    induction issues with
    | nil => exact fun _ _ => rfl
    | cons issue issues ih =>
      intro s hall
      rw [List.forall_mem_cons] at hall
      have hstep : (repairIssue schema now s issue).2.1 = s.1 := by
        rw [repairIssue, hall.1]
      exact (ih _ hall.2).trans hstep
  exact hissues report.issues (s.data, s.files) fun issue hissue => (h issue hissue).1

/-- It removes archived payloads, and no other file. -/
theorem Harmless.files (h : Harmless report) (path : String) :
    (repairStore schema now report s).2.files.lookup path = s.files.lookup path ∨
      IsArchive path ∧ (repairStore schema now report s).2.files.lookup path = none := by
  have hlookup := lookup_repairIssues schema now report.issues (s.data, s.files) path
  by_cases hissue : ∃ issue ∈ report.issues, issue.type = .staleArchive ∧ issue.payloadPath = path
  · rw [if_pos hissue] at hlookup
    obtain ⟨issue, hmem, -, rfl⟩ := hissue
    exact .inr ⟨(h issue hmem).2, hlookup⟩
  · rw [if_neg hissue] at hlookup
    exact .inl hlookup

/-- A payload in use is no archive. -/
theorem Harmless.kept (h : Harmless report) {path : String} (hpath : ¬IsArchive path) :
    (repairStore schema now report s).2.files.lookup path = s.files.lookup path :=
  (h.files path).resolve_right fun hgone => hpath hgone.1

/-- Such a repair keeps what careful calls keep. -/
theorem Cared.repair (h : Cared published s) (hreport : Harmless report) :
    Cared published (repairStore schema now report s).2 := by
  have hdata : (repairStore schema now report s).2.data = s.data := hreport.data
  have hsaved : (repairStore schema now report s).2.saved = s.saved := rfl
  -- What is there has been there before.
  have hold : ∀ path text, (repairStore schema now report s).2.files.lookup path = some text →
      s.files.lookup path = some text := by
    intro path text hlookup
    rcases hreport.files path with hsame | ⟨-, hgone⟩
    · exact hsame.symm.trans hlookup
    · exact absurd (hgone.symm.trans hlookup) (by simp)
  have hkeeps : Keeps published (repairStore schema now report s).2 :=
    { saved := hsaved.trans h.keeps.saved
      invariant := hdata ▸ h.keeps.invariant
      files := fun path text hlookup => h.keeps.files path text (hold path text hlookup)
      known := hdata ▸ h.keeps.known
      plain := h.keeps.plain
      queues := hdata ▸ h.keeps.queues }
  have howned : Owned published (repairStore schema now report s).2 :=
    { data := hdata ▸ h.owned.data
      saved := hsaved ▸ h.owned.saved
      files := fun path text hlookup => h.owned.files path text (hold path text hlookup) }
  have hhoused : Housed published (repairStore schema now report s).2.data
      (repairStore schema now report s).2.files := by
    constructor
    · rw [hdata]
      refine h.housed.same (fun _ => rfl) fun m hm dir hdir => ?_
      exact hreport.kept (not_isArchive hdir (not_slash_of_guid (h.well.formed m hm).2))
    · intro path text hlookup
      exact h.housed.paths path text (hold path text hlookup)
  exact
    { well := h.well
      keeps := hkeeps
      owned := howned
      carried := hdata ▸ h.carried
      housed := hhoused
      identified := h.identified
      apart := h.apart }

/-! ### Runs -/

theorem cared_start : Cared [] (tended schema).start := by
  have hstart : Run (adapter schema).machine Careful [] (adapter schema).machine.start := .start
  have hadmitted : Run (adapter schema).machine (lifecycle schema).Admitted []
      (adapter schema).machine.start := .start
  obtain ⟨hhoused, hids, hapart⟩ := housed_of_careful hstart
  obtain ⟨hwell, howned⟩ := owned_of_run (fun _ _ _ ok => ok.fresh) hstart
  exact ⟨hwell, (lifecycle schema).start, howned, content_kept hadmitted, hhoused, hids, hapart⟩

/-- What a step does with a store in use. -/
structure Undisturbed (published : List MessageEnvelope) (r : Step Store Chore Outcome) : Prop where
  /-- A check finds nothing to mend. -/
  checked : ∀ report, r.output = .report report →
    report.orphanPayloads = 0 ∧ report.missingPayloads = 0 ∧ Harmless report
  /-- A repair changes no row, and no file but archived payloads. -/
  repaired : ∀ now report, r.input = .repair now report → r.after.data = r.before.data ∧
    ∀ path, ¬IsArchive path → r.after.files.lookup path = r.before.files.lookup path
  /-- What is leased has the payload that was published. -/
  leased : ∀ env queue c timeout reply, r.input = .call env (.leaseNext queue c timeout) →
    r.output = .reply reply → reply.failed = false →
    ∃ m ∈ published, ∃ given token, reply.granted = some (given, token) ∧ given.key = m.key ∧
      given.payloadJson = m.payloadJson ∧ given.attributesJson = m.attributesJson

theorem Undisturbed.widen {r : Step Store Chore Outcome} (h : Undisturbed published r)
    {published' : List MessageEnvelope} (hwider : ∀ m ∈ published, m ∈ published') :
    Undisturbed published' r where
  checked := h.checked
  repaired := h.repaired
  leased env queue c timeout reply hinput houtput hleased := by
    obtain ⟨m, hm, hrest⟩ := h.leased env queue c timeout reply hinput houtput hleased
    exact ⟨m, hwider m hm, hrest⟩

/-- **A step of a store that is cared for**: it is cared for after it, and the step has not
    disturbed it. -/
theorem Cared.step {h : TendedHistory} {i : Chore} (hcared : Cared (publishedIn h) s)
    (hreports : ∀ r ∈ h, Undisturbed (publishedIn h) r) (ok : Tends h s i) :
    let r := (tended schema).stepAt s i
    Cared (publishedIn (r :: h)) r.after ∧ Undisturbed (publishedIn (r :: h)) r := by
  cases i with
  -- A call keeps the placement, and what it leases has the payload that was published.
  | call env call =>
    obtain ⟨hcalm, hplain, hfresh, hids, hapart, hspares⟩ := ok
    refine ⟨hcared.perform hcalm hplain hfresh hids hapart hspares, ?_⟩
    constructor
    · intro report houtput
      cases houtput
    · intro now report hinput
      cases hinput
    · intro env' queue c timeout reply hinput houtput hleased
      obtain ⟨rfl, rfl⟩ := Chore.call.inj hinput
      obtain rfl := Outcome.reply.inj houtput
      have hgranted : ((adapter schema).perform env (.leaseNext queue c timeout) s).1.failed =
        false := hleased
      exact hcared.housed.leased hcared.carried hcared.keeps.invariant hcared.keeps.saved hcalm
        hgranted
  -- A check changes nothing and finds nothing but old archives.
  | check now lastWrite queue =>
    refine ⟨hcared, ?_⟩
    constructor
    · intro report houtput
      obtain rfl := Outcome.report.inj houtput
      exact hcared.check lastWrite queue
    · intro now report hinput
      cases hinput
    · intro env queue c timeout reply hinput
      cases hinput
  -- So does a repair, since the report is one of an earlier check.
  | repair now report =>
    obtain ⟨r, hr, houtput⟩ := ok
    have hharmless : Harmless report := ((hreports r hr).checked report houtput).2.2
    refine ⟨hcared.repair hharmless, ?_⟩
    constructor
    · intro report' houtput'
      cases houtput'
    · intro now' report' hinput
      obtain ⟨rfl, rfl⟩ := Chore.repair.inj hinput
      exact ⟨hharmless.data, fun path hpath => hharmless.kept hpath⟩
    · intro env queue c timeout reply hinput
      cases hinput

/-- No message is taken off the list of the published ones. -/
theorem mem_publishedIn_cons {r : Step Store Chore Outcome} {h : TendedHistory}
    (hm : m ∈ publishedIn h) : m ∈ publishedIn (r :: h) := by
  obtain ⟨i, before, output, after⟩ := r
  cases i with
  | call env call => exact call.publishing_of_mem hm
  | check now lastWrite queue => exact hm
  | repair now report => exact hm

/-- **Check and repair do not disturb a store in use.**  In every run of careful calls, checks and
    repairs of earlier reports, in any order: rows and payload files agree; no check finds an orphan
    or a missing payload; no repair changes a row, or a file that is no archived payload; and what
    is leased has the payload that was published. -/
theorem tended_placed {h : TendedHistory} (run : Run (tended schema) Tends h s) :
    WellPlaced (publishedIn h) s ∧ ∀ r ∈ h, Undisturbed (publishedIn h) r := by
  have hkept : Cared (publishedIn h) s ∧ ∀ r ∈ h, Undisturbed (publishedIn h) r := by
    induction run with
    | start => exact ⟨cared_start, fun r hr => nomatch hr⟩
    | @step h s i run ok ih =>
      obtain ⟨hcared, hsteps⟩ := ih
      obtain ⟨hcared', hstep⟩ := hcared.step hsteps ok
      refine ⟨hcared', ?_⟩
      intro r hr
      rcases List.mem_cons.mp hr with rfl | hr
      · exact hstep
      · exact (hsteps r hr).widen fun m hm => mem_publishedIn_cons hm
  exact ⟨hkept.1.wellPlaced, hkept.2⟩

theorem output_repair (s : Store) (now : Int) (report : ConsistencyReport) :
    ((tended schema).stepAt s (.repair now report)).output =
      .repaired (repairStore schema now report s).1 := rfl

/-- The payload of an acknowledged message is old when the repair removes it. -/
theorem tended_placed_letter :
    let M := tended .mainMq
    let env : Env := ⟨1, Int.one_pos, "", []⟩
    let r₁ := M.stepAt M.start (.call env (.enqueue letter))
    let r₂ := M.stepAt r₁.after (.call env (.leaseNext "q" "c" 30))
    let r₃ := M.stepAt r₂.after (.call env (.ack ⟨"", "msg:q:a", "c", 30001⟩))
    let report := checkConsistency 604800002 (fun _ => some 1) r₃.after.data r₃.after.files ""
    let r₄ := M.stepAt r₃.after (.check 604800002 (fun _ => some 1) "")
    let r₅ := M.stepAt r₄.after (.repair 604800003 report)
    r₅.output = .repaired 1 ∧ WellPlaced [letter] r₅.after ∧ r₅.after.data = r₄.after.data := by
  intro M env r₁ r₂ r₃ report r₄ r₅
  have hnames : ∀ m ∈ [letter], m.messageId ≠ "" ∧ IsName m.queue :=
    List.forall_mem_singleton.mpr (by decide)
  have hids : ∀ m ∈ [letter], m.messageId ≠ "" := fun m hm => (hnames m hm).1
  have hapart : Apart [letter] := apart_of_names fun m hm => (hnames m hm).2
  have hcount : r₅.output = .repaired 1 := by
    have hcount : (repairStore .mainMq 604800003 report r₄.after).1 = 1 := by decide +kernel
    exact (output_repair r₄.after 604800003 report).trans (congrArg Outcome.repaired hcount)
  have run₁ : Run M Tends [r₁] r₁.after :=
    Run.start.stepAt _ ⟨rfl, by decide, by decide, hids, hapart, trivial⟩
  have run₂ : Run M Tends [r₂, r₁] r₂.after :=
    run₁.stepAt _ ⟨rfl, by decide, trivial, hids, hapart, trivial⟩
  have run₃ : Run M Tends [r₃, r₂, r₁] r₃.after :=
    run₂.stepAt _ ⟨rfl, by decide, trivial, hids, hapart, trivial⟩
  have run₄ : Run M Tends [r₄, r₃, r₂, r₁] r₄.after := run₃.stepAt _ (.inl rfl)
  have run₅ : Run M Tends [r₅, r₄, r₃, r₂, r₁] r₅.after :=
    run₄.stepAt _ ⟨r₄, List.mem_cons_self, rfl⟩
  obtain ⟨hplaced, hsteps⟩ := tended_placed run₅
  have hstep := (hsteps r₅ List.mem_cons_self).repaired 604800003 report rfl
  have hpublished : publishedIn [r₅, r₄, r₃, r₂, r₁] = [letter] := rfl
  have hbefore : r₅.before = r₄.after := Machine.stepAt_before M r₄.after _
  rw [hpublished] at hplaced
  rw [hbefore] at hstep
  exact ⟨hcount, hplaced, hstep.1⟩

end YirangMQ.Hybrid

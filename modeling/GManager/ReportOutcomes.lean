import GManager.JobCancellation
import GManager.PartialRuns
import GManager.Reports

/-!
# One outcome for a report

`start` and `fail` look whether the report was cancelled, and the optimistic lock keeps what they saw true
until they write. `complete` does not look, so a report that is cancelled while its document is stored
becomes COMPLETED. And nothing keeps a second execution from storing a second document. Runs in which
neither happens leave a cancelled report as it is, and a completed one with its one document.
-/

namespace GManager.Reports

namespace ReportSystem

variable {s s' s'' : ReportSystem} {id : UUID}

/-! ### What is to be shown -/

/-- A cancelled report stays as it is, without a new notification. -/
def Settled (s s' : ReportSystem) : Prop :=
  ∀ r ∈ s.reports, r.status = .cancelled →
    r ∈ s'.reports ∧ ∀ n : ReportCompleted, n.sourceEventId = r.id →
    (n ∈ s'.notifications ↔ n ∈ s.notifications)

/-- A completed report has the document that was stored for it, and no other was. -/
def Documented (s : ReportSystem) : Prop :=
  ∀ r ∈ s.reports, r.status = .completed →
    ∃ o, r.documentId = some o.id ∧ (s.outputs.rows.filter fun o => o.report = r.id) = [o]

/-- The report is not cancelled when `complete` reads it and when it is announced, and has no
document when one is stored. -/
def Heeds (s : ReportSystem) (id : UUID) : Stage → HandlerAct → Prop
  | .stored .., .proceed | .notifying _, .proceed => ∀ r ∈ s.reports.rows, r.id = id → r.status ≠ .cancelled
  | .storing .., .stores _ => ∀ o ∈ s.outputs.rows, o.report ≠ id
  | _, _ => True

def Careful (s : ReportSystem) : Event → Prop
  | .handler token a => ∀ e ∈ s.executions token, s.Heeds e.report e.stage a
  | _ => True

theorem Settled.refl (s : ReportSystem) : s.Settled s := fun _ hr _ => ⟨hr, fun _ _ => Iff.rfl⟩

theorem Settled.trans (h : s.Settled s') (h' : s'.Settled s'') : s.Settled s'' := by
  intro r hr hcancelled
  obtain ⟨hr', hn⟩ := h r hr hcancelled
  obtain ⟨hr'', hn'⟩ := h' r hr' hcancelled
  exact ⟨hr'', fun n hid => (hn' n hid).trans (hn n hid)⟩

/-! ### The invariant -/

def Has (s : ReportSystem) (report document : UUID) : Prop :=
  ∃ o ∈ s.outputs, o.id = document ∧ o.report = report

/-- `v` is a copy of the report. -/
structure Read (s : ReportSystem) (id : UUID) (v : ReportRequest) : Prop where
  id_eq : v.id = id
  row : ∃ r ∈ s.reports, r.id = v.id
  copy : Table.Copy ReportRequest.version s.reports v

/-- What an execution knows. -/
def Knows (s : ReportSystem) (id : UUID) : Stage → Prop
  | .starting v | .marking v _ => s.Read id v ∧ v.status ≠ .cancelled
  | .completing v document _ => (s.Read id v ∧ v.status ≠ .cancelled) ∧ s.Has id document
  | .stored document _ => s.Has id document
  | .notifying v => v.id = id
  | _ => True

structure Inv (s : ReportSystem) : Prop where
  executions : ∀ token e, s.executions token = some e → s.Knows e.report e.stage
  completed : ∀ r ∈ s.reports, r.status = .completed → ∃ document, r.documentId = some document ∧
    s.Has r.id document
  single : ∀ o ∈ s.outputs, ∀ o' ∈ s.outputs, o.report = o'.report → o = o'

theorem Inv.empty : Inv empty where
  executions := fun _ _ he => by cases he
  completed := fun _ hr => absurd hr Table.not_mem_empty
  single := fun _ ho => absurd ho Table.not_mem_empty

theorem Inv.documented (h : s.Inv) : s.Documented := by
  intro r hr hcompleted
  obtain ⟨document, hdocument, o, ho, rfl, hreport⟩ := h.completed r hr hcompleted
  refine ⟨o, hdocument, ?_⟩
  have hmem : ∀ o', o' ∈ (s.outputs.rows.filter fun o => o.report = r.id) ↔ o' = o := by
    intro o'
    rw [List.mem_filter, decide_eq_true_eq]
    constructor
    · rintro ⟨ho', hreport'⟩
      exact h.single o' ho' o ho (hreport'.trans hreport.symm)
    · rintro rfl
      exact ⟨ho, hreport⟩
  have hnodup : (s.outputs.rows.filter fun o => o.report = r.id).Nodup :=
    (List.Nodup.of_map _ s.outputs.nodup).filter _
  exact List.perm_singleton.1 ((List.perm_ext_iff_of_nodup hnodup (List.nodup_singleton o)).2 fun o' => by
    rw [hmem, List.mem_singleton])

/-! ### Later states -/

/-- What executions know stays true. -/
structure Later (s s' : ReportSystem) : Prop where
  read : ∀ id v, s.Read id v → s'.Read id v
  outputs : ∀ o ∈ s.outputs, o ∈ s'.outputs

theorem Later.of_reports (hreports : s'.reports = s.reports) (houtputs : ∀ o ∈ s.outputs, o ∈ s'.outputs) :
    s.Later s' :=
  ⟨fun _ _ hread => ⟨hread.id_eq, hreports ▸ hread.row, hreports ▸ hread.copy⟩, houtputs⟩

theorem Later.has (h : s.Later s') {report document : UUID} (hhas : s.Has report document) :
    s'.Has report document := by
  obtain ⟨o, ho, hid, hreport⟩ := hhas
  exact ⟨o, h.outputs o ho, hid, hreport⟩

theorem Later.knows (h : s.Later s') {stage : Stage} (hk : s.Knows id stage) : s'.Knows id stage := by
  cases stage with
  | starting v => exact ⟨h.read _ _ hk.1, hk.2⟩
  | marking v c => exact ⟨h.read _ _ hk.1, hk.2⟩
  | completing v document g => exact ⟨⟨h.read _ _ hk.1.1, hk.1.2⟩, h.has hk.2⟩
  | stored document g => exact h.has hk
  | notifying v => exact hk
  | entered | started | generating | generated | storing | failing => trivial

theorem Inv.later (h : s.Inv) (hl : s.Later s') (hexecutions : s'.executions = s.executions)
    (hreports : ∀ r ∈ s'.reports, r.status = .completed →
      r ∈ s.reports ∨ ∃ document, r.documentId = some document ∧ s'.Has r.id document)
    (houtputs : s'.outputs = s.outputs) : s'.Inv where
  executions := fun token e he => hl.knows (h.executions token e (hexecutions ▸ he))
  completed := by
    intro r hr hcompleted
    rcases hreports r hr hcompleted with hr | hdocument
    · obtain ⟨document, hid, hhas⟩ := h.completed r hr hcompleted
      exact ⟨document, hid, hl.has hhas⟩
    · exact hdocument
  single := houtputs ▸ h.single

/-- A write over a row that is not cancelled. -/
theorem Later.save {r x : ReportRequest} (hr : r ∈ s.reports) (hk : x.id = r.id)
    (hlt : r.version < x.version) : s.Later { s with reports := s.reports.save x } := by
  refine ⟨fun id v hread => ⟨hread.id_eq, ?_, hread.copy.save hr hk hlt⟩, fun o ho => ho⟩
  obtain ⟨y, hy, hyid⟩ := hread.row
  by_cases hyr : y.id = r.id
  · exact ⟨x, (Table.mem_save_of_mem hr hk).2 (.inl rfl), hk.trans (hyr.symm.trans hyid)⟩
  · exact ⟨y, (Table.mem_save_of_mem hr hk).2 (.inr ⟨hy, hyr⟩), hyid⟩

theorem Settled.save {r x : ReportRequest} (hr : r ∈ s.reports) (hk : x.id = r.id)
    (hstatus : r.status ≠ .cancelled) : s.Settled { s with reports := s.reports.save x } := by
  refine fun y hy hcancelled => ⟨(Table.mem_save_of_mem hr hk).2 (.inr ⟨hy, fun hid => hstatus ?_⟩),
    fun _ _ => Iff.rfl⟩
  rw [← Table.eq_of_key hy hr hid]
  exact hcancelled

theorem Inv.save {r x : ReportRequest} (h : s.Inv) (hr : r ∈ s.reports) (hk : x.id = r.id)
    (hlt : r.version < x.version)
    (hdocument : x.status = .completed → ∃ document, x.documentId = some document ∧ s.Has x.id document) :
    Inv { s with reports := s.reports.save x } := by
  refine h.later (.save hr hk hlt) rfl (fun y hy hcompleted => ?_) rfl
  rcases (Table.mem_save_of_mem hr hk).1 hy with rfl | ⟨hy, -⟩
  · exact .inr (hdocument hcompleted)
  · exact .inl hy

/-! ### One call -/

def KnowsNext (s : ReportSystem) (id : UUID) : Next → Prop
  | .at stage => s.Knows id stage
  | _ => True

/-- What a call leaves. -/
structure Good (s s' : ReportSystem) (id : UUID) (next : Next) : Prop where
  inv : s'.Inv
  settled : s.Settled s'
  knows : s'.KnowsNext id next
  jobs : s'.jobs = s.jobs
  executions : s'.executions = s.executions

theorem Inv.same (h : s.Inv) {next : Next} (hk : s.KnowsNext id next) : s.Good s id next :=
  ⟨h, .refl s, hk, rfl, rfl⟩

theorem Inv.saveAndFlush {v v' : ReportRequest} {done refused : Next} (h : s.Inv) (hread : s.Read id v)
    (hstatus : v.status ≠ .cancelled) (hk : v'.id = v.id) (hversion : v'.version = v.version)
    (hdocument : v'.status = .completed → v'.status = v.status ∧ v'.documentId = v.documentId ∨
      ∃ document, v'.documentId = some document ∧ s.Has id document)
    (hdone : ∀ s' : ReportSystem, s'.KnowsNext id done) (hrefused : s.KnowsNext id refused) :
    s.Good (s.saveAndFlush v v' done refused).1 id (s.saveAndFlush v v' done refused).2 := by
  unfold ReportSystem.saveAndFlush
  split
  swap
  · exact h.same hrefused
  rename_i reports hflush
  obtain ⟨hmem, ⟨rfl, -⟩ | rfl⟩ := Table.flush_eq_some hflush hread.copy
  · exact h.same (hdone s)
  · have hlt : v.version < v'.raise.version := by
      rw [ReportRequest.raise_version, hversion]
      omega
    refine ⟨h.save hmem hk hlt fun hcompleted => ?_, .save hmem hk hstatus, hdone _, rfl, rfl⟩
    rcases hdocument hcompleted with ⟨hsame, hdoc⟩ | ⟨document, hdoc, hhas⟩
    · obtain ⟨document, hid, hhas⟩ := h.completed v hmem (hsame ▸ hcompleted)
      exact ⟨document, hdoc.trans hid, hk ▸ hhas⟩
    · refine ⟨document, hdoc, ?_⟩
      rw [ReportRequest.raise_id, hk, hread.id_eq]
      exact hhas

theorem Inv.findById {found : ReportRequest → Next} {missing : Next} (h : s.Inv)
    (hmissing : s.KnowsNext id missing) (hfound : ∀ v ∈ s.reports, s.Read id v → s.KnowsNext id (found v)) :
    s.Good (s.findById id found missing).1 id (s.findById id found missing).2 := by
  refine h.same ?_
  dsimp only [ReportSystem.findById]
  split
  · rename_i v hv
    obtain ⟨hmem, hid⟩ := Table.find?_eq_some.1 hv
    exact hfound v hmem ⟨hid, ⟨v, hmem, rfl⟩, .of_mem hmem⟩
  · exact hmissing

theorem Inv.checkCancellation {t : JobTask} {token : UUID} {passed thrown : Next} (h : s.Inv)
    (hpassed : s.KnowsNext id passed) (hthrown : s.KnowsNext id thrown) :
    s.Good (s.checkCancellation t token passed thrown).1 id
      (s.checkCancellation t token passed thrown).2 := by
  refine h.same ?_
  dsimp only [ReportSystem.checkCancellation]
  split
  · exact hthrown
  · exact hpassed

/-- The document is the first of its report. -/
theorem Inv.storeGenerated {document owner : UUID} {g : Generated} (h : s.Inv)
    (hfirst : ∀ o ∈ s.outputs.rows, o.report ≠ id) {next : ReportSystem × Next}
    (hnext : s.storeGenerated id document owner g = some next) : s.Good next.1 id next.2 := by
  obtain ⟨outputs, hinsert, rfl⟩ := Option.map_eq_some_iff.1 hnext
  have hmem : ∀ o, o ∈ outputs ↔ o ∈ s.outputs ∨ o = _ := fun o => Table.mem_insert hinsert
  have hlater : s.Later { s with outputs } := .of_reports rfl fun o ho => (hmem o).2 (.inl ho)
  refine ⟨⟨fun token e he => hlater.knows (h.executions token e he), ?_, ?_⟩, fun r hr _ =>
    ⟨hr, fun _ _ => Iff.rfl⟩, ⟨_, (hmem _).2 (.inr rfl), rfl, rfl⟩, rfl, rfl⟩
  · intro r hr hcompleted
    obtain ⟨d, hd, hhas⟩ := h.completed r hr hcompleted
    exact ⟨d, hd, hlater.has hhas⟩
  · intro o ho o' ho' hreport
    rcases (hmem o).1 ho with ho | rfl <;> rcases (hmem o').1 ho' with ho' | rfl
    · exact h.single o ho o' ho' hreport
    · exact absurd hreport (hfirst o ho)
    · exact absurd hreport.symm (hfirst o' ho')
    · rfl

theorem Inv.reportCompleted {v : ReportRequest} (h : s.Inv) (hv : v.id = id)
    (hlive : ∀ r ∈ s.reports.rows, r.id = id → r.status ≠ .cancelled) :
    s.Good (s.reportCompleted v) id .returned := by
  unfold ReportSystem.reportCompleted
  split
  · exact h.same trivial
  · refine ⟨h.later (.of_reports rfl fun _ ho => ho) rfl (fun r hr _ => .inl hr) rfl, ?_, trivial, rfl, rfl⟩
    refine fun r hr hcancelled => ⟨hr, fun n hn => ?_⟩
    rw [List.mem_append, List.mem_singleton]
    refine ⟨fun hmem => hmem.resolve_right ?_, .inl⟩
    rintro rfl
    exact hlive r hr (hn.symm.trans hv) hcancelled

/-- A call that breaks changes nothing. -/
theorem Inv.breaks {t : JobTask} {token : UUID} {stage : Stage} (h : s.Inv) {next : ReportSystem × Next}
    (hnext : s.call t token id stage .breaks = some next) : s.Good next.1 id next.2 := by
  cases stage <;> cases hnext <;> exact h.same trivial

/-- A call of an execution that heeds its report. -/
theorem Inv.call {t : JobTask} {token : UUID} {stage : Stage} {a : HandlerAct} (h : s.Inv)
    (hk : s.Knows id stage) (hheeds : s.Heeds id stage a) {next : ReportSystem × Next}
    (hnext : s.call t token id stage a = some next) : s.Good next.1 id next.2 := by
  cases a with
  | breaks => exact h.breaks hnext
  | generates g =>
    cases stage with
    | generating owner =>
      cases hnext
      exact h.same trivial
    | _ => cases hnext
  | stores document =>
    cases stage with
    | storing owner g => exact h.storeGenerated hheeds hnext
    | _ => cases hnext
  | completes now =>
    cases stage with
    | completing v document g =>
      cases hnext
      exact h.saveAndFlush hk.1.1 hk.1.2 rfl rfl (fun _ => .inr ⟨document, rfl, hk.2⟩)
        (fun _ => hk.1.1.id_eq) trivial
    | _ => cases hnext
  | proceed =>
    cases stage with
    | entered =>
      cases hnext
      refine h.findById trivial fun v hv hread => ?_
      split
      · trivial
      · exact ⟨hread, ‹_›⟩
    | starting v =>
      cases hnext
      exact h.saveAndFlush hk.1 hk.2 rfl rfl (fun hc => by cases hc) (fun _ => trivial) trivial
    | started owner =>
      cases hnext
      exact h.checkCancellation trivial trivial
    | generated owner g =>
      cases hnext
      exact h.checkCancellation trivial trivial
    | stored document g =>
      cases hnext
      exact h.findById trivial fun v hv hread => ⟨⟨hread, hheeds v hv hread.id_eq⟩, hk⟩
    | notifying v =>
      cases hnext
      exact h.reportCompleted hk hheeds
    | failing c =>
      cases hnext
      refine h.findById trivial fun v hv hread => ?_
      split
      · trivial
      · exact ⟨hread, ‹_›⟩
    | marking v c =>
      cases hnext
      exact h.saveAndFlush hk.1 hk.2 rfl rfl (fun hc => by cases hc) (fun _ => trivial) trivial
    | generating | storing | completing => cases hnext

/-! ### Runs -/

/-- Steps that leave the reports and what was stored for them. -/
theorem Inv.jobs (h : s.Inv) (jobs : JobSystem) : Inv { s with jobs } ∧ s.Settled { s with jobs } :=
  ⟨h.later (.of_reports rfl fun _ ho => ho) rfl (fun _ hr _ => .inl hr) rfl, fun _ hr _ =>
    ⟨hr, fun _ _ => Iff.rfl⟩⟩

theorem Inv.goOn {t : JobTask} {token : UUID} {next : Next} (h : s.Inv) (hk : s.KnowsNext id next) :
    (s.goOn t token id next).Inv ∧ s.Settled (s.goOn t token id next) := by
  cases next with
  | returned => exact h.jobs _
  | threw cancelled => exact h.jobs _
  | «at» stage =>
    have hlater : s.Later (s.goOn t token id (.at stage)) := .of_reports rfl fun _ ho => ho
    refine ⟨⟨fun k e he => ?_, h.completed, h.single⟩, fun _ hr _ => ⟨hr, fun _ _ => Iff.rfl⟩⟩
    change Function.update s.executions token (some ⟨id, stage⟩) k = some e at he
    rw [Function.update_apply] at he
    split at he
    · cases he
      exact hlater.knows hk
    · exact hlater.knows (h.executions k e he)

theorem Inv.handle {reportId : String → Option UUID} {t : JobTask} {token : UUID} {a : HandlerAct} (h : s.Inv)
    (hc : s.Careful (.handler token a)) (hs : s.handle reportId t token a = some s') : s'.Inv ∧
    s.Settled s' := by
  unfold ReportSystem.handle at hs
  split at hs
  · rename_i e he
    obtain ⟨next, hnext, rfl⟩ := Option.map_eq_some_iff.1 hs
    have hgood := h.call (h.executions token e he) (hc e he) hnext
    obtain ⟨hinv, hsettled⟩ := @Inv.goOn _ _ t token _ hgood.inv hgood.knows
    exact ⟨hinv, hgood.settled.trans hsettled⟩
  · split at hs
    · cases hs
      exact h.goOn trivial
    · cases hs
      exact h.jobs _

theorem Inv.cancel {actor : UUID} (h : s.Inv) (hs : s.cancel id actor = some s') : s'.Inv ∧ s.Settled s' := by
  obtain ⟨r, hr, hs⟩ := Option.bind_eq_some_iff.1 hs
  have hmem := (Table.find?_eq_some.1 (Option.filter_eq_some_iff.1 hr).1).1
  split at hs
  · rename_i hstatus
    cases hs
    have hk : r.cancel.id = r.id := rfl
    have hne : r.status ≠ .cancelled := by
      rcases hstatus with hstatus | hstatus <;> rw [hstatus] <;> decide
    obtain ⟨hinv, hsettled⟩ := h.jobs (s.jobs.commit (requestCancellation r.jobId) [.requested r.jobId]).2
    have hlt : r.version < r.cancel.version := Nat.lt_succ_self _
    exact ⟨hinv.save hmem hk hlt fun hc => (by cases hc), hsettled.trans (.save hmem hk hne)⟩
  · cases hs
    exact ⟨h, .refl s⟩

theorem Inv.expire (h : s.Inv) (now : Instant) :
    Inv { s with reports := s.reports.edit (·.expire now) (ReportRequest.expire_id now) } ∧
      s.Settled { s with reports := s.reports.edit (·.expire now) (ReportRequest.expire_id now) } := by
  have hcases : ∀ r : ReportRequest, r.expire now = r ∨
      r.status = .completed ∧ (r.expire now).status = .expired ∧ r.version < (r.expire now).version := by
    intro r
    unfold ReportRequest.expire
    split
    · rename_i hr
      exact .inr ⟨hr.1, rfl, Nat.lt_succ_self _⟩
    · exact .inl rfl
  have hmem : ∀ x, x ∈ s.reports.edit (·.expire now) (ReportRequest.expire_id now) ↔
      ∃ r ∈ s.reports, r.expire now = x := fun _ => Table.mem_edit
  have hlater :
      s.Later { s with reports := s.reports.edit (·.expire now) (ReportRequest.expire_id now) } := by
    have hraised : ∀ r ∈ s.reports, r.expire now = r ∨ r.version < (r.expire now).version :=
      fun r _ => (hcases r).imp_right fun hr => hr.2.2
    refine ⟨fun id v hread => ⟨hread.id_eq, ?_, hread.copy.edit (ReportRequest.expire_id now) hraised⟩,
      fun _ ho => ho⟩
    obtain ⟨r, hr, hid⟩ := hread.row
    exact ⟨r.expire now, (hmem _).2 ⟨r, hr, rfl⟩, (r.expire_id now).trans hid⟩
  refine ⟨h.later hlater rfl (fun r hr hcompleted => ?_) rfl, fun r hr hcancelled => ?_⟩
  · obtain ⟨r₀, hr₀, rfl⟩ := (hmem r).1 hr
    rcases hcases r₀ with heq | ⟨-, hexpired, -⟩
    · refine .inl ?_
      rw [heq]
      exact hr₀
    · rw [hexpired] at hcompleted
      cases hcompleted
  · refine ⟨(hmem r).2 ⟨r, hr, ?_⟩, fun _ _ => Iff.rfl⟩
    rcases hcases r with heq | ⟨hcompleted, -, -⟩
    · exact heq
    · rw [hcancelled] at hcompleted
      cases hcompleted

theorem Inv.insert {r : ReportRequest} {reports : Table ReportRequest.id} (h : s.Inv)
    (hr : s.reports.insert r = some reports) (hstatus : r.status = .queued) : Inv { s with reports } ∧
    s.Settled { s with reports } := by
  have hmem : ∀ x, x ∈ reports ↔ x ∈ s.reports ∨ x = r := fun x => Table.mem_insert hr
  have hlater : s.Later { s with reports } := by
    refine ⟨fun id v hread => ⟨hread.id_eq, ?_, hread.copy.insert hread.row hr⟩, fun _ ho => ho⟩
    obtain ⟨x, hx, hid⟩ := hread.row
    exact ⟨x, (hmem x).2 (.inl hx), hid⟩
  refine ⟨h.later hlater rfl (fun x hx hcompleted => ?_) rfl, fun x hx _ =>
    ⟨(hmem x).2 (.inl hx), fun _ _ => Iff.rfl⟩⟩
  rcases (hmem x).1 hx with hx | rfl
  · exact .inl hx
  · rw [hstatus] at hcompleted
    cases hcompleted

section runs

variable {payload : UUID → String} {reportId : String → Option UUID}

theorem Inv.step {e : Event} (h : s.Inv) (hc : s.Careful e) (hs : s.step payload reportId e = some s') :
    s'.Inv ∧ s.Settled s' := by
  cases e with
  | create id owner definitionKey job dedupeKey correlationId maxAttempts timeoutSeconds now =>
    simp only [ReportSystem.step, ReportSystem.create] at hs
    split at hs
    · obtain ⟨reports, hinsert, rfl⟩ := Option.map_eq_some_iff.1 hs
      obtain ⟨hinv, hsettled⟩ := h.insert hinsert rfl
      obtain ⟨hinv', hsettled'⟩ := hinv.jobs _
      exact ⟨hinv', hsettled.trans hsettled'⟩
    · cases hs
  | cancel id actor => exact h.cancel hs
  | expire now =>
    cases hs
    exact h.expire now
  | jobs op =>
    simp only [ReportSystem.step] at hs
    split at hs
    · cases hs
    · cases hs
      exact h.jobs _
  | handler token a =>
    obtain ⟨t, -, hs⟩ := Option.bind_eq_some_iff.1 hs
    split at hs
    · exact h.handle hc hs
    · cases hs

/-- Every step of the run is careful. -/
abbrev CarefulRun (payload : UUID → String) (reportId : String → Option UUID) (s : ReportSystem)
    (es : List Event) : Prop :=
  RunMeets (ReportSystem.step payload reportId) Careful s es

theorem Inv.run {es : List Event} (h : s.Inv) (hc : CarefulRun payload reportId s es)
    (hs : s.run payload reportId es = some s') : s'.Inv ∧ s.Settled s' :=
  hc.trans .refl (fun _ _ _ => .trans) (fun _ _ _ h hc hs => h.step hc hs) h hs

/-- In a careful run a report that was cancelled stays so, and one that is completed has its one document. -/
theorem one_outcome (payload : UUID → String) (reportId : String → Option UUID) (es es' : List Event)
    (s s' : ReportSystem) (hc : CarefulRun payload reportId empty (es ++ es'))
    (hs : empty.run payload reportId es = some s) (hs' : s.run payload reportId es' = some s') :
    s.Settled s' ∧ s'.Documented := by
  have hinv := (Inv.empty.run hc.append.1 hs).1
  obtain ⟨hinv', hsettled⟩ := hinv.run (hc.append.2 s hs) hs'
  exact ⟨hsettled, hinv'.documented⟩

end runs

end ReportSystem

/-! ### Runs that can be decided -/

namespace ReportSystem

instance (s : ReportSystem) (id : UUID) : (stage : Stage) → (a : HandlerAct) → Decidable (s.Heeds id stage a)
  | .stored .., .proceed | .notifying _, .proceed =>
    inferInstanceAs (Decidable (∀ r ∈ s.reports.rows, r.id = id → r.status ≠ .cancelled))
  | .storing .., .stores _ => inferInstanceAs (Decidable (∀ o ∈ s.outputs.rows, o.report ≠ id))
  | .entered, _ | .starting _, _ | .started _, _ | .generating _, _ | .generated .., _ | .completing .., _
  | .failing _, _ | .marking .., _ => isTrue trivial
  | .stored .., .generates _ | .stored .., .stores _ | .stored .., .completes _ | .stored ..,
      .breaks => isTrue trivial
  | .notifying _, .generates _ | .notifying _, .stores _ | .notifying _, .completes _
  | .notifying _, .breaks =>
    isTrue trivial
  | .storing .., .proceed | .storing .., .generates _ | .storing .., .completes _ | .storing .., .breaks =>
    isTrue trivial

instance (s : ReportSystem) : (e : Event) → Decidable (s.Careful e)
  | .handler token a => inferInstanceAs (Decidable (∀ e ∈ s.executions token, s.Heeds e.report e.stage a))
  | .create .. | .cancel .. | .expire _ | .jobs _ => isTrue trivial

end ReportSystem

/-! ### A report that is cancelled while its document is stored -/

namespace Revenue

def maxAttempts : ℕ+ := ⟨3, Nat.succ_pos 2⟩

def payload (id : UUID) : String :=
  if id = 1 then "\x7b\"reportId\":\"1\"\x7d" else "\x7b\"reportId\":\"2\"\x7d"

def reportId (payload : String) : Option UUID :=
  if payload = Revenue.payload 1 then some 1 else if payload = Revenue.payload 2 then some 2 else none

def sheet : Generated := { bytes := [80, 75], rows := 3 }

/-- The report `id` is requested, and the worker starts its handler under the lease `10 * id + 1`. -/
def begun (id : UUID) : List Event :=
  [.create id 9 "revenue" id ("report:" ++ payload id) "c" maxAttempts 300 0, .jobs (.poll (Stopped.poll 1)),
    .jobs (.begin (10 * id + 1)), .jobs (.check (10 * id + 1))]

/-- The handler up to its second look at the cancellation. -/
def generated (token : UUID) : List Event :=
  [.handler token .proceed, .handler token .proceed, .handler token .proceed, .handler token .proceed,
    .handler token (.generates sheet), .handler token .proceed]

/-- The rest of the handler, from the document on. -/
def finished (token document : UUID) : List Event :=
  [.handler token (.stores document), .handler token .proceed, .handler token (.completes 5),
    .handler token .proceed]

def cancelled : List Event := begun 1 ++ generated 11 ++ [.cancel 1 9]

/-- The first execution breaks after it stored its document, and the job is claimed again. -/
def twice : List Event :=
  begun 1 ++ generated 11 ++ [.handler 11 (.stores 100), .handler 11 .breaks, .handler 11 .proceed,
    .handler 11 .proceed, .jobs (.report 11 2), .jobs (.poll (Stopped.poll 3)), .jobs (.begin 13),
    .jobs (.check 13)] ++ generated 13 ++ finished 13 101

def next (s : ReportSystem) (es : List Event) : ReportSystem := (s.run payload reportId es).getD s

theorem run_next {s : ReportSystem} {es : List Event} (h : (s.run payload reportId es).isSome) :
    s.run payload reportId es = some (next s es) := by
  obtain ⟨s', hs'⟩ := Option.isSome_iff_exists.1 h
  rw [next, hs']
  rfl

/-- A cancelled report becomes COMPLETED; and a completed report has two documents. -/
theorem report_outcomes :
    (∃ s ∈ ReportSystem.empty.run payload reportId cancelled, ∃ s' ∈ s.run payload reportId (finished 11 100),
      ¬ s.Settled s') ∧
      ∃ s ∈ ReportSystem.empty.run payload reportId twice, ¬ s.Documented := by
  refine ⟨⟨_, run_next (by decide +kernel), _, run_next (by decide +kernel), fun h => ?_⟩, _,
    run_next (by decide +kernel), fun h => ?_⟩
  · have hchanged : ∃ r ∈ (next .empty cancelled).reports.rows, r.status = .cancelled ∧
        r ∉ (next (next .empty cancelled) (finished 11 100)).reports.rows := by decide +kernel
    obtain ⟨r, hr, hcancelled, hnot⟩ := hchanged
    exact hnot (h r hr hcancelled).1
  · have hdouble : ∃ r ∈ (next .empty twice).reports.rows, r.status = .completed ∧
        ((next .empty twice).outputs.rows.filter fun o => o.report = r.id).length ≠ 1 := by decide +kernel
    obtain ⟨r, hr, hcompleted, hlength⟩ := hdouble
    obtain ⟨o, -, ho⟩ := h r hr hcompleted
    exact hlength (congrArg List.length ho)

/-- One report is cancelled before its handler starts, and another is made. -/
def made : List Event := .create 2 9 "revenue" 2 "report:2" "c" maxAttempts 300 0 :: .cancel 2 9 :: begun 1

theorem one_outcome_made :
    ∃ s ∈ ReportSystem.empty.run payload reportId made,
      ∃ s' ∈ s.run payload reportId
          (generated 11 ++ finished 11 100 ++ [.jobs (.check 11), .jobs (.report 11 6)]),
        s.Settled s' ∧ s'.Documented :=
  ⟨next .empty made, run_next (by decide +kernel), next (next .empty made) _, run_next (by decide +kernel),
    ReportSystem.one_outcome payload reportId made _ _ _ (by decide +kernel) (run_next (by decide +kernel))
      (run_next (by decide +kernel))⟩

end Revenue

end GManager.Reports

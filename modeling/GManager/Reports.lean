import GManager.JobRunner
import GManager.OptimisticLocks

/-!
# Reports and the jobs that make them

`ReportService`, `ReportJobHandler`, `ReportExpiryWorker`. The handler calls its own `start`, `complete` and
`fail`, so they run without a transaction: each `findById` and each `saveAndFlush` is one by itself, with an
optimistic lock between them. The steps of `ReportSystem` are these calls and the steps of the job workers;
every call may break. `cancel` is one transaction, refused at its commit if the report was changed since it
was read, so it is one step.
-/

namespace GManager.Reports

inductive ReportStatus
  | queued | running | completed | failed | cancelled | expired
  deriving DecidableEq, Repr

structure ReportRequest where
  id : UUID
  ownerId : UUID
  jobId : UUID
  definitionKey : String
  status : ReportStatus
  progress : ℕ
  rowCount : Option ℕ
  documentId : Option UUID
  errorMessage : Option String
  expiresAt : Option Instant
  version : ℕ
  deriving DecidableEq, Repr

/-- What `ReportGenerator.generate` returns. -/
structure Generated where
  bytes : List UInt8
  rows : ℕ
  deriving DecidableEq, Repr

/-- A document of `storeGenerated`, with the report that it was stored for. -/
structure Output where
  id : UUID
  report : UUID
  ownerId : UUID
  bytes : List UInt8
  deriving DecidableEq, Repr

/-- A notification of the type REPORT_COMPLETED. -/
structure ReportCompleted where
  sourceEventId : UUID
  recipientId : UUID
  definitionKey : String
  deriving DecidableEq, Repr

/-- Where `handle` stands: what it calls next, with what it has read. -/
inductive Stage
  | entered
  | starting (value : ReportRequest)
  | started (owner : UUID)
  | generating (owner : UUID)
  | generated (owner : UUID) (g : Generated)
  | storing (owner : UUID) (g : Generated)
  | stored (document : UUID) (g : Generated)
  | completing (value : ReportRequest) (document : UUID) (g : Generated)
  | notifying (value : ReportRequest)
  | failing (cancelled : Bool)
  | marking (value : ReportRequest) (cancelled : Bool)
  deriving DecidableEq, Repr

structure Execution where
  report : UUID
  stage : Stage
  deriving DecidableEq, Repr

/-- Where a step of `handle` leads: to its next call, to its end, or to an exception that the worker sees. -/
inductive Next
  | at (stage : Stage)
  | returned
  | threw (cancelled : Bool)
  deriving DecidableEq, Repr

/-- How a call of the handler goes. -/
inductive HandlerAct
  | proceed
  | generates (g : Generated)
  | stores (document : UUID)
  | completes (now : Instant)
  | breaks
  deriving DecidableEq, Repr

/-- The tables, the workers, and by lease token the executions of the handler. -/
structure ReportSystem where
  jobs : JobSystem
  reports : Table ReportRequest.id
  outputs : Table Output.id
  notifications : List ReportCompleted
  executions : UUID → Option Execution

inductive Event
  | create (id owner : UUID) (definitionKey : String) (job : UUID) (dedupeKey correlationId : String)
      (maxAttempts : ℕ+) (timeoutSeconds : ℤ) (now : Instant)
  | cancel (id actor : UUID)
  | expire (now : Instant)
  | jobs (op : RunnerOp)
  | handler (token : UUID) (a : HandlerAct)

/-- `ReportService.JOB_TYPE`. -/
def jobType : String := "REPORT_GENERATE"

def ReportRequest.raise (r : ReportRequest) : ReportRequest := { r with version := r.version + 1 }

@[simp] theorem ReportRequest.raise_id (r : ReportRequest) : r.raise.id = r.id := rfl

@[simp] theorem ReportRequest.raise_version (r : ReportRequest) : r.raise.version = r.version + 1 := rfl

/-- The row that `start` saves. -/
def ReportRequest.start (r : ReportRequest) : ReportRequest := { r with status := .running, progress := 10 }

/-- The row that `complete` saves. -/
def ReportRequest.complete (r : ReportRequest) (document : UUID) (g : Generated)
    (now : Instant) : ReportRequest :=
  { r with
    documentId := some document
    rowCount := some g.rows
    progress := 100
    status := .completed
    expiresAt := some (now.plusSeconds (30 * 86400)) }

/-- The row that `fail` saves. -/
def ReportRequest.fail (r : ReportRequest) : ReportRequest :=
  { r with status := .failed, errorMessage := some "Report generation failed" }

/-- The row that `cancel` saves. -/
def ReportRequest.cancel (r : ReportRequest) : ReportRequest :=
  { r with status := .cancelled, progress := 0, version := r.version + 1 }

/-- The row that `expire` leaves. -/
def ReportRequest.expire (now : Instant) (r : ReportRequest) : ReportRequest :=
  if r.status = .completed ∧ ∃ e ∈ r.expiresAt, e < now then
    { r with status := .expired, progress := 100, version := r.version + 1 }
  else r

theorem ReportRequest.expire_id (now : Instant) (r : ReportRequest) : (r.expire now).id = r.id := by
  unfold expire
  split <;> rfl

namespace ReportSystem

def empty : ReportSystem :=
  { jobs := .empty, reports := .empty, outputs := .empty, notifications := [], executions := fun _ => none }

/-- `requests.saveAndFlush` of a row that was read as `v`. -/
def saveAndFlush (s : ReportSystem) (v v' : ReportRequest) (done refused : Next) : ReportSystem × Next :=
  match s.reports.flush ReportRequest.version ReportRequest.raise v v' with
  | some reports => ({ s with reports }, done)
  | none => (s, refused)

/-- `requests.findById`. -/
def findById (s : ReportSystem) (id : UUID) (found : ReportRequest → Next) (missing : Next) :
    ReportSystem × Next :=
  (s, match s.reports.find? id with
    | some v => found v
    | none => missing)

/-- `checkCancellation` of the execution under the lease `token`. -/
def checkCancellation (s : ReportSystem) (t : JobTask) (token : UUID) (passed thrown : Next) :
    ReportSystem × Next :=
  (s, if t.interrupted ∨ s.jobs.isCancellationRequested t.job.id token then thrown else passed)

/-- `storeGenerated`. -/
def storeGenerated (s : ReportSystem) (report document owner : UUID) (g : Generated) :
    Option (ReportSystem × Next) :=
  (s.outputs.insert { id := document, report, ownerId := owner, bytes := g.bytes }).map fun outputs =>
    ({ s with outputs }, .at (.stored document g))

/-- `reportCompleted`. -/
def reportCompleted (s : ReportSystem) (value : ReportRequest) : ReportSystem :=
  if ∃ n ∈ s.notifications, n.sourceEventId = value.id ∧ n.recipientId = value.ownerId then s
  else
    { s with
      notifications := s.notifications ++
        [{ sourceEventId := value.id, recipientId := value.ownerId, definitionKey := value.definitionKey }] }

/-- One call of `handle`. An exception before `generate` leaves the handler as it is, one
after it goes through `fail`. -/
def call (s : ReportSystem) (t : JobTask) (token id : UUID) : Stage → HandlerAct →
    Option (ReportSystem × Next)
  | .entered, .proceed =>
    some (s.findById id (fun v => if v.status = .cancelled then .threw true
      else .at (.starting v)) (.threw false))
  | .starting v, .proceed => some (s.saveAndFlush v v.start (.at (.started v.ownerId)) (.threw false))
  | .started owner, .proceed => some (s.checkCancellation t token (.at (.generating owner)) (.threw true))
  | .entered, .breaks | .starting _, .breaks | .started _, .breaks => some (s, .threw false)
  | .generating owner, .generates g => some (s, .at (.generated owner g))
  | .generated owner g, .proceed =>
    some (s.checkCancellation t token (.at (.storing owner g)) (.at (.failing true)))
  | .storing owner g, .stores document => s.storeGenerated id document owner g
  | .stored document g, .proceed =>
    some (s.findById id (fun v => .at (.completing v document g)) (.at (.failing false)))
  | .completing v document g, .completes now =>
    some (s.saveAndFlush v (v.complete document g now) (.at (.notifying v)) (.at (.failing false)))
  | .notifying v, .proceed => some (s.reportCompleted v, .returned)
  | .generating _, .breaks | .generated .., .breaks | .storing .., .breaks | .stored .., .breaks
  | .completing .., .breaks | .notifying _, .breaks => some (s, .at (.failing false))
  | .failing c, .proceed =>
    some (s.findById id (fun v => if v.status = .cancelled then .threw c else .at (.marking v c)) (.threw c))
  | .marking v c, .proceed => some (s.saveAndFlush v v.fail (.threw c) (.threw false))
  | .failing _, .breaks | .marking .., .breaks => some (s, .threw false)
  | _, _ => none

/-- The execution goes on, or its worker does. -/
def goOn (s : ReportSystem) (t : JobTask) (token id : UUID) : Next → ReportSystem
  | .at stage => { s with executions := Function.update s.executions token (some ⟨id, stage⟩) }
  | .returned => { s with jobs := s.jobs.setTask { t with phase := .returned } }
  | .threw cancelled =>
    { s with jobs := s.jobs.setTask { t with phase := if cancelled then .cancelling else .failing } }

/-- The step belongs to the handler, not to its worker. -/
def handles (s : ReportSystem) : RunnerOp → Prop
  | .check token | .heartbeat token _ _ | .returns token | .fails token =>
    ∃ t ∈ s.jobs.tasks.rows, t.job.leaseToken = some token ∧ t.phase = .handling ∧ t.job.type = jobType
  | _ => False

instance (s : ReportSystem) : DecidablePred s.handles
  | .check _ | .heartbeat .. | .returns _ | .fails _ =>
    inferInstanceAs (Decidable (∃ t ∈ s.jobs.tasks.rows, _ ∧ _ ∧ _))
  | .insert .. | .requestCancellation _ | .retry .. | .poll _ | .begin _ | .swallow _ | .report ..
  | .interrupt _ | .timeout .. =>
    isFalse id

/-- What `handle` does next, with its first look at the payload. -/
def handle (reportId : String → Option UUID) (s : ReportSystem) (t : JobTask) (token : UUID)
    (a : HandlerAct) : Option ReportSystem :=
  match s.executions token with
  | some e => (s.call t token e.report e.stage a).map fun next => next.1.goOn t token e.report next.2
  | none =>
    match reportId t.job.payload with
    | some id => some (s.goOn t token id (.at .entered))
    | none => some { s with jobs := s.jobs.setTask { t with phase := .failing } }

/-- `create`. -/
def create (payload : UUID → String) (s : ReportSystem) (id owner : UUID) (definitionKey : String)
    (job : UUID) (dedupeKey correlationId : String) (maxAttempts : ℕ+) (timeoutSeconds : ℤ)
    (now : Instant) : Option ReportSystem :=
  match (insertJob job jobType (payload id) correlationId (some dedupeKey) 0 maxAttempts timeoutSeconds now).run
      () s.jobs.db with
  | .ok (jobId, db) =>
    (s.reports.insert
      { id, ownerId := owner, jobId, definitionKey, status := .queued, progress := 0, rowCount := none
        documentId := none, errorMessage := none, expiresAt := none, version := 1 }).map fun reports =>
      { s with reports, jobs := { s.jobs with db } }
  | .error _ => none

/-- `cancel`. -/
def cancel (s : ReportSystem) (id actor : UUID) : Option ReportSystem := do
  let r ← (s.reports.find? id).filter fun r => r.ownerId = actor
  if r.status = .queued ∨ r.status = .running then
    some { s with
      jobs := (s.jobs.commit (requestCancellation r.jobId) [.requested r.jobId]).2
      reports := s.reports.save r.cancel }
  else some s

section steps

variable (payload : UUID → String) (reportId : String → Option UUID)

def step (s : ReportSystem) : Event → Option ReportSystem
  | .create id owner definitionKey job dedupeKey correlationId maxAttempts timeoutSeconds now =>
    s.create payload id owner definitionKey job dedupeKey correlationId maxAttempts timeoutSeconds now
  | .cancel id actor => s.cancel id actor
  | .expire now => some { s with reports := s.reports.edit (·.expire now) (ReportRequest.expire_id now) }
  | .jobs op => if s.handles op then none else some { s with jobs := s.jobs.step op }
  | .handler token a => do
    let t ← s.jobs.tasks.find? (some token)
    if t.phase = .handling ∧ t.job.type = jobType then s.handle reportId t token a else none

def run (s : ReportSystem) (es : List Event) : Option ReportSystem := es.foldlM (step payload reportId) s

end steps

end ReportSystem

end GManager.Reports

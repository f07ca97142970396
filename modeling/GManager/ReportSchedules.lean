import GManager.Columns
import GManager.Reports
import GManager.TimeService
import Mathlib.Order.Bounds.Defs
import Mathlib.Tactic.Common

/-!
# Scheduled reports

`ReportService` keeps schedules; each has the time of its next run. `enqueueDue` of `ReportScheduleWorker`
reads the schedules that are due, writes a report request and its job for each, and sets the next run.
Several nodes poll: what a poll has read it writes later, in one transaction, and the version column refuses
it when another has written a row of it in between. The column of the local time keeps whole seconds, and
the query of a poll rounds the reading of its clock.
-/

namespace GManager

/-! ### The next run -/

/-- `getDayOfWeek().getValue()` -/
def DayOfWeek.value : DayOfWeek → ℤ
  | monday => 1
  | tuesday => 2
  | wednesday => 3
  | thursday => 4
  | friday => 5
  | saturday => 6
  | sunday => 7

theorem LocalDate.value_dayOfWeek (d : ℤ) : (LocalDate.dayOfWeek d).value = (d + 3) % 7 + 1 := by
  have h0 : 0 ≤ (d + 3) % 7 := by omega
  have h7 : (d + 3) % 7 < 7 := by omega
  unfold LocalDate.dayOfWeek
  generalize (d + 3) % 7 = n at h0 h7 ⊢
  obtain rfl | rfl | rfl | rfl | rfl | rfl | rfl : n = 0 ∨ n = 1 ∨ n = 2 ∨ n = 3 ∨ n = 4 ∨
      n = 5 ∨ n = 6 := by omega
  all_goals rfl

namespace Schedules

/-- `ReportService.next` -/
def next (zone : Zone) (localTime : LocalTime) (day : Option ℤ) (now : Instant) : Instant :=
  let date := zone.dateOf now
  let date := match day with
    | none => date
    | some day => date + (day - (LocalDate.dayOfWeek date).value) % 7
  let candidate := zone.instantOf date localTime
  if now < candidate then candidate
  else match day with
    | none => zone.instantOf (date + 1) localTime
    | some _ => zone.instantOf (date + 7) localTime

/-- The date is one of a schedule with this weekday, or without any. -/
def OnDay (day : Option ℤ) (d : LocalDate) : Prop := ∀ w ∈ day, d.dayOfWeek.value = w

/-- `ZonedDateTime.of` on a date of the schedule. -/
def Occurrence (zone : Zone) (localTime : LocalTime) (day : Option ℤ) (o : Instant) : Prop :=
  ∃ d, OnDay day d ∧ o = zone.instantOf d localTime

def Weekday (day : Option ℤ) : Prop := ∀ w ∈ day, 1 ≤ w ∧ w ≤ 7

/-- The first date of the schedule that is not before `d`. -/
def onOrAfter (day : Option ℤ) (d : ℤ) : ℤ := match day with
  | none => d
  | some day => d + (day - (LocalDate.dayOfWeek d).value) % 7

/-- The days between two dates of the schedule. -/
def period (day : Option ℤ) : ℤ := match day with
  | none => 1
  | some _ => 7

theorem period_pos (day : Option ℤ) : 0 < period day := by
  cases day with
  | none => decide
  | some => exact (by decide : (0 : ℤ) < 7)

section next

variable {zone : Zone} {localTime : LocalTime} {day : Option ℤ} {now o o' : Instant} {d x : ℤ}

theorem next_eq : next zone localTime day now =
    if now < zone.instantOf (onOrAfter day (zone.dateOf now)) localTime then
      zone.instantOf (onOrAfter day (zone.dateOf now)) localTime
    else zone.instantOf (onOrAfter day (zone.dateOf now) + period day) localTime := by
  cases day <;> rfl

theorem le_onOrAfter (day : Option ℤ) (d : ℤ) : d ≤ onOrAfter day d := by
  cases day with
  | none => exact Int.le_refl d
  | some w =>
    rw [onOrAfter]
    omega

theorem onDay_onOrAfter (hday : Weekday day) (d : ℤ) : OnDay day (onOrAfter day d) := by
  rintro w rfl
  obtain ⟨h1, h7⟩ := hday w rfl
  rw [onOrAfter, LocalDate.value_dayOfWeek, LocalDate.value_dayOfWeek]
  omega

theorem onOrAfter_le (hx : OnDay day x) (h : d ≤ x) : onOrAfter day d ≤ x := by
  cases day with
  | none => exact h
  | some w =>
    have := hx w rfl
    rw [LocalDate.value_dayOfWeek] at this
    rw [onOrAfter, LocalDate.value_dayOfWeek]
    omega

theorem onDay_add_period (h : OnDay day d) : OnDay day (d + period day) := by
  rintro w rfl
  have := h w rfl
  rw [LocalDate.value_dayOfWeek] at this ⊢
  rw [period]
  omega

theorem add_period_le (hd : OnDay day d) (hx : OnDay day x) (h : d < x) : d + period day ≤ x := by
  cases day with
  | none => exact h
  | some w =>
    have hdw := hd w rfl
    have hxw := hx w rfl
    rw [LocalDate.value_dayOfWeek] at hdw hxw
    rw [period]
    omega

theorem instantOf_le (h : d ≤ x) : zone.instantOf d localTime ≤ zone.instantOf x localTime := by
  rcases h.lt_or_eq with h | rfl
  · exact (zone.instantOf_lt h localTime localTime).le
  · exact le_refl _

/-- The next run is the first occurrence after now. -/
theorem isLeast_next (hday : Weekday day) :
    IsLeast {o | now < o ∧ Occurrence zone localTime day o} (next zone localTime day now) := by
  have hon := onDay_onOrAfter hday (zone.dateOf now)
  have hfrom := le_onOrAfter day (zone.dateOf now)
  have hdate : ∀ {d : ℤ}, now < zone.instantOf d localTime → zone.dateOf now ≤ d := zone.dateOf_le_of_lt
  rw [next_eq]
  split
  · rename_i hlt
    refine ⟨⟨hlt, _, hon, rfl⟩, ?_⟩
    rintro o ⟨ho, d, hd, rfl⟩
    exact instantOf_le (onOrAfter_le hd (hdate ho))
  · -- The candidate is over, so it is on the local date of now.
    rename_i hle
    have htoday := zone.le_dateOf_of_le (not_lt.1 hle)
    refine ⟨⟨?_, _, onDay_add_period hon, rfl⟩, ?_⟩
    · by_contra hn
      have hlate := zone.le_dateOf_of_le (not_lt.1 hn)
      exact absurd (hlate.trans hfrom) (not_le.2 (lt_add_of_pos_right _ (period_pos day)))
    · rintro o ⟨ho, d, hd, rfl⟩
      refine instantOf_le (add_period_le hon hd ?_)
      refine lt_of_le_of_ne (htoday.trans (hdate ho)) ?_
      rintro rfl
      exact hle ho

theorem lt_next (hday : Weekday day) : now < next zone localTime day now := (isLeast_next hday).1.1

theorem occurrence_next (hday : Weekday day) : Occurrence zone localTime day (next zone localTime day now) :=
  (isLeast_next hday).1.2

theorem next_le (hday : Weekday day) (ho : Occurrence zone localTime day o) (h : now < o) :
    next zone localTime day now ≤ o :=
  (isLeast_next hday).2 ⟨h, ho⟩

end next

/-! ### Rows -/

inductive ReportFormat
  | csv | xlsx | pdf
  deriving DecidableEq, Repr

/-- A row of `report_schedules`. -/
structure ReportSchedule where
  id : UUID
  ownerId : UUID
  definitionKey : String
  format : ReportFormat
  filtersJson : String
  timezone : String
  localTime : LocalTime
  dayOfWeek : Option ℤ
  active : Bool
  nextRunAt : Instant
  lastRunAt : Option Instant
  version : ℕ
  deriving DecidableEq, Repr

structure ScheduleRequest where
  definitionKey : String
  format : ReportFormat
  start : Instant
  finish : Instant
  timezone : String
  localTime : LocalTime
  dayOfWeek : Option ℤ
  deriving DecidableEq, Repr

/-- A row of `report_requests`, as far as it is written here. -/
structure ReportRequest where
  id : UUID
  ownerId : UUID
  jobId : Option UUID
  definitionKey : String
  format : ReportFormat
  status : Reports.ReportStatus
  filtersJson : String
  permissionSnapshot : String
  timezone : String
  locale : String
  snapshotAt : Instant
  progress : ℕ
  deriving DecidableEq, Repr

structure Tables where
  schedules : Table ReportSchedule.id
  requests : Table ReportRequest.id
  jobs : JobDb

def WholeSecond (t : LocalTime) : Prop := t.val % 1000000 = 0

instance (t : LocalTime) : Decidable (WholeSecond t) := inferInstanceAs (Decidable (_ = _))

/-- The rules of the zones, the permissions of the roles, the settings of the jobs, and what a local time is
read as that was written to `local_time TIME`. -/
structure Settings where
  zoneOf : String → Zone
  permissionSnapshot : Role → String
  maxAttempts : ℕ
  timeoutSeconds : ℤ
  timeColumn : LocalTime → LocalTime
  timeColumn_of_whole : ∀ t, WholeSecond t → timeColumn t = t

/-- `RolePermissions.has` for the permission to manage reports. -/
def managesReports : Role → Bool
  | .owner | .admin => true
  | .employee | .customer => false

/-- What a transaction of `enqueueDue` has read; the clock reads nanoseconds. -/
structure Poll where
  reading : ℤ
  schedules : List ReportSchedule
  users : UUID → Option User

/-- The reading in microseconds. It is compared with whole microseconds, so what
lies below does not matter. -/
def Poll.now (p : Poll) : Instant := p.reading / 1000

/-- What is drawn for a request: its identifier, that of the job, the request identifier of
the thread, and the time. -/
structure Fresh where
  requestId : UUID
  jobId : UUID
  correlation : Option String
  instant : Instant
  deriving DecidableEq, Repr

abbrev ScheduleTx := Txn Poll Tables Failure

open Txn

def onJobs {α : Type} (x : JobTx α) : ScheduleTx α := fun _ t => match x.run () t.jobs with
  | .ok (a, jobs) => .ok (a, { t with jobs })
  | .error e => .error e

/-- `Map.of("reportId", id)` as JSON. -/
def payload (id : UUID) : String := "\x7b\"reportId\":\"" ++ toString id ++ "\"\x7d"

def dedupeKey (id : UUID) (nextRunAt : Instant) : String :=
  "scheduled-report:" ++ toString id ++ ":" ++ toString (nextRunAt : ℤ)

def normalize (value : Option String) : Option String := (value.filter fun s => !blank s).map trim

section system

variable (S : Settings)

/-- `JobService.enqueue` -/
def enqueue (f : Fresh) (type payload : String) (dedupeKey : Option String) : JobTx UUID :=
  let correlationId := (f.correlation.filter fun c => !blank c).getD (toString f.jobId)
  insertJob f.jobId type payload correlationId (normalize dedupeKey) 0 S.maxAttempts
    S.timeoutSeconds f.instant

def nextOf (s : ReportSchedule) (now : Instant) : Instant :=
  next (S.zoneOf s.timezone) s.localTime s.dayOfWeek now

def raise (s : ReportSchedule) : ReportSchedule := { s with version := s.version + 1 }

/-- The version column refuses a write over a row that has changed since it was read. -/
def flush (s s' : ReportSchedule) : ScheduleTx Unit := do
  let t ← get
  let schedules ← orThrow (t.schedules.flush ReportSchedule.version raise s s')
    (fail .conflict "The resource was changed by another request")
  modify fun t => { t with schedules }

/-- The body of the loop of `enqueueDue`. -/
def enqueueOne (s : ReportSchedule) (f : Fresh) : ScheduleTx Unit := do
  let poll ← ask
  match (poll.users s.ownerId).filter fun user => user.active && managesReports user.role with
  | none => flush s { s with active := false }
  | some user => do
    let jobId ← onJobs (enqueue S f Reports.jobType (payload f.requestId) (some (dedupeKey s.id s.nextRunAt)))
    let t ← get
    let requests ← orThrow (t.requests.insert
      { id := f.requestId, ownerId := s.ownerId, jobId := some jobId, definitionKey := s.definitionKey,
        format := s.format,
        status := .queued, filtersJson := s.filtersJson, permissionSnapshot := S.permissionSnapshot user.role,
        timezone := s.timezone, locale := "sr-RS", snapshotAt := Nanos.timestamp6 poll.reading,
        progress := 0 })
      .dataIntegrity
    modify fun t => { t with requests }
    flush s { s with lastRunAt := some (Nanos.timestamp6 poll.reading), nextRunAt := nextOf S s poll.now }

def enqueueDue : List ReportSchedule → List Fresh → ScheduleTx Unit
  | [], _ => return ()
  | _ :: _, [] => throw .noSuchElement
  | s :: schedules, f :: fs => do
    enqueueOne S s f
    enqueueDue schedules fs

/-- `apply`, as the row is read afterwards. The next run is that of the local time in the request. -/
def apply (s : ReportSchedule) (input : ScheduleRequest) (now : Instant) : ReportSchedule :=
  { s with
    definitionKey := input.definitionKey
    format := input.format
    filtersJson := toString (input.start : ℤ) ++ "|" ++ toString (input.finish : ℤ)
    timezone := input.timezone
    localTime := S.timeColumn input.localTime
    dayOfWeek := input.dayOfWeek
    active := true
    nextRunAt := next (S.zoneOf input.timezone) input.localTime input.dayOfWeek now }

/-- What `createSchedule` hands to `apply`. -/
def blankSchedule (id owner : UUID) (input : ScheduleRequest) (now : Instant) : ReportSchedule :=
  { id, ownerId := owner, definitionKey := input.definitionKey, format := input.format, filtersJson := "",
    timezone := input.timezone,
    localTime := input.localTime, dayOfWeek := none, active := true, nextRunAt := now,
    lastRunAt := none, version := 0 }

/-! ### The system -/

/-- The tables, the open transactions of the workers, the instants of the polls that were committed, when
each schedule was applied last, and the identifiers that were drawn for schedules. -/
structure System where
  users : UUID → Option User
  tables : Tables
  clock : Instant
  polls : ℕ → Option Poll
  committed : List Instant
  applied : UUID → Instant
  drawn : List UUID

def System.start : System :=
  ⟨fun _ => none, ⟨.empty, .empty, .empty⟩, 0, fun _ => none, [], fun _ => 0, []⟩

/-- The producer of the job is `enqueueDue`. -/
def Scheduled (j : Job) : Prop := ∃ k ∈ j.dedupeKey, "scheduled-report:".toList <+: k.toList

instance (j : Job) : Decidable (Scheduled j) := by
  unfold Scheduled
  infer_instance

/-- `poll` and `commit` are the two ends of a transaction of `enqueueDue`, the clock of which reads
nanoseconds; the last four are what others do to jobs and reports. -/
inductive Event
  | user (id : UUID) (user : Option User)
  | create (id owner : UUID) (input : ScheduleRequest) (now : Instant)
  | update (id actor : UUID) (version : ℕ) (input : ScheduleRequest) (now : Instant)
  | delete (id actor : UUID)
  | poll (worker : ℕ) (reading : ℤ)
  | commit (worker : ℕ) (fresh : List Fresh)
  | abandon (worker : ℕ)
  | jobInserted (job : Job)
  | jobChanged (job : Job)
  | requestInserted (request : ReportRequest)
  | requestChanged (request : ReportRequest)

instance (day : Option ℤ) : Decidable (Weekday day) := by
  unfold Weekday
  infer_instance

def System.step (s : System) : Event → Option System
  | .user id user => some { s with users := Function.update s.users id user }
  | .create id owner input now =>
    if s.clock ≤ now ∧ id ∉ s.drawn ∧ Weekday input.dayOfWeek then
      (s.tables.schedules.insert (apply S (blankSchedule id owner input now) input now)).map fun schedules =>
        { s with
          tables := { s.tables with schedules }
          clock := now
          applied := Function.update s.applied id now
          drawn := id :: s.drawn }
    else none
  | .update id actor version input now =>
    if s.clock ≤ now ∧ Weekday input.dayOfWeek then
      match (s.tables.schedules.find? id).filter fun v => v.ownerId = actor ∧ v.version = version with
      | none => some { s with clock := now }
      | some v =>
        (s.tables.schedules.flush ReportSchedule.version raise v (apply S v input now)).map fun schedules =>
          { s with
            tables := { s.tables with schedules }
            clock := now
            applied := Function.update s.applied id now }
    else none
  | .delete id actor =>
    some { s with tables := { s.tables with
      schedules := s.tables.schedules.delete fun v => v.id = id ∧ v.ownerId = actor } }
  | .poll worker reading =>
    if s.clock ≤ reading / 1000 ∧ s.polls worker = none then
      -- the parameter of the query is rounded
      let due := s.tables.schedules.rows.filter fun v => v.active ∧ v.nextRunAt ≤ Nanos.timestamp6 reading
      some { s with
        clock := reading / 1000, polls := Function.update s.polls worker (some ⟨reading, due, s.users⟩) }
    else none
  | .commit worker fresh => (s.polls worker).map fun poll =>
    let s := { s with polls := Function.update s.polls worker none }
    match (enqueueDue S poll.schedules fresh).run poll s.tables with
    | .ok (_, tables) => { s with tables, committed := poll.now :: s.committed }
    | .error _ => s
  | .abandon worker => some { s with polls := Function.update s.polls worker none }
  | .jobInserted job =>
    if Scheduled job then none
    else (s.tables.jobs.jobs.insert job).map fun jobs =>
      { s with tables := { s.tables with jobs := { s.tables.jobs with jobs } } }
  | .jobChanged job =>
    if ∃ j ∈ s.tables.jobs.jobs.rows, j.id = job.id ∧ j.payload = job.payload ∧
      j.dedupeKey = job.dedupeKey then
      some { s with tables := { s.tables with jobs := { s.tables.jobs with
        jobs := s.tables.jobs.jobs.save job } } }
    else none
  | .requestInserted request =>
    if ∃ j ∈ s.tables.jobs.jobs.rows, request.jobId = some j.id ∧ ¬ Scheduled j then
      (s.tables.requests.insert request).map fun requests => { s with tables := { s.tables with requests } }
    else none
  | .requestChanged request =>
    if ∃ r ∈ s.tables.requests.rows, r.id = request.id ∧ r.jobId = request.jobId then
      some { s with tables := { s.tables with requests := s.tables.requests.save request } }
    else none

def System.run (s : System) : List Event → Option System
  | [] => some s
  | e :: es => (s.step S e).bind fun s => s.run es

end system

end Schedules
end GManager

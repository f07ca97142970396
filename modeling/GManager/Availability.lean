import GManager.Db

/-!
# Availability of employees and resources

`ReservationAvailabilityPolicy` and `TimeOffAvailabilityPolicy`. An employee is blocked by reservations
that are neither cancelled nor rejected and by approved time off; a resource is blocked by reservations
that moreover are not completed, by active sessions and by assignments that still wait for a login.
-/

namespace GManager

open Txn

/-- `NON_BLOCKING` does not contain the status. -/
def ReservationStatus.blocksEmployee (status : ReservationStatus) : Bool :=
  status ∉ [ReservationStatus.cancelled, .rejected]

/-- `RESOURCE_NON_BLOCKING` does not contain the status. -/
def ReservationStatus.blocksResource (status : ReservationStatus) : Bool :=
  status ∉ [ReservationStatus.cancelled, .rejected, .completed]

/-- `ResourceBusyInterval`. -/
structure ResourceBusyInterval where
  resourceId : UUID
  startTime : Instant
  endTime : Instant
  deriving DecidableEq, Repr

def Reservation.overlaps (r : Reservation) (start stop : Instant) : Prop :=
  Overlaps r.startTime r.endTime start stop

instance (r : Reservation) (start stop : Instant) : Decidable (r.overlaps start stop) :=
  inferInstanceAs (Decidable (Overlaps _ _ _ _))

/-- `TimeOffAvailabilityPolicy.approvedBetween`. -/
def Catalogue.approvedBetween (g : Catalogue) (employees : List UUID) (start stop : Instant) :
    List EmployeeTimeOff :=
  g.timeOff.filter fun t => t.employeeId ∈ employees ∧ t.status = .approved ∧
    Overlaps t.startsAt t.endsAt start stop

/-- `TimeOffAvailabilityPolicy.isAvailable`. -/
def Catalogue.isOnDuty (g : Catalogue) (employee : UUID) (start stop : Instant) : Bool :=
  (g.approvedBetween [employee] start stop).isEmpty

namespace Db

variable (db : Db)

/-- `findConflictingForUpdate`. -/
def employeeConflicts (employeeId : UUID) (start stop : Instant) (excludeId : Option UUID) :
    List Reservation :=
  db.reservations.rows.filter fun r =>
    r.employeeId = employeeId ∧ r.status.blocksEmployee ∧ r.overlaps start stop ∧ excludeId ≠ some r.id

/-- `findResourceConflictingForUpdate`. -/
def resourceConflicts (resourceId : UUID) (start stop : Instant) (excludeId : Option UUID) :
    List Reservation :=
  db.reservations.rows.filter fun r =>
    r.resourceId = some resourceId ∧ r.status.blocksResource ∧ r.overlaps start stop ∧ excludeId ≠ some r.id

/-- The intervals of active sessions on the resources; a session that is being moved blocks its station
and its target without end. -/
def sessionIntervals (ids : List UUID) (start stop : Instant) : List ResourceBusyInterval :=
  ((db.sessions.rows.filter fun s => s.resourceId ∈ ids ∧ s.status = .active ∧ s.startedAt < stop ∧
      (start < s.endsAt ∨ s.moveTargetId.isSome)).map
    fun s => ⟨s.resourceId, s.startedAt, if s.moveTargetId.isSome then stop else s.endsAt⟩) ++
  db.sessions.rows.filterMap fun s => match s.moveTargetId with
    | some target => if target ∈ ids ∧ s.status = .active ∧ s.startedAt < stop then
        some ⟨target, s.startedAt, stop⟩ else none
    | none => none

/-- The intervals of the assignments that wait for a login at `now`. -/
def waitingIntervals (ids : List UUID) (start stop now : Instant) : List ResourceBusyInterval :=
  (db.assignments.rows.filter fun a => a.resourceId ∈ ids ∧ a.status = .waitingForLogin ∧ now < a.expiresAt ∧
      a.createdAt < stop ∧ start < a.expiresAt).map fun a => ⟨a.resourceId, a.createdAt, a.expiresAt⟩

variable {db}

theorem mem_employeeConflicts {employeeId : UUID} {start stop : Instant} {excludeId : Option UUID}
    {r : Reservation} : r ∈ db.employeeConflicts employeeId start stop excludeId ↔ r ∈ db.reservations ∧
    r.employeeId = employeeId ∧
      r.status.blocksEmployee ∧ r.overlaps start stop ∧ excludeId ≠ some r.id := by
  simp only [employeeConflicts, List.mem_filter, Table.mem_rows, decide_eq_true_eq]

theorem mem_resourceConflicts {resourceId : UUID} {start stop : Instant} {excludeId : Option UUID}
    {r : Reservation} : r ∈ db.resourceConflicts resourceId start stop excludeId ↔ r ∈ db.reservations ∧
    r.resourceId = some resourceId ∧
      r.status.blocksResource ∧ r.overlaps start stop ∧ excludeId ≠ some r.id := by
  simp only [resourceConflicts, List.mem_filter, Table.mem_rows, decide_eq_true_eq]

/-- Where no session interval is found, every active session on the resource has ended or not begun. -/
theorem not_overlaps_of_sessionIntervals {ids : List UUID} {start stop : Instant}
    (h : db.sessionIntervals ids start stop = []) {s : GamingSession} (hs : s ∈ db.sessions)
    (hid : s.resourceId ∈ ids) (ha : s.status = .active) : ¬ Overlaps s.startedAt s.endsAt start stop := by
  intro ho
  have h₁ := (List.append_eq_nil_iff.1 h).1
  rw [List.map_eq_nil_iff, List.filter_eq_nil_iff] at h₁
  exact h₁ s hs (by simpa [hid, ha] using ⟨ho.1, .inl ho.2⟩)

end Db

/-- `resourceSessionIntervals`. -/
def resourceSessionIntervals (ids : List UUID) (start stop : Instant) : Tx (List ResourceBusyInterval) := do
  let now ← instant
  let db ← get
  return db.sessionIntervals ids start stop ++ db.waitingIntervals ids start stop now

/-- `isAvailableForUpdate`. -/
def isAvailableForUpdate (employeeId : UUID) (start stop : Instant) (excludeId : Option UUID) : Tx Bool := do
  let c ← ask
  let db ← get
  return (db.employeeConflicts employeeId start stop excludeId).isEmpty &&
    c.catalogue.isOnDuty employeeId start stop

def requireAvailableForUpdate (employeeId : UUID) (start stop : Instant)
    (excludeId : Option UUID) : Tx Unit := do
  let available ← isAvailableForUpdate employeeId start stop excludeId
  require available (fail .conflict "Employee is unavailable at this time")

/-- `isResourceAvailableForUpdate`. -/
def isResourceAvailableForUpdate (resourceId : UUID) (start stop : Instant)
    (excludeId : Option UUID) : Tx Bool := do
  let db ← get
  if (db.resourceConflicts resourceId start stop excludeId).isEmpty then
    let sessions ← resourceSessionIntervals [resourceId] start stop
    return sessions.isEmpty
  else return false

def requireResourceAvailableForUpdate (resourceId : UUID) (start stop : Instant) (excludeId : Option UUID) :
    Tx Unit := do
  let available ← isResourceAvailableForUpdate resourceId start stop excludeId
  require available (fail .conflict "Resource is unavailable at this time")

def requireResourceReservationAvailableForUpdate (resourceId : UUID) (start stop : Instant)
    (excludeId : Option UUID) : Tx Unit := do
  let db ← get
  require (db.resourceConflicts resourceId start stop excludeId).isEmpty
    (fail .conflict "Resource is unavailable at this time")

end GManager

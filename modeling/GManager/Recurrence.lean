import GManager.Works
import GManager.ZonedDates
import GManager.BookingPolicy
import GManager.Reservations
import GManager.Outbox

/-!
# Recurring bookings

`RecurrenceService`: the starts of a series in the business zone, their preview from one snapshot, and the
creation of the series. All occurrences are created in one transaction; an occurrence that is skipped was
tried inside it, so what such a trial had written before it failed would be committed with the rest.
-/

namespace GManager

open Txn

inductive RecurrenceFrequency
  | weekly | monthly
  deriving DecidableEq, Repr

inductive RecurrenceConflictPolicy
  | allOrNothing | skipConflicts
  deriving DecidableEq, Repr

structure RecurrenceRequest where
  serviceId : UUID
  employeeId : UUID
  startTime : Instant
  frequency : RecurrenceFrequency
  interval : ℤ
  occurrences : ℕ
  conflictPolicy : RecurrenceConflictPolicy
  note : Option String
  resourceId : Option UUID
  locationId : Option UUID
  customerId : Option UUID
  areaId : Option UUID
  durationMinutes : Option ℤ
  deriving DecidableEq, Repr

/-- A row of `reservation_recurrence_series`. -/
structure RecurrenceSeries where
  id : UUID
  customerId : UUID
  frequency : RecurrenceFrequency
  intervalValue : ℤ
  requestedOccurrences : ℕ
  conflictPolicy : RecurrenceConflictPolicy
  deriving DecidableEq, Repr

/-- `RecurrenceOccurrenceResponse`. -/
structure RecurrenceOccurrence where
  startTime : Instant
  endTime : Instant
  available : Bool
  reason : Option String
  resource : Option BookingResourceView
  locationId : Option UUID
  deriving DecidableEq, Repr

structure RecurrenceCreateResponse where
  seriesId : UUID
  created : List Reservation
  skipped : List RecurrenceOccurrence
  deriving DecidableEq, Repr

/-! ### Starts -/

/-- One move of the base date: `index` times the interval. -/
def RecurrenceRequest.move (request : RecurrenceRequest) (index : ℕ) (d : ℤ) : ℤ :=
  match request.frequency with
  | .weekly => LocalDate.plusWeeks d (request.interval * index)
  | .monthly => LocalDate.plusMonths d (request.interval * index)

def maxHorizon : ℤ := 366 * microsPerDay

/-- `starts`. -/
def starts (zone : ZoneRules) (request : RecurrenceRequest) : Except Failure (List Instant) :=
  let values :=
    (List.range request.occurrences).map fun index => zone.plusDate request.startTime (request.move index)
  match values.head?, values.getLast? with
  | some first, some last =>
    if maxHorizon < last - first then
      .error (fail .badRequest "Recurrence horizon cannot exceed 366 days")
    else .ok values
  | _, _ => .error .noSuchElement

/-! ### The preview -/

/-- The request for one reservation of the series. -/
def RecurrenceRequest.reservation (request : RecurrenceRequest) (customerId : UUID) (startTime : Instant) :
    CreateReservationRequest :=
  ⟨some request.employeeId, request.serviceId, request.resourceId, startTime, request.note,
    request.locationId, some customerId, request.areaId, request.durationMinutes⟩

/-- The stations that the actor may use for the series; `none` are all of them. -/
def recurrenceAccess (request : RecurrenceRequest) : Tx (Option (List UUID)) := do
  let c ← ask
  if c.actor.role = .employee then
    let allowed := c.catalogue.assignedResources c.actor
    match request.resourceId with
    | some id => require (c.catalogue.canManage c.actor (some id)) Catalogue.managementDenied
    | none => require (allowed ≠ []) Catalogue.managementDenied
    let required ← lift (c.catalogue.requiresResource request.serviceId)
    require (required ∨ request.resourceId.isSome) Catalogue.managementDenied
    return some allowed
  else
    let _ ← lift (c.catalogue.requiresResource request.serviceId)
    return none

/-- `previewInternal`. -/
def previewInternal (zone : ZoneRules) (request : RecurrenceRequest) (customerId : UUID) :
    Tx (List RecurrenceOccurrence) := do
  let c ← ask
  let duration ← serviceDuration (request.reservation customerId request.startTime)
  require (c.catalogue.isActiveEmployee request.employeeId)
    (fail .unprocessableEntity "Selected user is not an active employee")
  let allowed ← recurrenceAccess request
  let startTimes ← lift (starts zone request)
  let snapshot ← prepare request.serviceId request.resourceId request.locationId [request.employeeId]
    (startTimes.head?.getD 0) ((startTimes.getLast?.getD 0).plusMinutes duration) allowed
    (some (startTimes.map zone.localDate)) request.areaId
  return startTimes.map fun start =>
    let state := snapshot.assess request.employeeId start (start.plusMinutes duration)
    ⟨start, start.plusMinutes duration, state.available, state.reason, state.resource, state.locationId⟩

/-! ### The transaction -/

/-- The tables that a series writes. -/
structure RecurrenceDb where
  db : Db
  series : Table RecurrenceSeries.id
  outbox : Table OutboxEvent.id

/-- What the trial of an occurrence draws: identifiers of its row and its event, and
the readings of the clock. -/
structure Drawn where
  reservationId : UUID
  eventId : UUID
  readings : List Instant

/-- The payload of a domain event as the outbox writes it. -/
structure DomainEvent where
  id : UUID
  type : String
  schemaVersion : ℤ
  aggregateType : String
  aggregateId : UUID
  occurredAt : Instant
  correlationId : String
  payload : List (String × String)
  deriving DecidableEq, Repr

/-- A call of the service; its fresh identifier is the one of the series. -/
structure RecurrenceCall where
  call : Call
  zone : ZoneRules
  drawn : ℕ → Drawn
  requestId : Option String
  writeValueAsString : DomainEvent → String
  uuid : UUID → String

/-- A part of the transaction of a series. -/
abbrev SeriesTx (α : Type) := Work RecurrenceCall RecurrenceDb Failure α

def tables {α : Type} (x : Tx α) : SeriesTx α :=
  Work.part RecurrenceCall.call RecurrenceDb.db (fun s db => { s with db }) x

/-- Inserts a row, or fails when its key is taken. -/
def insertInto {κ ρ : Type} [DecidableEq κ] {key : ρ → κ} (table : RecurrenceDb → Table key)
    (put : RecurrenceDb → Table key → RecurrenceDb) (row : ρ) : SeriesTx Unit := do
  let s ← Work.get
  let t ← Work.orThrow ((table s).insert row) .dataIntegrity
  Work.modify fun s => put s t

/-- The event of a new reservation. -/
def RecurrenceCall.event (c : RecurrenceCall) (id : UUID) (r : Reservation) (now : Instant) : OutboxEvent :=
  let correlationId := match c.requestId with
    | some requestId => if blank requestId then c.uuid id else requestId
    | none => c.uuid id
  let event : DomainEvent :=
    ⟨id, "RESERVATION_CREATED", 1, "RESERVATION", r.id, now, correlationId, [("status", "PENDING")]⟩
  { id
    eventType := event.type
    schemaVersion := event.schemaVersion
    aggregateType := event.aggregateType
    aggregateId := event.aggregateId
    occurredAt := now
    correlationId
    payload := c.writeValueAsString event
    status := .pending
    attempts := 0
    availableAt := now
    claimedBy := none
    claimedAt := none
    processedAt := none
    createdAt := now }

/-- `OutboxWriter.write`. -/
def writeOutbox (id : UUID) (r : Reservation) : SeriesTx Unit := do
  let c ← Work.ask
  let now ← tables instant
  insertInto RecurrenceDb.outbox (fun s outbox => { s with outbox }) (c.event id r now)

/-- `ReservationService.createForCustomer` inside the transaction of its caller. -/
def reserve (drawn : Drawn) (customerId : UUID) (request : CreateReservationRequest) (seriesId : UUID) :
    SeriesTx Reservation := do
  Work.modify fun s => { s with db := s.db.listen drawn.readings }
  let c ← Work.ask
  let g := c.call.catalogue
  let actor := c.call.actor
  let now ← tables instant
  Work.require (now < request.startTime) (fail .badRequest "Reservation must be in the future")
  -- the transactional proxy of the catalogue marks the transaction when the item is refused
  let _ ← Work.participate (tables (lift (g.getActiveById request.serviceId)))
  let duration ← tables (serviceDuration request)
  let endTime := request.startTime.plusMinutes duration
  let allowed := if actor.role = .employee then some (g.assignedResources actor) else none
  let required ← Work.participate (tables (lift (g.requiresResource request.serviceId)))
  let ownNonPhysical : Bool :=
    actor.role = .employee ∧ request.employeeId = some actor.id ∧ request.resourceId = none ∧ required = false
  tables (lift (if actor.role = .employee ∧ ¬ ownNonPhysical then g.requireManageForUpdate actor
      (request.resourceId.elim ((g.assignedResources actor).map some) fun r => [some r])
    else .ok ()))
  let employee ← tables (selectEmployee request.employeeId request.startTime endTime)
  let resource ← tables (selectForBooking request.serviceId request.resourceId request.locationId
    request.startTime endTime allowed request.areaId)
  tables (lift (if actor.role ≠ .customer ∧ ¬ ownNonPhysical then g.requireManageForUpdate actor
    [resource.map (·.id)] else .ok ()))
  let location ← tables (bookingLocation resource request.locationId)
  tables (lift (c.call.hours.validateWithinWorkingHours location request.startTime endTime))
  let reservation : Reservation :=
    { id := drawn.reservationId
      customerId
      employeeId := employee.id
      serviceId := request.serviceId
      locationId := location
      resourceId := resource.map (·.id)
      recurrenceSeriesId := some seriesId
      startTime := request.startTime
      endTime
      status := .pending
      note := normalizeNote request.note
      version := 0 }
  insertInto (·.db.reservations) (fun s reservations => { s with db := { s.db with reservations } })
    reservation
  writeOutbox drawn.eventId reservation
  return reservation

/-- Whether a refused occurrence may be skipped, and with which message. -/
def RecurrenceRequest.skips (request : RecurrenceRequest) : Failure → Option String
  | .application e =>
    if request.conflictPolicy = .allOrNothing ∨ e.status ∉ [.conflict, .unprocessableEntity, .badRequest] then
      none
    else some e.message
  | _ => none

/-- The loop of `create`: the reservations that were created, and the occurrences that were skipped. -/
def createEach (request : RecurrenceRequest) (customerId seriesId : UUID) : ℕ → List RecurrenceOccurrence →
    SeriesTx (List Reservation × List RecurrenceOccurrence)
  | _, [] => pure ([], [])
  | index, occurrence :: rest =>
    if occurrence.available then do
      let c ← Work.ask
      let tried ← Work.attempt (reserve (c.drawn index) customerId
        (request.reservation customerId occurrence.startTime) seriesId)
      match tried with
      | .ok r => do
        let (created, skipped) ← createEach request customerId seriesId (index + 1) rest
        return (r :: created, skipped)
      | .error e => match request.skips e with
        | none => Work.throw e
        | some message => do
          let (created, skipped) ← createEach request customerId seriesId (index + 1) rest
          return (created, { occurrence with available := false, reason := some message } :: skipped)
    else do
      let (created, skipped) ← createEach request customerId seriesId (index + 1) rest
      return (created, occurrence :: skipped)

/-- `RecurrenceService.create`. -/
def createRecurrence (request : RecurrenceRequest) : SeriesTx RecurrenceCreateResponse := do
  tables (preAuthorize .reservationCreate)
  let c ← Work.ask
  let customerId ← tables (resolveBookingCustomer request.customerId)
  let preview ← tables (previewInternal c.zone request customerId)
  Work.require (¬ (request.conflictPolicy = .allOrNothing ∧ preview.any fun o => !o.available))
    (fail .conflict "Recurring reservation contains unavailable occurrences")
  Work.require (preview.any (·.available)) (fail .conflict "No recurring occurrence could be reserved")
  let series : RecurrenceSeries :=
    ⟨c.call.freshId, customerId, request.frequency, request.interval, request.occurrences,
      request.conflictPolicy⟩
  insertInto RecurrenceDb.series (fun s series => { s with series }) series
  let (created, skipped) ← createEach request customerId series.id 0 preview
  Work.require (created ≠ []) (fail .conflict "No recurring occurrence could be reserved")
  return ⟨series.id, created, skipped⟩

end GManager

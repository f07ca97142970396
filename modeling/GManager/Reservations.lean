import GManager.WorkingHours
import GManager.Resources
import GManager.Availability
import GManager.TimeService

/-!
# Reservations

`ReservationService` with `ReservationTransitionPolicy` and the resource selection of
`ResourceManagementService`. `createForCustomer` is the one way in which a reservation comes into being;
a recurring booking calls it once for each occurrence, in one transaction.
-/

namespace GManager

open Txn

structure CreateReservationRequest where
  employeeId : Option UUID
  serviceId : UUID
  resourceId : Option UUID
  startTime : Instant
  note : Option String
  locationId : Option UUID
  customerId : Option UUID
  areaId : Option UUID
  durationMinutes : Option ℤ
  deriving DecidableEq, Repr

structure UpdateReservationRequest where
  version : ℕ
  startTime : Option Instant
  resourceId : Option UUID
  note : Option String
  durationMinutes : Option ℤ
  deriving DecidableEq, Repr

structure ChangeReservationStatusRequest where
  status : ReservationStatus
  reason : Option String
  version : ℕ
  deriving DecidableEq, Repr

structure AssignReservationResourceRequest where
  resourceId : UUID
  version : ℕ
  deriving DecidableEq, Repr

def normalizeNote (note : Option String) : Option String :=
  note.bind fun s => if blank s then none else some (trim s)

def Instant.plusMinutes (t : Instant) (n : ℤ) : Instant := t.plusSeconds (60 * n)

/-! ### Employees and resources of a new reservation -/

/-- `findActiveEmployeesForUpdate`. -/
def Catalogue.activeEmployees (g : Catalogue) : List User :=
  sortById (·.id) (g.users.rows.filter fun u => u.role = .employee ∧ u.active ∧ u.deleted = false)

/-- The first employee of the list who is free. -/
def firstAvailable (start stop : Instant) : List User → Tx (Option User)
  | [] => return none
  | u :: us => do
    let available ← isAvailableForUpdate u.id start stop none
    if available then return some u else firstAvailable start stop us

def selectEmployee (requestedId : Option UUID) (start stop : Instant) : Tx User := do
  let c ← ask
  match requestedId with
  | some id => do
    let employee ← orThrow ((c.catalogue.users.find? id).filter (·.deleted = false))
      (fail .notFound "Employee not found")
    require (employee.active ∧ employee.role = .employee)
      (fail .unprocessableEntity "Selected user is not an active employee")
    requireAvailableForUpdate employee.id start stop none
    return employee
  | none => do
    require (c.catalogue.activeEmployees ≠ [])
      (fail .unprocessableEntity "No active employees are available for booking")
    let chosen ← firstAvailable start stop c.catalogue.activeEmployees
    orThrow chosen (fail .conflict "No employee is available at this time")

/-- `bookableResources`, narrowed to the allowed resources and the area; by ascending identifier. -/
def Catalogue.bookableResources (g : Catalogue) (serviceId : UUID) (locationId : Option UUID)
    (allowed : Option (List UUID)) (areaId : Option UUID) : List PhysicalResource :=
  (g.findByServiceIdOrderByIdAsc serviceId).filter fun v =>
    v.active ∧ v.bookable ∧ g.isBookableState v serviceId = .ok true ∧
    (∀ l ∈ locationId, g.locationId v = .ok l) ∧ (∀ ids ∈ allowed, v.id ∈ ids) ∧ ∀ a ∈ areaId, a = v.areaId

/-- The first of the candidates that is open and free for the interval. -/
def firstFree (start stop : Instant) : List PhysicalResource → Tx (Option PhysicalResource)
  | [] => return none
  | v :: vs => do
    let c ← ask
    let location ← lift (c.catalogue.locationId v)
    match c.hours.validateWithinWorkingHours (some location) start stop with
    | .error (.application e) =>
      if e.status = .conflict then firstFree start stop vs else throw (.application e)
    | .error e => throw e
    | .ok () => do
      let available ← isResourceAvailableForUpdate v.id start stop none
      if available then return some v else firstFree start stop vs

/-- `selectForBooking`. -/
def selectForBooking (serviceId : UUID) (requestedId locationId : Option UUID) (start stop : Instant)
    (allowed : Option (List UUID)) (areaId : Option UUID) : Tx (Option PhysicalResource) := do
  let c ← ask
  lift (c.catalogue.requireBookingArea areaId locationId)
  match requestedId with
  | some id => do
    require (∀ ids ∈ allowed, id ∈ ids) Catalogue.managementDenied
    let v ← lift (c.catalogue.lockBookable id serviceId)
    let location ← lift (c.catalogue.locationId v)
    require (∀ l ∈ locationId, l = location)
      (fail .unprocessableEntity "Resource does not belong to the selected location")
    require (∀ a ∈ areaId, a = v.areaId)
      (fail .unprocessableEntity "Resource does not belong to the selected area")
    lift (c.hours.validateWithinWorkingHours (some location) start stop)
    requireResourceAvailableForUpdate v.id start stop none
    return some v
  | none => do
    let required ← lift (c.catalogue.requiresResource serviceId)
    if required then
      let chosen ← firstFree start stop (c.catalogue.bookableResources serviceId locationId allowed areaId)
      let v ← orThrow chosen (fail .conflict "No compatible resource is available at this time")
      return some v
    else return none

/-! ### Creating -/

/-- The location in which a new reservation is held. -/
def bookingLocation (resource : Option PhysicalResource) (locationId : Option UUID) : Tx (Option UUID) := do
  let c ← ask
  match resource with
  | some v => do
    let location ← lift (c.catalogue.locationId v)
    return some location
  | none => do
    lift (match locationId with
      | some l => c.catalogue.requireActiveLocation l
      | none => .ok ())
    return locationId

/-- The active service of a request and its duration in minutes. -/
def serviceDuration (request : CreateReservationRequest) : Tx ℤ := do
  let c ← ask
  let service ← lift (c.catalogue.getActiveById request.serviceId)
  require (service.type = .service) (fail .unprocessableEntity "Catalog item is not a service")
  match request.durationMinutes with
  | none => orThrow service.durationMinutes .noSuchElement
  | some _ => lift (c.catalogue.reservationDuration c.settings service request.durationMinutes)

/-- `createForCustomer`. -/
def createForCustomer (id customerId : UUID) (request : CreateReservationRequest)
    (recurrenceSeriesId : Option UUID) : Tx Reservation := do
  let c ← ask
  let now ← instant
  require (now < request.startTime) (fail .badRequest "Reservation must be in the future")
  let duration ← serviceDuration request
  let endTime := request.startTime.plusMinutes duration
  let allowed := if c.actor.role = .employee then some (c.catalogue.assignedResources c.actor) else none
  let required ← lift (c.catalogue.requiresResource request.serviceId)
  let ownNonPhysical : Bool := c.actor.role = .employee ∧ request.employeeId = some c.actor.id ∧
    request.resourceId = none ∧ required = false
  lift (if c.actor.role = .employee ∧ ¬ ownNonPhysical then c.catalogue.requireManageForUpdate c.actor
      (request.resourceId.elim ((c.catalogue.assignedResources c.actor).map some) fun r => [some r])
    else .ok ())
  let employee ← selectEmployee request.employeeId request.startTime endTime
  let resource ← selectForBooking request.serviceId request.resourceId request.locationId request.startTime
    endTime allowed request.areaId
  lift (if c.actor.role ≠ .customer ∧ ¬ ownNonPhysical then
      c.catalogue.requireManageForUpdate c.actor [resource.map (·.id)]
    else .ok ())
  let location ← bookingLocation resource request.locationId
  lift (c.hours.validateWithinWorkingHours location request.startTime endTime)
  let reservation : Reservation :=
    { id
      customerId
      employeeId := employee.id
      serviceId := request.serviceId
      locationId := location
      resourceId := resource.map (·.id)
      recurrenceSeriesId
      startTime := request.startTime
      endTime
      status := .pending
      note := normalizeNote request.note
      version := 0 }
  insertReservation reservation
  return reservation

/-- `resolveBookingCustomer`. -/
def resolveBookingCustomer (requested : Option UUID) : Tx UUID := do
  let c ← ask
  let customerId ← lift (if c.actor.role = .customer then
      if ∀ r ∈ requested, r = c.actor.id then .ok c.actor.id
      else .error (fail .forbidden "Customer access is required")
    else orFail requested (fail .badRequest "Customer is required"))
  require (∃ u ∈ c.catalogue.users.find? customerId, u.role = .customer ∧ u.active ∧ u.deleted = false)
    (fail .unprocessableEntity "Customer is not available for booking")
  return customerId

/-- `create`; the acceptance of a waitlist offer calls it too. -/
def create (request : CreateReservationRequest) : Tx Reservation := do
  preAuthorize .reservationCreate
  let c ← ask
  let customerId ← resolveBookingCustomer request.customerId
  createForCustomer c.freshId customerId request none

/-- An occurrence of a series, with its fresh identifier and the clock readings of its creation. -/
structure Occurrence where
  id : UUID
  request : CreateReservationRequest
  readings : List Instant

/-- The occurrences of a series that are created, one after the other; an occurrence that the policy of
the series may skip fails without a trace. -/
def createOccurrences (customerId seriesId : UUID) (skip : Failure → Bool) : List Occurrence → Tx ℕ
  | [] => return 0
  | o :: rest => do
    modify (·.listen o.readings)
    let created ← attempt (createForCustomer o.id customerId o.request (some seriesId))
    match created with
    | .ok _ => do
      let n ← createOccurrences customerId seriesId skip rest
      return n + 1
    | .error e => if skip e then createOccurrences customerId seriesId skip rest else throw e

/-- `RecurrenceService.create`, from the occurrences that its preview found available. -/
def createSeries (customer : Option UUID) (skip : Failure → Bool)
    (occurrences : List Occurrence) : Tx ℕ := do
  preAuthorize .reservationCreate
  let c ← ask
  let customerId ← resolveBookingCustomer customer
  let created ← createOccurrences customerId c.freshId skip occurrences
  require (0 < created) (fail .conflict "No recurring occurrence could be reserved")
  return created

/-! ### Transitions -/

/-- `ReservationTransitionPolicy.candidates`. -/
def ReservationStatus.candidates : ReservationStatus → List ReservationStatus
  | .pending => [.confirmed, .rejected, .cancelled]
  | .confirmed => [.completed, .cancelled]
  | .rejected | .cancelled | .completed => []

/-- `ReservationTransitionPolicy.isAuthorized`. -/
def isAuthorized (actor : AuthenticatedUser) (r : Reservation) (target : ReservationStatus)
    (canManage : Bool) : Bool :=
  let management : Bool := actor.role = .admin ∨ actor.role = .owner
  let assignedEmployee : Bool := actor.role = .employee ∧ canManage
  let owningCustomer : Bool := actor.role = .customer ∧ actor.id = r.customerId
  match target with
  | .confirmed | .rejected | .completed => management || assignedEmployee
  | .cancelled => management || assignedEmployee || owningCustomer
  | .pending => false

/-- `isTemporallyAllowed`, with the refusal of `validateTemporalRules`. -/
def temporalRules (settings : Settings) (actor : AuthenticatedUser) (r : Reservation)
    (target : ReservationStatus) (now : Instant) : Except Failure Unit :=
  match target with
  | .confirmed => check (now < r.startTime) (fail .conflict "Past reservations cannot be confirmed")
  | .completed => check (r.endTime ≤ now) (fail .conflict "Reservation has not ended yet")
  | .cancelled => check (actor.role ≠ .customer ∨ r.status ≠ .confirmed ∨
      now < r.startTime.plusMinutes (-settings.cancellationCutoffMinutes))
    (fail .conflict "It is too late to cancel this reservation")
  | _ => .ok ()

/-- `ReservationTransitionPolicy.requireTransition`. -/
def requireTransition (r : Reservation) (request : ChangeReservationStatusRequest)
    (resourceRequired canManage : Bool) :
    Tx Unit := do
  let c ← ask
  require (isAuthorized c.actor r request.status canManage)
    (fail .forbidden "This reservation action is not permitted")
  require (request.status ∈ r.status.candidates) (fail .conflict "Invalid reservation status transition")
  let now ← instant
  lift (temporalRules c.settings c.actor r request.status now)
  require (¬ (request.status = .confirmed ∧ resourceRequired ∧ r.resourceId = none))
    (fail .unprocessableEntity "Assign a compatible physical resource before confirming this reservation")
  require (¬ (request.status ∈ [.rejected, .cancelled] ∧ request.reason.all blank))
    (fail .unprocessableEntity "A reason is required to reject or cancel a reservation")

def findReservation (id : UUID) : Tx Reservation := do
  let db ← get
  orThrow (db.reservations.find? id) (fail .notFound "Reservation not found")

def requireVersion (r : Reservation) (expected : ℕ) : Tx Unit :=
  require (r.version = expected) (fail .conflict "Reservation was changed; refresh and try again")

/-- `requireReservationManagement`. -/
def requireReservationManagement (r : Reservation) (target : Option UUID) : Tx Unit := do
  let c ← ask
  let required ← lift (c.catalogue.requiresResource r.serviceId)
  lift (if c.actor.role = .employee ∧ target = none ∧ r.resourceId = none ∧ c.actor.id = r.employeeId ∧
      required = false then .ok ()
    else c.catalogue.requireManageForUpdate c.actor [r.resourceId, target])

/-- `canManageReservation`. -/
def Catalogue.canManageReservation (g : Catalogue) (actor : AuthenticatedUser) (r : Reservation)
    (resourceRequired : Bool) : Bool :=
  g.canManage actor r.resourceId ||
    (actor.role = .employee && actor.id = r.employeeId && r.resourceId.isNone && !resourceRequired)

/-- Locks the row of the employee, who must not be deleted. -/
def lockEmployee (id : UUID) : Tx Unit := do
  let c ← ask
  let _ ← orThrow ((c.catalogue.users.find? id).filter (·.deleted = false))
    (fail .notFound "Employee not found")
  return ()

/-- The checks that a confirmation repeats. -/
def requireStillFree (r : Reservation) : Tx Unit := do
  lockEmployee r.employeeId
  requireAvailableForUpdate r.employeeId r.startTime r.endTime (some r.id)
  match r.resourceId with
  | none => return ()
  | some resourceId => do
    let c ← ask
    let _ ← lift (c.catalogue.lockBookable resourceId r.serviceId)
    requireResourceAvailableForUpdate resourceId r.startTime r.endTime (some r.id)

/-- `changeStatus`. -/
def changeStatus (id : UUID) (request : ChangeReservationStatusRequest) : Tx Unit := do
  preAuthorize .reservationChangeStatus
  let c ← ask
  let r ← findReservation id
  when (c.actor.role ≠ .customer) (requireReservationManagement r r.resourceId)
  requireVersion r request.version
  let required ← lift (c.catalogue.requiresResource r.serviceId)
  requireTransition r request required (c.catalogue.canManageReservation c.actor r required)
  when (request.status = .confirmed) (requireStillFree r)
  saveReservation { r with status := request.status }

/-- `assignResource`: puts a reservation without resource on one. -/
def assignResource (id : UUID) (request : AssignReservationResourceRequest) : Tx Unit := do
  preAuthorize .reservationChangeStatus
  let c ← ask
  let r ← findReservation id
  lift (c.catalogue.requireManageForUpdate c.actor [r.resourceId, some request.resourceId])
  requireVersion r request.version
  require (isAuthorized c.actor r .confirmed false) (fail .forbidden "Resource assignment is not permitted")
  let now ← instant
  require (r.resourceId = none ∧ r.status ∈ [.pending, .confirmed] ∧ now < r.endTime)
    (fail .conflict "Only active reservations without a resource can be assigned")
  lockEmployee r.employeeId
  let v ← lift (c.catalogue.lockBookable request.resourceId r.serviceId)
  let location ← lift (c.catalogue.locationId v)
  lift (c.hours.validateWithinWorkingHours (some location) r.startTime r.endTime)
  requireResourceAvailableForUpdate v.id r.startTime r.endTime (some r.id)
  saveReservation { r with resourceId := some v.id, locationId := some location }

/-- Locks the resources that an update touches; the target must be bookable. Returns its location. -/
def lockTargets (r : Reservation) (target : Option UUID) : Tx (Option UUID) := do
  let c ← ask
  ifPresent r.resourceId fun old => do
    let _ ← lift (c.catalogue.lockResource old)
    return ()
  match target with
  | none => return r.locationId
  | some target => do
    let v ← lift (c.catalogue.lockBookable target r.serviceId)
    let location ← lift (c.catalogue.locationId v)
    return some location

/-- The new end of an updated reservation. -/
def updatedEnd (r : Reservation) (request : UpdateReservationRequest) (start : Instant) : Tx Instant := do
  let c ← ask
  match request.durationMinutes with
  | none => return start + (r.endTime - r.startTime)
  | some _ => do
    let service ← lift (c.catalogue.getActiveById r.serviceId)
    let minutes ← lift (c.catalogue.reservationDuration c.settings service request.durationMinutes)
    return start.plusMinutes minutes

/-- `update`: moves an upcoming reservation in time or to another resource. -/
def update (id : UUID) (request : UpdateReservationRequest) : Tx Unit := do
  preAuthorize .reservationChangeStatus
  let c ← ask
  let r ← findReservation id
  let target := request.resourceId.or r.resourceId
  requireReservationManagement r target
  requireVersion r request.version
  let now ← instant
  require (c.actor.role ≠ .customer ∧ now < r.startTime ∧ r.status ∈ [.pending, .confirmed])
    (fail .conflict "Only upcoming active reservations can be edited")
  let start := request.startTime.getD r.startTime
  let now ← instant
  require (now < start) (fail .badRequest "Reservation must be in the future")
  let stop ← updatedEnd r request start
  let required ← lift (c.catalogue.requiresResource r.serviceId)
  require (¬ (target = none ∧ required))
    (fail .unprocessableEntity "Assign a compatible physical resource before editing")
  lockEmployee r.employeeId
  requireAvailableForUpdate r.employeeId start stop (some id)
  let location ← lockTargets r target
  let db ← get
  require (∀ s ∈ db.sessions.rows, ¬ (s.reservationId = some id ∧ s.status = .active))
    (fail .conflict "Reservation has an active gaming session")
  lift (c.hours.validateWithinWorkingHours location start stop)
  ifPresent target fun target => requireResourceAvailableForUpdate target start stop (some id)
  let note := if request.note.isSome then normalizeNote request.note else r.note
  saveReservation { r with
    startTime := start, endTime := stop, resourceId := target, locationId := location, note }

end GManager

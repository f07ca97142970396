import GManager.Txn
import GManager.Table
import GManager.Civil

/-!
# Rows, failures and the context of a call

The rows of the tables that the modelled services read and write, the ways in which a request fails, and
`Call`: what a request brings along or finds in the tables that the services only read. Every column that
a modelled function reads or writes is here; audit records, outbox events and display texts are not.
-/

namespace GManager

abbrev UUID := ℕ

inductive HttpStatus
  | badRequest | unauthorized | forbidden | notFound | conflict | unprocessableEntity | tooManyRequests
  | internalServerError deriving DecidableEq, Repr

structure ApplicationException where
  status : HttpStatus
  message : String
  deriving DecidableEq, Repr

/-- How a transaction fails: by an exception of the application, by the security interceptor, by an
exact operation that overflows, by an empty `Optional`, or by a constraint of the schema. -/
inductive Failure
  | application (e : ApplicationException)
  | accessDenied
  | arithmetic
  | noSuchElement
  | dataIntegrity
  deriving DecidableEq, Repr

def fail (status : HttpStatus) (message : String) : Failure := .application ⟨status, message⟩

inductive Role
  | owner | admin | employee | customer
  deriving DecidableEq, Repr

/-- The permissions that the modelled services ask for. -/
inductive Permission
  | customerRead | gamingPaymentRecord | gamingSessionRead | gamingSessionStart
  | reservationCreate | reservationChangeStatus
  deriving DecidableEq, Repr

/-- `RolePermissions.has`, on the permissions above. -/
def Role.has : Role → Permission → Bool
  | .customer, .reservationCreate | .customer, .reservationChangeStatus => true
  | .customer, _ => false
  | .employee, _ | .admin, _ | .owner, _ => true

structure AuthenticatedUser where
  id : UUID
  role : Role
  deriving DecidableEq, Repr

structure User where
  id : UUID
  role : Role
  active : Bool
  deleted : Bool
  deriving DecidableEq, Repr

inductive ItemType
  | product | service
  deriving DecidableEq, Repr

structure CatalogItem where
  id : UUID
  type : ItemType
  durationMinutes : Option ℤ
  requiresResource : Bool
  active : Bool
  deriving DecidableEq, Repr

structure Location where
  id : UUID
  name : String
  active : Bool
  deriving DecidableEq, Repr

structure Area where
  id : UUID
  locationId : UUID
  name : String
  active : Bool
  deriving DecidableEq, Repr

inductive ResourceType
  | gamingPc | playstation | simulator | vipRoom | other
  deriving DecidableEq, Repr

structure PhysicalResource where
  id : UUID
  areaId : UUID
  serviceId : UUID
  code : String
  name : String
  type : ResourceType
  active : Bool
  bookable : Bool
  deriving DecidableEq, Repr

/-- A row of `user_resource_assignments`. -/
structure ResourceGrant where
  userId : UUID
  resourceId : UUID
  active : Bool
  deriving DecidableEq, Repr

inductive StationOperationalStatus
  | available | maintenance | retired
  deriving DecidableEq, Repr

structure GamingStationProfile where
  resourceId : UUID
  operationalStatus : StationOperationalStatus
  clientEnabled : Bool
  lastHeartbeatAt : Option Instant
  offlineGraceSeconds : ℤ
  applicationProfileId : Option UUID
  deriving DecidableEq, Repr

structure ApplicationProfile where
  id : UUID
  active : Bool
  configurationVersion : ℤ
  deriving DecidableEq, Repr

/-- A weekly row; a row without location holds for every location that has none of its own. -/
structure WorkingHours where
  locationId : Option UUID
  dayOfWeek : DayOfWeek
  openTime : LocalTime
  closeTime : LocalTime
  active : Bool
  deriving DecidableEq, Repr

/-- An exception of one date: closed all day (`none`), or open at other times. `validateException`
stores both times or a full day closed, so other combinations are left out. -/
structure WorkingHoursException where
  locationId : Option UUID
  date : LocalDate
  override : Option (LocalTime × LocalTime)
  deriving DecidableEq, Repr

inductive TimeOffStatus
  | pending | approved | rejected | cancelled
  deriving DecidableEq, Repr

structure EmployeeTimeOff where
  id : UUID
  employeeId : UUID
  startsAt : Instant
  endsAt : Instant
  status : TimeOffStatus
  deriving DecidableEq, Repr

inductive ReservationStatus
  | pending | confirmed | rejected | cancelled | completed
  deriving DecidableEq, Repr

structure Reservation where
  id : UUID
  customerId : UUID
  employeeId : UUID
  serviceId : UUID
  locationId : Option UUID
  resourceId : Option UUID
  recurrenceSeriesId : Option UUID
  startTime : Instant
  endTime : Instant
  status : ReservationStatus
  note : Option String
  version : ℕ
  deriving DecidableEq, Repr

inductive GamingBillingMode
  | timeBalance | historical
  deriving DecidableEq, Repr

inductive GamingSessionStatus
  | active | expired | terminated
  deriving DecidableEq, Repr

structure GamingSession where
  id : UUID
  customerId : UUID
  resourceId : UUID
  locationId : UUID
  reservationId : Option UUID
  startedBy : UUID
  billingMode : GamingBillingMode
  billedSeconds : ℤ
  lastBilledAt : Instant
  meteredLeaseUntil : Instant
  accessUntil : Instant
  moveTargetId : Option UUID
  startedAt : Instant
  endsAt : Instant
  endedAt : Option Instant
  status : GamingSessionStatus
  terminationReason : Option String
  lastCommandSequence : Option ℕ
  deriving DecidableEq, Repr

inductive AssignmentStatus
  | waitingForLogin | activated | cancelled | expired
  deriving DecidableEq, Repr

structure StationAssignment where
  id : UUID
  customerId : UUID
  resourceId : UUID
  reservationId : Option UUID
  assignedBy : UUID
  status : AssignmentStatus
  createdAt : Instant
  expiresAt : Instant
  accessUntil : Instant
  sessionId : Option UUID
  deriving DecidableEq, Repr

structure TimeAccount where
  customerId : UUID
  balanceSeconds : ℤ
  deriving DecidableEq, Repr

inductive LedgerKind
  | grant | consumption
  deriving DecidableEq, Repr

/-- The source keys `grant:<actor>:<customer>:<key>` and `use:<session>:<total>`; identifiers are
printed with a fixed width, so different keys are different texts. -/
inductive SourceKey
  | grant (actor customer : UUID) (key : String)
  | use (session : UUID) (total : ℤ)
  deriving DecidableEq, Repr

structure LedgerEntry where
  customerId : UUID
  sessionId : Option UUID
  operationId : Option UUID
  actorId : UUID
  deltaSeconds : ℤ
  balanceAfter : ℤ
  kind : LedgerKind
  reason : Option String
  sourceKey : SourceKey
  createdAt : Instant
  deriving DecidableEq, Repr

inductive PaymentMethod
  | cash | externalPos
  deriving DecidableEq, Repr

/-- A row of `gaming_financial_operations` of kind `TIME_GRANT`; amounts in hundredths of a dinar. -/
structure FinancialOperation where
  id : UUID
  customerId : UUID
  resourceId : Option UUID
  locationId : Option UUID
  actorId : UUID
  method : PaymentMethod
  amount : ℤ
  grantedSeconds : ℤ
  minutePrice : ℤ
  priceVersion : ℤ
  reference : Option String
  createdAt : Instant
  deriving DecidableEq, Repr

inductive StationCommandType
  | sessionStarted | sessionExtended | sessionTerminated | forceLock
  deriving DecidableEq, Repr

/-- The payload of a station command. -/
structure CommandPayload where
  sessionId : UUID
  stationId : UUID
  customerId : UUID
  status : GamingSessionStatus
  startedAt : Instant
  endsAt : Instant
  endedAt : Option Instant
  deriving DecidableEq, Repr

structure StationCommand where
  stationId : UUID
  sessionId : UUID
  sequence : ℕ
  commandType : StationCommandType
  payload : CommandPayload
  availableAt : Instant
  acknowledgedAt : Option Instant
  expiresAt : Instant
  deriving DecidableEq, Repr

structure CommandCursor where
  stationId : UUID
  lastSequence : ℕ
  deriving DecidableEq, Repr

inductive MachineClientStatus
  | online | locked | sessionActive | error | maintenance
  deriving DecidableEq, Repr

structure StationHeartbeat where
  stationId : UUID
  clientStatus : MachineClientStatus
  lastCommandSequence : ℕ
  lastSeenAt : Instant
  maintenanceActive : Bool
  clientErrorCode : Option String
  deriving DecidableEq, Repr

inductive LeaseDirective
  | active | lock
  deriving DecidableEq, Repr

inductive AccessEndReason
  | boundary | time
  deriving DecidableEq, Repr

/-- The content of a signed session lease. -/
structure SessionLeasePayload where
  leaseId : UUID
  stationId : UUID
  sessionId : Option UUID
  customerId : Option UUID
  sessionEndsAt : Option Instant
  configurationVersion : ℤ
  issuedAt : Instant
  expiresAt : Instant
  graceEndsAt : Instant
  commandCursor : ℕ
  directive : LeaseDirective
  billingMode : Option GamingBillingMode
  startedAt : Option Instant
  accessEndReason : Option AccessEndReason
  balanceSeconds : Option ℤ
  assignmentId : Option UUID
  assignmentExpiresAt : Option Instant
  deriving DecidableEq, Repr

/-- The master data of the company: the tables that the modelled services only read, with the foreign
keys that the schema enforces between them. -/
structure Catalogue where
  users : Table User.id
  items : Table CatalogItem.id
  locations : Table Location.id
  areas : Table Area.id
  resources : Table PhysicalResource.id
  grants : List ResourceGrant
  stations : Table GamingStationProfile.resourceId
  profiles : Table ApplicationProfile.id
  timeOff : List EmployeeTimeOff
  area_location : ∀ a ∈ areas, ∃ l ∈ locations, l.id = a.locationId
  resource_area : ∀ r ∈ resources, ∃ a ∈ areas, a.id = r.areaId

/-- The opening hours of the company and the zone in which they are meant. -/
structure Hours where
  zone : Zone
  weekly : Table fun h : WorkingHours => (h.locationId, h.dayOfWeek)
  exceptions : Table fun e : WorkingHoursException => (e.locationId, e.date)

/-- What the other station services answer about one station. -/
structure StationSigns where
  installing : Bool
  privacyReady : Bool
  maintenanceActive : Bool
  clientErrorCode : Option String
  safeForNewSession : Bool

/-- The configuration of the application. -/
structure Settings where
  leaseSeconds : ℕ
  loginSeconds : ℤ
  graceSeconds : ℕ
  retentionSeconds : ℕ
  minimumDurationMinutes : ℤ
  maximumDurationMinutes : ℤ
  cancellationCutoffMinutes : ℤ

/-- The row of `gaming_time_price`; the price in hundredths of a dinar. -/
structure TimePrice where
  pricePerMinute : Option ℤ
  version : ℤ

/-- What a request brings along and finds: who calls, the fresh identifier for the row it inserts, the
clock readings it will take, and the tables that no modelled service writes. -/
structure Call where
  actor : AuthenticatedUser
  machineStation : Option UUID
  freshId : UUID
  readings : List Instant
  catalogue : Catalogue
  hours : Hours
  signs : UUID → StationSigns
  settings : Settings
  price : TimePrice

end GManager

import GManager.Decimal
import GManager.WorkingHours
import GManager.Resources
import GManager.Availability

/-!
# Gaming time

`GamingTimeService`: grants of paid seconds, station assignments, sessions that consume the balance of
their customer, and their settlement. The ledger, the balance, the session's billed seconds and its last
billed instant are separate columns that `append` and `settle` write one after the other.
-/

namespace GManager

open Txn

/-! ### Requests -/

/-- `String.isBlank`. -/
def blank (s : String) : Bool := s.toList.all Char.isWhitespace

/-- `String.trim`: drops control characters and spaces at both ends. -/
def trim (s : String) : String :=
  String.ofList (((s.toList.dropWhile (· ≤ ' ')).reverse.dropWhile (· ≤ ' ')).reverse)

/-- `String.length`, which counts UTF-16 units. -/
def javaLength (s : String) : ℕ := (s.toList.map fun ch => if ch.toNat < 65536 then 1 else 2).sum

structure Grant where
  minutes : Option BigDecimal
  priceVersion : Option ℤ
  method : PaymentMethod
  reference : Option String
  deriving DecidableEq, Repr

/-- The compact constructor of the request: a missing method is cash, a blank reference is none. -/
def Grant.of (minutes : Option BigDecimal) (priceVersion : Option ℤ) (method : Option PaymentMethod)
    (reference : Option String) : Grant :=
  ⟨minutes, priceVersion, method.getD .cash, reference.bind fun s => if blank s then none else some (trim s)⟩

/-- The value of a decimal without fractional digits. -/
def BigDecimal.longValueExact (d : BigDecimal) : ℤ := d.unscaled * 10 ^ (-d.scale).toNat

/-- The whole minutes and the price version of a request that passes the bounds of a grant. -/
def Grant.confirmed (request : Grant) : Option (ℤ × ℤ) :=
  match request.minutes, request.priceVersion with
  | some minutes, some version =>
    if minutes.scale ≤ 0 ∧ 30 ≤ minutes.longValueExact ∧ minutes.longValueExact ≤ 5256000 then
      some (minutes.longValueExact, version)
    else none
  | _, _ => none

theorem Grant.le_of_confirmed {request : Grant} {minutes version : ℤ}
    (h : request.confirmed = some (minutes, version)) : 30 ≤ minutes := by
  unfold confirmed at h
  split at h
  · split at h
    · obtain ⟨rfl, -⟩ := Prod.mk.inj (Option.some.inj h)
      exact And.left (And.right ‹_›)
    · cases h
  · cases h

/-- `GamingTimeService.Assignment`. -/
structure AssignmentRequest where
  customerId : UUID
  resourceId : UUID
  reservationId : Option UUID
  deriving DecidableEq, Repr

/-- The customer's view of the account. -/
structure AccountView where
  customerId : UUID
  serverTime : Instant
  balanceSeconds : ℤ
  activeSession : Option GamingSession
  consumedSeconds : ℤ
  resourceName : Option String
  assignments : List StationAssignment
  deriving DecidableEq, Repr

/-! ### Guards -/

/-- `@PreAuthorize("hasAuthority(…)")`. -/
def preAuthorize (permission : Permission) : Tx Unit := do
  let c ← ask
  require (c.actor.role.has permission) .accessDenied

def requireStaff (permission : Permission) : Tx Unit := do
  let c ← ask
  require (c.actor.role ≠ .customer ∧ c.actor.role.has permission)
    (fail .forbidden "Operation is not authorized")

/-- `lockCustomer`: the customer's row, which must be of a customer and, where asked, active. -/
def lockCustomer (id : UUID) (active : Bool) : Tx Unit := do
  let c ← ask
  require (∃ u ∈ c.catalogue.users.find? id, u.deleted = false ∧ u.role = .customer ∧ (active → u.active))
    (fail .unprocessableEntity "Registered customer is unavailable")

def requireAccess (id : UUID) : Tx Unit := do
  let c ← ask
  require (if c.actor.role = .customer then c.actor.id = id
    else c.actor.role.has .customerRead ∧
      ¬ (c.actor.role = .employee ∧ c.catalogue.assignedResources c.actor = []))
    (fail .forbidden "Gaming time access denied")

/-- The station whose location takes the payment. -/
def financialContext : Tx (Option UUID) := do
  let c ← ask
  let pcs := sortById (·.id) (c.catalogue.resources.rows.filter fun r => r.type = .gamingPc)
  if c.actor.role = .employee then
    let mine ← orThrow (pcs.find? fun r => r.id ∈ c.catalogue.assignedResources c.actor)
      (fail .forbidden "No assigned payment location")
    return some mine.id
  else return pcs.head?.map (·.id)

/-! ### The ledger -/

/-- `Math.addExact` on 64-bit integers. -/
def addExact (a b : ℤ) : Except Failure ℤ :=
  if -2 ^ 63 ≤ a + b ∧ a + b < 2 ^ 63 then .ok (a + b) else .error .arithmetic

theorem addExact_eq_ok {a b r : ℤ} (h : addExact a b = .ok r) : r = a + b ∧ r < 2 ^ 63 := by
  unfold addExact at h
  split at h
  · cases h
    exact ⟨rfl, And.right ‹_›⟩
  · cases h

/-- `append`: posts a signed amount to the account and the ledger, unless the source key is used. -/
def append (customer : UUID) (session operation : Option UUID) (actor : UUID) (delta : ℤ) (kind : LedgerKind)
    (reason : Option String) (source : SourceKey) : Tx Unit := do
  let db ← get
  if db.hasEntry source then return ()
  else
    let after ← lift (addExact (db.balance customer) delta)
    require (0 ≤ after) (fail .conflict "Operation would create negative gaming time")
    modify fun db => { db with accounts := db.accounts.upsert ⟨customer, after⟩ }
    let createdAt ← instant
    insertRow Db.ledger (fun db t => { db with ledger := t })
      ⟨customer, session, operation, actor, delta, after, kind, reason, source, createdAt⟩

/-! ### Settlement -/

/-- Where the consumption of a session stops when it is settled at `now`. -/
def GamingSession.cutoff (s : GamingSession) (now : Instant) : Instant :=
  min now (min s.endsAt s.meteredLeaseUntil)

/-- `unsettled`: whole seconds since the last billed instant, at most the balance. -/
def unsettled (s : GamingSession) (now : Instant) (balance : ℤ) : ℤ :=
  min balance (max 0 (secondsBetween s.lastBilledAt (s.cutoff now)))

/-- `close`: ends the session at its last billed instant and tells the station. -/
def close (s : GamingSession) (status : GamingSessionStatus) (reason : String) : Tx GamingSession := do
  let s := { s with status, endedAt := some s.lastBilledAt, terminationReason := some reason }
  saveSession s
  let sequence ← writeCommand s .sessionTerminated
  let s := { s with lastCommandSequence := some sequence }
  saveSession s
  let c ← ask
  let _ ← orThrow (c.catalogue.users.find? s.startedBy) .noSuchElement
  return s

/-- The part of `settle` that books the unsettled seconds. -/
def charge (s : GamingSession) (delta : ℤ) : Tx GamingSession := do
  if 0 < delta then
    let total ← lift (addExact s.billedSeconds delta)
    append s.customerId (some s.id) none s.startedBy (-delta) .consumption none (.use s.id total)
    let s := { s with billedSeconds := total, lastBilledAt := s.lastBilledAt.plusSeconds delta }
    saveSession s
    return s
  else return s

/-- `settle`: books the whole seconds since the last settlement, and closes the session when its balance,
its end or its signed lease is used up. -/
def settle (s : GamingSession) (now : Instant) : Tx GamingSession := do
  if s.billingMode ≠ .timeBalance ∨ s.status ≠ .active then return s
  else
    let db ← get
    let s ← charge s (unsettled s now (db.balance s.customerId))
    let db ← get
    if db.balance s.customerId = 0 ∨ s.endsAt ≤ now ∨ s.meteredLeaseUntil ≤ now then
      if now < s.endsAt ∧ s.meteredLeaseUntil ≤ now then
        close s .terminated "RECOVERY_REQUIRED: signed station lease expired"
      else
        close s .expired (if db.balance s.customerId = 0 then "Gaming time exhausted"
          else "Station reservation or opening-hours boundary reached")
    else return s

/-! ### The limit of access -/

/-- The latest closing instant among the windows of yesterday and today that contain `now`. -/
def Hours.closingTime (h : Hours) (location : UUID) (now : Instant) : Option Instant :=
  [h.zone.dateOf now - 1, h.zone.dateOf now].foldl (fun stop day =>
    match h.availabilityWindow (some location) day with
    | some (openAt, closeAt) => if openAt ≤ now ∧ now < closeAt ∧
        ∀ e ∈ stop, e < closeAt then some closeAt else stop
    | none => stop) none

/-- The first start of the bookings, which must all lie after `now`, but at most `stop`. -/
def firstStart (now : Instant) : List Reservation → Instant → Except Failure Instant
  | [], stop => .ok stop
  | booking :: bookings, stop =>
    if booking.startTime ≤ now then .error (fail .conflict "Station has a current reservation")
    else firstStart now bookings (min stop booking.startTime)

/-- `boundary`: how long the customer may stay at the station by opening hours, by the reservation that
authorizes the stay, and by the reservations of others. -/
def boundary (station location customer : UUID) (reservationId : Option UUID)
    (now : Instant) : Tx Instant := do
  let c ← ask
  let db ← get
  let closing ← orThrow (c.hours.closingTime location now)
    (fail .conflict "Location is outside opening hours")
  let stop ← match reservationId with
    | none => pure closing
    | some id => do
      let booking ← orThrow (db.reservations.find? id) (fail .conflict "Reservation not found")
      require (booking.customerId = customer ∧ booking.resourceId = some station ∧
          booking.locationId = some location ∧ booking.status = .confirmed ∧
          booking.startTime ≤ now ∧ now < booking.endTime)
        (fail .conflict "Reservation does not authorize access now")
      pure (min closing booking.endTime)
  lift (firstStart now (db.resourceConflicts station now stop reservationId) stop)

/-- `refreshEnd`: moves the end of an active session after its balance grew. -/
def refreshEnd (s : GamingSession) : Tx GamingSession := do
  let db ← get
  if db.balance s.customerId = 0 then close s .expired "Gaming time exhausted"
  else
    let now ← instant
    let limit ← boundary s.resourceId s.locationId s.customerId s.reservationId now
    let stop := min (s.lastBilledAt.plusSeconds (db.balance s.customerId)) limit
    let s :=
      { s with endsAt := stop, accessUntil := limit, meteredLeaseUntil := min s.meteredLeaseUntil stop }
    saveSession s
    let sequence ← writeCommand s .sessionExtended
    let s := { s with lastCommandSequence := some sequence }
    saveSession s
    return s

/-! ### The operations -/

/-- The seconds of an active session of the customer that are not settled yet. -/
def outstanding (active : Option GamingSession) (now : Instant) (balance : ℤ) : ℤ := match active with
  | some s => if s.billingMode = .timeBalance then unsettled s now balance else 0
  | none => 0

def account (customerId : UUID) : Tx AccountView := do
  requireAccess customerId
  let c ← ask
  let now ← instant
  let db ← get
  let active := db.activeByCustomer customerId
  let balance := db.balance customerId
  return {
    customerId
    serverTime := now
    balanceSeconds :=
      if active.any (·.billingMode = .timeBalance) then max 0 (balance - outstanding active now balance)
      else balance
    activeSession := active
    consumedSeconds := active.elim 0 fun s => s.billedSeconds + outstanding active now balance
    resourceName := active.bind fun s => (c.catalogue.resources.find? s.resourceId).map (·.name)
    assignments := db.assignments.rows.filter fun a =>
      a.customerId = customerId ∧ a.status = .waitingForLogin ∧ now < a.expiresAt }

/-- The operation that a ledger entry refers to. -/
def Db.operationOf (db : Db) (source : SourceKey) : Option FinancialOperation :=
  (db.ledger.find? source).bind fun e => e.operationId.bind db.operations.find?

def lockActive (customerId : UUID) : Tx (Option GamingSession) := do
  let c ← ask
  let db ← get
  match db.activeByCustomer customerId with
  | none => return none
  | some active => do
    let _ ← lift (c.catalogue.lockResource active.resourceId)
    return some active

/-- The settlement at the start of a grant. -/
def settleActive (active : Option GamingSession) : Tx (Option GamingSession) := match active with
  | none => return none
  | some active => do
    let now ← instant
    let active ← settle active now
    return some active

/-- The new end of the session after a grant, if it is still active. -/
def refreshActive (active : Option GamingSession) : Tx Unit := match active with
  | none => return ()
  | some active => do
    if active.status = .active then
      let _ ← refreshEnd active
      return ()
    else return ()

/-- The part of `grant` that settles the running session, books the payment and moves the session's end. -/
def sell (operation : FinancialOperation) (source : SourceKey) : Tx Unit := do
  let active ← lockActive operation.customerId
  let active ← settleActive active
  let createdAt ← instant
  insertRow Db.operations (fun db t => { db with operations := t }) { operation with createdAt }
  append operation.customerId none (some operation.id) operation.actorId operation.grantedSeconds .grant
    none source
  refreshActive active

/-- `grant`: sells whole minutes to a customer, once for each idempotency key. -/
def grant (customerId : UUID) (request : Grant) (key : String) : Tx AccountView := do
  preAuthorize .gamingPaymentRecord
  let c ← ask
  requireStaff .gamingPaymentRecord
  lockCustomer customerId true
  let context ← financialContext
  lift (if context.isSome then c.catalogue.requireManageForUpdate c.actor [context] else .ok ())
  let locationId ← lift (match context with
    | none => .ok none
    | some id => do
      let resource ← orFail (c.catalogue.resources.find? id) (fail .notFound "Payment location not found")
      return some (← c.catalogue.locationId resource))
  let source := SourceKey.grant c.actor.id customerId key
  require (¬ blank key ∧ javaLength key ≤ 255) (fail .badRequest "A bounded idempotency key is required")
  let (minutes, priceVersion) ← orThrow request.confirmed
    (fail .badRequest "Add at least 30 whole minutes and confirm the current price")
  let seconds := minutes * 60
  let db ← get
  if db.hasEntry source then
    let original ← orThrow (db.operationOf source) .noSuchElement
    require (original.grantedSeconds = seconds ∧ original.priceVersion = priceVersion ∧
        original.method = request.method ∧ original.reference = request.reference)
      (fail .conflict "Idempotency-Key was already used with a different purchase")
    account customerId
  else
    let price ← orThrow c.price.pricePerMinute
      (fail .conflict "OWNER/ADMIN must configure the gaming minute price first")
    require (c.price.version = priceVersion)
      (fail .conflict "Gaming price changed; review the new total before confirming payment")
    let amount := price * minutes
    require (amount.natAbs < 10 ^ 14) (fail .badRequest "Payment amount is too large")
    let operation : FinancialOperation :=
      { id := c.freshId
        customerId
        resourceId := context
        locationId
        actorId := c.actor.id
        method := request.method
        amount
        grantedSeconds := seconds
        minutePrice := price
        priceVersion := c.price.version
        reference := request.reference
        -- `sell` stamps the row when it inserts it
        createdAt := db.clock.now }
    sell operation source
    account customerId

/-- An assignment that still waits at its expiry expires. -/
def StationAssignment.expire (now : Instant) (a : StationAssignment) : StationAssignment :=
  if a.status = .waitingForLogin ∧ a.expiresAt ≤ now then { a with status := .expired } else a

theorem StationAssignment.expire_id (now : Instant) (a : StationAssignment) : (a.expire now).id = a.id := by
  unfold expire
  split
  · rfl
  · rfl

def expireWaiting (now : Instant) : Tx Unit :=
  modify fun db =>
    { db with assignments := db.assignments.edit (·.expire now) (StationAssignment.expire_id now) }

def saveAssignment (a : StationAssignment) : Tx Unit :=
  modify fun db => { db with assignments := db.assignments.save a }

/-- `assign`: reserves a station for the customer until the login times out. -/
def assign (request : AssignmentRequest) : Tx StationAssignment := do
  preAuthorize .gamingSessionStart
  let c ← ask
  requireStaff .gamingSessionStart
  lockCustomer request.customerId true
  lift (c.catalogue.requireManageForUpdate c.actor [some request.resourceId])
  let resource ← lift (c.catalogue.lockGamingStation request.resourceId)
  let now ← instant
  expireWaiting now
  let db ← get
  require (0 < db.balance request.customerId) (fail .conflict "Customer has no gaming time")
  require (db.activeByCustomer request.customerId = none ∧ db.activeByResource request.resourceId = none ∧
      db.activeByMoveTarget request.resourceId = none)
    (fail .conflict "Customer or station already has an active session")
  require (∀ a ∈ db.assignments.rows, a.status = .waitingForLogin →
      a.customerId ≠ request.customerId ∧ a.resourceId ≠ request.resourceId)
    (fail .conflict "Customer or station already has an assignment")
  lift (c.catalogue.requireManagedClient request.resourceId)
  requireReadyForSession request.resourceId
  let location ← lift (c.catalogue.locationId resource)
  let limit ← boundary request.resourceId location request.customerId request.reservationId now
  let expiry := min (now.plusSeconds (max 1 c.settings.loginSeconds)) limit
  requireResourceReservationAvailableForUpdate request.resourceId now expiry request.reservationId
  let assignment : StationAssignment :=
    { id := c.freshId
      customerId := request.customerId
      resourceId := request.resourceId
      reservationId := request.reservationId
      assignedBy := c.actor.id
      status := .waitingForLogin
      createdAt := now
      expiresAt := expiry
      accessUntil := limit
      sessionId := none }
  insertAssignment assignment
  return assignment

/-- `cancel`: withdraws an assignment that still waits. -/
def cancel (id : UUID) : Tx Unit := do
  preAuthorize .gamingSessionStart
  let c ← ask
  let db ← get
  let a ← orThrow (db.assignments.find? id) (fail .notFound "Assignment not found")
  lockCustomer a.customerId false
  lift (c.catalogue.requireManageForUpdate c.actor [some a.resourceId])
  let _ ← lift (c.catalogue.lockResource a.resourceId)
  saveAssignment (if a.status = .waitingForLogin then { a with status := .cancelled } else a)

/-- The part of `activate` that starts a new session. -/
def start (customerId stationId : UUID) (now : Instant) : Tx GamingSession := do
  let c ← ask
  let db ← get
  let a ← orThrow (db.assignments.rows.find? fun a => a.customerId = customerId ∧ a.resourceId = stationId ∧
      a.status = .waitingForLogin ∧ now < a.expiresAt)
    (fail .conflict "A valid station assignment is required")
  require (db.activeByResource stationId = none ∧ db.activeByMoveTarget stationId = none)
    (fail .conflict "Station is occupied")
  lift (c.catalogue.requireManagedClient stationId)
  requireReadyForSession stationId
  let seconds := db.balance customerId
  require (0 < seconds) (fail .conflict "Customer has no gaming time")
  let resource ← lift (c.catalogue.lockGamingStation stationId)
  let location ← lift (c.catalogue.locationId resource)
  let limit ← boundary stationId location customerId a.reservationId now
  let stop := min (now.plusSeconds seconds) limit
  requireResourceReservationAvailableForUpdate stationId now stop a.reservationId
  let s : GamingSession :=
    { id := c.freshId
      customerId
      resourceId := stationId
      locationId := location
      reservationId := a.reservationId
      startedBy := a.assignedBy
      billingMode := .timeBalance
      billedSeconds := 0
      lastBilledAt := now
      meteredLeaseUntil := min (now.plusSeconds c.settings.leaseSeconds) stop
      accessUntil := limit
      moveTargetId := none
      startedAt := now
      endsAt := stop
      endedAt := none
      status := .active
      terminationReason := none
      lastCommandSequence := none }
  insertSession s
  saveAssignment { a with status := .activated, sessionId := some s.id }
  let sequence ← writeCommand s .sessionStarted
  let s := { s with lastCommandSequence := some sequence }
  saveSession s
  let _ ← orThrow (c.catalogue.users.find? s.startedBy) .noSuchElement
  return s

/-- `activate`: the login of a customer at a station, into the running session or a new one. -/
def activate (customerId stationId : UUID) : Tx GamingSession := do
  let c ← ask
  require (c.machineStation = some stationId) (fail .forbidden "Machine cannot activate another station")
  lockCustomer customerId true
  let _ ← lift (c.catalogue.lockGamingStation stationId)
  let now ← instant
  let db ← get
  match db.activeByCustomer customerId with
  | some existing => do
    require (existing.resourceId = stationId ∧ existing.billingMode = .timeBalance)
      (fail .conflict "Customer is already playing elsewhere")
    let existing ← settle existing now
    require (existing.status = .active) (fail .conflict "Session requires a new assignment")
    return existing
  | none => start customerId stationId now

/-- The part of `tick` after the settlement. -/
def finishOrRenew (s : GamingSession) (renew finish : Bool) : Tx GamingSession := do
  let c ← ask
  if finish ∧ s.status = .active then close s .terminated "Customer finished gaming"
  else if renew ∧ s.status = .active then
    let now ← instant
    let s := { s with meteredLeaseUntil := min (now.plusSeconds c.settings.leaseSeconds) s.endsAt }
    saveSession s
    return s
  else return s

/-- `tick`: settles a session; then ends it when `finish` is set, or renews its metered lease. -/
def tick (id : UUID) (renew finish : Bool) : Tx Unit := do
  let c ← ask
  let db ← get
  match db.sessions.find? id with
  | none => return ()
  | some s => do
    if s.billingMode = .timeBalance then
      lockCustomer s.customerId false
      let _ ← lift (c.catalogue.lockResource s.resourceId)
      if s.status = .active then
        let now ← instant
        let s ← settle s now
        let _ ← finishOrRenew s renew finish
        return ()
      else return ()
    else return ()

def finishByOperator (id : UUID) : Tx Unit := do
  tick id false true
  let db ← get
  let _ ← orThrow (db.sessions.find? id) .noSuchElement
  return ()

def recover (id : UUID) : Tx Unit := do
  tick id false false
  let db ← get
  match db.sessions.find? id with
  | none => return ()
  | some s => do
    if s.billingMode = .timeBalance ∧ s.status = .active then
      let _ ← close s .terminated
        "RECOVERY_REQUIRED: Windows Client restarted or lost its active session state"
      return ()
    else return ()

/-- `waiting`: the assignment that waits for a login at the station. -/
def Db.waiting (db : Db) (station : UUID) (now : Instant) : Option StationAssignment :=
  db.assignments.rows.find? fun a => a.resourceId = station ∧ a.status = .waitingForLogin ∧ now < a.expiresAt

end GManager

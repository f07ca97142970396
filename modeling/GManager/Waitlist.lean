import GManager.BookingPolicy
import GManager.Requests
import Mathlib.Data.List.Sort
import Mathlib.Data.Prod.Lex

/-!
# The waitlist

`WaitlistService` with `WaitlistAccessPolicy`. Customers and staff put entries on the list for times that
are taken, and the matcher goes through them by the time at which they entered the queue and offers what has
become free. An offer reserves nothing: its acceptance books through `create`. The columns that only the
history, the audit and the screens read are left out.
-/

namespace GManager

inductive WaitlistStatus
  | waiting | offered | accepted | cancelled
  deriving DecidableEq, Repr

inductive WaitlistOfferStatus
  | offered | accepted | expired
  deriving DecidableEq, Repr

/-- The text `active_key`: it lists these values, so different values are different texts. -/
structure ActiveKey where
  customerId : UUID
  serviceId : UUID
  employeeId : UUID
  resourceId : Option UUID
  desiredStart : Instant
  locationId : Option UUID
  areaId : Option UUID
  deriving DecidableEq, Repr

structure WaitlistEntry where
  id : UUID
  customerId : UUID
  employeeId : UUID
  serviceId : UUID
  locationId : Option UUID
  resourceId : Option UUID
  areaId : Option UUID
  desiredStart : Instant
  desiredEnd : Option Instant
  status : WaitlistStatus
  activeKey : Option ActiveKey
  queueEnteredAt : Instant
  internalNote : Option String
  version : ℕ
  deriving DecidableEq, Repr

structure WaitlistOffer where
  id : UUID
  entryId : UUID
  employeeId : UUID
  resourceId : Option UUID
  expiresAt : Instant
  status : WaitlistOfferStatus
  reservationId : Option UUID
  activeKey : Option UUID
  deriving DecidableEq, Repr

structure CreateWaitlistRequest where
  serviceId : UUID
  employeeId : UUID
  resourceId : Option UUID
  desiredStart : Instant
  locationId : Option UUID
  deriving DecidableEq, Repr

structure ManageWaitlistRequest where
  customerId : Option UUID
  serviceId : UUID
  employeeId : UUID
  locationId : Option UUID
  areaId : Option UUID
  resourceId : Option UUID
  desiredStart : Instant
  internalNote : Option String
  customerConsent : Option Bool
  version : Option ℕ
  deriving DecidableEq, Repr

/-- A row of `user_location_assignments`. -/
structure LocationGrant where
  userId : UUID
  locationId : UUID
  active : Bool
  deriving DecidableEq, Repr

def BookingSlotStatus.occupied : BookingSlotStatus → Bool
  | .occupiedReservation | .occupiedResource | .occupiedSession => true
  | .available | .unavailable => false

namespace Catalogue

variable (g : Catalogue)

/-- `requireService`. -/
def requireService (id : UUID) : Except Failure CatalogItem := do
  let item ← g.getActiveById id
  check (item.type = .service) (fail .unprocessableEntity "Catalog item is not a service")
  return item

/-- Whether the matcher counts the user among the active employees. -/
def matchesEmployee (id : UUID) : Bool :=
  (g.users.find? id).any fun u => u.active ∧ u.deleted = false ∧ u.role = .employee

/-- The service, if the matcher counts it among the active ones. -/
def matchedService (id : UUID) : Option CatalogItem :=
  (g.items.find? id).filter fun i => i.active ∧ i.type = .service

/-- Whether the service needs nothing physical. -/
def nonPhysical (serviceId : UUID) : Bool :=
  (g.items.find? serviceId).any (fun i => !i.requiresResource) && !g.resources.rows.any fun v =>
    v.serviceId = serviceId

/-- The resources of the service in a location, and in the area if there is one. -/
def scopeCandidates (serviceId locationId : UUID) (areaId : Option UUID) : List UUID :=
  (g.resources.rows.filter fun v => v.serviceId = serviceId ∧ g.locationId v = .ok locationId ∧
    ∀ a ∈ areaId, v.areaId = a).map (·.id)

/-- Whether the user has an active grant of the resource, whatever the role. -/
def granted (userId resourceId : UUID) : Bool :=
  g.grants.any fun r => r.userId = userId ∧ r.active ∧ r.resourceId = resourceId

end Catalogue

namespace Waitlist

open Txn

/-! ### The database and the calls -/

structure WaitlistDb where
  db : Db
  entries : Table WaitlistEntry.id
  offers : Table WaitlistOffer.id

def WaitlistDb.empty (t : Instant) : WaitlistDb := ⟨.empty t, .empty, .empty⟩

/-- A call of the waitlist. The first instant of a date belongs to its zone, and a service has a duration by
the constraint of its table. -/
structure WaitlistCall where
  call : Call
  locationGrants : List LocationGrant
  /-- The fresh identifier of an offer to an entry. -/
  offerId : UUID → UUID
  /-- `atStartOfDay`. -/
  startOfDay : LocalDate → Instant
  startOfDay_le : ∀ {d t}, startOfDay d ≤ t ↔ d ≤ call.hours.zone.dateOf t
  service_duration : ∀ i ∈ call.catalogue.items, i.type = .service → ∃ n ∈ i.durationMinutes, (0 : ℤ) < n

abbrev WaitlistTx := Txn WaitlistCall WaitlistDb Failure

/-- A transaction on the tables of the other services. -/
def onDb {α : Type} (x : Tx α) : WaitlistTx α := fun c w => match x.run c.call w.db with
  | .ok (a, db) => .ok (a, { w with db })
  | .error e => .error e

@[simp] theorem wp_onDb {α : Type} {x : Tx α} {Q : α → WaitlistDb → Prop} {c : WaitlistCall}
    {w : WaitlistDb} : wp (onDb x) Q c w ↔ wp x (fun a db => Q a { w with db }) c.call w.db := by
  constructor
  · intro h a db hx
    refine h a { w with db } ?_
    simp only [Txn.run, onDb] at hx ⊢
    rw [hx]
  · intro h a w' hx
    simp only [Txn.run, onDb] at hx
    cases hr : x.run c.call w.db with
    | error e =>
      rw [Txn.run] at hr
      rw [hr] at hx
      cases hx
    | ok p =>
      obtain ⟨b, db⟩ := p
      have := h b db hr
      rw [Txn.run] at hr
      rw [hr] at hx
      cases hx
      exact this

/-! ### Access -/

namespace WaitlistCall

variable (c : WaitlistCall)

def grantedLocation (location : UUID) : Bool :=
  c.locationGrants.any fun l => l.userId = c.call.actor.id ∧ l.locationId = location ∧ l.active

/-- `canRead`: a preference without resource must stay wholly inside the scope of the employee. -/
def canRead (e : WaitlistEntry) : Bool :=
  let actor := c.call.actor
  let g := c.call.catalogue
  Catalogue.allResources actor || match e.resourceId, e.locationId with
    | some resource, _ => g.granted actor.id resource
    | none, none => e.employeeId = actor.id && g.nonPhysical e.serviceId
    | none, some location => e.employeeId = actor.id && c.grantedLocation location &&
        (g.scopeCandidates e.serviceId location e.areaId).all fun id => g.granted actor.id id

def denied : Failure := fail .forbidden "Waitlist management is outside your assigned scope"

/-- `requireUpdate`. -/
def requireUpdate (employee service : UUID) (location area resource : Option UUID) : Except Failure Unit :=
  let actor := c.call.actor
  let g := c.call.catalogue
  if Catalogue.allResources actor then .ok ()
  else match resource, location with
    | some resource, _ => g.requireManageForUpdate actor [some resource]
    | none, none => do
      check (actor.role = .employee ∧ actor.id = employee) denied
      check (g.nonPhysical service) denied
    | none, some location => do
      check (actor.role = .employee ∧ actor.id = employee) denied
      check (c.grantedLocation location) denied
      let ids := g.scopeCandidates service location area
      if ids = [] then .ok () else g.requireManageForUpdate actor (ids.map some)

end WaitlistCall

/-- `staff`, behind the permission to manage the waitlist. -/
def staff : WaitlistTx Unit := do
  let c ← ask
  require (c.call.actor.role ≠ .customer) .accessDenied

/-- `customer`, behind the permission to create reservations. -/
def customer : WaitlistTx UUID := do
  onDb (preAuthorize .reservationCreate)
  let c ← ask
  require (c.call.actor.role = .customer) (fail .forbidden "Only customers can use the waitlist")
  return c.call.actor.id

def requireCustomer (id : UUID) : WaitlistTx Unit := do
  let c ← ask
  require (∃ u ∈ c.call.catalogue.users.find? id, u.role = .customer ∧ u.active ∧ u.deleted = false)
    (fail .unprocessableEntity "Customer is not available for booking")

/-! ### Rows -/

namespace WaitlistDb

variable (w : WaitlistDb)

def existsByActiveKey (key : ActiveKey) : Bool := w.entries.rows.any fun e => e.activeKey = some key

/-- `findByEntryIdAndStatus` of the status OFFERED. -/
def offerOf (entryId : UUID) : Option WaitlistOffer := w.offers.rows.find? fun o => o.entryId = entryId ∧
    o.status = .offered

def putEntry (e : WaitlistEntry) : WaitlistDb :=
  { w with entries := w.entries.save { e with version := e.version + 1 } }

def putOffer (o : WaitlistOffer) : WaitlistDb := { w with offers := w.offers.save o }

end WaitlistDb

def lockEntry (id : UUID) : WaitlistTx WaitlistEntry := do
  let w ← get
  orThrow (w.entries.find? id) (fail .notFound "Waitlist entry not found")

def lockOffer (id : UUID) : WaitlistTx WaitlistOffer := do
  let w ← get
  orThrow (w.offers.find? id) (fail .notFound "Waitlist offer not found")

def duplicate : Failure := fail .conflict "An active waitlist entry already exists"

/-- `saveAndFlush` of a new entry; a row that violates a constraint is a duplicate. -/
def insertEntry (e : WaitlistEntry) : WaitlistTx Unit := do
  let w ← get
  require (∀ key ∈ e.activeKey, w.existsByActiveKey key = false) duplicate
  let entries ← orThrow (w.entries.insert e) duplicate
  modify fun w => { w with entries }

/-- An offer that is open no more. -/
def closed (o : WaitlistOffer) : WaitlistOffer := { o with status := .expired, activeKey := none }

/-- The part of `expire` that a cancellation repeats. -/
def closeOffer (o : WaitlistOffer) : WaitlistTx Unit := modify (·.putOffer (closed o))

/-! ### Customers -/

/-- `activeKey`, with the area that `managedKey` appends. -/
def activeKey (customerId serviceId employeeId : UUID) (resourceId : Option UUID) (desiredStart : Instant)
    (locationId areaId : Option UUID) : ActiveKey :=
  { customerId, serviceId, employeeId, resourceId, desiredStart
    locationId := if resourceId = none then locationId else none
    areaId := if resourceId = none then areaId else none }

/-- The place of a new entry: that of the resource when one is asked for. -/
def preferredLocation (resourceId locationId : Option UUID) (state : Assessment) : Option UUID :=
  if resourceId = none then locationId else state.locationId

/-- What the policy says about the desired time, which must be taken. -/
def requireOccupied (serviceId employeeId : UUID) (resourceId locationId areaId : Option UUID)
    (start stop : Instant) : WaitlistTx Assessment := do
  let s ← onDb (prepare serviceId resourceId locationId [employeeId] start stop none none areaId)
  let state := s.assess employeeId start stop
  require (¬ state.available) (fail .conflict "Slot is available and can be reserved directly")
  require state.status.occupied (fail .unprocessableEntity (state.reason.getD ""))
  return state

/-- `join`. -/
def join (request : CreateWaitlistRequest) : WaitlistTx Unit := do
  let customerId ← customer
  let c ← ask
  let key := activeKey customerId request.serviceId request.employeeId request.resourceId request.desiredStart
    request.locationId none
  let w ← get
  require (w.existsByActiveKey key = false) duplicate
  let service ← lift (c.call.catalogue.requireService request.serviceId)
  require (c.call.catalogue.isActiveEmployee request.employeeId)
    (fail .unprocessableEntity "Selected user is not an active employee")
  let duration ← orThrow service.durationMinutes .noSuchElement
  let stop := request.desiredStart.plusMinutes duration
  let now ← onDb instant
  require (now < request.desiredStart) (fail .badRequest "Waitlist time must be in the future")
  let state ← requireOccupied request.serviceId request.employeeId request.resourceId request.locationId none
    request.desiredStart stop
  let queueEnteredAt ← onDb instant
  insertEntry
    { id := c.call.freshId
      customerId
      employeeId := request.employeeId
      serviceId := request.serviceId
      locationId := preferredLocation request.resourceId request.locationId state
      resourceId := request.resourceId
      areaId := none
      desiredStart := request.desiredStart
      desiredEnd := some stop
      status := .waiting
      activeKey := some key
      queueEnteredAt
      internalNote := none
      version := 0 }

/-- `accept`; an offer that is accepted already is answered again. -/
def accept (offerId : UUID) : WaitlistTx (WaitlistEntry × WaitlistOffer) := do
  let customerId ← customer
  let reference ← lockOffer offerId
  let entry ← lockEntry reference.entryId
  require (entry.customerId = customerId) (fail .notFound "Waitlist offer not found")
  let offer ← lockOffer offerId
  if offer.status = .accepted then return (entry, offer)
  else
    let now ← onDb instant
    require (entry.status = .offered ∧ offer.status = .offered ∧ now < offer.expiresAt)
      (fail .conflict "Waitlist offer has expired or is no longer active")
    let reservation ← onDb (create ⟨some offer.employeeId, entry.serviceId, offer.resourceId,
      entry.desiredStart, some "Waitlist offer", entry.locationId, none, none, none⟩)
    let offer := { offer with status := .accepted, reservationId := some reservation.id, activeKey := none }
    let entry := { entry with status := .accepted, activeKey := none }
    modify fun w => (w.putOffer offer).putEntry entry
    return (entry, offer)

/-- What a cancellation does to the entry and to its open offer. -/
def cancelEntry (entry : WaitlistEntry) : WaitlistTx Unit := do
  let w ← get
  ifPresent (w.offerOf entry.id) closeOffer
  modify (·.putEntry { entry with status := .cancelled, activeKey := none })

/-- `cancel`. -/
def cancel (id : UUID) (version : ℕ) : WaitlistTx Unit := do
  let customerId ← customer
  let entry ← lockEntry id
  require (entry.customerId = customerId) (fail .notFound "Waitlist entry not found")
  require (entry.version = version) (fail .conflict "Waitlist entry was changed; refresh and try again")
  require (entry.status ≠ .accepted) (fail .conflict "Accepted waitlist entry cannot be cancelled")
  when (entry.status ≠ .cancelled) (cancelEntry entry)

/-! ### Staff -/

/-- `requireSourceScope`. -/
def requireSourceScope (entry : WaitlistEntry) : WaitlistTx Unit := do
  let c ← ask
  lift (c.requireUpdate entry.employeeId entry.serviceId entry.locationId entry.areaId entry.resourceId)
  let w ← get
  lift (match (w.offerOf entry.id).bind (·.resourceId) with
    | some resource => c.call.catalogue.requireManageForUpdate c.call.actor [some resource]
    | none => .ok ())

def requireVersion (entry : WaitlistEntry) (version : Option ℕ) : WaitlistTx Unit :=
  require (version = some entry.version) (fail .conflict "Waitlist entry was changed; refresh and try again")

/-- The entry under its lock, if the actor may read it. -/
def lockManaged (id : UUID) : WaitlistTx WaitlistEntry := do
  staff
  let c ← ask
  let w ← get
  require ((w.entries.find? id).any c.canRead) (fail .notFound "Waitlist entry not found")
  let entry ← lockEntry id
  requireSourceScope entry
  return entry

/-- `validateManaged`, and the end of the desired time. -/
def validateManaged (request : ManageWaitlistRequest) : WaitlistTx (Assessment × Instant) := do
  let c ← ask
  let service ← lift (c.call.catalogue.requireService request.serviceId)
  require (c.call.catalogue.isActiveEmployee request.employeeId)
    (fail .unprocessableEntity "Selected user is not an active employee")
  let duration ← orThrow service.durationMinutes .noSuchElement
  let stop := request.desiredStart.plusMinutes duration
  let now ← onDb instant
  require (now < request.desiredStart) (fail .badRequest "Waitlist time must be in the future")
  lift (c.call.catalogue.requireBookingArea request.areaId request.locationId)
  require (¬ (request.areaId.isSome ∧ request.locationId = none))
    (fail .badRequest "Location is required for an area preference")
  lift (c.requireUpdate request.employeeId request.serviceId request.locationId request.areaId
    request.resourceId)
  let state ← requireOccupied request.serviceId request.employeeId request.resourceId request.locationId
    request.areaId request.desiredStart stop
  return (state, stop)

/-- `managedKey`. -/
def managedKey (customerId : UUID) (request : ManageWaitlistRequest) (state : Assessment) : ActiveKey :=
  activeKey customerId request.serviceId request.employeeId request.resourceId request.desiredStart
    (preferredLocation request.resourceId request.locationId state) request.areaId

/-- `applyManaged`. -/
def applyManaged (entry : WaitlistEntry) (request : ManageWaitlistRequest) (state : Assessment)
    (stop : Instant) : WaitlistEntry :=
  { entry with
    employeeId := request.employeeId
    serviceId := request.serviceId
    resourceId := request.resourceId
    locationId := preferredLocation request.resourceId request.locationId state
    areaId := request.areaId
    desiredStart := request.desiredStart
    desiredEnd := some stop
    internalNote := normalizeNote request.internalNote }

/-- `createManaged`. -/
def createManaged (request : ManageWaitlistRequest) : WaitlistTx Unit := do
  staff
  let customerId ← orThrow (request.customerId.filter fun _ => request.customerConsent = some true)
    (fail .badRequest "Customer and customer consent are required")
  requireCustomer customerId
  let (state, stop) ← validateManaged request
  let key := managedKey customerId request state
  let w ← get
  require (w.existsByActiveKey key = false) duplicate
  let c ← ask
  let now ← onDb instant
  let blank : WaitlistEntry :=
    { id := c.call.freshId
      customerId
      employeeId := request.employeeId
      serviceId := request.serviceId
      locationId := none
      resourceId := none
      areaId := none
      desiredStart := request.desiredStart
      desiredEnd := none
      status := .waiting
      activeKey := some key
      queueEnteredAt := now
      internalNote := none
      version := 0 }
  insertEntry (applyManaged blank request state stop)

/-- Whether an update moves the entry to the end of the queue. -/
def conditionsChanged (entry : WaitlistEntry) (request : ManageWaitlistRequest) (state : Assessment) : Bool :=
  entry.serviceId ≠ request.serviceId ∨ entry.employeeId ≠ request.employeeId ∨
    entry.resourceId ≠ request.resourceId ∨
    entry.locationId ≠ preferredLocation request.resourceId request.locationId state ∨
    request.resourceId = none ∧ entry.areaId ≠ request.areaId ∨ entry.desiredStart ≠ request.desiredStart

/-- `updateManaged`. -/
def updateManaged (id : UUID) (request : ManageWaitlistRequest) : WaitlistTx Unit := do
  let entry ← lockManaged id
  requireVersion entry request.version
  require (entry.status = .waiting) (fail .conflict "Only waiting entries can be edited")
  require (∀ customerId ∈ request.customerId, customerId = entry.customerId)
    (fail .badRequest "Waitlist customer cannot be changed")
  requireCustomer entry.customerId
  let (state, stop) ← validateManaged request
  let key := managedKey entry.customerId request state
  let w ← get
  require (entry.activeKey = some key ∨ w.existsByActiveKey key = false) duplicate
  let updated := { applyManaged entry request state stop with activeKey := some key }
  if conditionsChanged entry request state then
    let now ← onDb instant
    modify (·.putEntry { updated with queueEnteredAt := now })
  else if updated = entry then return ()
  else modify (·.putEntry updated)

/-- `cancelManaged`; the reason only goes to the history. -/
def cancelManaged (id : UUID) (version : ℕ) : WaitlistTx Unit := do
  let entry ← lockManaged id
  requireVersion entry (some version)
  require (entry.status = .waiting ∨ entry.status = .offered)
    (fail .conflict "Only waiting or offered entries can be cancelled")
  cancelEntry entry

end Waitlist

end GManager

import GManager.Db

/-!
# Locations, areas and physical resources

The parts of `CatalogService`, `ResourceAccessService`, `ReservationDurationPolicy`,
`ResourceManagementService` and `StationReadinessService` on which sessions and reservations rest. They
only read the catalogue of their call, so they are plain functions that may fail.
-/

namespace GManager

/-- Fails with `e` unless `p` holds. -/
def check (p : Prop) [Decidable p] (e : Failure) : Except Failure Unit := if p then .ok () else .error e

theorem check_eq_ok {p : Prop} [Decidable p] {e : Failure} {u : Unit} : check p e = .ok u ↔ p := by
  simp [check]

def orFail {α : Type} (o : Option α) (e : Failure) : Except Failure α := o.elim (.error e) .ok

theorem orFail_eq_ok {α : Type} {o : Option α} {e : Failure} {a : α} : orFail o e = .ok a ↔ o = some a := by
  cases o <;> simp [orFail]

theorem bind_eq_ok {α β : Type} {x : Except Failure α} {f : α → Except Failure β} {b : β} :
    (x >>= f) = .ok b ↔ ∃ a, x = .ok a ∧ f a = .ok b := by
  cases x <;> simp [bind, Except.bind]

/-- Rows by ascending identifier, the order in which candidates are tried. -/
def sortById {ρ : Type} (id : ρ → UUID) (rows : List ρ) : List ρ := rows.mergeSort fun a b => id a ≤ id b

theorem mem_sortById {ρ : Type} {id : ρ → UUID} {rows : List ρ} {r : ρ} : r ∈ sortById id rows ↔ r ∈ rows :=
  (List.mergeSort_perm _ _).mem_iff

theorem pairwise_sortById {ρ : Type} (id : ρ → UUID) (rows : List ρ) :
    (sortById id rows).Pairwise fun a b => id a ≤ id b :=
  (List.pairwise_mergeSort
    (fun a b c hab hbc => by simpa using le_trans (of_decide_eq_true hab) (of_decide_eq_true hbc))
    (fun a b => by simpa using le_total (id a) (id b)) rows).imp of_decide_eq_true

theorem sortById_of_pairwise {ρ : Type} {id : ρ → UUID} {rows : List ρ}
    (h : rows.Pairwise fun a b => id a ≤ id b) : sortById id rows = rows :=
  List.mergeSort_of_pairwise (h.imp decide_eq_true)

theorem map_sortById_nodup {ρ : Type} {id : ρ → UUID} {rows : List ρ} (h : (rows.map id).Nodup) :
    ((sortById id rows).map id).Nodup := ((List.mergeSort_perm _ _).map id).nodup_iff.2 h

namespace Catalogue

variable (g : Catalogue)

/-! ### Catalogue items -/

def requireItem (id : UUID) : Except Failure CatalogItem :=
  orFail (g.items.find? id) (fail .notFound "Catalog item not found")

def getActiveById (id : UUID) : Except Failure CatalogItem := do
  let item ← g.requireItem id
  check item.active (fail .unprocessableEntity "Catalog item is inactive")
  return item

/-! ### Locations, areas and resources -/

def location (id : UUID) : Except Failure Location :=
  orFail (g.locations.find? id) (fail .notFound "Location not found")

def area (id : UUID) : Except Failure Area := orFail (g.areas.find? id) (fail .notFound "Area not found")

def resource (id : UUID) : Except Failure PhysicalResource :=
  orFail (g.resources.find? id) (fail .notFound "Resource not found")

def locationId (r : PhysicalResource) : Except Failure UUID := do return (← g.area r.areaId).locationId

def requireActiveLocation (id : UUID) : Except Failure Unit := do
  check (← g.location id).active (fail .unprocessableEntity "Location is inactive")

def requireBookingArea (areaId locationId : Option UUID) : Except Failure Unit :=
  match areaId with
  | none => .ok ()
  | some areaId => do
    let value ← g.area areaId
    check (∀ l ∈ locationId, value.locationId = l)
      (fail .unprocessableEntity "Area does not belong to the selected location")
    check value.active (fail .unprocessableEntity "Area is inactive")
    g.requireActiveLocation value.locationId

/-- `StationStatePort.operationalState`; a resource without station profile counts as available. -/
def operationalState (id : UUID) : StationOperationalStatus :=
  ((g.stations.find? id).map (·.operationalStatus)).getD .available

def isBookableState (v : PhysicalResource) (serviceId : UUID) : Except Failure Bool := do
  let unavailableStation := v.type = .gamingPc ∧ g.operationalState v.id ≠ .available
  let a ← g.area v.areaId
  let l ← g.location a.locationId
  return v.active ∧ v.bookable ∧ v.serviceId = serviceId ∧ ¬ unavailableStation ∧ a.active ∧ l.active

def requireBookableState (v : PhysicalResource) (serviceId : UUID) : Except Failure Unit := do
  check (← g.isBookableState v serviceId)
    (fail .unprocessableEntity "Selected resource is not bookable for this service")

/-- Reads the resource under its row lock and requires it to be bookable. -/
def lockBookable (id serviceId : UUID) : Except Failure PhysicalResource := do
  let v ← g.resource id
  g.requireBookableState v serviceId
  return v

def lockResource (id : UUID) : Except Failure PhysicalResource := g.resource id

def lockGamingStation (id : UUID) : Except Failure PhysicalResource := do
  let v ← orFail (g.resources.find? id) (fail .notFound "Gaming station not found")
  check (v.type = .gamingPc) (fail .unprocessableEntity "Selected resource is not a gaming PC")
  g.requireBookableState v v.serviceId
  return v

def findByServiceIdOrderByIdAsc (serviceId : UUID) : List PhysicalResource :=
  sortById (·.id) (g.resources.rows.filter fun v => v.serviceId = serviceId)

def requiresResource (serviceId : UUID) : Except Failure Bool := do
  let service ← g.requireItem serviceId
  return service.requiresResource || g.resources.rows.any fun v => v.serviceId = serviceId

/-! ### Access to resources -/

def allResources (actor : AuthenticatedUser) : Bool := actor.role = .owner ∨ actor.role = .admin

def assignedResources (actor : AuthenticatedUser) : List UUID :=
  if actor.role = .employee then (g.grants.filter fun r => r.userId = actor.id ∧ r.active).map (·.resourceId)
  else []

def canManage (actor : AuthenticatedUser) (resourceId : Option UUID) : Bool :=
  allResources actor || actor.role = .employee && resourceId.any fun id => id ∈ g.assignedResources actor

def managementDenied : Failure := fail .forbidden "Station management is not permitted"

/-- `ResourceAccessService.requireManageForUpdate`. -/
def requireManageForUpdate (actor : AuthenticatedUser) (resourceIds : List (Option UUID)) :
    Except Failure Unit :=
  if allResources actor then .ok ()
  else do
    check (actor.role = .employee ∧ resourceIds ≠ [] ∧ none ∉ resourceIds) managementDenied
    check (∀ id ∈ resourceIds, g.canManage actor id) managementDenied

/-! ### Durations -/

structure Rules where
  variableDuration : Bool
  minimum : ℤ
  maximum : ℤ
  defaultMinutes : ℤ

def requireDuration (service : CatalogItem) : Except Failure ℤ := do
  let duration ← orFail service.durationMinutes
    (fail .unprocessableEntity "Service has no valid reservation duration")
  check (0 < duration) (fail .unprocessableEntity "Service has no valid reservation duration")
  return duration

/-- `ReservationDurationPolicy.rules`. -/
def durationRules (settings : Settings) (service : CatalogItem) : Except Failure Rules := do
  let duration ← requireDuration service
  let variableDuration := (g.findByServiceIdOrderByIdAsc service.id).any fun v =>
    v.type ∈ [ResourceType.gamingPc, .playstation, .simulator]
  return if variableDuration then ⟨true, max 30 settings.minimumDurationMinutes,
    settings.maximumDurationMinutes, duration⟩
    else ⟨false, duration, duration, duration⟩

/-- `ReservationDurationPolicy.resolve`. -/
def reservationDuration (settings : Settings) (service : CatalogItem) (requested : Option ℤ) :
    Except Failure ℤ :=
  match requested with
  | none => requireDuration service
  | some requested => do
    let rules ← g.durationRules settings service
    check (rules.variableDuration ∨ requested = rules.defaultMinutes)
      (fail .badRequest "This service has a fixed reservation duration")
    check (rules.minimum ≤ requested ∧ requested ≤ rules.maximum)
      (fail .badRequest "Reservation duration is outside the permitted range")
    return requested

/-! ### Readiness of a station -/

def requireManagedClient (resourceId : UUID) : Except Failure Unit :=
  check (((g.stations.find? resourceId).map (·.clientEnabled)).getD false)
    (fail .unprocessableEntity "Metered gaming requires an enabled managed Client")

end Catalogue

open Txn

/-- `StationReadinessService.requireReadyForSession`. -/
def requireReadyForSession (resourceId : UUID) : Tx Unit := do
  let c ← ask
  let signs := c.signs resourceId
  require (¬ signs.installing) (fail .conflict "Gaming Client installation is in progress")
  require signs.privacyReady (fail .conflict "Privacy preparation is required before the next session")
  let station ← orThrow (c.catalogue.stations.find? resourceId)
    (fail .unprocessableEntity "Gaming station is not configured")
  require (station.operationalStatus = .available)
    (fail .unprocessableEntity "Gaming station is not available")
  let now ← instant
  require (¬ station.clientEnabled ∨ ∃ t ∈ station.lastHeartbeatAt, now < t.plusSeconds
    station.offlineGraceSeconds) (fail .unprocessableEntity "Gaming station client is offline")
  let profileId ← orThrow station.applicationProfileId
    (fail .unprocessableEntity "Gaming station has no application profile")
  let profile ← orThrow (c.catalogue.profiles.find? profileId)
    (fail .notFound "Application profile not found")
  require profile.active (fail .unprocessableEntity "Application profile is inactive")
  require (¬ (station.clientEnabled ∧ (signs.maintenanceActive ∨ signs.clientErrorCode.isSome)))
    (fail .conflict "Gaming Client is in maintenance or reports a local error")
  require (¬ station.clientEnabled ∨ signs.safeForNewSession)
    (fail .conflict "Gaming station has not acknowledged a safe local lock")

end GManager

import GManager.WorkingHours
import GManager.Resources
import GManager.Availability
import Mathlib.Data.List.Dedup

/-!
# The booking availability policy

`BookingAvailabilityPolicy`: `prepare` reads once what a range of time looks like for a service, and `assess`
answers from that snapshot whether an employee could be booked for an interval, and on which resource.
Occupancy, waiting list, planning and recurrence all ask a snapshot; only a booking itself reads the tables.
-/

namespace GManager

open Txn

inductive BookingSlotStatus
  | available | occupiedReservation | occupiedResource | occupiedSession | unavailable
  deriving DecidableEq, Repr

/-- `BookingResourceView`, by its identifiers. -/
structure BookingResourceView where
  id : UUID
  locationId : UUID
  areaId : UUID
  deriving DecidableEq, Repr

/-- `BookingAvailabilityPolicy.Assessment`. -/
structure Assessment where
  status : BookingSlotStatus
  reason : Option String
  resource : Option BookingResourceView
  locationId : Option UUID
  deriving DecidableEq, Repr

def Assessment.available (a : Assessment) : Bool := a.status = .available

/-- `ReservationBusyInterval` and `TimeOffInterval`: when an employee cannot be booked. -/
structure EmployeeInterval where
  employeeId : UUID
  startTime : Instant
  endTime : Instant
  deriving DecidableEq, Repr

/-- The opening and closing instants of a date. -/
abbrev AvailabilityWindow := Instant × Instant

structure Snapshot where
  required : Bool
  locationId : Option UUID
  locationRestriction : Option String
  resources : List BookingResourceView
  restrictions : UUID → Option String
  windows : List (Option UUID × List AvailabilityWindow)
  employeeBusy : List EmployeeInterval
  timeOff : List EmployeeInterval
  resourceBusy : List ResourceBusyInterval
  sessions : List ResourceBusyInterval
  now : Instant

/-! ### Candidates -/

namespace Catalogue

variable (g : Catalogue)

/-- `isActiveEmployee`; it does not look whether the user is deleted. -/
def isActiveEmployee (id : UUID) : Bool := (g.users.find? id).any fun u => u.active ∧ u.role = .employee

/-- `PhysicalResourceRepository.references`. -/
def reference (v : PhysicalResource) : Option BookingResourceView :=
  (g.areas.find? v.areaId).map fun a => ⟨v.id, a.locationId, v.areaId⟩

/-- `bookingCandidates`: the resources of the service in the place asked for, also restricted ones. -/
def bookingCandidates (serviceId : UUID) (requestedId locationId areaId : Option UUID) :
    Except Failure (List PhysicalResource) := do
  g.requireBookingArea areaId locationId
  let values ← match requestedId with
    | none => .ok (g.findByServiceIdOrderByIdAsc serviceId)
    | some id => do
      let selected ← g.resource id
      let location ← g.locationId selected
      check (selected.serviceId = serviceId)
        (fail .unprocessableEntity "Resource does not support the selected service")
      check (∀ l ∈ locationId, l = location)
        (fail .unprocessableEntity "Resource does not belong to the selected location")
      check (∀ a ∈ areaId, a = selected.areaId)
        (fail .unprocessableEntity "Resource does not belong to the selected area")
      .ok [selected]
  return values.filter fun v => (∀ l ∈ locationId, g.locationId v = .ok l) ∧ ∀ a ∈ areaId, a = v.areaId

/-- `bookingRestrictions`, of one resource. -/
def bookingRestriction (v : PhysicalResource) : Option String :=
  let area := g.areas.find? v.areaId
  let location := area.bind fun a => g.locations.find? a.locationId
  if ¬ v.active ∨ ¬ v.bookable ∨ area.all (fun a => !a.active) ∨ location.all (fun l => !l.active) then
    some "Resource or location is inactive or not bookable"
  else if v.type = .gamingPc ∧
    g.operationalState v.id ≠ .available then some "Station is unavailable for booking"
  else none

/-- The refusal of an inactive location, which the snapshot keeps; an unknown one fails. -/
def locationRestriction (locationId : Option UUID) : Except Failure (Option String) :=
  match locationId with
  | none => .ok none
  | some l => match g.requireActiveLocation l with
    | .ok () => .ok none
    | .error (.application e) =>
      if e.status = .unprocessableEntity then .ok (some e.message) else .error (.application e)
    | .error e => .error e

end Catalogue

/-! ### Windows -/

/-- The dates from the first to the last. -/
def datesBetween (first last : LocalDate) : List LocalDate :=
  (List.range (last + 1 - first).toNat).map fun n : ℕ => first + (n : ℤ)

/-- The dates whose windows a snapshot of the range reads, each with the day before it. -/
def Hours.snapshotDays (h : Hours) (start stop : Instant) (occurrenceDays : Option (List LocalDate)) :
    List LocalDate :=
  match occurrenceDays with
  | none => datesBetween (h.zone.dateOf start - 1) (h.zone.dateOf stop)
  | some days => (days.flatMap fun day => [day - 1, day]).dedup

/-- `max(comparing(AvailabilityWindow::open))`: the first of the windows that open last. -/
def latestOpening (windows : List AvailabilityWindow) : Option AvailabilityWindow :=
  windows.foldl (fun latest w => if ∀ l ∈ latest, l.1 < w.1 then some w else latest) none

theorem foldl_latestOpening {windows : List AvailabilityWindow} {latest : Option AvailabilityWindow} :
    (∀ w, windows.foldl (fun latest w => if ∀ l ∈ latest, l.1 < w.1 then some w else latest) latest = some w →
      (latest = some w ∨ w ∈ windows) ∧ (∀ v ∈ latest, v.1 ≤ w.1) ∧ ∀ v ∈ windows, v.1 ≤ w.1) ∧
    (windows.foldl (fun latest w => if ∀ l ∈ latest, l.1 < w.1 then some w else latest) latest = none →
      latest = none ∧ windows = []) := by
  induction windows generalizing latest with
  | nil =>
    refine ⟨fun w hw => ⟨.inl hw, fun v hv => ?_, fun _ hv => absurd hv List.not_mem_nil⟩,
      fun hn => ⟨hn, rfl⟩⟩
    obtain rfl : w = v := Option.some.inj (hw.symm.trans hv)
    exact le_rfl
  | cons x windows ih =>
    rw [List.foldl_cons]
    by_cases hx : ∀ l ∈ latest, l.1 < x.1
    · rw [if_pos hx]
      obtain ⟨hsome, hnone⟩ := @ih (some x)
      refine ⟨fun w hw => ?_, fun hn => absurd (hnone hn).1 (by simp)⟩
      obtain ⟨hmem, hle, hall⟩ := hsome w hw
      have hxw : x.1 ≤ w.1 := hle x rfl
      refine ⟨.inr ?_, fun v hv => (hx v hv).le.trans hxw, fun v hv => ?_⟩
      · rcases hmem with h | h
        · cases h
          exact List.mem_cons_self
        · exact List.mem_cons_of_mem _ h
      · rcases List.mem_cons.1 hv with rfl | hv
        · exact hxw
        · exact hall v hv
    · rw [if_neg hx]
      obtain ⟨hsome, hnone⟩ := @ih latest
      push Not at hx
      obtain ⟨l, hl, hxl⟩ := hx
      refine ⟨fun w hw => ?_, fun hn => ?_⟩
      · obtain ⟨hmem, hle, hall⟩ := hsome w hw
        refine ⟨hmem.imp_right (List.mem_cons_of_mem _), hle, fun v hv => ?_⟩
        rcases List.mem_cons.1 hv with rfl | hv
        · exact hxl.trans (hle l hl)
        · exact hall v hv
      · rw [(hnone hn).1] at hl
        cases hl

theorem latestOpening_mem {windows : List AvailabilityWindow} {w : AvailabilityWindow}
    (h : latestOpening windows = some w) : w ∈ windows ∧ ∀ v ∈ windows, v.1 ≤ w.1 := by
  obtain ⟨hmem, -, hall⟩ := foldl_latestOpening.1 w h
  exact ⟨hmem.resolve_left (by simp), hall⟩

theorem latestOpening_eq_none {windows : List AvailabilityWindow} :
    latestOpening windows = none ↔ windows = [] :=
  ⟨fun h => (foldl_latestOpening.2 h).2, fun h => by rw [h]; rfl⟩

def Hours.windowsOf (h : Hours) (locationId : Option UUID) (days : List LocalDate) :
    List AvailabilityWindow :=
  days.filterMap (h.availabilityWindow locationId)

/-! ### Snapshots -/

/-- `findBlockingBetween`. -/
def Db.busyIntervals (db : Db) (employees : List UUID) (start stop : Instant) : List EmployeeInterval :=
  (db.reservations.rows.filter fun r => r.employeeId ∈ employees ∧ r.status.blocksEmployee ∧
    r.overlaps start stop).map fun r => ⟨r.employeeId, r.startTime, r.endTime⟩

/-- `resourceReservationIntervals`. -/
def Db.resourceReservationIntervals (db : Db) (ids : List UUID) (start stop : Instant) :
    List ResourceBusyInterval :=
  db.reservations.rows.filterMap fun r => match r.resourceId with
    | some id => if id ∈ ids ∧ r.status.blocksResource ∧ r.overlaps start stop then
        some ⟨id, r.startTime, r.endTime⟩ else none
    | none => none

def Catalogue.timeOffIntervals (g : Catalogue) (employees : List UUID) (start stop : Instant) :
    List EmployeeInterval :=
  (g.approvedBetween employees start stop).map fun t => ⟨t.employeeId, t.startsAt, t.endsAt⟩

/-- The first part of `prepare`: whether a resource is required, and the resources it looks at. -/
def Catalogue.snapshotCandidates (g : Catalogue) (serviceId : UUID) (resourceId locationId : Option UUID)
    (allowed : Option (List UUID)) (areaId : Option UUID) :
    Except Failure (Bool × List PhysicalResource) := do
  g.requireBookingArea areaId locationId
  let linked ← g.requiresResource serviceId
  let required := linked || resourceId.isSome
  let found ← if required then g.bookingCandidates serviceId resourceId locationId areaId else .ok []
  return (required, found.filter fun v => ∀ ids ∈ allowed, v.id ∈ ids)

/-- The snapshot of a range, with the session intervals and the reading of the clock that it took. -/
def Call.snapshot (c : Call) (db : Db) (required : Bool) (candidates : List PhysicalResource)
    (locationId : Option UUID) (locationRestriction : Option String) (employeeIds : List UUID)
    (start stop : Instant) (days : List LocalDate) (sessions : List ResourceBusyInterval) (now : Instant) :
    Snapshot :=
  let ids := candidates.map (·.id)
  let refs := candidates.filterMap c.catalogue.reference
  let locations :=
    refs.map (fun r => some r.locationId) ++ if locationId.isSome ∨ ¬ required then [locationId] else []
  { required
    locationId
    locationRestriction
    resources := sortById (·.id) refs
    restrictions := fun id => (candidates.find? fun v => v.id = id).bind c.catalogue.bookingRestriction
    windows := locations.dedup.map fun l => (l, c.hours.windowsOf l days)
    employeeBusy := db.busyIntervals employeeIds start stop
    timeOff := c.catalogue.timeOffIntervals employeeIds start stop
    resourceBusy := db.resourceReservationIntervals ids start stop
    sessions
    now }

/-- `resourceSessionIntervals`; without resources nothing is looked up and the clock is not read. -/
def snapshotSessions (ids : List UUID) (start stop : Instant) : Tx (List ResourceBusyInterval) :=
  if ids = [] then pure [] else resourceSessionIntervals ids start stop

/-- `BookingAvailabilityPolicy.prepare`. -/
def prepare (serviceId : UUID) (resourceId locationId : Option UUID) (employeeIds : List UUID)
    (start stop : Instant) (allowed : Option (List UUID)) (occurrenceDays : Option (List LocalDate))
    (areaId : Option UUID) : Tx Snapshot := do
  let c ← ask
  let (required, candidates) ← lift
    (c.catalogue.snapshotCandidates serviceId resourceId locationId allowed areaId)
  let locationRestriction ← lift (c.catalogue.locationRestriction locationId)
  let db ← get
  let sessions ← snapshotSessions (candidates.map (·.id)) start stop
  let now ← instant
  return c.snapshot db required candidates locationId locationRestriction employeeIds start stop
    (c.hours.snapshotDays start stop occurrenceDays) sessions now

namespace Snapshot

variable (s : Snapshot)

/-- Whether one of the intervals blocks the employee in `[start, stop)`. -/
def blocked (intervals : List EmployeeInterval) (employee : UUID) (start stop : Instant) : Bool :=
  intervals.any fun v => v.employeeId = employee ∧ Overlaps v.startTime v.endTime start stop

/-- Whether one of the intervals occupies the resource in `[start, stop)`. -/
def occupied (intervals : List ResourceBusyInterval) (resource : UUID) (start stop : Instant) : Bool :=
  intervals.any fun v => v.resourceId = resource ∧ Overlaps v.startTime v.endTime start stop

def windowsOf (location : Option UUID) : List AvailabilityWindow := (s.windows.lookup location).getD []

/-- `withinHours`: of the windows that contain the start, the one that opened last decides. -/
def withinHours (location : Option UUID) (start stop : Instant) : Bool :=
  (latestOpening ((s.windowsOf location).filter fun w => w.1 ≤ start ∧ start < w.2)).any fun w => stop ≤ w.2

def result (status : BookingSlotStatus) (reason : Option String)
    (resource : Option BookingResourceView) : Assessment :=
  ⟨status, reason, resource, resource.elim s.locationId fun r => some r.locationId⟩

/-- What one resource of the snapshot answers. -/
def assessResource (busy : Bool) (start stop : Instant) (resource : BookingResourceView) : Assessment :=
  match s.restrictions resource.id with
  | some restriction => s.result .unavailable restriction resource
  | none =>
    if ¬ s.withinHours resource.locationId start stop then
      s.result .unavailable (some "Reservation is outside working hours") resource
    else if occupied s.sessions resource.id start stop then
      s.result .occupiedSession (some "Resource has an active gaming session") resource
    else if occupied s.resourceBusy resource.id start stop then
      s.result .occupiedResource (some "Resource has a reservation at this time") resource
    else if busy then s.result .occupiedReservation (some "Employee has a reservation at this time") resource
    else s.result .available none resource

/-- The loop of `assess` over the resources: the first that is available, else the first that is occupied,
else the first that is unavailable. -/
def assessResources (busy : Bool) (start stop : Instant) (taken unavailable : Option Assessment) :
    List BookingResourceView → Assessment
  | [] => (taken.or unavailable).getD (s.result .unavailable (some "No compatible bookable resource") none)
  | resource :: resources =>
    let value := s.assessResource busy start stop resource
    match value.status with
    | .available => value
    | .unavailable => assessResources busy start stop taken (unavailable.or (some value)) resources
    | _ => assessResources busy start stop (taken.or (some value)) unavailable resources

def assess (employee : UUID) (start stop : Instant) : Assessment :=
  let selected := if s.resources.length = 1 then s.resources.head? else none
  if start ≤ s.now then s.result .unavailable (some "Slot must be in the future") selected
  else match s.locationRestriction with
    | some restriction => s.result .unavailable (some restriction) selected
    | none =>
      if blocked s.timeOff employee start stop then
        s.result .unavailable (some "Employee is on approved time off") selected
      else
        let busy := blocked s.employeeBusy employee start stop
        if s.required then s.assessResources busy start stop none none s.resources
        else if ¬ s.withinHours s.locationId start stop then
          s.result .unavailable (some "Reservation is outside working hours") none
        else if busy then s.result .occupiedReservation (some "Employee has a reservation at this time") none
        else s.result .available none none

end Snapshot

section prepare

variable {serviceId : UUID} {resourceId locationId areaId : Option UUID} {employeeIds : List UUID}
  {start stop : Instant} {allowed : Option (List UUID)} {occurrenceDays : Option (List LocalDate)}
  {c : Call} {db db' : Db} {s : Snapshot}

/-- What a snapshot was made from. -/
theorem prepare_eq_ok
    (h : (prepare serviceId resourceId locationId employeeIds start stop allowed occurrenceDays areaId).run
      c db = .ok (s, db')) :
    ∃ required candidates restriction sessions db₁,
      c.catalogue.snapshotCandidates serviceId resourceId locationId allowed areaId = .ok
        (required, candidates) ∧
      c.catalogue.locationRestriction locationId = .ok restriction ∧
      (snapshotSessions (candidates.map (·.id)) start stop).run c db = .ok (sessions, db₁) ∧
      s = c.snapshot db required candidates locationId restriction employeeIds start stop
        (c.hours.snapshotDays start stop occurrenceDays) sessions db₁.clock.next.now ∧
      db' = { db₁ with clock := db₁.clock.next } := by
  simp only [prepare, commits_bind, commits_ask, commits_lift, commits_get, commits_instant] at h
  obtain ⟨_, _, ⟨rfl, rfl⟩, ⟨required, candidates⟩, _, ⟨hc, rfl⟩, restriction, _, ⟨hr, rfl⟩, _, _, ⟨rfl, rfl⟩,
    sessions, db₁, hs, _, _, ⟨rfl, rfl⟩, hp⟩ := h
  obtain ⟨rfl, rfl⟩ := commits_pure.1 hp
  exact ⟨required, candidates, restriction, sessions, db₁, hc, hr, hs, rfl, rfl⟩

theorem lookup_map_of_mem {α β : Type} [BEq α] [LawfulBEq α] (f : α → β) {l : List α} {a : α} (h : a ∈ l) :
    (l.map fun x => (x, f x)).lookup a = some (f a) := by
  induction l with
  | nil => cases h
  | cons x l ih =>
    rcases eq_or_ne a x with rfl | hx
    · simp
    · have hb : (a == x) = false := by simpa using hx
      simpa [List.lookup_cons, hb] using ih ((List.mem_cons.1 h).resolve_left hx)

/-- The windows of a location of the snapshot. -/
theorem prepare_windowsOf
    (h : (prepare serviceId resourceId locationId employeeIds start stop allowed occurrenceDays areaId).run
      c db = .ok (s, db')) {location : Option UUID} (hl : location ∈ s.windows.map Prod.fst) :
    s.windowsOf location = c.hours.windowsOf location (c.hours.snapshotDays start stop occurrenceDays) := by
  obtain ⟨required, candidates, restriction, sessions, db₁, -, -, -, rfl, -⟩ := prepare_eq_ok h
  rw [Snapshot.windowsOf]
  simp only [Call.snapshot, List.map_map, Function.comp_def, List.map_id'] at hl ⊢
  rw [lookup_map_of_mem (fun l => c.hours.windowsOf l _) hl, Option.getD_some]

end prepare

end GManager

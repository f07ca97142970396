import GManager.BookingAgreement
import GManager.Periods

/-!
# Searching for bookable times

`AvailabilityService`: one snapshot of the range of dates that is asked for, read at every start of the grid
for every employee. For whoever may book every resource the slots shown as available are those that a
booking at the same instant accepts, and no start of the grid that could be booked is left out.
-/

namespace GManager

open Txn

/-- `AvailabilityQuery`. -/
structure AvailabilityQuery where
  serviceId : UUID
  employeeId : Option UUID
  fromDate : LocalDate
  toDate : LocalDate
  resourceId : Option UUID
  locationId : Option UUID
  areaId : Option UUID
  durationMinutes : Option ℤ
  deriving DecidableEq, Repr

/-- `AvailabilitySlotResponse`, by its identifiers. -/
structure AvailabilitySlot where
  startTime : Instant
  endTime : Instant
  resourceId : Option UUID
  locationId : Option UUID
  status : BookingSlotStatus
  reason : Option String
  deriving DecidableEq, Repr

structure EmployeeAvailability where
  employeeId : UUID
  slots : List AvailabilitySlot
  deriving DecidableEq, Repr

structure AvailabilityResponse where
  durationMinutes : ℤ
  employees : List EmployeeAvailability
  resourceRequired : Bool
  serverTime : Instant
  deriving DecidableEq, Repr

/-- A call with what the search needs beside it: where the days begin, and the names by
which employees are listed. -/
structure SearchCall where
  call : Call
  startOfDay : LocalDate → Instant
  startOfDay_le : ∀ {d t}, startOfDay d ≤ t ↔ d ≤ call.hours.zone.dateOf t
  name : UUID → String

def maxRangeDays : ℤ := 31

def slotIncrementMinutes : ℤ := 15

/-! ### The grid of starts -/

/-- The instants from the first, `step` apart, before the last. -/
def everyStep (start stop : Instant) (step : ℤ) : List Instant :=
  (List.range ((stop - start + step - 1) / step).toNat).map fun k : ℕ => start + k * step

theorem mem_everyStep {start stop t : Instant} {step : ℤ} (hstep : 0 < step) :
    t ∈ everyStep start stop step ↔ t < stop ∧ ∃ k : ℕ, t = start + k * step := by
  unfold Instant at *
  unfold everyStep
  simp only [List.mem_map, List.mem_range]
  constructor
  · rintro ⟨k, hk, rfl⟩
    refine ⟨?_, k, rfl⟩
    have hlt : (k : ℤ) < (stop - start + step - 1) / step := by omega
    have hle : ((k : ℤ) + 1) * step ≤ stop - start + step - 1 := (Int.le_ediv_iff_mul_le hstep).1 hlt
    linarith [add_one_mul (k : ℤ) step]
  · rintro ⟨hlt, k, rfl⟩
    refine ⟨k, ?_, rfl⟩
    have hle : (k : ℤ) + 1 ≤ (stop - start + step - 1) / step :=
      (Int.le_ediv_iff_mul_le hstep).2 (by linarith [add_one_mul (k : ℤ) step])
    omega

/-- `Snapshot.starts`: the grid from the first instant and the grids from the openings, in ascending order. -/
def Snapshot.starts (s : Snapshot) (start stop : Instant) (incrementMinutes : ℤ) : List Instant :=
  let step := incrementMinutes * 60 * microsPerSecond
  sortBy id (everyStep start stop step ++
    s.windows.flatMap fun (_, windows) => windows.flatMap fun w =>
      (everyStep w.1 w.2 step).filter fun t => start ≤ t ∧ t < stop).dedup

theorem step_pos : 0 < slotIncrementMinutes * 60 * microsPerSecond := by
  unfold slotIncrementMinutes microsPerSecond
  norm_num

theorem Snapshot.mem_starts {s : Snapshot} {start stop t : Instant}
    (h : t ∈ s.starts start stop slotIncrementMinutes) : start ≤ t ∧ t < stop := by
  rw [starts, mem_sortBy, List.mem_dedup, List.mem_append] at h
  rcases h with h | h
  · obtain ⟨hlt, k, rfl⟩ := (mem_everyStep step_pos).1 h
    refine ⟨?_, hlt⟩
    unfold Instant at *
    have hnonneg := mul_nonneg k.cast_nonneg step_pos.le
    omega
  · obtain ⟨⟨_, windows⟩, -, h⟩ := List.mem_flatMap.1 h
    obtain ⟨w, -, h⟩ := List.mem_flatMap.1 h
    simpa using (List.mem_filter.1 h).2

theorem Snapshot.starts_of_grid (s : Snapshot) {start stop : Instant} {k : ℕ}
    (h : start.plusMinutes (k * slotIncrementMinutes) < stop) :
    start.plusMinutes (k * slotIncrementMinutes) ∈ s.starts start stop slotIncrementMinutes := by
  rw [starts, mem_sortBy, List.mem_dedup, List.mem_append]
  refine .inl ((mem_everyStep step_pos).2 ⟨h, k, ?_⟩)
  unfold Instant.plusMinutes Instant.plusSeconds
  unfold Instant at *
  ring

theorem Snapshot.starts_pairwise (s : Snapshot) (start stop : Instant) (increment : ℤ) :
    (s.starts start stop increment).Pairwise (· < ·) := by
  have hle := pairwise_sortBy id ((everyStep start stop (increment * 60 * microsPerSecond) ++
    s.windows.flatMap fun (_, windows) => windows.flatMap fun w =>
      (everyStep w.1 w.2 (increment * 60 * microsPerSecond)).filter fun t => start ≤ t ∧ t < stop).dedup)
  have hnodup := (sortBy_perm id ((everyStep start stop (increment * 60 * microsPerSecond) ++
    s.windows.flatMap fun (_, windows) => windows.flatMap fun w =>
      (everyStep w.1 w.2 (increment * 60 * microsPerSecond)).filter fun t => start ≤ t ∧
        t < stop).dedup)).nodup_iff.2
    (List.nodup_dedup _)
  exact (hle.and hnodup).imp fun h => lt_of_le_of_ne h.1 h.2

/-! ### The search -/

/-- `employees`: the one that is asked for, or all active ones by name. -/
def SearchCall.employees (c : SearchCall) (employeeId : Option UUID) : Except Failure (List User) :=
  match employeeId with
  | none => .ok ((c.call.catalogue.users.rows.filter fun u => u.role = .employee ∧ u.active ∧
      u.deleted = false).insertionSort fun a b => c.name a.id < c.name b.id ∨
      c.name a.id = c.name b.id ∧ a.id ≤ b.id)
  | some id => do
    let employee ← orFail ((c.call.catalogue.users.find? id).filter fun u => !u.deleted)
      (fail .notFound "Employee not found")
    check (employee.active ∧ employee.role = .employee)
      (fail .unprocessableEntity "Selected user is not an active employee")
    return [employee]

/-- One slot of an employee. -/
def Snapshot.slot (s : Snapshot) (employee : UUID) (duration : ℤ) (start : Instant) : AvailabilitySlot :=
  let state := s.assess employee start (start.plusMinutes duration)
  ⟨start, start.plusMinutes duration, state.resource.map (·.id), state.locationId, state.status, state.reason⟩

/-- The service that is asked for, and how long its reservations last. -/
def AvailabilityQuery.service (query : AvailabilityQuery) (c : Call) : Except Failure (CatalogItem × ℤ) := do
  let days := query.toDate - query.fromDate
  check (0 ≤ days ∧ days < maxRangeDays)
    (fail .badRequest "Availability range must contain between 1 and 31 days")
  let service ← c.catalogue.getActiveById query.serviceId
  check (service.type = .service) (fail .unprocessableEntity "Catalog item is not a service")
  let duration ← match query.durationMinutes with
    | none => orFail service.durationMinutes .noSuchElement
    | some _ => c.catalogue.reservationDuration c.settings service query.durationMinutes
  return (service, duration)

/-- `findInternal`; `overview` also shows the slots that cannot be booked. -/
def findInternal (c : SearchCall) (query : AvailabilityQuery) (includeOccupied : Bool) :
    Tx AvailabilityResponse := do
  let (service, duration) ← lift (query.service c.call)
  let employees ← lift (c.employees query.employeeId)
  let start := c.startOfDay query.fromDate
  let stop := c.startOfDay (query.toDate + 1)
  let s ← prepare service.id query.resourceId query.locationId (employees.map (·.id)) start
    (stop.plusMinutes duration) none none query.areaId
  let result := employees.map fun u => ⟨u.id, ((s.starts start stop slotIncrementMinutes).map
    (s.slot u.id duration)).filter fun slot => includeOccupied || slot.status = .available⟩
  let serverTime ← instant
  return ⟨duration, result, s.required, serverTime⟩

/-- The booking of a start for an employee, on the resource asked for. -/
def AvailabilityQuery.booking (query : AvailabilityQuery) (employee : UUID) (resource : Option UUID)
    (start : Instant) : CreateReservationRequest :=
  ⟨some employee, query.serviceId, resource, start, none, query.locationId, none, query.areaId,
    query.durationMinutes⟩

/-! ### Booking what the search shows -/

/-- The booking commits, on this resource. -/
def Call.Books (c : Call) (db : Db) (id customerId employee : UUID) (series : Option UUID)
    (request : CreateReservationRequest) (stop : Instant) (resource : Option UUID) : Prop :=
  ∃ r db', (createForCustomer id customerId request series).run c db = .ok (r, db') ∧ r ∈ db'.reservations ∧
    r.Answers request customerId employee stop ∧ r.resourceId = resource

section booking

variable {c : Call} {db : Db} {id customerId employee : UUID} {series : Option UUID}
  {request : CreateReservationRequest} {stop : Instant} {resource : Option UUID} {required : Bool}
  {candidates : List PhysicalResource}

theorem Bookable.books_iff (h : Bookable c db id employee request stop) (hclock : db.clock.readings = [])
    (hc : c.catalogue.snapshotCandidates request.serviceId request.resourceId request.locationId none
      request.areaId = .ok (required, candidates)) :
    c.Books db id customerId employee series request stop resource ↔ db.clock.now < request.startTime ∧
      (c.choices db request.serviceId request.resourceId request.locationId request.areaId employee
        request.startTime stop db.clock.now).head? = some resource := by
  have hsucceeds : Succeeds (createForCustomer id customerId request series)
    (fun r db' => r ∈ db'.reservations ∧
      r.Answers request customerId employee stop ∧ r.resourceId = resource) c db ↔ _ :=
    h.succeeds_create hclock hc (p := fun r => r = resource) fun r db' hr ha => by simp [hr, ha]
  refine hsucceeds.trans (and_congr_right fun _ => ?_)
  simp

/-- What commits is a booking of what was asked for. -/
theorem Bookable.books_of_commit (h : Bookable c db id employee request stop)
    (hclock : db.clock.readings = []) (hc : c.catalogue.snapshotCandidates request.serviceId
      request.resourceId request.locationId none request.areaId = .ok (required, candidates))
        {r : Reservation} {db' : Db}
    (hcreate : (createForCustomer id customerId request series).run c db = .ok (r, db')) :
    ∃ resource, c.Books db id customerId employee series request stop resource := by
  have hsucceeds : Succeeds (createForCustomer id customerId request series) (fun _ _ => True) c db ↔ _ :=
    h.succeeds_create hclock hc (p := fun _ => True) fun _ _ _ _ => Iff.rfl
  obtain ⟨hnow, chosen, hfirst, -⟩ := hsucceeds.1 ⟨r, db', hcreate, trivial⟩
  exact ⟨chosen, (h.books_iff hclock hc).2 ⟨hnow, hfirst⟩⟩

/-- Every candidate is the only one when it is asked for by itself. -/
theorem snapshotCandidates_own {serviceId : UUID} {resourceId locationId areaId : Option UUID}
    {v : PhysicalResource} {location : UUID}
    (hc : c.catalogue.snapshotCandidates serviceId resourceId locationId none areaId = .ok
      (required, candidates))
    (hv : v ∈ candidates) (hl : c.catalogue.locationId v = .ok location) :
    c.catalogue.snapshotCandidates serviceId (some v.id) locationId none areaId = .ok (true, [v]) := by
  obtain ⟨harea, linked, found, hlinked, rfl, hfound, hcandidates⟩ := Catalogue.snapshotCandidates_eq_ok hc
  obtain rfl : candidates = found := by simpa using hcandidates
  have hall : c.catalogue.resource v.id = .ok v ∧ v.serviceId = serviceId ∧ (∀ l ∈ locationId, l = location) ∧
      ∀ a ∈ areaId, a = v.areaId := by
    split at hfound
    swap
    · cases hfound
      cases hv
    cases resourceId with
    | none =>
      rw [Catalogue.bookingCandidates_none hfound] at hv
      obtain ⟨hv, hplace⟩ := List.mem_filter.1 hv
      obtain ⟨hplace, harea⟩ := of_decide_eq_true hplace
      obtain ⟨hrow, hservice⟩ := List.mem_filter.1 (mem_sortById.1 hv)
      refine ⟨?_, of_decide_eq_true hservice, fun l hl' => ?_, harea⟩
      · rw [Catalogue.resource, Table.find?_eq_some.2 ⟨hrow, rfl⟩]
        rfl
      · exact Except.ok.inj ((hplace l hl').symm.trans hl)
    | some id =>
      obtain ⟨w, place, hw, hplace, hservice, hsame, harea, rfl⟩ := Catalogue.bookingCandidates_some hfound
      obtain rfl := List.mem_singleton.1 hv
      obtain rfl : location = place := Except.ok.inj (hl.symm.trans hplace)
      have hid : v.id = id := (Table.find?_eq_some.1 (orFail_eq_ok.1 hw)).2
      exact ⟨hid ▸ hw, hservice, hsame, harea⟩
  obtain ⟨hresource, hservice, hsame, hin⟩ := hall
  have hfound : c.catalogue.bookingCandidates serviceId (some v.id) locationId areaId = .ok [v] := by
    have hsame' : (check (∀ l ∈ locationId, l = location)
        (fail .unprocessableEntity "Resource does not belong to the selected location")) = .ok () :=
      check_eq_ok.2 hsame
    have hfilter : ((∀ l ∈ locationId, c.catalogue.locationId v = .ok l) ∧ ∀ a ∈ areaId, a = v.areaId) :=
      ⟨fun l hl' => by rw [hsame l hl', hl], hin⟩
    refine bind_eq_ok.2 ⟨(), harea, bind_eq_ok.2 ⟨v, hresource, bind_eq_ok.2 ⟨location, hl, bind_eq_ok.2 ⟨(),
      check_eq_ok.2 hservice, bind_eq_ok.2
        ⟨(), hsame', bind_eq_ok.2 ⟨(), check_eq_ok.2 hin, bind_eq_ok.2 ⟨[v], rfl, ?_⟩⟩⟩⟩⟩⟩⟩
    exact congrArg Except.ok (List.filter_eq_self.2
      fun w hw => by simpa [List.mem_singleton.1 hw] using hfilter)
  refine bind_eq_ok.2 ⟨(), harea, bind_eq_ok.2 ⟨linked, hlinked, ?_⟩⟩
  simp [hfound, bind, Except.bind, pure, Except.pure]

/-- Whoever asks for the resource that is the first choice has no other. -/
theorem choices_own {serviceId : UUID} {resourceId locationId areaId : Option UUID} {start now : Instant}
    {v : UUID} (h : some v ∈ c.choices db serviceId resourceId locationId areaId employee start stop now) :
    ∃ own, c.catalogue.snapshotCandidates serviceId (some v) locationId none areaId = .ok own ∧
      c.choices db serviceId (some v) locationId areaId employee start stop now = [some v] := by
  unfold Call.choices at h
  split at h
  swap
  · cases h
  rename_i required candidates hc hrestriction
  split_ifs at h with hvacant hrequired hopen
  · obtain ⟨w, hw, rfl⟩ : ∃ w ∈ candidates.filter fun v => c.resourceVacant db v start stop now,
        w.id = v := by simpa using h
    obtain ⟨hw, hfree⟩ := List.mem_filter.1 hw
    obtain ⟨location, hl⟩ :=
      exists_location (Catalogue.bookingRestriction_eq_none.1 (of_decide_eq_true hfree).1)
    have hown := snapshotCandidates_own hc hw hl
    refine ⟨_, hown, ?_⟩
    unfold Call.choices
    rw [hown, hrestriction]
    simp [hvacant, hfree]
  all_goals simp at h

end booking

section search

variable {c : SearchCall} {query : AvailabilityQuery} {includeOccupied : Bool} {db db' : Db}
  {response : AvailabilityResponse} {service : CatalogItem} {duration : ℤ} {us : List User}
  {id employee : UUID}

theorem query_service (h : query.service c.call = .ok (service, duration))
    (hpositive : ∀ item ∈ c.call.catalogue.items.rows, ∀ minutes ∈ item.durationMinutes, 0 < minutes) :
    query.fromDate ≤ query.toDate ∧ c.call.catalogue.getActiveById query.serviceId = .ok service ∧
    service.type = .service ∧
      service.id = query.serviceId ∧
      c.call.catalogue.reservationDuration c.call.settings service query.durationMinutes = .ok duration := by
  obtain ⟨_, hdays, h⟩ := bind_eq_ok.1 h
  obtain ⟨item, hitem, h⟩ := bind_eq_ok.1 h
  obtain ⟨_, htype, h⟩ := bind_eq_ok.1 h
  rw [check_eq_ok] at hdays htype
  obtain ⟨row, hrow, hactive⟩ := bind_eq_ok.1 hitem
  obtain ⟨_, -, hsame⟩ := bind_eq_ok.1 hactive
  cases hsame
  obtain ⟨hmem, hid⟩ := Table.find?_eq_some.1 (orFail_eq_ok.1 hrow)
  have hrange : query.fromDate ≤ query.toDate := by
    unfold LocalDate at *
    omega
  cases hasked : query.durationMinutes with
  | none =>
    rw [hasked] at h
    obtain ⟨minutes, hminutes, h⟩ := bind_eq_ok.1 h
    cases h
    have hrow := orFail_eq_ok.1 hminutes
    have hduration : Catalogue.requireDuration service = .ok duration :=
      bind_eq_ok.2 ⟨duration, by rw [hrow]; rfl,
        bind_eq_ok.2 ⟨(), check_eq_ok.2 (hpositive _ hmem _ hrow), rfl⟩⟩
    exact ⟨hrange, hitem, htype, hid, hduration⟩
  | some asked =>
    rw [hasked] at h
    obtain ⟨minutes, hminutes, h⟩ := bind_eq_ok.1 h
    cases h
    exact ⟨hrange, hitem, htype, hid, hminutes⟩

/-- Only active employees are listed. -/
theorem SearchCall.employees_spec {employeeId : Option UUID} (h : c.employees employeeId = .ok us)
    {u : User} (hu : u ∈ us) : c.call.catalogue.users.find? u.id = some u ∧ u.deleted = false ∧
    u.active = true ∧ u.role = .employee := by
  cases employeeId with
  | none =>
    cases h
    obtain ⟨hrow, hactive⟩ := List.mem_filter.1 ((List.perm_insertionSort _ _).mem_iff.1 hu)
    obtain ⟨hrole, hactive, hdeleted⟩ := of_decide_eq_true hactive
    exact ⟨Table.find?_eq_some.2 ⟨hrow, rfl⟩, hdeleted, hactive, hrole⟩
  | some asked =>
    obtain ⟨v, hv, h⟩ := bind_eq_ok.1 h
    obtain ⟨_, hactive, h⟩ := bind_eq_ok.1 h
    cases h
    obtain rfl := List.mem_singleton.1 hu
    obtain ⟨hfind, hdeleted⟩ := Option.filter_eq_some_iff.1 (orFail_eq_ok.1 hv)
    obtain ⟨hactive, hrole⟩ := check_eq_ok.1 hactive
    exact ⟨(Table.find?_eq_some.1 hfind).2 ▸ hfind, by simpa using hdeleted, hactive, hrole⟩

/-- What the search read and what it made of it. -/
theorem findInternal_spec
    (hrun : (findInternal c query includeOccupied).run c.call db = .ok (response, db')) :
    ∃ service duration us s db₁, query.service c.call = .ok (service, duration) ∧
    c.employees query.employeeId = .ok us ∧
      (prepare service.id query.resourceId query.locationId (us.map (·.id)) (c.startOfDay query.fromDate)
        ((c.startOfDay (query.toDate + 1)).plusMinutes duration) none none query.areaId).run c.call db =
        .ok (s, db₁) ∧
      response.employees = us.map fun u =>
      ⟨u.id, ((s.starts (c.startOfDay query.fromDate) (c.startOfDay (query.toDate + 1))
        slotIncrementMinutes).map (s.slot u.id duration)).filter fun slot => includeOccupied ||
        slot.status = .available⟩ := by
  unfold findInternal at hrun
  obtain ⟨⟨service, duration⟩, _, hservice, hsearch⟩ := commits_bind.1 hrun
  obtain ⟨us, _, hus, hread⟩ := commits_bind.1 hsearch
  obtain ⟨s, db₁, hs, hslots⟩ := commits_bind.1 hread
  obtain ⟨_, _, -, hresult⟩ := commits_bind.1 hslots
  obtain ⟨hquery, rfl⟩ := commits_lift.1 hservice
  obtain ⟨hlisted, rfl⟩ := commits_lift.1 hus
  obtain ⟨rfl, -⟩ := commits_pure.1 hresult
  exact ⟨service, duration, us, s, db₁, hquery, hlisted, hs, rfl⟩

variable {s : Snapshot} {employeeIds : List UUID} {lo hi start : Instant}
  {customerId : UUID} {series resourceId locationId
  areaId : Option UUID}

/-- One slot, and the bookings of its start. -/
theorem Snapshot.slot_books (request : CreateReservationRequest) (hclock : db.clock.readings = [])
    (hprepare : (prepare request.serviceId request.resourceId request.locationId employeeIds lo hi none none
      request.areaId).run c.call db = .ok (s, db'))
    (hb : Bookable c.call db id employee request (request.startTime.plusMinutes duration))
    (he : employee ∈ employeeIds) (hlo : lo ≤ request.startTime)
    (hhi : request.startTime.plusMinutes duration ≤ hi) (resource : Option UUID) :
    (s.slot employee duration request.startTime).status = .available ∧
        (s.slot employee duration request.startTime).resourceId = resource ↔
      c.call.Books db id customerId employee series request
        (request.startTime.plusMinutes duration) resource := by
  have hlt := hb.lt
  have hp : c.call.hours.Prepared lo hi none request.startTime := ⟨hlo, hlt.le.trans hhi, by simp⟩
  obtain ⟨candidates, hc, hl, hnow, -, hcovers⟩ := prepare_covers hclock hprepare hp hlt hhi he
  rw [hb.books_iff hclock hc, ← hnow]
  exact hcovers.assess_eq hc hl

/-- The slots of the search and the bookings of the same tables agree: a slot is shown as available just
when a booking of its start commits, on the resource that is shown, whether the booking names it or not; and
no start of the grid on the days asked for is left out that could be booked. -/
theorem search_agrees (customerId : UUID) (series : Option UUID) (hclock : db.clock.readings = [])
    (hrun : (findInternal c query includeOccupied).run c.call db = .ok (response, db'))
    (hactor : c.call.actor.role ≠ .employee) (hfresh : db.reservations.find? id = none)
    (hpositive : ∀ item ∈ c.call.catalogue.items.rows, ∀ minutes ∈ item.durationMinutes, 0 < minutes)
    {u : EmployeeAvailability} (hu : u ∈ response.employees) :
    (∀ slot ∈ u.slots,
      (∀ resource, slot.status = .available ∧ slot.resourceId = resource ↔
        c.call.Books db id customerId u.employeeId series
          (query.booking u.employeeId query.resourceId slot.startTime) slot.endTime resource) ∧
      ∀ v, slot.status = .available → slot.resourceId = some v →
      c.call.Books db id customerId u.employeeId series
        (query.booking u.employeeId (some v) slot.startTime) slot.endTime (some v)) ∧
    (∀ k : ℕ, ∀ t, t = (c.startOfDay query.fromDate).plusMinutes (k * slotIncrementMinutes) →
      c.call.hours.zone.dateOf t ≤ query.toDate → ∀ r db₁, (createForCustomer id customerId
        (query.booking u.employeeId query.resourceId t) series).run c.call db = .ok (r, db₁) →
      ∃ slot ∈ u.slots, slot.startTime = t ∧ slot.status = .available) ∧
    (u.slots.map (·.startTime)).Pairwise (· < ·) := by
  obtain ⟨service, duration, us, s, db₁, hservice, hus, hprepare, hemployees⟩ := findInternal_spec hrun
  obtain ⟨-, hitem, htype, hid, hduration⟩ := query_service hservice hpositive
  rw [hemployees] at hu
  obtain ⟨v, hv, rfl⟩ := List.mem_map.1 hu
  have hactive := c.employees_spec hus hv
  have hmem : v.id ∈ us.map (·.id) := List.mem_map_of_mem hv
  rw [hid] at hprepare
  have hb : ∀ resource t, Bookable c.call db id v.id (query.booking v.id resource t)
      (t.plusMinutes duration) :=
    fun resource t => ⟨hfresh, hactor, ⟨service, duration, hitem, htype, hduration, rfl⟩, ⟨rfl, v, hactive⟩⟩
  have hpos : 0 < duration := Catalogue.reservationDuration_pos hduration
  have hslot :
    ∀ t ∈ s.starts (c.startOfDay query.fromDate) (c.startOfDay (query.toDate + 1)) slotIncrementMinutes,
      ∀ resource, (s.slot v.id duration t).status = .available ∧
      (s.slot v.id duration t).resourceId = resource ↔
        c.call.Books db id customerId v.id series (query.booking v.id query.resourceId t)
          (t.plusMinutes duration)
          resource := by
    intro t ht resource
    obtain ⟨hlo, hhi⟩ := Snapshot.mem_starts ht
    refine Snapshot.slot_books (query.booking v.id query.resourceId t) hclock hprepare (hb _ t) hmem hlo ?_
      resource
    unfold Instant.plusMinutes Instant.plusSeconds
    unfold Instant at *
    show t + _ ≤ _
    omega
  obtain ⟨required, candidates, -, -, hcandidates, -⟩ := prepare_steady hclock hprepare
  refine ⟨?_, ?_, ?_⟩
  · intro slot hs
    obtain ⟨hs, -⟩ := List.mem_filter.1 hs
    obtain ⟨t, ht, rfl⟩ := List.mem_map.1 hs
    refine ⟨hslot t ht, fun w havailable hw => ?_⟩
    obtain ⟨hnow, hfirst⟩ :=
      ((hb _ t).books_iff hclock hcandidates).1 ((hslot t ht (some w)).1 ⟨havailable, hw⟩)
    obtain ⟨own, hown, hchoices⟩ := choices_own (List.mem_of_mem_head? hfirst)
    refine ((hb (some w) t).books_iff hclock hown).2 ⟨hnow, ?_⟩
    exact congrArg List.head? hchoices
  · intro k t ht hdate r db₂ hcreate
    have hlt : t < c.startOfDay (query.toDate + 1) := by
      refine lt_of_not_ge fun hle => ?_
      have hdate' := c.startOfDay_le.1 hle
      unfold LocalDate at *
      omega
    have hmem : t ∈ s.starts (c.startOfDay query.fromDate)
        (c.startOfDay (query.toDate + 1)) slotIncrementMinutes := by
      rw [ht] at hlt ⊢
      exact s.starts_of_grid hlt
    obtain ⟨chosen, hbooks⟩ := (hb _ t).books_of_commit hclock hcandidates hcreate
    have havailable := ((hslot t hmem chosen).2 hbooks).1
    refine ⟨s.slot v.id duration t, List.mem_filter.2 ⟨List.mem_map_of_mem hmem, ?_⟩, rfl, havailable⟩
    simp [havailable]
  · refine List.pairwise_map.2 (List.Pairwise.filter _ (List.pairwise_map.2 ?_))
    exact s.starts_pairwise _ _ _

end search

/-! ### A day of the small installation -/

namespace Arcade

def searchCall : SearchCall where
  call := customerCall
  startOfDay := fun date => date * microsPerDay
  startOfDay_le := by
    intro date t
    show date * microsPerDay ≤ t ↔ date ≤ (t + 0) / microsPerDay
    rw [add_zero, Int.le_ediv_iff_mul_le (by decide)]
  name := fun _ => "Ana"

def today : AvailabilityQuery := ⟨10, none, 0, 0, none, some 20, none, none⟩

theorem search_agrees_today :
    ∃ response db' u, (findInternal searchCall today false).run customerCall morning =
      .ok (response, db') ∧ u ∈ response.employees ∧
    ∃ slot ∈ u.slots, slot.startTime = 36000000000 ∧ slot.status = .available := by
  have hfound : (((findInternal searchCall today false).run customerCall morning).toOption.map fun x =>
      x.1.employees.map (·.employeeId)) = some [3] := by
    decide +kernel
  rcases hrun : (findInternal searchCall today false).run customerCall morning with e | ⟨response, db'⟩
  · rw [hrun] at hfound
    cases hfound
  rw [hrun] at hfound
  have hids : response.employees.map (·.employeeId) = [3] := Option.some.inj hfound
  obtain ⟨u, hu, hid⟩ : ∃ u ∈ response.employees, u.employeeId = 3 := by
    have hmem : 3 ∈ response.employees.map (·.employeeId) := hids ▸ List.mem_singleton.2 rfl
    simpa using hmem
  have hcreated :
    ((createForCustomer 300 2 (today.booking 3 none 36000000000) none).run customerCall morning).isOk =
      true := by
    decide +kernel
  rcases hcreate : (createForCustomer 300 2 (today.booking 3 none 36000000000) none).run customerCall
    morning with e | ⟨r, db₁⟩
  · rw [hcreate] at hcreated
    cases hcreated
  have hfresh : morning.reservations.find? 300 = none := rfl
  have h := search_agrees 2 none rfl hrun (by decide) hfresh (by decide) hu
  refine ⟨response, db', u, rfl, hu, h.2.1 40 36000000000 rfl (by decide) r db₁ ?_⟩
  rw [hid]
  exact hcreate

end Arcade

end GManager

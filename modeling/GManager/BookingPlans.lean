import GManager.AvailabilitySearch
import GManager.DayTimeline

/-!
# Planning a booking

`ReservationPlanningService.plan`, for staff: whether a start can be booked and by whom, and the first
four starts from it on that can be. The snapshot of the day reaches one reservation beyond its end, or
up to the end of the reservation that is planned where that is later; in the second case an alternative
can end after what was read.
-/

namespace GManager

open Txn

structure PlanQuery where
  serviceId : UUID
  employeeId : Option UUID
  resourceId : Option UUID
  locationId : Option UUID
  areaId : Option UUID
  date : LocalDate
  start : Option Instant
  durationMinutes : Option ℤ
  deriving DecidableEq, Repr

structure Alternative where
  startTime : Instant
  endTime : Instant
  resourceId : Option UUID
  employeeId : UUID
  deriving DecidableEq, Repr

structure ReservationBookingPlan where
  serverTime : Instant
  startTime : Option Instant
  endTime : Option Instant
  available : Bool
  reason : Option String
  resourceId : Option UUID
  employeeId : Option UUID
  intervals : List DayInterval
  alternatives : List Alternative
  deriving DecidableEq, Repr

/-- The employees that a plan looks at, by identifier. -/
def Catalogue.planEmployees (g : Catalogue) (employeeId : Option UUID) : Except Failure (List User) :=
  match employeeId with
  | none =>
    .ok (sortById (·.id) (g.users.rows.filter fun u => u.role = .employee ∧ u.active ∧ u.deleted = false))
  | some id => do
    let employee ← orFail ((g.users.find? id).filter fun u => u.role = .employee ∧ u.active ∧
      u.deleted = false) (fail .unprocessableEntity "Selected user is not an active employee")
    return [employee]

/-- The location whose hours the day is shown with. -/
def Catalogue.planLocation (g : Catalogue) (query : PlanQuery) : Except Failure (Option UUID) := do
  g.requireBookingArea query.areaId query.locationId
  match query.resourceId with
  | none => return query.locationId
  | some id => do
    let candidates ← g.bookingCandidates query.serviceId (some id) query.locationId query.areaId
    let first ← orFail candidates.head? .noSuchElement
    let location ← g.locationId first
    return some location

/-- The windows of the day, that of the day before among them where it reaches into it. -/
def SearchCall.planWindows (c : SearchCall) (location : Option UUID) (date : LocalDate) :
    List AvailabilityWindow :=
  ((c.call.hours.availabilityWindow location (date - 1)).filter fun w => c.startOfDay date < w.2).toList ++
    (c.call.hours.availabilityWindow location date).toList

def SearchCall.dayEnd (c : SearchCall) (location : Option UUID) (date : LocalDate) : Instant :=
  match c.call.hours.availabilityWindow location date with
  | some (_, close) => if c.startOfDay (date + 1) < close then close else c.startOfDay (date + 1)
  | none => c.startOfDay (date + 1)

/-- The first employee who is free at a start, with the resource. -/
def Snapshot.proposal (s : Snapshot) (employees : List UUID) (duration : ℤ) (start : Instant) :
    Option Alternative :=
  (employees.find? fun e => (s.assess e start (start.plusMinutes duration)).status = .available).map fun e =>
    ⟨start, start.plusMinutes duration, (s.assess e start (start.plusMinutes duration)).resource.map (·.id),
      e⟩

/-- The loop of `alternatives`. -/
def alternativesLoop (s : Snapshot) (employees : List UUID) (after : Option Instant) (duration : ℤ) :
    List Instant → List Alternative → Tx (List Alternative)
  | [], result => pure result
  | candidate :: candidates, result => do
    let now ← instant
    if candidate ≤ now ∨ ∃ t ∈ after, candidate < t then
      alternativesLoop s employees after duration candidates result
    else
      let result := result ++ (s.proposal employees duration candidate).toList
      if result.length = 4 then pure result else alternativesLoop s employees after duration candidates result

def alternatives (s : Snapshot) (employees : List UUID) (start stop : Instant) (after : Option Instant)
    (duration : ℤ) : Tx (List Alternative) :=
  alternativesLoop s employees after duration (s.starts start stop slotIncrementMinutes) []

/-- The employee who is free, or else the first one, and what the snapshot says of him. -/
def Snapshot.chosen (s : Snapshot) (employees : List UUID) (duration : ℤ) (start : Instant) :
    Option (UUID × Assessment) :=
  ((employees.find? fun e => (s.assess e start (start.plusMinutes duration)).status = .available).or
    employees.head?).map fun e => (e, s.assess e start (start.plusMinutes duration))

/-- The reasons for which a later day is not searched. -/
def lastingReasons : List String :=
  ["No compatible bookable resource", "Station is unavailable for booking",
    "Resource or location is inactive or not bookable"]

/-- The day of one resource. -/
def dayIntervals (c : SearchCall) (query : PlanQuery) (windows : List AvailabilityWindow)
    (start stop : Instant) : Tx (List DayInterval) :=
  match query.resourceId with
  | none => pure []
  | some id => do
    let candidates ← lift (c.call.catalogue.bookingCandidates query.serviceId (some id)
      query.locationId query.areaId)
    let candidate ← orThrow candidates.head? .noSuchElement
    let restricted := candidate.id = id ∧ (c.call.catalogue.bookingRestriction candidate).isSome
    let db ← get
    let sessions ← resourceSessionIntervals [id] start stop
    let busy :=
      (db.resourceReservationIntervals [id] start stop ++ sessions).map fun v => ⟨v.startTime, v.endTime⟩
    return Planning.timeline start stop windows (Planning.merge busy) restricted

/-- The alternatives of the day, or, where the day is full or closed, those of the next days. -/
def planAlternatives (c : SearchCall) (query : PlanQuery) (ids : List UUID) (duration : ℤ)
    (allowed : Option (List UUID)) (chosen : Option (UUID × Assessment)) (day : List Alternative) :
    Tx (List Alternative) :=
  if day = [] ∧ ids ≠ [] ∧ query.start.isSome ∧ ∀ x ∈ chosen, x.2.status ≠ .available ∧
      x.2.reason.getD "" ∉ lastingReasons then do
    let nextDay := c.startOfDay (query.date + 1)
    let through := c.startOfDay (query.date + maxRangeDays)
    let future ← prepare query.serviceId query.resourceId query.locationId ids nextDay
      (through.plusMinutes duration) allowed none query.areaId
    alternatives future ids nextDay through query.start duration
  else pure day

/-- How far the tables are read for the day. -/
def snapshotTo (start : Option Instant) (duration : ℤ) (dayEnd : Instant) : Instant :=
  ((start.map fun t => t.plusMinutes duration).filter fun t => dayEnd < t).getD (dayEnd.plusMinutes duration)

/-- `plan`. -/
def plan (c : SearchCall) (query : PlanQuery) : Tx ReservationBookingPlan := do
  let g := c.call.catalogue
  let actor := c.call.actor
  require (actor.role ≠ .customer) (fail .forbidden "Staff access is required")
  let service ← lift (g.getActiveById query.serviceId)
  require (service.type = .service) (fail .unprocessableEntity "Catalog item is not a service")
  let duration ← lift (g.reservationDuration c.call.settings service query.durationMinutes)
  let allowed := if Catalogue.allResources actor then none else some (g.assignedResources actor)
  require (query.resourceId = none ∨ g.canManage actor query.resourceId) Catalogue.managementDenied
  let employees ← lift (g.planEmployees query.employeeId)
  let location ← lift (g.planLocation query)
  let ids := employees.map (·.id)
  let dayStart := c.startOfDay query.date
  let dayEnd := c.dayEnd location query.date
  let stop := query.start.map fun t => t.plusMinutes duration
  require (∀ t ∈ query.start, c.call.hours.zone.dateOf t = query.date)
    (fail .badRequest "Reservation date does not match its start time")
  let s ← prepare query.serviceId query.resourceId query.locationId ids dayStart
    (snapshotTo query.start duration dayEnd) allowed none query.areaId
  let chosen := query.start.bind (s.chosen ids duration)
  let day ← alternatives s ids dayStart dayEnd query.start duration
  let found ← planAlternatives c query ids duration allowed chosen day
  let intervals ← dayIntervals c query (c.planWindows location query.date) dayStart dayEnd
  let serverTime ← instant
  return ⟨serverTime, query.start, stop, chosen.any fun x => x.2.status = .available,
    chosen.elim (some "No active employee is available") fun x => x.2.reason,
    chosen.bind fun x => x.2.resource.map (·.id), chosen.map (·.1), intervals, found⟩

/-- The booking of a start for an employee. -/
def PlanQuery.booking (query : PlanQuery) (employee : UUID) (resource : Option UUID) (start : Instant) :
    CreateReservationRequest :=
  ⟨some employee, query.serviceId, resource, start, none, query.locationId, none, query.areaId,
    query.durationMinutes⟩

/-! ### The first elements with an answer -/

section first

variable {α β : Type} [Preorder α] {f : α → Option β} {key : β → α} {l : List α} {n : ℕ} {a : α} {b : β}

theorem pairwise_filterMap_key (hl : l.Pairwise (· < ·)) (hkey : ∀ a b, f a = some b → key b = a) :
    ((l.filterMap f).map key).Pairwise (· < ·) := by
  refine List.pairwise_map.2 (List.pairwise_filterMap.2 (hl.imp fun {a a'} hlt b hb b' hb' => ?_))
  rw [hkey a b hb, hkey a' b' hb']
  exact hlt

/-- An answer is among the first ones, or these are all there may be and lie before it. -/
theorem mem_take_filterMap (hl : l.Pairwise (· < ·)) (hkey : ∀ a b, f a = some b → key b = a) (ha : a ∈ l)
    (hb : f a = some b) : b ∈ (l.filterMap f).take n ∨
      ((l.filterMap f).take n).length = n ∧ ∀ b' ∈ (l.filterMap f).take n, key b' < a := by
  have hmem : b ∈ (l.filterMap f).take n ++ (l.filterMap f).drop n := by
    rw [List.take_append_drop]
    exact List.mem_filterMap.2 ⟨a, ha, hb⟩
  refine (List.mem_append.1 hmem).imp_right fun hdrop => ⟨?_, fun b' hb' => ?_⟩
  · have hlong : n < (l.filterMap f).length := by
      by_contra hn
      rw [List.drop_of_length_le (not_lt.1 hn)] at hdrop
      cases hdrop
    rw [List.length_take]
    omega
  · have hsorted := pairwise_filterMap_key hl hkey
    rw [← List.take_append_drop n (l.filterMap f), List.map_append, List.pairwise_append] at hsorted
    rw [← hkey a b hb]
    exact hsorted.2.2 _ (List.mem_map_of_mem hb') _ (List.mem_map_of_mem hdrop)

end first

section plans

variable {c : SearchCall} {query : PlanQuery} {db db' : Db} {s : Snapshot} {ids : List UUID} {duration : ℤ}
  {after : Option Instant} {id employee customerId : UUID} {series : Option UUID} {t lo hi stop : Instant}

theorem Snapshot.proposal_eq_some {a : Alternative} (h : s.proposal ids duration t = some a) :
    a.startTime = t ∧ a.endTime = t.plusMinutes duration ∧ a.employeeId ∈ ids ∧
      (s.slot a.employeeId duration t).status = .available ∧
      (s.slot a.employeeId duration t).resourceId = a.resourceId := by
  obtain ⟨e, he, rfl⟩ := Option.map_eq_some_iff.1 h
  have havailable : (s.assess e t (t.plusMinutes duration)).status = .available := by
    simpa using List.find?_some he
  exact ⟨rfl, rfl, List.mem_of_find?_eq_some he, havailable, rfl⟩

theorem Snapshot.proposal_of_available (he : employee ∈ ids)
    (h : (s.slot employee duration t).status = .available) : ∃ a, s.proposal ids duration t = some a := by
  refine Option.isSome_iff_exists.1 ?_
  rw [Snapshot.proposal, Option.isSome_map, List.find?_isSome]
  exact ⟨employee, he, decide_eq_true h⟩

/-- Somebody is chosen who is free, if anybody is. -/
theorem Snapshot.chosen_available :
    ((s.chosen ids duration t).any fun x => x.2.status = .available) = true ↔
      ∃ e ∈ ids, (s.slot e duration t).status = .available := by
  have hslot : ∀ e, (s.slot e duration t).status = (s.assess e t (t.plusMinutes duration)).status :=
    fun e => rfl
  simp only [hslot, Snapshot.chosen]
  cases hfind : ids.find? fun e => decide ((s.assess e t (t.plusMinutes duration)).status = .available) with
  | some e =>
    have he := List.find?_some hfind
    simp only [Option.some_or, Option.map_some, Option.any_some, he, true_iff]
    exact ⟨e, List.mem_of_find?_eq_some hfind, of_decide_eq_true he⟩
  | none =>
    have hnone : ∀ e ∈ ids, ¬ (s.assess e t (t.plusMinutes duration)).status = .available := by
      simpa using List.find?_eq_none.1 hfind
    constructor
    · cases hids : ids.head? with
      | none => simp
      | some e =>
        intro h
        exact ⟨e, List.mem_of_mem_head? hids, by simpa using h⟩
    · rintro ⟨e, he, h⟩
      exact absurd h (hnone e he)

theorem Snapshot.chosen_slot {e : UUID} {a : Assessment} (h : s.chosen ids duration t = some (e, a)) :
    e ∈ ids ∧ (s.slot e duration t).status = a.status ∧
    (s.slot e duration t).resourceId = a.resource.map (·.id) := by
  obtain ⟨e', he, heq⟩ := Option.map_eq_some_iff.1 h
  cases heq
  refine ⟨?_, rfl, rfl⟩
  rcases Option.or_eq_some_iff.1 he with hfind | ⟨-, hhead⟩
  · exact List.mem_of_find?_eq_some hfind
  · exact List.mem_of_mem_head? hhead

/-- What the loop adds for one candidate at a fixed time. -/
def Snapshot.offer (s : Snapshot) (ids : List UUID) (duration : ℤ) (after : Option Instant)
    (now t : Instant) : Option Alternative :=
  if t ≤ now ∨ ∃ x ∈ after, t < x then none else s.proposal ids duration t

theorem Snapshot.offer_eq_some {a : Alternative} {now : Instant} :
    s.offer ids duration after now t = some a ↔ now < t ∧ (∀ x ∈ after, x ≤ t) ∧
    s.proposal ids duration t = some a := by
  unfold Snapshot.offer
  split_ifs with h
  · simp only [false_iff]
    rintro ⟨hnow, hafter, -⟩
    rcases h with h | ⟨x, hx, h⟩
    · exact not_le.2 hnow h
    · exact not_le.2 h (hafter x hx)
  · push Not at h
    exact ⟨fun hp => ⟨h.1, h.2, hp⟩, fun hp => hp.2.2⟩

/-- The loop takes the first offers, up to four in all. -/
theorem alternativesLoop_spec (hclock : db.clock.readings = []) {candidates : List Instant}
    {result found : List Alternative}
    (hrun : (alternativesLoop s ids after duration candidates result).run c.call db = .ok (found, db'))
    (hlength : result.length < 4) :
    db' = db ∧
      found = result ++ (candidates.filterMap (s.offer ids duration after db.clock.now)).take
        (4 - result.length) := by
  induction candidates generalizing result with
  | nil =>
    obtain ⟨rfl, rfl⟩ := commits_pure.1 hrun
    simp
  | cons t candidates ih =>
    obtain ⟨now, db₁, hnow, hloop⟩ := commits_bind.1 hrun
    obtain ⟨rfl, rfl⟩ : now = db.clock.now ∧ db₁ = db := by
      rw [commits_instant, Clock.next_of_nil hclock] at hnow
      exact hnow
    rw [List.filterMap_cons]
    cases hoffer : s.offer ids duration after db₁.clock.now t with
    | none =>
      by_cases hskip : t ≤ db₁.clock.now ∨ ∃ x ∈ after, t < x
      · rw [if_pos hskip] at hloop
        exact ih hloop hlength
      · rw [if_neg hskip] at hloop
        rw [Snapshot.offer, if_neg hskip] at hoffer
        rw [hoffer, Option.toList_none, List.append_nil, if_neg (by omega)] at hloop
        exact ih hloop hlength
    | some a =>
      obtain ⟨hnow, hafter, hproposal⟩ := Snapshot.offer_eq_some.1 hoffer
      have hskip : ¬ (t ≤ db₁.clock.now ∨ ∃ x ∈ after, t < x) := by
        push Not
        exact ⟨hnow, hafter⟩
      rw [if_neg hskip, hproposal, Option.toList_some] at hloop
      have hlong : (result ++ [a]).length = result.length + 1 := by simp
      have htake : (a :: candidates.filterMap (s.offer ids duration after db₁.clock.now)).take
        (4 - result.length) =
          a :: (candidates.filterMap (s.offer ids duration after db₁.clock.now)).take
            (4 - (result.length + 1)) := by
        obtain ⟨k, hk⟩ : ∃ k, 4 - result.length = k + 1 := ⟨3 - result.length, by omega⟩
        rw [hk, List.take_succ_cons]
        congr 2
        omega
      dsimp only at hloop ⊢
      rw [htake]
      by_cases hfour : (result ++ [a]).length = 4
      · rw [if_pos hfour] at hloop
        obtain ⟨rfl, rfl⟩ := commits_pure.1 hloop
        have hzero : 4 - (result.length + 1) = 0 := by omega
        simp [hzero]
      · rw [if_neg hfour] at hloop
        obtain ⟨rfl, rfl⟩ := ih hloop (by omega)
        simp

theorem alternatives_spec (hclock : db.clock.readings = []) {found : List Alternative}
    (hrun : (alternatives s ids lo stop after duration).run c.call db = .ok (found, db')) : db' = db ∧
      found = ((s.starts lo stop slotIncrementMinutes).filterMap
        (s.offer ids duration after db.clock.now)).take 4 := by
  simpa using alternativesLoop_spec hclock hrun (by simp)

/-! ### What the alternatives are worth -/

theorem Catalogue.planEmployees_spec {g : Catalogue} {employeeId : Option UUID} {us : List User}
    (h : g.planEmployees employeeId = .ok us) {u : User} (hu : u ∈ us) :
    g.users.find? u.id = some u ∧ u.deleted = false ∧ u.active = true ∧ u.role = .employee := by
  cases employeeId with
  | none =>
    cases h
    obtain ⟨hrow, hactive⟩ := List.mem_filter.1 (mem_sortById.1 hu)
    obtain ⟨hrole, hactive, hdeleted⟩ := of_decide_eq_true hactive
    exact ⟨Table.find?_eq_some.2 ⟨hrow, rfl⟩, hdeleted, hactive, hrole⟩
  | some asked =>
    obtain ⟨v, hv, h⟩ := bind_eq_ok.1 h
    cases h
    obtain rfl := List.mem_singleton.1 hu
    obtain ⟨hfind, hactive⟩ := Option.filter_eq_some_iff.1 (orFail_eq_ok.1 hv)
    obtain ⟨hrole, hactive, hdeleted⟩ := of_decide_eq_true hactive
    exact ⟨(Table.find?_eq_some.1 hfind).2 ▸ hfind, hdeleted, hactive, hrole⟩

/-- A query of someone who may book every resource, for a service whose reservations last this long. -/
structure Planned (c : SearchCall) (db : Db) (query : PlanQuery) (id : UUID) (us : List User)
    (duration : ℤ) : Prop where
  fresh : db.reservations.find? id = none
  actor : c.call.actor.role ≠ .employee
  service : ∃ service, c.call.catalogue.getActiveById query.serviceId = .ok service ∧
    service.type = .service ∧
    c.call.catalogue.reservationDuration c.call.settings service query.durationMinutes = .ok duration
  employees : c.call.catalogue.planEmployees query.employeeId = .ok us

variable {us : List User}

theorem Planned.bookable (h : Planned c db query id us duration) {u : User} (hu : u ∈ us)
    (resource : Option UUID) (t : Instant) :
    Bookable c.call db id u.id (query.booking u.id resource t) (t.plusMinutes duration) where
  fresh := h.fresh
  actor := h.actor
  service := by
    obtain ⟨service, hservice, htype, hduration⟩ := h.service
    exact ⟨service, duration, hservice, htype, hduration, rfl⟩
  employee := ⟨rfl, u, Catalogue.planEmployees_spec h.employees hu⟩

/-- The snapshot of a range and the bookings in it. -/
theorem Planned.assess_books (h : Planned c db query id us duration) (hclock : db.clock.readings = [])
    (hprepare : (prepare query.serviceId query.resourceId query.locationId (us.map (·.id)) lo hi none none
      query.areaId).run c.call db = .ok (s, db')) (he : employee ∈ us.map (·.id)) (hlo : lo ≤ t)
        (hhi : t.plusMinutes duration ≤ hi)
    (resource : Option UUID) :
    (s.slot employee duration t).status = .available ∧ (s.slot employee duration t).resourceId = resource ↔
      c.call.Books db id customerId employee series (query.booking employee query.resourceId t)
        (t.plusMinutes duration)
        resource := by
  obtain ⟨u, hu, rfl⟩ := List.mem_map.1 he
  exact Snapshot.slot_books (query.booking u.id query.resourceId t) hclock hprepare
    (h.bookable hu query.resourceId t) he hlo hhi resource

theorem Planned.available_of_commit (h : Planned c db query id us duration) (hclock : db.clock.readings = [])
    (hprepare : (prepare query.serviceId query.resourceId query.locationId (us.map (·.id)) lo hi none none
      query.areaId).run c.call db = .ok (s, db')) {u : User} (hu : u ∈ us) (hlo : lo ≤ t)
        (hhi : t.plusMinutes duration ≤ hi) {r : Reservation}
    {db₁ : Db} (hcreate : (createForCustomer id customerId (query.booking u.id query.resourceId t)
      series).run c.call db = .ok (r, db₁)) : db.clock.now < t ∧
      (s.slot u.id duration t).status = .available := by
  obtain ⟨required, candidates, -, -, hcandidates, -⟩ := prepare_steady hclock hprepare
  have hbookable := h.bookable hu query.resourceId t
  obtain ⟨chosen, hbooks⟩ := hbookable.books_of_commit hclock hcandidates hcreate
  exact ⟨((hbookable.books_iff hclock hcandidates).1 hbooks).1,
    ((h.assess_books hclock hprepare (List.mem_map_of_mem hu) hlo hhi chosen).2 hbooks).1⟩

/-- The alternatives that a plan may show. -/
structure Offered (c : Call) (db : Db) (query : PlanQuery) (id customerId : UUID) (series : Option UUID)
    (found : List Alternative) : Prop where
  books : ∀ a ∈ found, c.Books db id customerId a.employeeId series
    (query.booking a.employeeId query.resourceId a.startTime) a.endTime a.resourceId
  after : ∀ a ∈ found, ∀ t ∈ query.start, t ≤ a.startTime
  ordered : (found.map (·.startTime)).Pairwise (· < ·)
  bounded : found.length ≤ 4

/-- All alternatives of a range that was read to the end of the last of them can be booked. -/
theorem Planned.offered (customerId : UUID) (series : Option UUID) (h : Planned c db query id us duration)
    (hclock : db.clock.readings = [])
    (hprepare : (prepare query.serviceId query.resourceId query.locationId (us.map (·.id)) lo hi none none
      query.areaId).run c.call db = .ok (s, db')) (hhi : stop.plusMinutes duration ≤ hi)
        {found : List Alternative} {db₁ : Db}
    (hrun : (alternatives s (us.map (·.id)) lo stop query.start duration).run c.call db = .ok (found, db₁)) :
    Offered c.call db query id customerId series found := by
  obtain ⟨-, rfl⟩ := alternatives_spec hclock hrun
  have hmem : ∀ a ∈ ((s.starts lo stop slotIncrementMinutes).filterMap
      (s.offer (us.map (·.id)) duration query.start db.clock.now)).take 4,
      ∃ t ∈ s.starts lo stop slotIncrementMinutes, s.offer (us.map (·.id)) duration query.start
        db.clock.now t = some a :=
    fun a ha => List.mem_filterMap.1 (List.mem_of_mem_take ha)
  refine ⟨?_, ?_, ?_, ?_⟩
  · intro a ha
    obtain ⟨t, ht, ha⟩ := hmem a ha
    obtain ⟨hlo, hlt⟩ := Snapshot.mem_starts ht
    obtain ⟨-, -, hproposal⟩ := Snapshot.offer_eq_some.1 ha
    obtain ⟨rfl, hend, he, havailable⟩ := Snapshot.proposal_eq_some hproposal
    rw [hend]
    refine (h.assess_books hclock hprepare he hlo (le_trans ?_ hhi) _).1 havailable
    unfold Instant.plusMinutes Instant.plusSeconds
    unfold Instant at *
    omega
  · intro a ha t ht
    obtain ⟨t', -, ha⟩ := hmem a ha
    obtain ⟨-, hafter, hproposal⟩ := Snapshot.offer_eq_some.1 ha
    rw [(Snapshot.proposal_eq_some hproposal).1]
    exact hafter t ht
  · have hsorted : (((s.starts lo stop slotIncrementMinutes).filterMap
        (s.offer (us.map (·.id)) duration query.start db.clock.now)).map
          Alternative.startTime).Pairwise (· < ·) :=
      pairwise_filterMap_key (s.starts_pairwise _ _ _) fun t a ha =>
        (Snapshot.proposal_eq_some (Snapshot.offer_eq_some.1 ha).2.2).1
    exact hsorted.sublist ((List.take_sublist 4 _).map _)
  · rw [List.length_take]
    omega

/-- What a plan read, and how it put its answer together. -/
theorem plan_spec (id : UUID) {p : ReservationBookingPlan} (hclock : db.clock.readings = [])
    (hrun : (plan c query).run c.call db = .ok (p, db')) (hactor : c.call.actor.role ≠ .employee)
    (hfresh : db.reservations.find? id = none) :
    ∃ us duration location s day, Planned c db query id us duration ∧
      (∀ t ∈ query.start, c.call.hours.zone.dateOf t = query.date) ∧
      (prepare query.serviceId query.resourceId query.locationId (us.map (·.id)) (c.startOfDay query.date)
        (snapshotTo query.start duration (c.dayEnd location query.date)) none none query.areaId).run c.call db =
        .ok (s, db) ∧
      (alternatives s (us.map (·.id)) (c.startOfDay query.date) (c.dayEnd location query.date) query.start
        duration).run c.call db = .ok (day, db) ∧
      (∃ db₁, (planAlternatives c query (us.map (·.id)) duration none
        (query.start.bind (s.chosen (us.map (·.id)) duration)) day).run c.call db = .ok
          (p.alternatives, db₁)) ∧
      p.endTime = query.start.map (fun t => t.plusMinutes duration) ∧
      (p.available = (query.start.bind (s.chosen (us.map (·.id)) duration)).any fun x =>
        x.2.status = .available) ∧
      p.resourceId = (query.start.bind (s.chosen (us.map (·.id)) duration)).bind
        (fun x => x.2.resource.map (·.id)) ∧
      p.employeeId = (query.start.bind (s.chosen (us.map (·.id)) duration)).map (·.1) := by
  unfold plan at hrun
  obtain ⟨_, _, hstaff, h₁⟩ := commits_bind.1 hrun
  obtain ⟨service, _, hservice, h₂⟩ := commits_bind.1 h₁
  obtain ⟨_, _, htype, h₃⟩ := commits_bind.1 h₂
  obtain ⟨duration, _, hduration, h₄⟩ := commits_bind.1 h₃
  obtain ⟨_, _, hmanage, h₅⟩ := commits_bind.1 h₄
  obtain ⟨us, _, hus, h₆⟩ := commits_bind.1 h₅
  obtain ⟨location, _, hlocation, h₇⟩ := commits_bind.1 h₆
  obtain ⟨_, _, hdate, h₈⟩ := commits_bind.1 h₇
  obtain ⟨s, _, hprepare, h₉⟩ := commits_bind.1 h₈
  obtain ⟨day, _, hday, h₁₀⟩ := commits_bind.1 h₉
  obtain ⟨found, _, hfound, h₁₁⟩ := commits_bind.1 h₁₀
  obtain ⟨intervals, _, hintervals, h₁₂⟩ := commits_bind.1 h₁₁
  obtain ⟨_, _, -, hresult⟩ := commits_bind.1 h₁₂
  obtain ⟨hcustomer, rfl⟩ := commits_require.1 hstaff
  obtain ⟨hitem, rfl⟩ := commits_lift.1 hservice
  obtain ⟨hkind, rfl⟩ := commits_require.1 htype
  obtain ⟨hminutes, rfl⟩ := commits_lift.1 hduration
  obtain ⟨-, rfl⟩ := commits_require.1 hmanage
  obtain ⟨hlisted, rfl⟩ := commits_lift.1 hus
  obtain ⟨-, rfl⟩ := commits_lift.1 hlocation
  obtain ⟨hsame, rfl⟩ := commits_require.1 hdate
  have hall : Catalogue.allResources c.call.actor = true := by
    unfold Catalogue.allResources
    cases hrole : c.call.actor.role <;> simp_all
  rw [if_pos hall] at hprepare hfound
  obtain ⟨-, -, -, -, -, -, -, -, rfl⟩ := prepare_steady hclock hprepare
  obtain ⟨rfl, -⟩ := alternatives_spec hclock hday
  obtain ⟨rfl, -⟩ := commits_pure.1 hresult
  exact ⟨us, duration, location, s, day, ⟨hfresh, hactor, ⟨service, hitem, hkind, hminutes⟩, hlisted⟩,
    hsame, hprepare, hday, ⟨_, hfound⟩, rfl, rfl, rfl, rfl⟩

theorem SearchCall.startOfDay_lt (c : SearchCall) {d : LocalDate} (h : c.call.hours.zone.dateOf t < d) :
    t < c.startOfDay d :=
  lt_of_not_ge fun hle => not_le.2 h (c.startOfDay_le.1 hle)

theorem SearchCall.le_dayEnd (c : SearchCall) (location : Option UUID) (date : LocalDate) :
    c.startOfDay (date + 1) ≤ c.dayEnd location date := by
  unfold SearchCall.dayEnd
  split
  · split_ifs with h
    · exact h.le
    · exact le_rfl
  · exact le_rfl

theorem plusMinutes_le {t' : Instant} {minutes : ℤ} (h : t ≤ t') :
    t.plusMinutes minutes ≤ t'.plusMinutes minutes := by
  unfold Instant.plusMinutes Instant.plusSeconds
  unfold Instant at *
  omega

/-- The start that is planned is read to its end. -/
theorem plusMinutes_le_snapshotTo {dayEnd : Instant} (hduration : 0 < duration) :
    t.plusMinutes duration ≤ snapshotTo (some t) duration dayEnd := by
  unfold snapshotTo
  rw [Option.map_some, Option.filter_some]
  split_ifs with h
  · exact le_rfl
  · have hle : t.plusMinutes duration ≤ dayEnd := by simpa using h
    exact hle.trans (lt_plusMinutes hduration).le

theorem snapshotTo_eq {start : Option Instant} {dayEnd : Instant}
    (h : ∀ t ∈ start, t.plusMinutes duration ≤ dayEnd) :
    snapshotTo start duration dayEnd = dayEnd.plusMinutes duration := by
  cases start with
  | none => rfl
  | some t =>
    rw [snapshotTo, Option.map_some, Option.filter_some, if_neg (by simpa using h t rfl)]
    rfl

theorem Planned.duration_pos (h : Planned c db query id us duration) : 0 < duration := by
  obtain ⟨service, -, -, hduration⟩ := h.service
  exact Catalogue.reservationDuration_pos hduration

/-- The alternatives of such a plan can be booked, if the reservation that is planned ends on its own
date, and they are the first: a start of the grid on that date that could be booked is an alternative, or
there are four before it. -/
theorem plan_alternatives_agree (customerId : UUID) (series : Option UUID) {p : ReservationBookingPlan}
    (hclock : db.clock.readings = []) (hrun : (plan c query).run c.call db = .ok (p, db'))
    (hactor : c.call.actor.role ≠ .employee) (hfresh : db.reservations.find? id = none)
    (hend : ∀ stop ∈ p.endTime, c.call.hours.zone.dateOf stop ≤ query.date) :
    Offered c.call db query id customerId series p.alternatives ∧
    ∀ us, c.call.catalogue.planEmployees query.employeeId = .ok us → ∀ u ∈ us, ∀ k : ℕ, ∀ t,
      t = (c.startOfDay query.date).plusMinutes (k * slotIncrementMinutes) →
      c.call.hours.zone.dateOf t ≤ query.date → (∀ start ∈ query.start, start ≤ t) →
      ∀ r db₁, (createForCustomer id customerId
        (query.booking u.id query.resourceId t) series).run c.call db = .ok (r, db₁) →
      (∃ a ∈ p.alternatives, a.startTime = t) ∨ p.alternatives.length = 4 ∧
      ∀ a ∈ p.alternatives, a.startTime < t := by
  obtain ⟨us, duration, location, s, day, hplanned, -, hprepare, hday, ⟨db₁, hfound⟩, hstop, -, -, -⟩ :=
    plan_spec id hclock hrun hactor hfresh
  have hnext : ∀ t, c.call.hours.zone.dateOf t ≤ query.date → t < c.dayEnd location query.date := by
    intro t ht
    refine (c.startOfDay_lt ?_).trans_le (c.le_dayEnd location query.date)
    unfold LocalDate at *
    omega
  have hread : snapshotTo query.start duration (c.dayEnd location query.date) =
      (c.dayEnd location query.date).plusMinutes duration := by
    refine snapshotTo_eq fun start hstart => (hnext _ (hend _ ?_)).le
    rw [hstop]
    exact Option.mem_map_of_mem _ hstart
  have hoffered := hplanned.offered customerId series hclock hprepare hread.ge hday
  have hfirst : ∀ u ∈ us, ∀ k : ℕ, ∀ t, t = (c.startOfDay query.date).plusMinutes (k * slotIncrementMinutes) →
      c.call.hours.zone.dateOf t ≤ query.date → (∀ start ∈ query.start, start ≤ t) →
      ∀ r db₁, (createForCustomer id customerId
        (query.booking u.id query.resourceId t) series).run c.call db = .ok (r, db₁) →
      (∃ a ∈ day, a.startTime = t) ∨ day.length = 4 ∧ ∀ a ∈ day, a.startTime < t := by
    intro u hu k t ht hdate hstart r db₂ hcreate
    have hmem : t ∈ s.starts (c.startOfDay query.date)
        (c.dayEnd location query.date) slotIncrementMinutes := by
      have hlt := hnext t hdate
      rw [ht] at hlt ⊢
      exact s.starts_of_grid hlt
    have hhi : t.plusMinutes duration ≤ snapshotTo query.start duration (c.dayEnd location query.date) :=
      hread ▸ plusMinutes_le (hnext t hdate).le
    obtain ⟨hnow, hfree⟩ :=
      hplanned.available_of_commit hclock hprepare hu (Snapshot.mem_starts hmem).1 hhi hcreate
    obtain ⟨a, ha⟩ := Snapshot.proposal_of_available (List.mem_map_of_mem hu) hfree
    have hoffer := Snapshot.offer_eq_some.2 ⟨hnow, hstart, ha⟩
    obtain ⟨-, rfl⟩ := alternatives_spec hclock hday
    refine (mem_take_filterMap (s.starts_pairwise _ _ _) (fun x b hb => ?_) hmem hoffer).imp_left
      fun hfound =>
      ⟨a, hfound, (Snapshot.proposal_eq_some ha).1⟩
    exact (Snapshot.proposal_eq_some (Snapshot.offer_eq_some.1 hb).2.2).1
  unfold planAlternatives at hfound
  split_ifs at hfound with hlater
  · obtain ⟨future, _, hfuture, hdays⟩ := commits_bind.1 hfound
    obtain ⟨-, -, -, -, -, -, -, -, rfl⟩ := prepare_steady hclock hfuture
    refine ⟨hplanned.offered customerId series hclock hfuture le_rfl hdays, ?_⟩
    intro vs hvs u hu k t ht hdate hstart r db₂ hcreate
    obtain rfl : us = vs := Except.ok.inj (hplanned.employees.symm.trans hvs)
    -- nothing on the date itself can be booked where later days are searched
    rcases hfirst u hu k t ht hdate hstart r db₂ hcreate with ⟨a, ha, -⟩ | ⟨hfour, -⟩
    · rw [hlater.1] at ha
      cases ha
    · rw [hlater.1] at hfour
      cases hfour
  · obtain ⟨hday', -⟩ := commits_pure.1 hfound
    rw [hday']
    refine ⟨hoffered, fun vs hvs => ?_⟩
    obtain rfl : us = vs := Except.ok.inj (hplanned.employees.symm.trans hvs)
    exact hfirst

end plans

/-! ### A plan of the small installation -/

namespace Arcade

def planCall : SearchCall := { searchCall with call := (request 300 0 .purge).call }

def planAtTen : PlanQuery := ⟨10, some 3, none, some 20, none, 0, some 36000000000, none⟩

theorem exists_planAtTen : ∃ p db', (plan planCall planAtTen).run planCall.call morning = .ok (p, db') ∧
    p.endTime = some 39600000000 := by
  have hplanned : (((plan planCall planAtTen).run planCall.call morning).toOption.map fun x => x.1.endTime) =
      some (some 39600000000) := by
    decide +kernel
  rcases hrun : (plan planCall planAtTen).run planCall.call morning with e | ⟨p, db'⟩
  · rw [hrun] at hplanned
    cases hplanned
  · rw [hrun] at hplanned
    exact ⟨p, db', rfl, Option.some.inj hplanned⟩

theorem plan_alternatives_agree_at_ten :
    ∃ p db', (plan planCall planAtTen).run planCall.call morning = .ok (p, db') ∧
    Offered planCall.call morning planAtTen 300 2 none p.alternatives := by
  obtain ⟨p, db', hrun, hend⟩ := exists_planAtTen
  have hfresh : morning.reservations.find? 300 = none := rfl
  refine ⟨p, db', hrun, (plan_alternatives_agree 2 none rfl hrun (by decide) hfresh ?_).1⟩
  intro stop hstop
  obtain rfl : 39600000000 = stop := Option.some.inj (hend.symm.trans hstop)
  decide

end Arcade

end GManager

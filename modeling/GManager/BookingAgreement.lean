import GManager.Vacancies
import GManager.Reservations

/-!
# Availability agrees with booking

`createForCustomer` books what a snapshot of the same tables names, and fails where the snapshot finds
nothing. Both are compared with `Call.choices`: a booking for a fixed employee takes the first of them.
-/

namespace GManager

open Txn

section booking

variable {c : Call} {db : Db} {serviceId id employee : UUID} {resourceId locationId areaId : Option UUID}
  {start stop now : Instant} {required linked : Bool} {candidates : List PhysicalResource}
  {v : PhysicalResource}

theorem succeeds_instant_steady (hclock : db.clock.readings = []) {Q : Instant → Db → Prop} :
    Succeeds instant Q c db ↔ Q db.clock.now db := by
  rw [succeeds_instant, Clock.next_of_nil hclock]

theorem succeeds_isResourceAvailable (hclock : db.clock.readings = []) {Q : Bool → Db → Prop} :
    Succeeds (isResourceAvailableForUpdate id start stop none) Q c db ↔
      Q ((db.resourceConflicts id start stop none).isEmpty && (db.sessionIntervals [id] start stop).isEmpty &&
        (db.waitingIntervals [id] start stop db.clock.now).isEmpty) db := by
  unfold isResourceAvailableForUpdate resourceSessionIntervals
  simp only [succeeds_bind, succeeds_get, succeeds_ite, succeeds_instant_steady hclock, succeeds_pure]
  cases (db.resourceConflicts id start stop none).isEmpty <;>
    cases (db.sessionIntervals [id] start stop) <;> simp

theorem reference_of_location {location : UUID} (hl : c.catalogue.locationId v = .ok location) :
    c.catalogue.reference v = some ⟨v.id, location, v.areaId⟩ := by
  obtain ⟨a, ha, hl⟩ := bind_eq_ok.1 hl
  cases hl
  rw [Catalogue.reference, orFail_eq_ok.1 ha]
  rfl

theorem exists_location {serviceId : UUID} {bookable : Bool}
    (h : c.catalogue.isBookableState v serviceId = .ok bookable) :
    ∃ location, c.catalogue.locationId v = .ok location := by
  obtain ⟨a, ha, -⟩ := bind_eq_ok.1 h
  exact ⟨a.locationId, by rw [Catalogue.locationId, ha]; rfl⟩

/-- A resource is vacant when it is bookable, open and free. -/
theorem resourceVacant_iff {location : UUID} (hl : c.catalogue.locationId v = .ok location) :
    c.resourceVacant db v start stop db.clock.now = true ↔
    c.catalogue.isBookableState v v.serviceId = .ok true ∧
      c.hours.validateWithinWorkingHours (some location) start stop = .ok () ∧
      ((db.resourceConflicts v.id start stop none).isEmpty &&
        (db.sessionIntervals [v.id] start stop).isEmpty &&
        (db.waitingIntervals [v.id] start stop db.clock.now).isEmpty) = true := by
  simp [Call.resourceVacant, Call.placeOpen, reference_of_location hl,
    Catalogue.bookingRestriction_eq_none, and_assoc]

theorem lockBookable_eq_ok : c.catalogue.lockBookable id serviceId = .ok v ↔
    c.catalogue.resource id = .ok v ∧ c.catalogue.isBookableState v serviceId = .ok true := by
  constructor
  · intro h
    obtain ⟨w, hw, h⟩ := bind_eq_ok.1 h
    obtain ⟨u, hu, h⟩ := bind_eq_ok.1 h
    obtain ⟨bookable, hb, hcheck⟩ := bind_eq_ok.1 hu
    cases h
    obtain rfl : bookable = true := check_eq_ok.1 hcheck
    exact ⟨hw, hb⟩
  · rintro ⟨hv, hb⟩
    exact bind_eq_ok.2 ⟨v, hv, bind_eq_ok.2 ⟨(), bind_eq_ok.2 ⟨true, hb, check_eq_ok.2 rfl⟩, rfl⟩⟩

theorem active_of_isBookableState (h : c.catalogue.isBookableState v serviceId = .ok true) :
    v.active = true ∧ v.bookable = true := by
  obtain ⟨a, -, h⟩ := bind_eq_ok.1 h
  obtain ⟨l, -, h⟩ := bind_eq_ok.1 h
  have hall := of_decide_eq_true (Except.ok.inj h)
  exact ⟨hall.1, hall.2.1⟩

theorem conflict_of_validate {location : Option UUID} {e : Failure} (hlt : start < stop)
    (h : c.hours.validateWithinWorkingHours location start stop = .error e) :
    ∃ a, e = .application a ∧ a.status = .conflict := by
  unfold Hours.validateWithinWorkingHours at h
  rw [if_neg (not_not.2 hlt)] at h
  split at h
  · cases h
    exact ⟨_, rfl, rfl⟩
  · split_ifs at h
    cases h
    exact ⟨_, rfl, rfl⟩

/-- The loop over bookable resources ends with the first one that is vacant. -/
theorem succeeds_firstFree (hclock : db.clock.readings = []) (hlt : start < stop) {vs : List PhysicalResource}
    (hvs : ∀ v ∈ vs, c.catalogue.isBookableState v v.serviceId = .ok true)
    {Q : Option PhysicalResource → Db → Prop} : Succeeds (firstFree start stop vs) Q c db ↔
    Q (vs.find? fun v => c.resourceVacant db v start stop db.clock.now) db := by
  induction vs with
  | nil => simp [firstFree]
  | cons v vs ih =>
    have hbookable := hvs v List.mem_cons_self
    have hrest := ih fun w hw => hvs w (List.mem_cons_of_mem _ hw)
    obtain ⟨location, hl⟩ := exists_location hbookable
    have hiff : c.resourceVacant db v start stop db.clock.now = true ↔ _ := resourceVacant_iff hl
    unfold firstFree
    simp only [succeeds_bind, succeeds_ask, succeeds_lift, hl, Except.ok.injEq,
      exists_eq_left', List.find?_cons]
    cases hv : c.hours.validateWithinWorkingHours (some location) start stop with
    | error e =>
      obtain ⟨a, rfl, ha⟩ := conflict_of_validate hlt hv
      have hno : c.resourceVacant db v start stop db.clock.now = false := by
        rw [Bool.eq_false_iff, ne_eq, hiff, hv]
        simp
      simp only [ha, if_true, hno]
      exact hrest
    | ok u =>
      rw [hv, and_iff_right hbookable, and_iff_right rfl] at hiff
      simp only [succeeds_bind, succeeds_isResourceAvailable hclock, succeeds_ite, succeeds_pure, ← hiff]
      cases c.resourceVacant db v start stop db.clock.now with
      | false => simpa using hrest
      | true => simp

/-- A booking takes the first vacant candidate. -/
theorem succeeds_selectForBooking (hclock : db.clock.readings = []) (hlt : start < stop)
    (hc : c.catalogue.snapshotCandidates serviceId resourceId locationId none areaId = .ok
      (required, candidates))
    {Q : Option PhysicalResource → Db → Prop} :
    Succeeds (selectForBooking serviceId resourceId locationId start stop none areaId) Q c db ↔
      if required then
        ∃ v, (candidates.find? fun v => c.resourceVacant db v start stop db.clock.now) = some v ∧
        Q (some v) db
      else Q none db := by
  obtain ⟨harea, linked, found, hlinked, rfl, hfound, hcandidates⟩ := Catalogue.snapshotCandidates_eq_ok hc
  obtain rfl : candidates = found := by simpa using hcandidates
  unfold selectForBooking
  simp only [succeeds_bind, succeeds_ask, succeeds_lift, harea, exists_const, true_and]
  cases resourceId with
  | some id =>
    rw [if_pos (by simp)] at hfound
    obtain ⟨v, location, hv, hl, rfl, hsame, hplace, rfl⟩ := Catalogue.bookingCandidates_some hfound
    have hiff : c.resourceVacant db v start stop db.clock.now = true ↔ _ := resourceVacant_iff hl
    simp only [succeeds_bind, succeeds_require, succeeds_lift, requireResourceAvailableForUpdate,
      succeeds_isResourceAvailable hclock, succeeds_pure, lockBookable_eq_ok, hv, Except.ok.injEq,
      Option.isSome_some, Bool.or_true, if_true]
    cases hvacant : c.resourceVacant db v start stop db.clock.now with
    | false =>
      rw [hvacant] at hiff
      simp only [List.find?_cons, hvacant, List.find?_nil, reduceCtorEq, false_and, exists_false, iff_false]
      rintro ⟨-, w, ⟨rfl, hbookable⟩, place, hp, -, -, u, hopen, hfree, -⟩
      obtain rfl : location = place := Except.ok.inj (hl.symm.trans hp)
      exact absurd (hiff.2 ⟨hbookable, hopen, hfree⟩) Bool.false_ne_true
    | true =>
      obtain ⟨hbookable, hopen, hfree⟩ := hiff.1 hvacant
      simp only [List.find?_cons, hvacant, Option.some.injEq, exists_eq_left']
      constructor
      · rintro ⟨-, w, ⟨rfl, -⟩, place, -, -, -, u, -, -, hq⟩
        exact hq
      · exact fun hq => ⟨by simp, v, ⟨rfl, hbookable⟩, location, hl, hsame, hplace, (), hopen, hfree, hq⟩
  | none =>
    simp only [succeeds_bind, succeeds_lift, hlinked, Except.ok.injEq, exists_eq_left', succeeds_ite,
      Option.isSome_none, Bool.or_false]
    cases linked with
    | false => simp
    | true =>
      rw [Option.isSome_none, Bool.or_false, if_pos rfl] at hfound
      have hcandidates := Catalogue.bookingCandidates_none hfound
      have hservice : ∀ v ∈ c.catalogue.findByServiceIdOrderByIdAsc serviceId, v.serviceId = serviceId := by
        intro v hv
        simpa using (List.mem_filter.1 (mem_sortById.1 hv)).2
      have hvs : ∀ v ∈ c.catalogue.bookableResources serviceId locationId none areaId,
          c.catalogue.isBookableState v v.serviceId = .ok true := by
        intro v hv
        obtain ⟨hv, hfilter⟩ := List.mem_filter.1 hv
        rw [hservice v hv]
        exact (of_decide_eq_true hfilter).2.2.1
      have hfind : (c.catalogue.bookableResources serviceId locationId none areaId).find?
          (fun v => c.resourceVacant db v start stop db.clock.now) =
          candidates.find? fun v => c.resourceVacant db v start stop db.clock.now := by
        rw [hcandidates, Catalogue.bookableResources, List.find?_filter, List.find?_filter]
        refine List.find?_congr fun v hv => ?_
        cases hvacant : c.resourceVacant db v start stop db.clock.now with
        | false => simp
        | true =>
          have hbookable : c.catalogue.isBookableState v v.serviceId = .ok true :=
            Catalogue.bookingRestriction_eq_none.1 (of_decide_eq_true hvacant).1
          rw [hservice v hv] at hbookable
          obtain ⟨hactive, hfree⟩ := active_of_isBookableState hbookable
          simp [hactive, hfree, hbookable]
      simp only [succeeds_firstFree hclock hlt hvs, hfind, succeeds_orThrow, succeeds_pure, if_true,
        forall_const, not_true_eq_false, false_implies, and_true]

/-! ### The employee and the duration -/

theorem succeeds_selectEmployee {u : User} (hu : c.catalogue.users.find? employee = some u)
    (hdeleted : u.deleted = false) (hactive : u.active = true ∧ u.role = .employee) {Q : User → Db → Prop} :
    Succeeds (selectEmployee (some employee) start stop) Q c db ↔
      c.employeeVacant db employee start stop = true ∧ Q u db := by
  obtain rfl := (Table.find?_eq_some.1 hu).2
  unfold selectEmployee requireAvailableForUpdate isAvailableForUpdate
  simp [hu, hdeleted, hactive, Call.employeeVacant, and_comm]

/-- An admitted duration is positive. -/
theorem Catalogue.reservationDuration_pos {g : Catalogue} {settings : Settings} {service : CatalogItem}
    {requested : Option ℤ} {minutes : ℤ}
    (h : g.reservationDuration settings service requested = .ok minutes) : 0 < minutes := by
  have hfixed : ∀ {minutes : ℤ}, Catalogue.requireDuration service = .ok minutes → 0 < minutes := by
    intro minutes h
    obtain ⟨duration, -, h⟩ := bind_eq_ok.1 h
    obtain ⟨_, hpos, h⟩ := bind_eq_ok.1 h
    cases h
    exact check_eq_ok.1 hpos
  cases requested with
  | none => exact hfixed h
  | some requested =>
    obtain ⟨rules, hrules, h⟩ := bind_eq_ok.1 h
    obtain ⟨_, hvariable, h⟩ := bind_eq_ok.1 h
    obtain ⟨_, hrange, h⟩ := bind_eq_ok.1 h
    cases h
    have hmin := (check_eq_ok.1 hrange).1
    obtain ⟨duration, hduration, hrules⟩ := bind_eq_ok.1 hrules
    have hpos := hfixed hduration
    dsimp only at hrules
    split at hrules <;> cases hrules
    · have := le_max_left (30 : ℤ) settings.minimumDurationMinutes
      dsimp only at hmin
      omega
    · dsimp only at hmin
      omega

theorem lt_plusMinutes {t : Instant} {minutes : ℤ} (h : 0 < minutes) : t < t.plusMinutes minutes := by
  unfold Instant.plusMinutes Instant.plusSeconds microsPerSecond
  unfold Instant at *
  omega

theorem succeeds_serviceDuration {service : CatalogItem} {request : CreateReservationRequest} {minutes : ℤ}
    (hservice : c.catalogue.getActiveById request.serviceId = .ok service) (htype : service.type = .service)
    (hduration : c.catalogue.reservationDuration c.settings service request.durationMinutes = .ok minutes)
    {Q : ℤ → Db → Prop} :
    Succeeds (serviceDuration request) Q c db ↔ Q minutes db := by
  unfold serviceDuration
  simp only [succeeds_bind, succeeds_ask, succeeds_lift, hservice, Except.ok.injEq, exists_eq_left',
    succeeds_require, htype, true_and]
  cases hrequested : request.durationMinutes with
  | some requested =>
    rw [hrequested] at hduration
    simp [hduration]
  | none =>
    rw [hrequested] at hduration
    obtain ⟨duration, hd, h⟩ := bind_eq_ok.1 hduration
    obtain ⟨_, -, h⟩ := bind_eq_ok.1 h
    cases h
    simp [orFail_eq_ok.1 hd]

/-! ### The place -/

theorem locationRestriction_eq_none : c.catalogue.locationRestriction locationId = .ok none ↔
    (match locationId with
      | some l => c.catalogue.requireActiveLocation l
      | none => .ok ()) = .ok () := by
  cases locationId with
  | none => simp [Catalogue.locationRestriction]
  | some l =>
    unfold Catalogue.locationRestriction
    cases h : c.catalogue.requireActiveLocation l with
    | ok u => simp [h]
    | error e =>
      cases e with
      | application a => by_cases ha : a.status = .unprocessableEntity <;> simp [h, ha]
      | _ => simp [h]

theorem succeeds_bookingLocation_some {Q : Option UUID → Db → Prop} :
    Succeeds (bookingLocation (some v) locationId) Q c db ↔ ∃ l, c.catalogue.locationId v = .ok l ∧
    Q (some l) db := by
  simp [bookingLocation]

theorem succeeds_bookingLocation_none {Q : Option UUID → Db → Prop} :
    Succeeds (bookingLocation none locationId) Q c db ↔
      c.catalogue.locationRestriction locationId = .ok none ∧ Q locationId db := by
  rw [locationRestriction_eq_none]
  unfold bookingLocation
  simp only [succeeds_bind, succeeds_ask, succeeds_lift, succeeds_pure]
  constructor
  · rintro ⟨u, hu, hq⟩
    exact ⟨hu, hq⟩
  · rintro ⟨hu, hq⟩
    exact ⟨(), hu, hq⟩

theorem requireActiveLocation_of_bookable {l : UUID} (hl : c.catalogue.locationId v = .ok l)
    (hb : c.catalogue.isBookableState v serviceId = .ok true) :
    c.catalogue.requireActiveLocation l = .ok () := by
  obtain ⟨a, ha, hl⟩ := bind_eq_ok.1 hl
  cases hl
  obtain ⟨a', ha', hb⟩ := bind_eq_ok.1 hb
  obtain rfl : a = a' := Except.ok.inj (ha.symm.trans ha')
  obtain ⟨place, hplace, hb⟩ := bind_eq_ok.1 hb
  have hall := of_decide_eq_true (Except.ok.inj hb)
  exact bind_eq_ok.2 ⟨place, hplace, check_eq_ok.2 hall.2.2.2.2.2⟩

theorem Catalogue.mem_snapshotCandidates
    (hc : c.catalogue.snapshotCandidates serviceId resourceId locationId none areaId = .ok
      (required, candidates))
    (hv : v ∈ candidates) : ∀ l ∈ locationId, c.catalogue.locationId v = .ok l := by
  obtain ⟨-, linked, found, -, -, hfound, hcandidates⟩ := Catalogue.snapshotCandidates_eq_ok hc
  have hmem : v ∈ found := List.mem_of_mem_filter (hcandidates ▸ hv)
  split at hfound
  · cases resourceId with
    | none =>
      rw [Catalogue.bookingCandidates_none hfound] at hmem
      exact (of_decide_eq_true (List.mem_filter.1 hmem).2).1
    | some id =>
      obtain ⟨w, location, -, hl, -, hsame, -, rfl⟩ := Catalogue.bookingCandidates_some hfound
      obtain rfl := List.mem_singleton.1 hmem
      intro l hmem
      rw [hsame l hmem, hl]
  · cases hfound
    cases hmem

/-- The location that is asked for is active where a candidate is vacant. -/
theorem locationRestriction_of_vacant
    (hc : c.catalogue.snapshotCandidates serviceId resourceId locationId none areaId = .ok
      (required, candidates))
    (hv : v ∈ candidates) (hvacant : c.resourceVacant db v start stop now = true) :
    c.catalogue.locationRestriction locationId = .ok none := by
  have hbookable := Catalogue.bookingRestriction_eq_none.1 (of_decide_eq_true hvacant).1
  rw [locationRestriction_eq_none]
  cases hlocation : locationId with
  | none => rfl
  | some l =>
    exact requireActiveLocation_of_bookable (Catalogue.mem_snapshotCandidates hc hv l hlocation) hbookable

/-! ### Creating -/

/-- The reservation is what was asked for. -/
structure Reservation.Answers (r : Reservation) (request : CreateReservationRequest)
    (customerId employee : UUID) (stop : Instant) : Prop where
  customer : r.customerId = customerId
  employee : r.employeeId = employee
  service : r.serviceId = request.serviceId
  start : r.startTime = request.startTime
  stop : r.endTime = stop

/-- A request for a fixed employee by someone who may book every resource, and its end. -/
structure Bookable (c : Call) (db : Db) (id employee : UUID) (request : CreateReservationRequest)
    (stop : Instant) : Prop where
  fresh : db.reservations.find? id = none
  actor : c.actor.role ≠ .employee
  service : ∃ service minutes, c.catalogue.getActiveById request.serviceId = .ok service ∧
    service.type = .service ∧
    c.catalogue.reservationDuration c.settings service request.durationMinutes = .ok minutes ∧
    stop = request.startTime.plusMinutes minutes
  employee : request.employeeId = some employee ∧ ∃ u, c.catalogue.users.find? employee = some u ∧
    u.deleted = false ∧ u.active = true ∧ u.role = .employee

theorem Bookable.lt {request : CreateReservationRequest} (h : Bookable c db id employee request stop) :
    request.startTime < stop := by
  obtain ⟨service, minutes, -, -, hduration, rfl⟩ := h.service
  exact lt_plusMinutes (Catalogue.reservationDuration_pos hduration)

theorem Bookable.requireManage {request : CreateReservationRequest} {ids : List (Option UUID)}
    (h : Bookable c db id employee request stop) : (if c.actor.role ≠ .customer ∧ ¬ decide False = true then
      c.catalogue.requireManageForUpdate c.actor ids else .ok ()) = .ok () := by
  have hactor := h.actor
  cases hrole : c.actor.role with
  | employee => exact absurd hrole hactor
  | customer => simp
  | _ => simp [Catalogue.requireManageForUpdate, Catalogue.allResources, hrole]

theorem succeeds_insertReservation {r : Reservation} {P : Db → Prop} {p : Prop}
    (hfresh : db.reservations.find? r.id = none) (hP : ∀ db', r ∈ db'.reservations → (P db' ↔ p)) :
    Succeeds (insertReservation r) (fun _ db' => P db') c db ↔ p := by
  unfold insertReservation
  rw [succeeds_insertRow]
  obtain ⟨t, ht⟩ := Table.insert_of_fresh (Table.find?_eq_none.1 hfresh)
  have hp := hP { db with reservations := t } ((Table.mem_insert ht).2 (.inr rfl))
  rw [ht]
  simp [hp]

/-- A request succeeds just where there is a choice, and books the first. -/
theorem Bookable.succeeds_create {request : CreateReservationRequest} {customerId : UUID}
    {series : Option UUID} (h : Bookable c db id employee request stop) (hclock : db.clock.readings = [])
    (hc : c.catalogue.snapshotCandidates request.serviceId request.resourceId request.locationId none
      request.areaId = .ok (required, candidates)) {P : Reservation → Db → Prop} {p : Option UUID → Prop}
    (hP : ∀ r db', r ∈ db'.reservations → r.Answers request customerId employee stop →
      (P r db' ↔ p r.resourceId)) :
    Succeeds (createForCustomer id customerId request series) P c db ↔ db.clock.now < request.startTime ∧
      ∃ chosen, (c.choices db request.serviceId request.resourceId request.locationId request.areaId employee
        request.startTime stop db.clock.now).head? = some chosen ∧ p chosen := by
  obtain ⟨service, minutes, hservice, htype, hduration, hstop⟩ := h.service
  obtain ⟨hemployee, u, hu, hdeleted, hactive⟩ := h.employee
  obtain ⟨linked, hlinked⟩ : ∃ linked, c.catalogue.requiresResource request.serviceId = .ok linked := by
    obtain ⟨-, linked, found, hlinked, -⟩ := Catalogue.snapshotCandidates_eq_ok hc
    exact ⟨linked, hlinked⟩
  have hlt := h.lt
  unfold createForCustomer
  simp only [succeeds_bind, succeeds_ask, succeeds_instant_steady hclock, succeeds_require, succeeds_lift,
    succeeds_serviceDuration hservice htype hduration, ← hstop, hlinked, Except.ok.injEq, exists_eq_left',
    h.actor, false_and, if_false,
    hemployee, succeeds_selectEmployee hu hdeleted hactive, succeeds_selectForBooking hclock hlt hc]
  refine and_congr_right fun _ => ?_
  have hmanage : ∀ ids, (if c.actor.role ≠ .customer ∧ ¬ decide False = true then
      c.catalogue.requireManageForUpdate c.actor ids else .ok ()) = .ok () := fun ids => h.requireManage
  have hinsert : ∀ {r : Reservation}, r.id = id → r.customerId = customerId → r.employeeId = u.id →
      r.serviceId = request.serviceId → r.startTime = request.startTime →
      r.endTime = stop →
      (Succeeds (insertReservation r) (fun _ db' => P r db') c db ↔ p r.resourceId) := by
    intro r hid hcustomer he hs hstart hstop
    exact succeeds_insertReservation (hid ▸ h.fresh) fun db' hr =>
      hP r db' hr ⟨hcustomer, he.trans (Table.find?_eq_some.1 hu).2, hs, hstart, hstop⟩
  simp only [hmanage, succeeds_pure, exists_const, true_and, succeeds_bookingLocation_some,
    succeeds_bookingLocation_none, hinsert]
  unfold Call.choices
  rw [hc]
  by_cases hvacant : c.employeeVacant db employee request.startTime stop = true
  swap
  · rw [Bool.not_eq_true] at hvacant
    rw [hvacant]
    simp only [Bool.false_eq_true, false_and, if_false, false_iff]
    split <;> simp
  rw [and_iff_right hvacant, hvacant]
  cases required with
  | true =>
    simp only [if_true]
    cases hfind : candidates.find? fun v =>
        c.resourceVacant db v request.startTime stop db.clock.now with
    | none =>
      simp only [reduceCtorEq, false_and, exists_false, false_iff]
      cases c.catalogue.locationRestriction request.locationId with
      | error e => simp
      | ok restriction => cases restriction <;> simp [List.head?_filter, hfind]
    | some v =>
      have hv : c.resourceVacant db v request.startTime stop db.clock.now = true := by
        simpa using List.find?_some hfind
      rw [locationRestriction_of_vacant hc (List.mem_of_find?_eq_some hfind) hv]
      obtain ⟨location, hl⟩ :=
        exists_location (Catalogue.bookingRestriction_eq_none.1 (of_decide_eq_true hv).1)
      have hopen := ((resourceVacant_iff hl).1 hv).2.1
      simp [List.head?_filter, hfind, hl, hopen]
  | false =>
    simp only [Bool.false_eq_true, if_false]
    cases hr : c.catalogue.locationRestriction request.locationId with
    | error e => simp
    | ok restriction =>
      cases restriction with
      | some message => simp
      | none =>
        by_cases hopen : c.placeOpen request.locationId request.startTime stop = true
        · simp [hopen, of_decide_eq_true hopen]
        · have hclosed : ¬ ∃ u, c.hours.validateWithinWorkingHours request.locationId
              request.startTime stop = .ok u := by
            rintro ⟨u, hu⟩
            exact hopen (decide_eq_true hu)
          simp [hopen, hclosed]

/-- A snapshot and a booking of the same tables at the same instant agree: the slot is available just when the
booking commits, and then both have the same resource. The hours of the snapshot are those of the booking. -/
theorem availability_agrees (customerId : UUID) (series : Option UUID) {db' : Db} {s : Snapshot}
    {request : CreateReservationRequest} {employeeIds : List UUID} {lo hi : Instant}
    {occurrenceDays : Option (List LocalDate)} (hclock : db.clock.readings = [])
    (hrun : (prepare request.serviceId request.resourceId request.locationId employeeIds lo hi none
      occurrenceDays request.areaId).run c db = .ok (s, db'))
    (h : Bookable c db id employee request stop) (he : employee ∈ employeeIds)
    (hp : c.hours.Prepared lo hi occurrenceDays request.startTime) (hhi : stop ≤ hi) :
    ((s.assess employee request.startTime stop).status = .available ↔
      ∃ r db₁, (createForCustomer id customerId request series).run c db = .ok (r, db₁)) ∧
    (∀ r db₁, (createForCustomer id customerId request series).run c db = .ok (r, db₁) →
      r ∈ db₁.reservations ∧ r.Answers request customerId employee stop ∧
        (s.assess employee request.startTime stop).resource.map (·.id) = r.resourceId) ∧
    ∀ location ∈ s.windows.map Prod.fst, ∀ t x, c.hours.Prepared lo hi occurrenceDays t → t < x →
      (s.withinHours location t x = true ↔ c.hours.validateWithinWorkingHours location t x = .ok ()) := by
  have hlt := h.lt
  obtain ⟨candidates, hc, hl, hnow, -, hcovers⟩ := prepare_covers hclock hrun hp hlt hhi he
  have hassess : ∀ chosen,
      (s.assess employee request.startTime stop).status = .available ∧
        (s.assess employee request.startTime stop).resource.map (·.id) = chosen ↔
      db.clock.now < request.startTime ∧
      (c.choices db request.serviceId request.resourceId request.locationId request.areaId
        employee request.startTime stop db.clock.now).head? = some chosen := fun _ =>
    hnow ▸ hcovers.assess_eq hc hl
  have hcommits : (∃ r db₁, (createForCustomer id customerId request series).run c db = .ok (r, db₁)) ↔
      db.clock.now < request.startTime ∧
      ∃ chosen, (c.choices db request.serviceId request.resourceId request.locationId
        request.areaId employee request.startTime stop db.clock.now).head? = some chosen := by
    have hsucceeds : Succeeds (createForCustomer id customerId request series) (fun _ _ => True) c db ↔ _ :=
      h.succeeds_create hclock hc (p := fun _ => True) fun _ _ _ _ => Iff.rfl
    simpa only [Succeeds, and_true] using hsucceeds
  refine ⟨?_, ?_, fun location hlocation t x ht hx => (prepare_reads hrun hlocation ht).withinHours_iff hx⟩
  · rw [hcommits]
    constructor
    · intro havailable
      obtain ⟨hfuture, hfirst⟩ := (hassess _).1 ⟨havailable, rfl⟩
      exact ⟨hfuture, _, hfirst⟩
    · rintro ⟨hfuture, chosen, hfirst⟩
      exact ((hassess chosen).2 ⟨hfuture, hfirst⟩).1
  · intro r db₁ hcreate
    obtain ⟨hfuture, chosen, hfirst⟩ := hcommits.1 ⟨r, db₁, hcreate⟩
    have hbooks : Succeeds (createForCustomer id customerId request series)
      (fun r db₁ => r ∈ db₁.reservations ∧
        r.Answers request customerId employee stop ∧ r.resourceId = chosen) c db :=
      (h.succeeds_create hclock hc (p := fun resource => resource = chosen) fun r db₁ hr ha =>
        ⟨fun hb => hb.2.2, fun hb => ⟨hr, ha, hb⟩⟩).2 ⟨hfuture, chosen, hfirst, rfl⟩
    obtain ⟨r', db₂, hcreate', hmem, hanswers, hresource⟩ := hbooks
    cases hcreate.symm.trans hcreate'
    exact ⟨hmem, hanswers, ((hassess chosen).2 ⟨hfuture, hfirst⟩).2.trans hresource.symm⟩

end booking

/-! ### A slot of the small installation -/

namespace Arcade

def customerCall : Call := { (request 300 0 .purge).call with actor := ⟨2, .customer⟩ }

/-- The station is reserved from nine to ten, with another employee. -/
def morning : Db :=
  { Db.empty 0 with
    reservations :=
      ⟨[⟨200, 5, 4, 10, some 20, some 40, none, 32400000000, 36000000000, .confirmed, none, 0⟩], by decide⟩ }

def atTen : CreateReservationRequest := ⟨some 3, 10, none, 36000000000, none, some 20, none, none, none⟩

theorem bookable : Bookable customerCall morning 300 3 atTen 39600000000 where
  fresh := rfl
  actor := by decide
  service := ⟨⟨10, .service, some 60, true, true⟩, 60, rfl, rfl, rfl, rfl⟩
  employee := ⟨rfl, ⟨3, .employee, true, false⟩, rfl, rfl, rfl, rfl⟩

theorem availability_agrees_at_ten :
    ∃ s db', (prepare 10 none (some 20) [3] 36000000000 39600000000 none none none).run
      customerCall morning = .ok (s, db') ∧ (s.assess 3 36000000000 39600000000).status = .available ∧
    (s.assess 3 36000000000 39600000000).resource.map (·.id) = some 40 := by
  have hprepared : ((prepare 10 none (some 20) [3] 36000000000 39600000000 none none none).run customerCall
      morning).isOk = true := by
    decide +kernel
  rcases hrun : (prepare 10 none (some 20) [3] 36000000000 39600000000 none none none).run customerCall
    morning with e | ⟨s, db'⟩
  · rw [hrun] at hprepared
    cases hprepared
  have hcreated : (((createForCustomer 300 2 atTen none).run customerCall morning).toOption.map fun x =>
    x.1.resourceId) =
      some (some 40) := by decide +kernel
  rcases hcreate : (createForCustomer 300 2 atTen none).run customerCall morning with e | ⟨r, db₁⟩
  · rw [hcreate] at hcreated
    cases hcreated
  rw [hcreate] at hcreated
  have h := availability_agrees 2 none rfl hrun bookable (List.mem_singleton.2 rfl)
    ⟨le_rfl, by decide, by simp⟩ (by decide)
  exact ⟨s, db', rfl, h.1.2 ⟨r, db₁, hcreate⟩, (h.2.1 r db₁ hcreate).2.2.trans (Option.some.inj hcreated)⟩

end Arcade

end GManager

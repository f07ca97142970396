import GManager.BookingPolicy
import GManager.Effects

/-!
# The requests to reservations as effects

A reservation comes into being, or moves, only where its employee and its resource are free
(`EmployeeFree`, `ResourceFree`); a change of status only follows the transitions of the policy.
-/

namespace GManager

open Txn

/-- No reservation but `excludeId` keeps the employee from the interval. -/
def EmployeeFree (db : Db) (employeeId : UUID) (start stop : Instant) (excludeId : Option UUID) : Prop :=
  db.employeeConflicts employeeId start stop excludeId = []

/-- No reservation but `excludeId` and no session keeps the resource from the interval. -/
def ResourceFree (db : Db) (resourceId : UUID) (start stop : Instant) (excludeId : Option UUID) : Prop :=
  db.resourceConflicts resourceId start stop excludeId = [] ∧ db.sessionIntervals [resourceId] start stop = []

theorem EmployeeFree.congr {db db' : Db} {employeeId : UUID} {start stop : Instant} {excludeId : Option UUID}
    (hr : db'.reservations = db.reservations) :
    EmployeeFree db' employeeId start stop excludeId ↔ EmployeeFree db employeeId start stop excludeId := by
  rw [EmployeeFree, Db.employeeConflicts, hr, EmployeeFree, Db.employeeConflicts]

theorem ResourceFree.congr {db db' : Db} {resourceId : UUID} {start stop : Instant} {excludeId : Option UUID}
    (hr : db'.reservations = db.reservations) (hs : db'.sessions = db.sessions) :
    ResourceFree db' resourceId start stop excludeId ↔ ResourceFree db resourceId start stop excludeId := by
  rw [ResourceFree, Db.resourceConflicts, Db.sessionIntervals, hr, hs, ResourceFree, Db.resourceConflicts,
    Db.sessionIntervals]

theorem Hours.lt_of_validate {h : Hours} {locationId : Option UUID} {start stop : Instant} {u : Unit}
    (hv : h.validateWithinWorkingHours locationId start stop = .ok u) : start < stop := by
  by_contra hn
  rw [validateWithinWorkingHours, if_pos hn] at hv
  cases hv

/-! ### Availability checks -/

section checks

variable {c : Call} {db : Db} {id : UUID} {start stop : Instant} {excludeId : Option UUID}

theorem wp_isAvailableForUpdate :
    wp (isAvailableForUpdate id start stop excludeId)
      (fun available db' => db' = db ∧ (available → EmployeeFree db id start stop excludeId)) c db := by
  simp only [isAvailableForUpdate, wp_bind, wp_ask, wp_get, wp_pure]
  refine ⟨trivial, fun h => ?_⟩
  exact List.isEmpty_iff.1 (Bool.and_eq_true_iff.1 h).1

theorem wp_requireAvailableForUpdate :
    wp (requireAvailableForUpdate id start stop excludeId)
      (fun _ db' => db' = db ∧ EmployeeFree db id start stop excludeId) c db := by
  simp only [requireAvailableForUpdate, wp_bind, wp_require]
  exact wp_mono wp_isAvailableForUpdate fun _ _ h ha => ⟨h.1, h.2 ha⟩

theorem wp_isResourceAvailableForUpdate :
    wp (isResourceAvailableForUpdate id start stop excludeId)
      (fun available db' => Quiet db db' ∧ (available → ResourceFree db id start stop excludeId)) c db := by
  simp only [isResourceAvailableForUpdate, resourceSessionIntervals, wp_bind, wp_get, wp_ite,
    wp_instant, wp_pure]
  refine ⟨fun h => ⟨.next db, fun ha => ⟨List.isEmpty_iff.1 h, ?_⟩⟩, fun _ =>
    ⟨.refl db, fun h => absurd h Bool.false_ne_true⟩⟩
  exact (List.append_eq_nil_iff.1 (List.isEmpty_iff.1 ha)).1

theorem wp_requireResourceAvailableForUpdate :
    wp (requireResourceAvailableForUpdate id start stop excludeId)
      (fun _ db' => Quiet db db' ∧ ResourceFree db id start stop excludeId) c db := by
  simp only [requireResourceAvailableForUpdate, wp_bind, wp_require]
  exact wp_mono wp_isResourceAvailableForUpdate fun _ _ h ha => ⟨h.1, h.2 ha⟩

theorem wp_firstAvailable {us : List User} :
    wp (firstAvailable start stop us)
      (fun chosen db' => db' = db ∧ ∀ u ∈ chosen, EmployeeFree db u.id start stop none) c db := by
  induction us with
  | nil => exact wp_pure.2 ⟨rfl, fun _ h => absurd h (Option.not_mem_none _)⟩
  | cons u us ih =>
    simp only [firstAvailable, wp_bind, wp_ite, wp_pure]
    refine wp_mono wp_isAvailableForUpdate ?_
    rintro available db' ⟨hdb, ha⟩
    refine ⟨fun h => ⟨hdb, fun x hx => ?_⟩, fun _ => ?_⟩
    · rw [← Option.mem_some_iff.1 hx]
      exact ha h
    · rw [hdb]
      exact ih

theorem wp_selectEmployee {requestedId : Option UUID} :
    wp (selectEmployee requestedId start stop)
      (fun employee db' => db' = db ∧ EmployeeFree db employee.id start stop none) c db := by
  unfold selectEmployee
  simp only [wp_bind, wp_ask]
  split
  · simp only [wp_bind, wp_orThrow, wp_require, wp_pure]
    exact fun employee _ _ => wp_mono wp_requireAvailableForUpdate fun _ _ h => h
  · simp only [wp_bind, wp_orThrow, wp_require]
    exact fun _ => wp_mono wp_firstAvailable fun _ _ h employee he => ⟨h.1, h.2 employee he⟩

theorem wp_firstFree {vs : List PhysicalResource} :
    wp (firstFree start stop vs)
      (fun chosen db' => Quiet db db' ∧ ∀ v ∈ chosen, ResourceFree db v.id start stop none) c db := by
  induction vs generalizing db with
  | nil => exact wp_pure.2 ⟨.refl db, fun _ h => absurd h (Option.not_mem_none _)⟩
  | cons v vs ih =>
    simp only [firstFree, wp_bind, wp_ask, wp_lift]
    intro location _
    split
    · simp only [wp_ite, wp_throw, implies_true, and_true]
      exact fun _ => ih
    · exact wp_throw.2 trivial
    · simp only [wp_bind, wp_ite, wp_pure]
      refine wp_mono wp_isResourceAvailableForUpdate ?_
      rintro available db' ⟨q, ha⟩
      refine ⟨fun h => ⟨q, fun x hx => ?_⟩, fun _ => ?_⟩
      · rw [← Option.mem_some_iff.1 hx]
        exact ha h
      · refine wp_mono ih ?_
        rintro chosen db'' ⟨q', h⟩
        refine ⟨q.trans q', fun x hx => ?_⟩
        exact (ResourceFree.congr q.reservations q.sessions).1 (h x hx)

theorem wp_selectForBooking {serviceId : UUID} {requestedId locationId : Option UUID}
    {allowed : Option (List UUID)} {areaId : Option UUID} :
    wp (selectForBooking serviceId requestedId locationId start stop allowed areaId)
      (fun chosen db' => Quiet db db' ∧ ∀ v ∈ chosen, ResourceFree db v.id start stop none) c db := by
  unfold selectForBooking
  simp only [wp_bind, wp_ask, wp_lift]
  intro _ _
  split
  · simp only [wp_bind, wp_lift, wp_require, wp_pure]
    intro _ v _ location _ _ _ _ _
    refine wp_mono wp_requireResourceAvailableForUpdate fun _ db' h => ⟨h.1, fun x hx => ?_⟩
    rw [← Option.mem_some_iff.1 hx]
    exact h.2
  · simp only [wp_bind, wp_lift, wp_ite, wp_orThrow, wp_pure]
    refine fun required _ => ⟨fun _ => wp_mono wp_firstFree fun chosen db' h v hv => ⟨h.1, fun x hx => ?_⟩,
      fun _ => ⟨.refl db, fun _ h => absurd h (Option.not_mem_none _)⟩⟩
    rw [← Option.mem_some_iff.1 hx]
    exact h.2 v hv

end checks

/-! ### Snapshots -/

theorem QuietTx.snapshotSessions (ids : List UUID) (start stop : Instant) :
    QuietTx (snapshotSessions ids start stop) := by
  intro c db
  unfold GManager.snapshotSessions
  split
  · exact wp_pure.2 (.refl db)
  · simp [resourceSessionIntervals]

theorem QuietTx.prepare (serviceId : UUID) (resourceId locationId : Option UUID) (employeeIds : List UUID)
    (start stop : Instant) (allowed : Option (List UUID)) (days : Option (List LocalDate))
    (areaId : Option UUID) :
    QuietTx (prepare serviceId resourceId locationId employeeIds start stop allowed days areaId) := by
  intro c db
  simp only [GManager.prepare, wp_bind, wp_ask, wp_lift, wp_get]
  intro _ _ _ _
  refine wp_mono (QuietTx.snapshotSessions _ _ _ c db) fun _ db' q => ?_
  simp only [wp_instant, wp_pure]
  exact q.trans (.next db')

/-! ### Creating -/

theorem QuietTx.bookingLocation (resource : Option PhysicalResource) (locationId : Option UUID) :
    QuietTx (bookingLocation resource locationId) := by
  intro c db
  unfold GManager.bookingLocation
  simp only [wp_bind, wp_ask]
  split <;> simp

theorem QuietTx.serviceDuration (request : CreateReservationRequest) : QuietTx (serviceDuration request) := by
  intro c db
  unfold GManager.serviceDuration
  simp only [wp_bind, wp_ask, wp_lift, wp_require]
  intro service _ _
  split <;> simp

section requests

variable {c : Call} {db : Db} {l L : ℕ}

theorem wp_createForCustomer {id customerId : UUID} {request : CreateReservationRequest}
    {recurrenceSeriesId : Option UUID} :
    wp (createForCustomer id customerId request recurrenceSeriesId)
      (fun _ => Effects c.hours l L db) c db := by
  simp only [createForCustomer, wp_bind, wp_ask, wp_instant, wp_require, wp_lift]
  intro _
  refine wp_mono (QuietTx.serviceDuration request c _) fun duration db₁ q₁ => ?_
  intro required _ _ _
  refine wp_mono wp_selectEmployee ?_
  rintro employee db₂ ⟨hdb, hemployee⟩
  subst hdb
  refine wp_mono wp_selectForBooking ?_
  rintro resource db₃ ⟨q₃, hresource⟩
  intro _ _
  refine wp_mono (QuietTx.bookingLocation _ _ c _) fun location db₄ q₄ => ?_
  intro _ hv
  simp only [insertReservation, wp_insertRow, wp_pure]
  intro reservations hi
  have q := q₃.trans q₄
  refine (Relation.ReflTransGen.single (.quiet (((Quiet.next db).trans q₁).trans q))).tail
    (.booked (Hours.lt_of_validate hv) rfl ?_ ?_ hi (.refl _))
  · exact (EmployeeFree.congr q.reservations).2 hemployee
  · intro id hid
    obtain ⟨v, rfl, rfl⟩ := Option.map_eq_some_iff.1 hid
    exact (ResourceFree.congr q.reservations q.sessions).2 (hresource v rfl)

theorem QuietTx.resolveBookingCustomer (requested : Option UUID) :
    QuietTx (resolveBookingCustomer requested) := by
  intro c db
  simp [GManager.resolveBookingCustomer]

theorem wp_create {request : CreateReservationRequest} :
    wp (create request) (fun _ => Effects c.hours l L db) c db := by
  refine (QuietTx.preAuthorize _).bind_wp fun _ db₁ q₁ => wp_bind.2 (wp_ask.2 ?_)
  refine (QuietTx.resolveBookingCustomer _).bind_wp fun customerId db₂ q₂ => ?_
  exact wp_mono wp_createForCustomer fun _ _ e => .head (.quiet (q₁.trans q₂)) e

theorem Quiet.listen (readings : List Instant) : Quiet db (db.listen readings) :=
  ⟨le_rfl, rfl, rfl, rfl, rfl, rfl⟩

theorem wp_createOccurrences {customerId seriesId : UUID} {skip : Failure → Bool}
    {occurrences : List Occurrence} :
    wp (createOccurrences customerId seriesId skip occurrences) (fun _ => Effects c.hours l L db) c db := by
  induction occurrences generalizing db with
  | nil => exact wp_pure.2 .refl
  | cons o rest ih =>
    have hl : Effect c.hours l L db (db.listen o.readings) := .quiet (.listen o.readings)
    simp only [createOccurrences, wp_bind, wp_modify]
    refine wp_attempt (wp_mono (wp_createForCustomer (l := l) (L := L)) fun _ db' e => ?_) fun e => ?_
    · simp only [wp_bind, wp_pure]
      exact wp_mono ih fun _ _ e' => (e.trans e').head hl
    · simp only [wp_ite, wp_throw, implies_true, and_true]
      exact fun _ => wp_mono ih fun _ _ e' => e'.head hl

theorem wp_createSeries {customer : Option UUID} {skip : Failure → Bool} {occurrences : List Occurrence} :
    wp (createSeries customer skip occurrences) (fun _ => Effects c.hours l L db) c db := by
  refine (QuietTx.preAuthorize _).bind_wp fun _ db₁ q₁ => wp_bind.2 (wp_ask.2 ?_)
  refine (QuietTx.resolveBookingCustomer _).bind_wp fun customerId db₂ q₂ => ?_
  simp only [wp_bind, wp_require, wp_pure]
  exact wp_mono wp_createOccurrences fun _ _ e _ => e.head (.quiet (q₁.trans q₂))

/-! ### Changing -/

theorem wp_findReservation {id : UUID} {Q : Reservation → Db → Prop}
    (hQ : ∀ r ∈ db.reservations, r.id = id → Q r db) : wp (findReservation id) Q c db := by
  simp only [findReservation, wp_bind, wp_get, wp_orThrow]
  intro r hr
  obtain ⟨hr, hid⟩ := Table.find?_eq_some.1 hr
  exact hQ r hr hid

theorem QuietTx.requireReservationManagement (r : Reservation) (target : Option UUID) :
    QuietTx (requireReservationManagement r target) := fun c db => by
  simp [GManager.requireReservationManagement]

theorem QuietTx.requireVersion (r : Reservation) (expected : ℕ) : QuietTx (requireVersion r expected) :=
  require _ _

theorem QuietTx.lockEmployee (id : UUID) : QuietTx (lockEmployee id) := fun c db => by
  simp [GManager.lockEmployee]

theorem wp_requireTransition {r : Reservation} {request : ChangeReservationStatusRequest}
    {resourceRequired canManage : Bool} :
    wp (requireTransition r request resourceRequired canManage)
      (fun _ db' => Quiet db db' ∧ request.status ∈ r.status.candidates) c db := by
  simp only [requireTransition, wp_bind, wp_ask, wp_require, wp_instant, wp_lift]
  exact fun _ hc _ _ _ _ => ⟨.next db, hc⟩

theorem QuietTx.requireStillFree (r : Reservation) : QuietTx (requireStillFree r) := by
  refine bind (lockEmployee _) fun _ => bind (fun c db => ?_) fun _ c db => ?_
  · exact wp_mono wp_requireAvailableForUpdate fun _ _ h => h.1 ▸ .refl db
  · split
    · exact wp_pure.2 (.refl db)
    · simp only [wp_bind, wp_ask, wp_lift]
      exact fun _ _ => wp_mono wp_requireResourceAvailableForUpdate fun _ _ h => h.1

theorem wp_changeStatus {id : UUID} {request : ChangeReservationStatusRequest} :
    wp (changeStatus id request) (fun _ => Effects c.hours l L db) c db := by
  refine (QuietTx.preAuthorize _).bind_wp fun _ db₁ q₁ => wp_bind.2 (wp_ask.2 (wp_bind.2 ?_))
  refine wp_findReservation fun r hr _ => ?_
  refine (QuietTx.when (QuietTx.requireReservationManagement _ _)).bind_wp fun _ db₂ q₂ => ?_
  refine (QuietTx.requireVersion _ _).bind_wp fun _ db₃ q₃ =>
    (QuietTx.lift _).bind_wp fun _ db₄ q₄ => wp_bind.2 ?_
  refine wp_mono wp_requireTransition ?_
  rintro _ db₅ ⟨q₅, hc⟩
  refine (QuietTx.when (QuietTx.requireStillFree _)).bind_wp fun _ db₆ q₆ => ?_
  have q := (((q₂.trans q₃).trans q₄).trans q₅).trans q₆
  simp only [saveReservation, wp_modify]
  refine (Relation.ReflTransGen.single (.quiet (q₁.trans q))).tail (.changed (r := r) ?_ hc (.refl _))
  rw [q.reservations]
  exact hr

theorem wp_assignResource {id : UUID} {request : AssignReservationResourceRequest} :
    wp (assignResource id request) (fun _ => Effects c.hours l L db) c db := by
  refine (QuietTx.preAuthorize _).bind_wp fun _ db₁ q₁ => wp_bind.2 (wp_ask.2 (wp_bind.2 ?_))
  refine wp_findReservation fun r hr _ => ?_
  refine (QuietTx.lift _).bind_wp fun _ db₂ q₂ => (QuietTx.requireVersion _ _).bind_wp fun _ db₃ q₃ => ?_
  refine (QuietTx.require _ _).bind_wp fun _ db₄ q₄ => QuietTx.instant.bind_wp fun now db₅ q₅ => ?_
  refine wp_bind.2 (wp_require.2 fun hfree => (QuietTx.lockEmployee _).bind_wp fun _ db₆ q₆ => ?_)
  simp only [wp_bind, wp_lift]
  intro v _ location _ _ hv
  refine wp_mono wp_requireResourceAvailableForUpdate ?_
  rintro _ db₇ ⟨q₇, hresource⟩
  have q := ((((q₂.trans q₃).trans q₄).trans q₅).trans q₆).trans q₇
  simp only [saveReservation, wp_modify]
  have hstatus : r.status = .pending ∨ r.status = .confirmed := by simpa using hfree.2.1
  refine (Relation.ReflTransGen.single (.quiet (q₁.trans q))).tail (@Effect.moved _ _ _ _ _ r
    { r with resourceId := some v.id, locationId := some location, version := r.version + 1 } ?_
    ⟨rfl, rfl, rfl, rfl⟩ hstatus (Hours.lt_of_validate hv) (.inl ⟨rfl, rfl⟩) ?_
      (.inl ⟨hfree.1, rfl, rfl⟩) (.refl _))
  · rw [q.reservations]
    exact hr
  · intro _ hid
    obtain rfl := Option.some.inj hid
    exact (ResourceFree.congr q₇.reservations q₇.sessions).2 hresource

theorem QuietTx.lockTargets (r : Reservation) (target : Option UUID) : QuietTx (lockTargets r target) := by
  intro c db
  refine wp_bind.2 (wp_ask.2 ((ifPresent fun old => bind (lift _) fun _ => pure ()).bind_wp
    fun _ db' q => ?_))
  cases target with
  | none => exact wp_pure.2 q
  | some target =>
    simp only [wp_bind, wp_lift, wp_pure]
    exact fun _ _ _ _ => q

theorem QuietTx.updatedEnd (r : Reservation) (request : UpdateReservationRequest) (start : Instant) :
    QuietTx (updatedEnd r request start) := by
  intro c db
  unfold GManager.updatedEnd
  simp only [wp_bind, wp_ask]
  cases request.durationMinutes <;> simp

theorem wp_update {id : UUID} {request : UpdateReservationRequest} :
    wp (update id request) (fun _ => Effects c.hours l L db) c db := by
  refine (QuietTx.preAuthorize _).bind_wp fun _ db₁ q₁ => wp_bind.2 (wp_ask.2 (wp_bind.2 ?_))
  refine wp_findReservation fun r hr hid => ?_
  refine (QuietTx.requireReservationManagement _ _).bind_wp fun _ db₂ q₂ => ?_
  refine (QuietTx.requireVersion _ _).bind_wp fun _ db₃ q₃ => QuietTx.instant.bind_wp fun now db₄ q₄ => ?_
  refine wp_bind.2 (wp_require.2 fun hactive => QuietTx.instant.bind_wp fun now' db₅ q₅ => ?_)
  refine (QuietTx.require _ _).bind_wp fun _ db₆ q₆ =>
    (QuietTx.updatedEnd _ _ _).bind_wp fun stop db₇ q₇ => ?_
  refine (QuietTx.lift _).bind_wp fun _ db₈ q₈ => (QuietTx.require _ _).bind_wp fun _ db₉ q₉ => ?_
  refine (QuietTx.lockEmployee _).bind_wp fun _ db₁₀ q₁₀ => wp_bind.2 ?_
  refine wp_mono wp_requireAvailableForUpdate ?_
  rintro _ _ ⟨hdb, hemployee⟩
  subst hdb
  refine (QuietTx.lockTargets _ _).bind_wp fun location db₁₁ q₁₁ => ?_
  simp only [wp_bind, wp_get, wp_require, wp_lift]
  intro hsession _ hv
  have q :=
    (((((((((q₂.trans q₃).trans q₄).trans q₅).trans q₆).trans q₇).trans q₈).trans q₉).trans q₁₀).trans q₁₁)
  have hstatus : r.status = .pending ∨ r.status = .confirmed := by simpa using hactive.2.2
  have hfree : wp (ifPresent (request.resourceId.or r.resourceId)
      fun target => requireResourceAvailableForUpdate target (request.startTime.getD r.startTime) stop
        (some id))
      (fun _ db' => Quiet db₁₁ db' ∧ ∀ target, request.resourceId.or r.resourceId = some target →
        ResourceFree db₁₁ target (request.startTime.getD r.startTime) stop (some id)) c db₁₁ := by
    cases request.resourceId.or r.resourceId with
    | none => exact wp_pure.2 ⟨.refl _, fun _ h => by cases h⟩
    | some target =>
      refine wp_mono wp_requireResourceAvailableForUpdate fun _ _ h => ⟨h.1, fun x hx => ?_⟩
      exact Option.some.inj hx ▸ h.2
  refine wp_mono hfree ?_
  rintro _ db₁₂ ⟨q₁₂, hresource⟩
  simp only [saveReservation, wp_modify]
  refine (Relation.ReflTransGen.single (.quiet (q₁.trans (q.trans q₁₂)))).tail
    (@Effect.moved _ _ _ _ _ r { r with
    startTime := request.startTime.getD r.startTime
    endTime := stop
    resourceId := request.resourceId.or r.resourceId
    locationId := location
    note := if request.note.isSome then normalizeNote request.note else r.note
    version := r.version + 1 } ?_ ⟨rfl, rfl, rfl, rfl⟩ hstatus (Hours.lt_of_validate hv) (.inr ?_) ?_
      (.inr ?_) (.refl _))
  · rw [q₁₂.reservations, q.reservations]
    exact hr
  · rw [hid]
    exact (EmployeeFree.congr (q₁₁.trans q₁₂).reservations).2 hemployee
  · intro target htarget
    rw [hid]
    exact (ResourceFree.congr q₁₂.reservations q₁₂.sessions).2 (hresource target htarget)
  · rw [q₁₂.sessions, hid]
    exact hsession

end requests

end GManager

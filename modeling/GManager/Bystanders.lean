import GManager.Within
import GManager.Machine
import GManager.Reservations

/-!
# The requests that stay away from sessions and commands

Guards, the account, the polls and everything about reservations write at most the clock and the
reservations. So they are within every preorder of states that neither of the two disturbs.
-/

namespace GManager

open Txn

/-- A preorder that holds when only the clock goes on, or only the reservations change. -/
class Bystander (R : Db → Db → Prop) : Prop extends IsPreorder Db R where
  clock : ∀ db k, db.clock.now ≤ k.now → R db { db with clock := k }
  reservations : ∀ db t, R db { db with reservations := t }

namespace Bystander

open Within

variable {R : Db → Db → Prop} [Bystander R]

/-! ### Guards and single writes -/

theorem instant : Within R GManager.instant := fun _ db => wp_instant.2 (clock db _ db.clock.le_next)

theorem preAuthorize (permission : Permission) : Within R (GManager.preAuthorize permission) :=
  .bind .ask fun _ => .require _ _

theorem requireStaff (permission : Permission) : Within R (GManager.requireStaff permission) :=
  .bind .ask fun _ => .require _ _

theorem lockCustomer (id : UUID) (active : Bool) : Within R (GManager.lockCustomer id active) :=
  .bind .ask fun _ => .require _ _

theorem requireAccess (id : UUID) : Within R (GManager.requireAccess id) := .bind .ask fun _ => .require _ _

theorem requireMachine : Within R GManager.requireMachine := .bind .ask fun _ => .orThrow _ _

theorem financialContext : Within R GManager.financialContext :=
  .bind .ask fun _ => .ite (.bind (.orThrow _ _) fun _ => .pure _) (.pure _)

theorem requireReadyForSession (id : UUID) : Within R (GManager.requireReadyForSession id) := by
  refine .bind .ask fun _ => .bind (.require _ _) fun _ => .bind (.require _ _) fun _ =>
    .bind (.orThrow _ _) fun _ => ?_
  refine .bind (.require _ _) fun _ => .bind instant fun _ => .bind (.require _ _) fun _ =>
    .bind (.orThrow _ _) fun _ => ?_
  exact .bind (.orThrow _ _) fun _ => .bind (.require _ _) fun _ => .bind (.require _ _) fun _ => .require _ _

theorem requireResourceReservationAvailableForUpdate (resourceId : UUID) (start stop : Instant)
    (excludeId : Option UUID) :
    Within R (GManager.requireResourceReservationAvailableForUpdate resourceId start stop excludeId) :=
  .bind .get fun _ => .require _ _

theorem boundary (station location customer : UUID) (own : Option UUID) (now : Instant) :
    Within R (GManager.boundary station location customer own now) := by
  refine .bind .ask fun _ => .bind .get fun _ => .bind (.orThrow _ _) fun _ => ?_
  cases own with
  | none => exact .lift _
  | some id => exact .bind (.orThrow _ _) fun _ => .bind (.require _ _) fun _ => .lift _

theorem insertRow {κ ρ : Type} [DecidableEq κ] {key : ρ → κ} {table : Db → Table key}
    {put : Db → Table key → Db} {row : ρ} (h : ∀ db t, R db (put db t)) :
    Within R (GManager.insertRow table put row) :=
  .bind .get fun _ => .bind (.orThrow _ _) fun _ => .modify fun db => h db _

theorem saveReservation (r : Reservation) : Within R (GManager.saveReservation r) :=
  .modify fun db => reservations db _

theorem account (customerId : UUID) : Within R (GManager.account customerId) :=
  .bind (requireAccess _) fun _ => .bind .ask fun _ => .bind instant fun _ => .bind .get fun _ => .pure _

theorem poll (after : ℕ) : Within R (GManager.poll after) :=
  .bind requireMachine fun _ => .bind instant fun _ => .bind .get fun _ => .pure _

/-! ### Reservations -/

theorem isResourceAvailableForUpdate (resourceId : UUID) (start stop : Instant) (excludeId : Option UUID) :
    Within R (GManager.isResourceAvailableForUpdate resourceId start stop excludeId) :=
  .bind .get fun _ => .ite (.bind (.bind instant fun _ => .bind .get fun _ => .pure _) fun _ =>
    .pure _) (.pure _)

theorem requireResourceAvailableForUpdate (resourceId : UUID) (start stop : Instant)
    (excludeId : Option UUID) :
    Within R (GManager.requireResourceAvailableForUpdate resourceId start stop excludeId) :=
  .bind (isResourceAvailableForUpdate _ _ _ _) fun _ => .require _ _

theorem isAvailableForUpdate (employeeId : UUID) (start stop : Instant) (excludeId : Option UUID) :
    Within R (GManager.isAvailableForUpdate employeeId start stop excludeId) :=
  .bind .ask fun _ => .bind .get fun _ => .pure _

theorem requireAvailableForUpdate (employeeId : UUID) (start stop : Instant) (excludeId : Option UUID) :
    Within R (GManager.requireAvailableForUpdate employeeId start stop excludeId) :=
  .bind (isAvailableForUpdate _ _ _ _) fun _ => .require _ _

theorem selectEmployee (requestedId : Option UUID) (start stop : Instant) :
    Within R (GManager.selectEmployee requestedId start stop) := by
  have firstAvailable : ∀ us, Within R (GManager.firstAvailable start stop us) := fun us => by
    induction us with
    | nil => exact .pure _
    | cons u us ih => exact .bind (isAvailableForUpdate _ _ _ _) fun _ => .ite (.pure _) ih
  refine .bind .ask fun _ => ?_
  cases requestedId with
  | some id =>
    refine .bind (.orThrow _ _) fun _ => .bind (.require _ _) fun _ => ?_
    exact .bind (requireAvailableForUpdate _ _ _ _) fun _ => .pure _
  | none => exact .bind (.require _ _) fun _ => .bind (firstAvailable _) fun _ => .orThrow _ _

theorem selectForBooking (serviceId : UUID) (requestedId locationId : Option UUID) (start stop : Instant)
    (allowed : Option (List UUID)) (areaId : Option UUID) :
    Within R (GManager.selectForBooking serviceId requestedId locationId start stop allowed areaId) := by
  have firstFree : ∀ vs, Within R (GManager.firstFree start stop vs) := fun vs => by
    induction vs with
    | nil => exact .pure _
    | cons v vs ih =>
      refine .bind .ask fun _ => .bind (.lift _) fun _ => ?_
      split
      · exact .ite ih (.throw _)
      · exact .throw _
      · exact .bind (isResourceAvailableForUpdate _ _ _ _) fun _ => .ite (.pure _) ih
  refine .bind .ask fun _ => .bind (.lift _) fun _ => ?_
  cases requestedId with
  | some id =>
    refine .bind (.require _ _) fun _ => .bind (.lift _) fun _ => .bind (.lift _) fun _ =>
      .bind (.require _ _) fun _ => ?_
    refine .bind (.require _ _) fun _ => .bind (.lift _) fun _ => ?_
    exact .bind (requireResourceAvailableForUpdate _ _ _ _) fun _ => .pure _
  | none =>
    exact .bind (.lift _) fun _ =>
      .ite (.bind (firstFree _) fun _ => .bind (.orThrow _ _) fun _ => .pure _) (.pure _)

theorem createForCustomer (id customerId : UUID) (request : CreateReservationRequest)
    (recurrenceSeriesId : Option UUID) :
    Within R (GManager.createForCustomer id customerId request recurrenceSeriesId) := by
  have serviceDuration : Within R (GManager.serviceDuration request) := by
    refine .bind .ask fun _ => .bind (.lift _) fun _ => .bind (.require _ _) fun _ => ?_
    split
    · exact .orThrow _ _
    · exact .lift _
  have bookingLocation : ∀ resource, Within R (GManager.bookingLocation resource request.locationId) :=
    fun resource => by
    refine .bind .ask fun _ => ?_
    cases resource with
    | some v => exact .bind (.lift _) fun _ => .pure _
    | none => exact .bind (.lift _) fun _ => .pure _
  refine .bind .ask fun _ => .bind instant fun _ => .bind (.require _ _) fun _ =>
    .bind serviceDuration fun _ => ?_
  refine .bind (.lift _) fun _ => .bind (.lift _) fun _ => .bind (selectEmployee _ _ _) fun _ => ?_
  refine .bind (selectForBooking _ _ _ _ _ _ _) fun _ => .bind (.lift _) fun _ =>
    .bind (bookingLocation _) fun _ => ?_
  exact .bind (.lift _) fun _ => .bind (insertRow fun db t => reservations db t) fun _ => .pure _

theorem resolveBookingCustomer (requested : Option UUID) :
    Within R (GManager.resolveBookingCustomer requested) :=
  .bind .ask fun _ => .bind (.lift _) fun _ => .bind (.require _ _) fun _ => .pure _

theorem create (request : CreateReservationRequest) : Within R (GManager.create request) :=
  .bind (preAuthorize _) fun _ => .bind .ask fun _ => .bind (resolveBookingCustomer _) fun _ =>
    createForCustomer _ _ _ _

theorem createSeries (customer : Option UUID) (skip : Failure → Bool) (occurrences : List Occurrence) :
    Within R (GManager.createSeries customer skip occurrences) := by
  have createOccurrences : ∀ customerId seriesId occurrences,
      Within R (GManager.createOccurrences customerId seriesId skip occurrences) :=
    fun customerId seriesId occurrences => by
    induction occurrences with
    | nil => exact .pure _
    | cons o rest ih =>
      refine .bind (.modify fun db => clock db _ le_rfl) fun _ =>
        .bind (.attempt (createForCustomer _ _ _ _)) fun created => ?_
      cases created with
      | ok => exact .bind ih fun _ => .pure _
      | error e => exact .ite ih (.throw _)
  refine .bind (preAuthorize _) fun _ => .bind .ask fun _ => .bind (resolveBookingCustomer _) fun _ => ?_
  exact .bind (createOccurrences _ _ _) fun _ => .bind (.require _ _) fun _ => .pure _

theorem findReservation (id : UUID) : Within R (GManager.findReservation id) :=
  .bind .get fun _ => .orThrow _ _

theorem lockEmployee (id : UUID) : Within R (GManager.lockEmployee id) :=
  .bind .ask fun _ => .bind (.orThrow _ _) fun _ => .pure _

theorem requireReservationManagement (r : Reservation) (target : Option UUID) :
    Within R (GManager.requireReservationManagement r target) :=
  .bind .ask fun _ => .bind (.lift _) fun _ => .lift _

theorem changeStatus (id : UUID) (request : ChangeReservationStatusRequest) :
    Within R (GManager.changeStatus id request) := by
  have requireTransition : ∀ r required canManage,
      Within R (GManager.requireTransition r request required canManage) := fun r required canManage => by
    refine .bind .ask fun _ => .bind (.require _ _) fun _ => .bind (.require _ _) fun _ =>
      .bind instant fun _ => ?_
    exact .bind (.lift _) fun _ => .bind (.require _ _) fun _ => .require _ _
  have requireStillFree : ∀ r, Within R (GManager.requireStillFree r) := fun r => by
    refine .bind (lockEmployee _) fun _ => .bind (requireAvailableForUpdate _ _ _ _) fun _ => ?_
    split
    · exact .pure _
    · exact .bind .ask fun _ => .bind (.lift _) fun _ => requireResourceAvailableForUpdate _ _ _ _
  refine .bind (preAuthorize _) fun _ => .bind .ask fun _ => .bind (findReservation _) fun _ => ?_
  refine .bind (.when (requireReservationManagement _ _)) fun _ => .bind (.require _ _) fun _ =>
    .bind (.lift _) fun _ => ?_
  exact .bind (requireTransition _ _ _) fun _ => .bind (.when (requireStillFree _)) fun _ => saveReservation _

theorem assignResource (id : UUID) (request : AssignReservationResourceRequest) :
    Within R (GManager.assignResource id request) := by
  refine .bind (preAuthorize _) fun _ => .bind .ask fun _ => .bind (findReservation _) fun _ =>
    .bind (.lift _) fun _ => ?_
  refine .bind (.require _ _) fun _ => .bind (.require _ _) fun _ => .bind instant fun _ =>
    .bind (.require _ _) fun _ => ?_
  refine .bind (lockEmployee _) fun _ => .bind (.lift _) fun _ => .bind (.lift _) fun _ =>
    .bind (.lift _) fun _ => ?_
  exact .bind (requireResourceAvailableForUpdate _ _ _ _) fun _ => saveReservation _

theorem update (id : UUID) (request : UpdateReservationRequest) : Within R (GManager.update id request) := by
  have updatedEnd : ∀ r start, Within R (GManager.updatedEnd r request start) := fun r start => by
    refine .bind .ask fun _ => ?_
    split
    · exact .pure _
    · exact .bind (.lift _) fun _ => .bind (.lift _) fun _ => .pure _
  have lockTargets : ∀ r target, Within R (GManager.lockTargets r target) := fun r target => by
    refine .bind .ask fun _ => .bind (.ifPresent fun _ => .bind (.lift _) fun _ => .pure _) fun _ => ?_
    cases target with
    | none => exact .pure _
    | some v => exact .bind (.lift _) fun _ => .bind (.lift _) fun _ => .pure _
  refine .bind (preAuthorize _) fun _ => .bind .ask fun _ => .bind (findReservation _) fun _ => ?_
  refine .bind (requireReservationManagement _ _) fun _ => .bind (.require _ _) fun _ =>
    .bind instant fun _ => ?_
  refine .bind (.require _ _) fun _ => .bind instant fun _ => .bind (.require _ _) fun _ =>
    .bind (updatedEnd _ _) fun _ => ?_
  refine .bind (.lift _) fun _ => .bind (.require _ _) fun _ => .bind (lockEmployee _) fun _ => ?_
  refine .bind (requireAvailableForUpdate _ _ _ _) fun _ => .bind (lockTargets _ _) fun _ =>
    .bind .get fun _ => ?_
  refine .bind (.require _ _) fun _ => .bind (.lift _) fun _ => ?_
  exact .bind (.ifPresent fun _ => requireResourceAvailableForUpdate _ _ _ _) fun _ => saveReservation _

end Bystander

end GManager

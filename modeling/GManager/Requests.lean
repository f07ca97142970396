import GManager.Sessions
import GManager.Bookings

/-!
# Requests and runs

The requests that reach the modelled services, each one transaction, and the runs they make up. A run
serves one request after the other, as the row locks of the services order them. Whatever a run does is a
sequence of effects from orderly states, so a property that every effect preserves holds in every state
that a run reaches (`run_induct`).
-/

namespace GManager

open Txn

inductive Op
  | grant (customerId : UUID) (request : Grant) (key : String)
  | account (customerId : UUID)
  | assign (request : AssignmentRequest)
  | cancel (id : UUID)
  | activate (customerId stationId : UUID)
  | tick (id : UUID) (renew finish : Bool)
  | finishByOperator (id : UUID)
  | recover (id : UUID)
  | lease
  | sessionLogin (credentials : UUID → Bool)
  | sessionLogout (sessionId : UUID) (recovery : Bool)
  | heartbeat (request : HeartbeatRequest)
  | poll (afterSequence : ℕ)
  | acknowledge (sequence : ℕ)
  | purge
  | create (request : CreateReservationRequest)
  | createSeries (customer : Option UUID) (skip : Failure → Bool) (occurrences : List Occurrence)
  | changeStatus (id : UUID) (request : ChangeReservationStatusRequest)
  | assignResource (id : UUID) (request : AssignReservationResourceRequest)
  | update (id : UUID) (request : UpdateReservationRequest)

def Op.perform : Op → Tx Unit
  | grant customerId request key => (GManager.grant customerId request key).discard
  | account customerId => (GManager.account customerId).discard
  | assign request => (GManager.assign request).discard
  | cancel id => GManager.cancel id
  | activate customerId stationId => (GManager.activate customerId stationId).discard
  | tick id renew finish => GManager.tick id renew finish
  | finishByOperator id => GManager.finishByOperator id
  | recover id => GManager.recover id
  | lease => GManager.lease.discard
  | sessionLogin credentials => (GManager.sessionLogin credentials).discard
  | sessionLogout sessionId recovery => GManager.sessionLogout sessionId recovery
  | heartbeat request => GManager.heartbeat request
  | poll afterSequence => (GManager.poll afterSequence).discard
  | acknowledge sequence => GManager.acknowledge sequence
  | purge => GManager.purge
  | create request => (GManager.create request).discard
  | createSeries customer skip occurrences => (GManager.createSeries customer skip occurrences).discard
  | changeStatus id request => GManager.changeStatus id request
  | assignResource id request => GManager.assignResource id request
  | update id request => GManager.update id request

/-- A request and what it finds when it is served. -/
structure Request where
  call : Call
  op : Op

/-- Serves one request: its transaction commits, or nothing changes. -/
def step (db : Db) (r : Request) : Db := r.op.perform.commit r.call (db.listen r.call.readings)

/-- Serves requests one after the other. -/
def run (db : Db) (rs : List Request) : Db := rs.foldl step db

theorem run_cons (db : Db) (r : Request) (rs : List Request) : run db (r :: rs) = run (step db r) rs := rfl

theorem run_append (db : Db) (rs rs' : List Request) : run db (rs ++ rs') = run (run db rs) rs' :=
  List.foldl_append

/-- The states of an installation that started empty. -/
def Reachable (db : Db) : Prop := ∃ t rs, db = run (Db.empty t) rs

theorem Reachable.run {db : Db} (h : Reachable db) (rs : List Request) : Reachable (GManager.run db rs) := by
  obtain ⟨t, rs₀, rfl⟩ := h
  exact ⟨t, rs₀ ++ rs, (run_append _ _ _).symm⟩

section

variable {L : ℕ} {c : Call} {db : Db}

theorem QuietTx.effects {α : Type} {x : Tx α} {h : Hours} {l : ℕ} (hx : QuietTx x) :
    wp x (fun _ => Effects h l L db) c db :=
  wp_mono (hx c db) fun _ _ q => .of_quiet q

theorem wp_perform (op : Op) (hl : c.settings.leaseSeconds ≤ L) (o : Orderly L db) :
    wp op.perform (fun _ => Effects c.hours c.settings.leaseSeconds L db) c db := by
  cases op with
  | grant customerId request key => exact wp_discard (wp_grant hl o)
  | account customerId => exact wp_discard (QuietTx.account customerId).effects
  | assign request => exact wp_discard (QuietTx.assign request).effects
  | cancel id => exact (QuietTx.cancel id).effects
  | activate customerId stationId => exact wp_discard wp_activate
  | tick id renew finish => exact wp_mono wp_tick fun _ _ h => h.effects
  | finishByOperator id => exact wp_finishByOperator
  | recover id => exact wp_recover
  | lease => exact wp_discard (wp_lease o)
  | sessionLogin credentials => exact wp_discard wp_sessionLogin
  | sessionLogout sessionId recovery => exact wp_sessionLogout
  | heartbeat request => exact wp_heartbeat
  | poll afterSequence => exact wp_discard (QuietTx.poll afterSequence).effects
  | acknowledge sequence => exact (QuietTx.acknowledge sequence).effects
  | purge => exact QuietTx.purge.effects
  | create request => exact wp_discard wp_create
  | createSeries customer skip occurrences => exact wp_discard wp_createSeries
  | changeStatus id request => exact wp_changeStatus
  | assignResource id request => exact wp_assignResource
  | update id request => exact wp_update

/-- A request is a sequence of effects. -/
theorem step_effects {r : Request} (hl : r.call.settings.leaseSeconds ≤ L) (o : Orderly L db) :
    Effects r.call.hours r.call.settings.leaseSeconds L db (step db r) := by
  have q : Quiet db (db.listen r.call.readings) := .listen _
  exact commit_of_wp (P := Effects r.call.hours r.call.settings.leaseSeconds L db) (.of_quiet q)
    (wp_mono (wp_perform r.op hl (o.quiet q)) fun _ _ e => .head (.quiet q) e)

end

/-- What every effect preserves, a run preserves. `A` tells under which opening hours and lease lengths. -/
theorem run_induct {A : Hours → ℕ → Prop} {L : ℕ} {P : Db → Prop} {db : Db} {rs : List Request}
    (hstep : ∀ {h l db db'}, A h l → Orderly L db → P db → Effect h l L db db' → P db')
    (hA : ∀ r ∈ rs, A r.call.hours r.call.settings.leaseSeconds ∧ r.call.settings.leaseSeconds ≤ L)
    (o : Orderly L db) (hP : P db) : Orderly L (run db rs) ∧ P (run db rs) := by
  induction rs generalizing db with
  | nil => exact ⟨o, hP⟩
  | cons r rs ih =>
    obtain ⟨hr, hl⟩ := hA r List.mem_cons_self
    rw [run_cons]
    have hboth : ∀ db', Effects r.call.hours r.call.settings.leaseSeconds L db db' →
        Orderly L db' ∧ P db' := by
      intro db' e
      induction e with
      | refl => exact ⟨o, hP⟩
      | tail _ e ih => exact ⟨ih.1.effect hl e, hstep hr ih.1 ih.2 e⟩
    obtain ⟨o', hP'⟩ := hboth _ (step_effects hl o)
    exact ih (fun x hx => hA x (List.mem_cons_of_mem _ hx)) o' hP'

/-- The longest lease of the requests. -/
def longestLease (rs : List Request) : ℕ := rs.foldr (fun r n => max r.call.settings.leaseSeconds n) 0

theorem le_longestLease {rs : List Request} {r : Request} (hr : r ∈ rs) :
    r.call.settings.leaseSeconds ≤ longestLease rs := by
  induction rs with
  | nil => exact absurd hr List.not_mem_nil
  | cons x rs ih =>
    rcases List.mem_cons.1 hr with rfl | hr
    · exact le_max_left _ _
    · exact (ih hr).trans (le_max_right _ _)

theorem Reachable.orderly {db : Db} (hdb : Reachable db) : ∃ L, Orderly L db := by
  obtain ⟨t, rs, rfl⟩ := hdb
  exact ⟨longestLease rs, (run_induct (A := fun _ _ => True) (P := fun _ => True) (fun _ _ _ _ => trivial)
    (fun _ hr => ⟨trivial, le_longestLease hr⟩) (.empty t) trivial).1⟩

/-- What holds in a reachable state and is preserved by every effect holds after every run from there. -/
theorem Reachable.run_induct {P : Db → Prop} {db : Db} (hdb : Reachable db)
    (hstep : ∀ {h l L db db'}, Orderly L db → P db → Effect h l L db db' → P db') (rs : List Request)
    (hP : P db) : P (GManager.run db rs) := by
  obtain ⟨L, o⟩ := hdb.orderly
  exact (GManager.run_induct (A := fun _ _ => True) (L := max L (longestLease rs))
    (fun _ o hP e => hstep o hP e) (fun _ hr => ⟨trivial, (le_longestLease hr).trans (le_max_right _ _)⟩)
      (o.mono (le_max_left _ _)) hP).2

/-- What holds at first and is preserved by every effect holds in every reachable state. -/
theorem Reachable.induct {P : Db → Prop} {db : Db} (hdb : Reachable db) (hempty : ∀ t, P (Db.empty t))
    (hstep : ∀ {h l L db db'}, Orderly L db → P db → Effect h l L db db' → P db') : P db := by
  obtain ⟨t, rs, rfl⟩ := hdb
  exact Reachable.run_induct ⟨t, [], rfl⟩ hstep rs (hempty t)

/-! ### A small installation -/

namespace Arcade

/-- One station, which customer 2 may use. -/
def catalogue : Catalogue where
  users := ⟨[⟨1, .owner, true, false⟩, ⟨2, .customer, true, false⟩, ⟨3, .employee, true, false⟩], by decide⟩
  items := ⟨[⟨10, .service, some 60, true, true⟩], by decide⟩
  locations := ⟨[⟨20, "Arcade", true⟩], by decide⟩
  areas := ⟨[⟨30, 20, "Floor", true⟩], by decide⟩
  resources := ⟨[⟨40, 30, 10, "PC-1", "Station 1", .gamingPc, true, true⟩], by decide⟩
  grants := []
  stations := ⟨[⟨40, .available, true, some 0, 10 ^ 9, some 50⟩], by decide⟩
  profiles := ⟨[⟨50, true, 1⟩], by decide⟩
  timeOff := []
  area_location := by simp [← Table.mem_rows]
  resource_area := by simp [← Table.mem_rows]

/-- Open from midnight to the last microsecond, every day. -/
def hours : Hours where
  zone := .fixed 0
  weekly := ⟨[.monday, .tuesday, .wednesday, .thursday, .friday, .saturday, .sunday].map fun day =>
    ⟨none, day, ⟨0, by decide⟩, ⟨86399999999, by decide⟩, true⟩, by decide⟩
  exceptions := .empty

/-- A request of the owner, or of the station, that is served at one instant. -/
def request (freshId : UUID) (t : Instant) (op : Op) : Request where
  op
  call :=
    { actor := ⟨1, .owner⟩
      machineStation := some 40
      freshId
      readings := [t]
      catalogue
      hours
      signs := fun _ => ⟨false, true, false, none, true⟩
      settings := ⟨60, 120, 0, 86400, 30, 480, 60⟩
      price := ⟨some 100, 1⟩ }

def grant (freshId : UUID) (t : Instant) (key : String) : Request :=
  request freshId t (.grant 2 ⟨some ⟨30, 0⟩, some 1, .cash, none⟩ key)

def login (t : Instant) : Request := request 102 t (.sessionLogin fun u => u = 2)

/-- Thirty minutes are sold, and the customer is sent to the station. -/
def afternoon : Db :=
  GManager.run (Db.empty 0) [grant 100 10000000 "first", request 101 11000000 (.assign ⟨2, 40, none⟩)]

/-- The customer has logged in, and the station has taken two leases. -/
def evening : Db :=
  GManager.run afternoon [login 12000000, request 103 20500000 .lease, request 104 70250000 .lease]

theorem reachable_afternoon : Reachable afternoon := ⟨0, _, rfl⟩

theorem reachable_evening : Reachable evening := reachable_afternoon.run _

end Arcade

end GManager

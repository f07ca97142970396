import GManager.Rows
import GManager.Journal
import GManager.Span
import GManager.Succeeds

/-!
# The database of the services

`Db` holds the tables that the modelled services write, and the clock. A transaction takes its clock
readings from its call; a reading never lies before the one taken last, so the clock of a run never goes
back. Columns are updated where the source sets them: Hibernate flushes a managed row later in the same
transaction, and nothing reads the row in between.
-/

namespace GManager

/-- The last instant read and the readings that the running call will still take. -/
structure Clock where
  now : Instant
  readings : List Instant

/-- `clock.instant()`. -/
def Clock.next (k : Clock) : Clock := match k.readings with
  | [] => k
  | t :: ts => ⟨max k.now t, ts⟩

theorem Clock.le_next (k : Clock) : k.now ≤ k.next.now := by
  unfold next
  split
  · exact le_rfl
  · exact le_max_left _ _

structure Db where
  clock : Clock
  accounts : Table TimeAccount.customerId
  ledger : Table LedgerEntry.sourceKey
  operations : Table FinancialOperation.id
  sessions : Table GamingSession.id
  assignments : Table StationAssignment.id
  reservations : Table Reservation.id
  commands : Table fun c : StationCommand => (c.stationId, c.sequence)
  cursors : Table CommandCursor.stationId
  heartbeats : Table StationHeartbeat.stationId
  /-- The leases signed so far; the stations hold them, no service reads this. -/
  signed : List SessionLeasePayload

/-- The tables of a new installation. -/
def Db.empty (t : Instant) : Db :=
  ⟨⟨t, []⟩, .empty, .empty, .empty, .empty, .empty, .empty, .empty, .empty, .empty, []⟩

abbrev Tx := Txn Call Db Failure

open Txn

/-! ### Reading -/

/-- `clock.instant()`. -/
def instant : Tx Instant := fun _ db => .ok (db.clock.next.now, { db with clock := db.clock.next })

@[simp] theorem wp_instant {Q : Instant → Db → Prop} {c : Call} {db : Db} :
    wp instant Q c db ↔ Q db.clock.next.now { db with clock := db.clock.next } :=
  ⟨fun h => h _ _ rfl, fun h a db' hx => by
    cases hx
    exact h⟩

/-- The state in which the next readings of the clock will be these. -/
def Db.listen (db : Db) (readings : List Instant) : Db := { db with clock := { db.clock with readings } }

theorem commits_instant {c : Call} {db db' : Db} {t : Instant} :
    instant.run c db = .ok (t, db') ↔ t = db.clock.next.now ∧ db' = { db with clock := db.clock.next } := by
  simp only [run, instant, Except.ok.injEq, Prod.mk.injEq, eq_comm]

@[simp] theorem succeeds_instant {Q : Instant → Db → Prop} {c : Call} {db : Db} :
    Succeeds instant Q c db ↔ Q db.clock.next.now { db with clock := db.clock.next } := by
  simp [Succeeds, commits_instant, and_assoc]

namespace Db

/-- `SELECT balance_seconds FROM gaming_time_accounts`; a customer without account has nothing. -/
def balance (db : Db) (customer : UUID) : ℤ := ((db.accounts.find? customer).map (·.balanceSeconds)).getD 0

theorem balance_congr {db db' : Db} (h : db'.accounts = db.accounts) (customer : UUID) :
    db'.balance customer = db.balance customer := by
  rw [balance, h, balance]

/-- Whether the ledger has an entry under a source key. -/
def hasEntry (db : Db) (source : SourceKey) : Bool := (db.ledger.find? source).isSome

def activeByCustomer (db : Db) (customer : UUID) : Option GamingSession :=
  db.sessions.rows.find? fun s => s.customerId = customer ∧ s.status = .active

def activeByResource (db : Db) (station : UUID) : Option GamingSession :=
  db.sessions.rows.find? fun s => s.resourceId = station ∧ s.status = .active

def activeByMoveTarget (db : Db) (station : UUID) : Option GamingSession :=
  db.sessions.rows.find? fun s => s.moveTargetId = some station ∧ s.status = .active

theorem activeByCustomer_eq_some {db : Db} {customer : UUID} {s : GamingSession}
    (h : db.activeByCustomer customer = some s) :
    s ∈ db.sessions ∧ s.customerId = customer ∧ s.status = .active :=
  ⟨List.mem_of_find?_eq_some h, by simpa using List.find?_some h⟩

theorem activeByCustomer_eq_none {db : Db} {customer : UUID} :
    db.activeByCustomer customer = none ↔
      ∀ s ∈ db.sessions, s.customerId = customer → s.status ≠ .active := by
  simp [activeByCustomer, Table.mem_rows]

theorem activeByResource_eq_some {db : Db} {station : UUID} {s : GamingSession}
    (h : db.activeByResource station = some s) :
    s ∈ db.sessions ∧ s.resourceId = station ∧ s.status = .active :=
  ⟨List.mem_of_find?_eq_some h, by simpa using List.find?_some h⟩

theorem activeByResource_eq_none {db : Db} {station : UUID} :
    db.activeByResource station = none ↔
      ∀ s ∈ db.sessions, s.resourceId = station → s.status ≠ .active := by
  simp [activeByResource, Table.mem_rows]

theorem hasEntry_eq_false {db : Db} {source : SourceKey} :
    db.hasEntry source = false ↔ ∀ e ∈ db.ledger, e.sourceKey ≠ source := by
  simp [hasEntry, Option.isSome_eq_false_iff, Table.find?_eq_none]

/-- `SELECT COALESCE(last_sequence, 0) FROM station_command_sequences`. -/
def currentCursor (db : Db) (station : UUID) : ℕ := ((db.cursors.find? station).map (·.lastSequence)).getD 0

end Db

/-! ### Writing -/

/-- Inserts a row, or fails when its key is taken. -/
def insertRow {κ ρ : Type} [DecidableEq κ] {key : ρ → κ} (table : Db → Table key)
    (put : Db → Table key → Db) (row : ρ) : Tx Unit := do
  let db ← get
  let t ← orThrow ((table db).insert row) .dataIntegrity
  modify fun db => put db t

@[simp] theorem wp_insertRow {κ ρ : Type} [DecidableEq κ] {key : ρ → κ} {table : Db → Table key}
    {put : Db → Table key → Db} {row : ρ} {Q : Unit → Db → Prop} {c : Call} {db : Db} :
    wp (insertRow table put row) Q c db ↔ ∀ t, (table db).insert row = some t → Q () (put db t) := by
  simp only [insertRow, wp_bind, wp_get, wp_orThrow, wp_modify]

@[simp] theorem succeeds_insertRow {κ ρ : Type} [DecidableEq κ] {key : ρ → κ} {table : Db → Table key}
    {put : Db → Table key → Db} {row : ρ} {Q : Unit → Db → Prop} {c : Call} {db : Db} :
    Succeeds (insertRow table put row) Q c db ↔ ∃ t, (table db).insert row = some t ∧ Q () (put db t) := by
  simp only [insertRow, succeeds_bind, succeeds_get, succeeds_orThrow, succeeds_modify]

def Db.putSession (db : Db) (s : GamingSession) : Db := { db with sessions := db.sessions.save s }

def Db.putReservation (db : Db) (r : Reservation) : Db := { db with reservations := db.reservations.save r }

def saveSession (s : GamingSession) : Tx Unit := modify (·.putSession s)

def insertSession : GamingSession → Tx Unit := insertRow Db.sessions fun db t => { db with sessions := t }

def insertAssignment : StationAssignment → Tx Unit :=
  insertRow Db.assignments fun db t => { db with assignments := t }

def insertReservation : Reservation → Tx Unit :=
  insertRow Db.reservations fun db t => { db with reservations := t }

def saveReservation (r : Reservation) : Tx Unit :=
  modify (·.putReservation { r with version := r.version + 1 })

/-! ### Station commands -/

/-- `StationCommandWriter.write`: the next command of the station, numbered by its cursor row. -/
def writeCommand (s : GamingSession) (type : StationCommandType) : Tx ℕ := do
  let now ← instant
  let c ← ask
  let db ← get
  let sequence := db.currentCursor s.resourceId + 1
  modify fun db => { db with cursors := db.cursors.upsert ⟨s.resourceId, sequence⟩ }
  insertRow Db.commands (fun db t => { db with commands := t })
    { stationId := s.resourceId
      sessionId := s.id
      sequence
      commandType := type
      payload := ⟨s.id, s.resourceId, s.customerId, s.status, s.startedAt, s.endsAt, s.endedAt⟩
      availableAt := now
      acknowledgedAt := none
      expiresAt := now.plusSeconds c.settings.retentionSeconds }
  return sequence

end GManager

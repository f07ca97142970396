import GManager.Columns
import GManager.Reconciliation

/-!
# Sessions between memory and their columns

The clock reads nanoseconds and the columns of a session are `TIMESTAMP(6)`, so an entity loses what lies
below a microsecond when it is stored and loaded again. This is `GamingTimeService` and
`StationCommandWriter` at that resolution: in memory, and in the payloads of the commands, instants are
nanoseconds; in the rows of the sessions they are microseconds. What a call finds in the tables that it only
reads comes with its environment.
-/

namespace GManager.Nanos

open Txn

/-! ### Instants in memory and in columns -/

/-- `Duration.between(s, t).getSeconds()`. -/
def secondsBetween (s t : ℤ) : ℤ := (t - s) / 1000000000

/-- A session whose instants are rewritten. -/
def mapInstants (f : ℤ → ℤ) (s : GamingSession) : GamingSession :=
  { s with
    lastBilledAt := f s.lastBilledAt
    meteredLeaseUntil := f s.meteredLeaseUntil
    accessUntil := f s.accessUntil
    startedAt := f s.startedAt
    endsAt := f s.endsAt
    endedAt := s.endedAt.map f }

/-- The row of an entity. -/
def stored (s : GamingSession) : GamingSession := mapInstants timestamp6 s

/-- The entity that a row is read as. -/
def loaded (r : GamingSession) : GamingSession := mapInstants fromColumn r

/-! ### The database and the calls -/

/-- The tables that the operations write; `reads` counts the readings of the clock in the running call. -/
structure Store where
  reads : ℕ
  accounts : Table TimeAccount.customerId
  ledger : Table LedgerEntry.sourceKey
  sessions : Table GamingSession.id
  commands : Table fun c : StationCommand => (c.stationId, c.sequence)
  cursors : Table CommandCursor.stationId

def Store.empty : Store := ⟨0, .empty, .empty, .empty, .empty, .empty⟩

/-- What a call finds: the readings of its clock, the settings, and the rows of the
tables that it only reads. -/
structure Environment where
  freshId : UUID
  clock : ℕ → ℤ
  settings : Settings
  /-- The checks and locks on customers, stations and clients. -/
  checks : Except Failure Unit
  /-- The assignment of the customer at the station that waits for a login at an instant. -/
  assignment : UUID → UUID → ℤ → Option StationAssignment
  location : UUID
  /-- `boundary`. It compares the instant with columns and gives one of them, so it is
  a number of microseconds. -/
  boundary : UUID → UUID → UUID → Option UUID → ℤ → Except Failure ℤ

abbrev NanoTx := Txn Environment Store Failure

def instant : NanoTx ℤ := do
  let c ← ask
  let db ← get
  modify fun db => { db with reads := db.reads + 1 }
  return c.clock db.reads

namespace Store

def balance (db : Store) (customer : UUID) : ℤ := ((db.accounts.find? customer).map (·.balanceSeconds)).getD 0

def hasEntry (db : Store) (source : SourceKey) : Bool := (db.ledger.find? source).isSome

def currentCursor (db : Store) (station : UUID) : ℕ :=
  ((db.cursors.find? station).map (·.lastSequence)).getD 0

def activeByCustomer (db : Store) (customer : UUID) : Option GamingSession :=
  db.sessions.rows.find? fun r => r.customerId = customer ∧ r.status = .active

def activeByResource (db : Store) (station : UUID) : Option GamingSession :=
  db.sessions.rows.find? fun r => r.resourceId = station ∧ r.status = .active

def activeByMoveTarget (db : Store) (station : UUID) : Option GamingSession :=
  db.sessions.rows.find? fun r => r.moveTargetId = some station ∧ r.status = .active

end Store

/-- `saveAndFlush` of an entity that has a row. -/
def saveSession (s : GamingSession) : NanoTx Unit :=
  modify fun db => { db with sessions := db.sessions.save (stored s) }

/-! ### Station commands -/

/-- `StationCommandWriter.write`: the payload is rendered from the entity in memory. -/
def writeCommand (s : GamingSession) (type : StationCommandType) : NanoTx ℕ := do
  let now ← instant
  let c ← ask
  let db ← get
  let sequence := db.currentCursor s.resourceId + 1
  modify fun db => { db with cursors := db.cursors.upsert ⟨s.resourceId, sequence⟩ }
  let db ← get
  let commands ← orThrow (db.commands.insert
    { stationId := s.resourceId
      sessionId := s.id
      sequence
      commandType := type
      payload := ⟨s.id, s.resourceId, s.customerId, s.status, s.startedAt, s.endsAt, s.endedAt⟩
      availableAt := timestamp6 now
      acknowledgedAt := none
      expiresAt := timestamp6 (plusSeconds now c.settings.retentionSeconds) }) .dataIntegrity
  modify fun db => { db with commands }
  return sequence

/-- `matchesCurrentProjection`: equal texts of instants are equal instants. -/
def Store.matchesCurrentProjection (db : Store) (s : GamingSession) : Bool := match s.lastCommandSequence with
  | none => false
  | some sequence =>
    ((db.commands.find? (s.resourceId, sequence)).filter (·.sessionId = s.id)).any (·.projects s)

/-! ### Gaming time -/

/-- `append`. -/
def append (customer : UUID) (session operation : Option UUID) (actor : UUID) (delta : ℤ) (kind : LedgerKind)
    (reason : Option String) (source : SourceKey) : NanoTx Unit := do
  let db ← get
  if db.hasEntry source then return ()
  else
    let after ← lift (addExact (db.balance customer) delta)
    require (0 ≤ after) (fail .conflict "Operation would create negative gaming time")
    let createdAt ← instant
    let ledger ← orThrow (db.ledger.insert
      ⟨customer, session, operation, actor, delta, after, kind, reason, source, timestamp6 createdAt⟩)
        .dataIntegrity
    modify fun db => { db with accounts := db.accounts.upsert ⟨customer, after⟩, ledger }

/-- `unsettled`. -/
def unsettled (s : GamingSession) (now balance : ℤ) : ℤ :=
  min balance (max 0 (secondsBetween s.lastBilledAt (min now (min s.endsAt s.meteredLeaseUntil))))

/-- `close`. -/
def close (s : GamingSession) (status : GamingSessionStatus) (reason : String) : NanoTx GamingSession := do
  let s := { s with status, endedAt := some s.lastBilledAt, terminationReason := some reason }
  saveSession s
  let sequence ← writeCommand s .sessionTerminated
  let s := s.announced sequence
  saveSession s
  return s

/-- The part of `settle` that books the unsettled seconds. -/
def charge (s : GamingSession) (delta : ℤ) : NanoTx GamingSession := do
  if 0 < delta then
    let total ← lift (addExact s.billedSeconds delta)
    append s.customerId (some s.id) none s.startedBy (-delta) .consumption none (.use s.id total)
    let s := { s with billedSeconds := total, lastBilledAt := plusSeconds s.lastBilledAt delta }
    saveSession s
    return s
  else return s

/-- `settle`. -/
def settle (s : GamingSession) (now : ℤ) : NanoTx GamingSession := do
  if s.billingMode ≠ .timeBalance ∨ s.status ≠ .active then return s
  else
    let db ← get
    let s ← charge s (unsettled s now (db.balance s.customerId))
    let db ← get
    if db.balance s.customerId = 0 ∨ s.endsAt ≤ now ∨ s.meteredLeaseUntil ≤ now then
      if now < s.endsAt ∧ s.meteredLeaseUntil ≤ now then
        close s .terminated "RECOVERY_REQUIRED: signed station lease expired"
      else
        close s .expired (if db.balance s.customerId = 0 then "Gaming time exhausted"
          else "Station reservation or opening-hours boundary reached")
    else return s

/-- `boundary`, as an instant in memory. -/
def boundary (station location customer : UUID) (reservationId : Option UUID) (now : ℤ) : NanoTx ℤ := do
  let c ← ask
  let limit ← lift (c.boundary station location customer reservationId now)
  return fromColumn limit

/-- `refreshEnd`. -/
def refreshEnd (s : GamingSession) : NanoTx GamingSession := do
  let db ← get
  if db.balance s.customerId = 0 then close s .expired "Gaming time exhausted"
  else
    let now ← instant
    let limit ← boundary s.resourceId s.locationId s.customerId s.reservationId now
    let stop := min (plusSeconds s.lastBilledAt (db.balance s.customerId)) limit
    let s :=
      { s with endsAt := stop, accessUntil := limit, meteredLeaseUntil := min s.meteredLeaseUntil stop }
    saveSession s
    let sequence ← writeCommand s .sessionExtended
    let s := s.announced sequence
    saveSession s
    return s

/-- `lockActive`: the entity, read again under its lock. -/
def lockActive (customerId : UUID) : NanoTx (Option GamingSession) := do
  let c ← ask
  let db ← get
  match db.activeByCustomer customerId with
  | none => return none
  | some r => do
    lift c.checks
    return some (loaded r)

/-- `grant` after its checks: settles the running session, books the payment, and moves the session's end. -/
def grant (customerId actorId operationId : UUID) (seconds : ℤ) (key : String) : NanoTx Unit := do
  let c ← ask
  lift c.checks
  let source := SourceKey.grant actorId customerId key
  let db ← get
  if db.hasEntry source then return ()
  else
    match ← lockActive customerId with
    | none => do
      let _ ← instant
      append customerId none (some operationId) actorId seconds .grant none source
    | some active => do
      let now ← instant
      let active ← settle active now
      -- the row of the payment takes a reading of its own
      let _ ← instant
      append customerId none (some operationId) actorId seconds .grant none source
      if active.status = .active then
        let _ ← refreshEnd active
        return ()
      else return ()

/-- The part of `activate` that starts a new session. -/
def start (customerId stationId : UUID) (now : ℤ) : NanoTx GamingSession := do
  let c ← ask
  let db ← get
  let a ← orThrow (c.assignment customerId stationId now)
    (fail .conflict "A valid station assignment is required")
  require (db.activeByResource stationId = none ∧ db.activeByMoveTarget stationId = none)
    (fail .conflict "Station is occupied")
  let seconds := db.balance customerId
  require (0 < seconds) (fail .conflict "Customer has no gaming time")
  let limit ← boundary stationId c.location customerId a.reservationId now
  let stop := min (plusSeconds now seconds) limit
  let s : GamingSession :=
    { id := c.freshId
      customerId
      resourceId := stationId
      locationId := c.location
      reservationId := a.reservationId
      startedBy := a.assignedBy
      billingMode := .timeBalance
      billedSeconds := 0
      lastBilledAt := now
      meteredLeaseUntil := min (plusSeconds now c.settings.leaseSeconds) stop
      accessUntil := limit
      moveTargetId := none
      startedAt := now
      endsAt := stop
      endedAt := none
      status := .active
      terminationReason := none
      lastCommandSequence := none }
  let sessions ← orThrow (db.sessions.insert (stored s)) .dataIntegrity
  modify fun db => { db with sessions }
  let sequence ← writeCommand s .sessionStarted
  let s := s.announced sequence
  saveSession s
  return s

/-- `activate`. -/
def activate (customerId stationId : UUID) : NanoTx GamingSession := do
  let c ← ask
  lift c.checks
  let now ← instant
  let db ← get
  match db.activeByCustomer customerId with
  | some r => do
    require (r.resourceId = stationId ∧ r.billingMode = .timeBalance)
      (fail .conflict "Customer is already playing elsewhere")
    let existing ← settle (loaded r) now
    require (existing.status = .active) (fail .conflict "Session requires a new assignment")
    return existing
  | none => start customerId stationId now

/-- The part of `tick` after the settlement. -/
def finishOrRenew (s : GamingSession) (renew finish : Bool) : NanoTx GamingSession := do
  let c ← ask
  if finish ∧ s.status = .active then close s .terminated "Customer finished gaming"
  else if renew ∧ s.status = .active then
    let now ← instant
    let s := { s with meteredLeaseUntil := min (plusSeconds now c.settings.leaseSeconds) s.endsAt }
    saveSession s
    return s
  else return s

/-- `tick`, and the entity that it leaves in memory. -/
def tick (id : UUID) (renew finish : Bool) : NanoTx (Option GamingSession) := do
  let c ← ask
  let db ← get
  match db.sessions.find? id with
  | none => return none
  | some r => do
    if r.billingMode = .timeBalance then
      lift c.checks
      if r.status = .active then
        let now ← instant
        let s ← settle (loaded r) now
        let s ← finishOrRenew s renew finish
        return some s
      else return some (loaded r)
    else return some (loaded r)

/-- `recover`: the entity is the one that the tick has left in memory. -/
def recover (id : UUID) : NanoTx Unit := do
  match ← tick id false false with
  | none => return ()
  | some s => do
    if s.billingMode = .timeBalance ∧ s.status = .active then
      let _ ← close s .terminated
        "RECOVERY_REQUIRED: Windows Client restarted or lost its active session state"
      return ()
    else return ()

/-! ### The operators and the reconciliation -/

/-- `forceLock`, by an actor who may manage the station. -/
def forceLock (stationId : UUID) : NanoTx Unit := do
  let db ← get
  let r ← orThrow ((latestCandidate db.sessions.rows stationId).filter (·.status ≠ .active)) .noSuchElement
  let s := loaded r
  let sequence ← writeCommand s .forceLock
  saveSession (s.announced sequence)

/-- `outsideRetention`. -/
def outsideRetention (s : GamingSession) : NanoTx Bool := do
  let c ← ask
  match s.endedAt with
  | none => return false
  | some endedAt =>
    if s.status = .active then return false
    else do
      let now ← instant
      return endedAt < plusSeconds now (-c.settings.retentionSeconds)

/-- `repair`. -/
def repair (id : UUID) : NanoTx Bool := do
  let db ← get
  match db.sessions.find? id with
  | none => return false
  | some r => do
    let s := loaded r
    let outside ← outsideRetention s
    if outside ∨ db.matchesCurrentProjection s then return false
    else do
      let sequence ← writeCommand s s.repairType
      saveSession (s.announced sequence)
      return true

/-! ### Runs -/

inductive NanoOp
  | activate (customerId stationId : UUID)
  | tick (id : UUID) (renew finish : Bool)
  | grant (customerId actorId operationId : UUID) (seconds : ℤ) (key : String)
  | finishByOperator (id : UUID)
  | recover (id : UUID)
  | forceLock (stationId : UUID)

def NanoOp.perform : NanoOp → NanoTx Unit
  | activate customerId stationId => (Nanos.activate customerId stationId).discard
  | tick id renew finish => (Nanos.tick id renew finish).discard
  | grant customerId actorId operationId seconds key => Nanos.grant customerId actorId operationId seconds key
  | finishByOperator id => (Nanos.tick id false true).discard
  | recover id => Nanos.recover id
  | forceLock stationId => Nanos.forceLock stationId

structure NanoRequest where
  environment : Environment
  op : NanoOp

/-- The first reading of each call is the first of its clock. -/
def Store.rewind (db : Store) : Store := { db with reads := 0 }

def step (db : Store) (r : NanoRequest) : Store := r.op.perform.commit r.environment db.rewind

def run (db : Store) (rs : List NanoRequest) : Store := rs.foldl step db

end GManager.Nanos

import GManager.Rows

/-!
# What the stations are known to enforce

`StationEnforcementProjectionService` keeps one row for each station: what its client last reported, the
highest command sequence known, and whether a local lock has been confirmed. The writer of commands, the
leases, the heartbeats, the lock acknowledgements, the operators and the stale job all write this row; a new
session needs it to be `LOCKED`. The tables of the sessions are read only, and come with the calls.
-/

namespace GManager

open Txn

inductive StationEnforcementStatus
  | devReady | devActive | unknown | unlocked | lockPending | locked | offline
  deriving DecidableEq, Repr

/-- A row of `station_client_enforcement`. -/
structure StationClientEnforcement where
  stationId : UUID
  identityId : Option UUID
  sessionId : Option UUID
  enforcementStatus : StationEnforcementStatus
  lastLeaseId : Option UUID
  lastLeaseExpiresAt : Option Instant
  lastConfigVersion : ℤ
  lastCommandSequence : ℕ
  lastLockAckAt : Option Instant
  clientReportedAt : Option Instant
  deriving DecidableEq, Repr

def StationClientEnforcement.new (stationId : UUID) : StationClientEnforcement :=
  { stationId, identityId := none, sessionId := none, enforcementStatus := .unknown, lastLeaseId := none,
    lastLeaseExpiresAt := none, lastConfigVersion := 0, lastCommandSequence := 0, lastLockAckAt := none,
    clientReportedAt := none }

structure MachinePrincipal where
  identityId : UUID
  stationId : UUID
  deriving DecidableEq, Repr

/-- `DevelopmentStations`: the stations whose protection is simulated, in the local profile only. -/
structure DevelopmentStations where
  localEnvironment : Bool
  stationIds : List UUID

def DevelopmentStations.enabled (d : DevelopmentStations) (id : UUID) : Bool :=
  d.localEnvironment ∧ id ∈ d.stationIds

/-- What has set the status of a station to `LOCKED`. -/
inductive LockCause
  | ack (sessionId : UUID) (sequence lastCommandSequence : ℕ)
  | confirmed (actorId : UUID)
  | reported
  deriving DecidableEq, Repr

/-- For the statements about histories: a command was issued to the station, or its status set to `LOCKED`. -/
inductive EnforcementNote
  | issued (stationId sessionId : UUID) (sequence : ℕ) (type : StationCommandType)
  | locked (stationId : UUID) (cause : LockCause)
  deriving DecidableEq, Repr

/-- The tables, and the history with the newest note first. -/
structure EnforcementDb where
  states : Table StationClientEnforcement.stationId
  commands : Table fun c : StationCommand => (c.stationId, c.sequence)
  cursors : Table CommandCursor.stationId
  log : List EnforcementNote

def EnforcementDb.empty : EnforcementDb := ⟨.empty, .empty, .empty, []⟩

abbrev EnforcementTx := Txn DevelopmentStations EnforcementDb Failure

/-- The row of the station, or a new one. -/
def EnforcementDb.state (db : EnforcementDb) (stationId : UUID) : StationClientEnforcement :=
  (db.states.find? stationId).getD (.new stationId)

def EnforcementDb.cursor (db : EnforcementDb) (stationId : UUID) : ℕ :=
  ((db.cursors.find? stationId).map (·.lastSequence)).getD 0

/-- Saves the row; `notes` says what the statements need to know of it. -/
def saveState (e : StationClientEnforcement) (notes : List EnforcementNote) : EnforcementTx Unit :=
  modify fun db => { db with states := db.states.upsert e, log := notes ++ db.log }

/-- The commands that a client confirms by locking the station. -/
def StationCommandType.locks : StationCommandType → Bool
  | .sessionTerminated | .forceLock => true
  | .sessionStarted | .sessionExtended => false

/-! ### The projection -/

namespace StationEnforcement

def commandIssued (stationId sessionId : UUID) (type : StationCommandType) (sequence : ℕ) :
    EnforcementTx Unit := do
  let db ← get
  let state := db.state stationId
  saveState
    { state with
      sessionId := some sessionId
      lastCommandSequence := max state.lastCommandSequence sequence
      enforcementStatus := if type.locks then .lockPending else .unlocked }
    [.issued stationId sessionId sequence type]

def leaseIssued (machine : MachinePrincipal) (leaseId : UUID) (sessionId : Option UUID)
    (expiresAt : Instant) (configVersion : ℤ) (cursor : ℕ) (now : Instant) : EnforcementTx Unit := do
  let db ← get
  let state := db.state machine.stationId
  saveState
    { state with
      identityId := some machine.identityId
      sessionId := sessionId.or state.sessionId
      lastLeaseId := some leaseId
      lastLeaseExpiresAt := some expiresAt
      lastConfigVersion := max state.lastConfigVersion configVersion
      lastCommandSequence := max state.lastCommandSequence cursor
      clientReportedAt := some now }
    []

/-- The checks of a simulated report: it must come with the current lease and fit the
session of the station. -/
def requireSimulated (state : StationClientEnforcement) (machine : MachinePrincipal) (ready : Bool)
    (sessionId leaseId : Option UUID) (configVersion : ℤ) (cursor : ℕ) (active : Option GamingSession)
    (now : Instant) : EnforcementTx Unit := do
  require (leaseId.isSome ∧ leaseId = state.lastLeaseId ∧ ∃ t ∈ state.lastLeaseExpiresAt, now < t)
    (fail .conflict "Development readiness requires the current signed lease")
  require (state.lastCommandSequence ≤ cursor) (fail .conflict "Development command cursor is stale")
  require (ready = true → active = none)
    (fail .conflict "Development session state changed; refresh the signed lease")
  require (ready = false → ∃ s ∈ active, sessionId = some s.id)
    (fail .conflict "Development session state changed; refresh the signed lease")
  require (state.identityId = some machine.identityId ∧ configVersion = state.lastConfigVersion)
    (fail .conflict "Development readiness requires the current signed lease")

/-- `heartbeat`: a reported lock counts only for a station that has seen neither a session nor a command. -/
def heartbeat (machine : MachinePrincipal) (reported : Option StationEnforcementStatus)
    (sessionId leaseId : Option UUID) (configVersion : ℤ) (cursor : ℕ) (active : Option GamingSession)
    (now : Instant) : EnforcementTx Unit := do
  let d ← ask
  let simulated := reported = some .devReady ∨ reported = some .devActive
  require (simulated → d.localEnvironment = true)
    (fail .conflict "Development readiness requires the local backend profile")
  require (simulated → d.enabled machine.stationId = true)
    (fail .conflict "Development station is not explicitly enabled in the local backend")
  let db ← get
  let state := db.state machine.stationId
  when simulated
    (requireSimulated state machine (reported = some .devReady) sessionId leaseId configVersion
      cursor active now)
  let sessionId := sessionId.or state.sessionId
  let sequence := max state.lastCommandSequence cursor
  let accepted := reported.filter fun r => r ≠ .locked ∨ sessionId = none ∧ sequence = 0
  saveState
    { state with
      identityId := some machine.identityId
      clientReportedAt := some now
      lastCommandSequence := sequence
      lastConfigVersion := max state.lastConfigVersion configVersion
      lastLeaseId := leaseId.or state.lastLeaseId
      sessionId
      enforcementStatus := accepted.getD state.enforcementStatus }
    (if accepted = some .locked then [.locked machine.stationId .reported] else [])

def lockAck (machine : MachinePrincipal) (sessionId : UUID) (sequence : ℕ)
    (leaseId : Option UUID) (now : Instant) :
    EnforcementTx Instant := do
  let d ← ask
  require (d.enabled machine.stationId = false)
    (fail .conflict "Development stations cannot confirm physical Windows lock")
  let db ← get
  let state := db.state machine.stationId
  require (sequence = state.lastCommandSequence)
    (fail .conflict "Lock acknowledgement is stale; acknowledge the current lock command")
  require (∀ s ∈ state.sessionId, s = sessionId)
    (fail .conflict "Lock acknowledgement does not match enforcement projection")
  saveState
    { state with
      identityId := some machine.identityId
      sessionId := some sessionId
      lastCommandSequence := max state.lastCommandSequence sequence
      lastLeaseId := leaseId.or state.lastLeaseId
      enforcementStatus := .locked
      lastLockAckAt := some now
      clientReportedAt := some now }
    [.locked machine.stationId (.ack sessionId sequence state.lastCommandSequence)]
  return now

/-- `operatorRecovery`: the action `OPERATOR_RECOVERY` confirms the lock, every other one asks for it. -/
def operatorRecovery (stationId sessionId actorId : UUID) (action : String) (sequence : ℕ) (now : Instant) :
    EnforcementTx Unit := do
  let d ← ask
  require (¬ (d.enabled stationId = true ∧ action = "OPERATOR_RECOVERY"))
    (fail .conflict "Development stations cannot confirm physical Windows lock")
  let db ← get
  let state := db.state stationId
  saveState
    { state with
      sessionId := some sessionId
      lastCommandSequence := max state.lastCommandSequence sequence
      enforcementStatus := if action = "OPERATOR_RECOVERY" then .locked else .lockPending
      lastLockAckAt := if action = "OPERATOR_RECOVERY" then some now else state.lastLockAckAt }
    (if action = "OPERATOR_RECOVERY" then [.locked stationId (.confirmed actorId)] else [])

/-- `safeForNewSession`. -/
def safeForNewSession (d : DevelopmentStations) (db : EnforcementDb) (stationId : UUID)
    (active : Option GamingSession) (now : Instant) : Bool := match db.states.find? stationId with
  | none => false
  | some e => e.enforcementStatus = .locked ∨ d.enabled stationId ∧ e.enforcementStatus = .devReady ∧
    (∃ t ∈ e.lastLeaseExpiresAt, now < t) ∧ active = none

end StationEnforcement

/-! ### Its callers -/

/-- `StationCommandWriter.write`: the next command of the station. -/
def writeStationCommand (s : GamingSession) (type : StationCommandType) (retentionSeconds : ℤ)
    (now : Instant) : EnforcementTx ℕ := do
  let db ← get
  let sequence := db.cursor s.resourceId + 1
  let command : StationCommand :=
    { stationId := s.resourceId
      sessionId := s.id
      sequence
      commandType := type
      payload := ⟨s.id, s.resourceId, s.customerId, s.status, s.startedAt, s.endsAt, s.endedAt⟩
      availableAt := now
      acknowledgedAt := none
      expiresAt := now.plusSeconds retentionSeconds }
  let commands ← orThrow (db.commands.insert command) .dataIntegrity
  modify fun db => { db with commands, cursors := db.cursors.upsert ⟨s.resourceId, sequence⟩ }
  StationEnforcement.commandIssued s.resourceId s.id type sequence
  return sequence

/-- `StationLeaseService.lockAck`: of a lock command of the session. -/
def lockAck (machine : MachinePrincipal) (sessionId : UUID) (sequence : ℕ)
    (leaseId : Option UUID) (now : Instant) :
    EnforcementTx Unit := do
  let db ← get
  let command ← orThrow ((db.commands.find? (machine.stationId, sequence)).filter fun c =>
    c.sessionId = sessionId ∧
    c.commandType.locks) (fail .conflict "Lock acknowledgement does not match a lock command")
  let acknowledgedAt ← StationEnforcement.lockAck machine sessionId sequence leaseId now
  when (command.acknowledgedAt = none)
    (modify fun db =>
      { db with commands := db.commands.save { command with acknowledgedAt := some acknowledgedAt } })

/-- `findLatestCandidates`, of one station. -/
def latestCandidate (sessions : List GamingSession) (stationId : UUID) : Option GamingSession :=
  sessions.find? fun s => s.resourceId = stationId ∧ ∀ x ∈ sessions, x.resourceId = stationId →
    x.startedAt ≤ s.startedAt

/-- `forceLock`, by an actor who may manage the station. -/
def forceLock (stationId actorId : UUID) (sessions : List GamingSession) (retentionSeconds : ℤ)
    (now : Instant) : EnforcementTx Unit := do
  let s ← orThrow ((latestCandidate sessions stationId).filter (·.status ≠ .active)) .noSuchElement
  let sequence ← writeStationCommand s .forceLock retentionSeconds now
  StationEnforcement.operatorRecovery stationId s.id actorId "FORCE_LOCK" sequence now

/-- `confirmLocked`, by an actor who may manage the station. -/
def confirmLocked (stationId actorId : UUID) (sessions : List GamingSession) (now : Instant) :
    EnforcementTx Unit := do
  let s ← orThrow ((latestCandidate sessions stationId).filter (·.status ≠ .active)) .noSuchElement
  StationEnforcement.operatorRecovery stationId s.id actorId "OPERATOR_RECOVERY"
    (s.lastCommandSequence.getD 0) now

/-- The stale job on one row: `offlineGrace` is that of the profiles, `lastSeen` of the heartbeats. -/
def StationClientEnforcement.markStale (offlineGrace : UUID → Option ℤ) (lastSeen : UUID → Option Instant)
    (now : Instant) (e : StationClientEnforcement) : StationClientEnforcement :=
  if e.enforcementStatus = .lockPending ∨ e.enforcementStatus = .locked then e
  else match offlineGrace e.stationId with
  | none => e
  | some grace =>
    if ∀ t ∈ lastSeen e.stationId, Instant.plusSeconds t grace ≤ now then
      { e with enforcementStatus := .offline }
    else e

theorem StationClientEnforcement.markStale_stationId (offlineGrace : UUID → Option ℤ)
    (lastSeen : UUID → Option Instant) (now : Instant) (e : StationClientEnforcement) :
    (e.markStale offlineGrace lastSeen now).stationId = e.stationId := by
  unfold markStale
  split
  · rfl
  · split
    · rfl
    · split <;> rfl

/-- `markStale`. -/
def markStale (offlineGrace : UUID → Option ℤ) (lastSeen : UUID → Option Instant) (now : Instant) :
    EnforcementTx Unit :=
  modify fun db => { db with
    states := db.states.edit (·.markStale offlineGrace lastSeen now)
      (StationClientEnforcement.markStale_stationId _ _ _) }

/-- The purge of acknowledged commands past their expiry. -/
def purgeCommands (now : Instant) : EnforcementTx Unit :=
  modify fun db =>
    { db with commands := db.commands.delete fun c => c.expiresAt < now ∧ c.acknowledgedAt.isSome }

inductive EnforcementOp
  | write (s : GamingSession) (type : StationCommandType) (retentionSeconds : ℤ) (now : Instant)
  | leaseIssued (machine : MachinePrincipal) (leaseId : UUID) (sessionId : Option UUID)
      (expiresAt : Instant) (configVersion : ℤ) (cursor : ℕ) (now : Instant)
  | heartbeat (machine : MachinePrincipal) (reported : Option StationEnforcementStatus)
      (sessionId leaseId : Option UUID) (configVersion : ℤ) (cursor : ℕ)
        (active : Option GamingSession) (now : Instant)
  | lockAck (machine : MachinePrincipal) (sessionId : UUID) (sequence : ℕ)
      (leaseId : Option UUID) (now : Instant)
  | operatorRecovery (stationId sessionId actorId : UUID) (action : String) (sequence : ℕ) (now : Instant)
  | forceLock (stationId actorId : UUID) (sessions : List GamingSession)
      (retentionSeconds : ℤ) (now : Instant)
  | confirmLocked (stationId actorId : UUID) (sessions : List GamingSession) (now : Instant)
  | markStale (offlineGrace : UUID → Option ℤ) (lastSeen : UUID → Option Instant) (now : Instant)
  | purge (now : Instant)

def EnforcementOp.perform : EnforcementOp → EnforcementTx Unit
  | write s type retentionSeconds now => (writeStationCommand s type retentionSeconds now).discard
  | leaseIssued machine leaseId sessionId expiresAt configVersion cursor now =>
    StationEnforcement.leaseIssued machine leaseId sessionId expiresAt configVersion cursor now
  | heartbeat machine reported sessionId leaseId configVersion cursor active now =>
    StationEnforcement.heartbeat machine reported sessionId leaseId configVersion cursor active now
  | lockAck machine sessionId sequence leaseId now => GManager.lockAck machine sessionId sequence leaseId now
  | operatorRecovery stationId sessionId actorId action sequence now =>
    StationEnforcement.operatorRecovery stationId sessionId actorId action sequence now
  | forceLock stationId actorId sessions retentionSeconds now =>
    GManager.forceLock stationId actorId sessions retentionSeconds now
  | confirmLocked stationId actorId sessions now => GManager.confirmLocked stationId actorId sessions now
  | markStale offlineGrace lastSeen now => GManager.markStale offlineGrace lastSeen now
  | purge now => purgeCommands now

/-- Each operation is a transaction: it commits, or nothing changes. -/
def EnforcementDb.step (d : DevelopmentStations) (db : EnforcementDb) (op : EnforcementOp) :
    EnforcementDb := op.perform.commit d db

def EnforcementDb.run (d : DevelopmentStations) (db : EnforcementDb)
    (ops : List EnforcementOp) : EnforcementDb :=
  ops.foldl (EnforcementDb.step d) db

end GManager

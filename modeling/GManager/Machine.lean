import GManager.TimeService

/-!
# The protocol of the stations

`StationLeaseService.lease` and the requests of `MachineProtocolService` that touch sessions or commands.
A lease ticks the running session with renewal, and what it signs is what the session is metered to.
-/

namespace GManager

open Txn

/-- `MachinePrincipalProvider.require`: the station that the machine token names. -/
def requireMachine : Tx UUID := do
  let c ← ask
  orThrow c.machineStation (fail .unauthorized "Machine authentication is required")

/-- The configuration version of the enabled station. -/
def configurationVersion (stationId : UUID) : Tx ℤ := do
  let c ← ask
  let station ← orThrow (c.catalogue.stations.find? stationId) (fail .notFound "Station profile not found")
  require station.clientEnabled (fail .conflict "Station Client is disabled")
  let profileId ← orThrow station.applicationProfileId
    (fail .unprocessableEntity "Station has no application profile assigned")
  let profile ← orThrow (c.catalogue.profiles.find? profileId)
    (fail .unprocessableEntity "Assigned application profile not found")
  require profile.active (fail .unprocessableEntity "Assigned application profile is inactive")
  return profile.configurationVersion

/-- The session of the station after the renewing tick, if it is one that a lease may grant. -/
def renewedSession (stationId : UUID) : Tx (Option GamingSession) := do
  let db ← get
  match db.activeByResource stationId with
  | none => return none
  | some s => do
    if s.billingMode = .timeBalance then
      tick s.id true false
      let db ← get
      return db.sessions.find? s.id
    else return some s

/-- Whether a lease issued at `now` grants access to the session. -/
def GamingSession.leasable (s : GamingSession) (now : Instant) : Prop :=
  s.billingMode = .timeBalance ∧ s.status = .active ∧ s.moveTargetId = none ∧ now < s.endsAt

instance (s : GamingSession) (now : Instant) : Decidable (s.leasable now) :=
  inferInstanceAs (Decidable (_ ∧ _ ∧ _ ∧ _))

def sign (payload : SessionLeasePayload) : Tx Unit :=
  modify fun db => { db with signed := payload :: db.signed }

/-- `lease`: the signed permission of the station for the next seconds. -/
def lease : Tx SessionLeasePayload := do
  let stationId ← requireMachine
  let c ← ask
  let now ← instant
  let configVersion ← configurationVersion stationId
  let session ← renewedSession stationId
  let db ← get
  let cursor := db.currentCursor stationId
  let expires := now.plusSeconds c.settings.leaseSeconds
  match session.filter (·.leasable now) with
  | some s => do
    let expires := min (min expires s.endsAt) s.meteredLeaseUntil
    saveSession { s with meteredLeaseUntil := expires }
    let payload : SessionLeasePayload :=
      { leaseId := c.freshId
        stationId
        sessionId := some s.id
        customerId := some s.customerId
        sessionEndsAt := some s.endsAt
        configurationVersion := configVersion
        issuedAt := now
        expiresAt := expires
        graceEndsAt := expires
        commandCursor := cursor
        directive := .active
        billingMode := some s.billingMode
        startedAt := some s.startedAt
        accessEndReason := some (if s.endsAt = s.accessUntil then .boundary else .time)
        balanceSeconds := some (db.balance s.customerId)
        assignmentId := none
        assignmentExpiresAt := none }
    sign payload
    return payload
  | none => do
    let later ← instant
    let waiting := db.waiting stationId later
    let payload : SessionLeasePayload :=
      { leaseId := c.freshId
        stationId
        sessionId := none
        customerId := none
        sessionEndsAt := none
        configurationVersion := configVersion
        issuedAt := now
        expiresAt := expires
        graceEndsAt := expires.plusSeconds c.settings.graceSeconds
        commandCursor := cursor
        directive := .lock
        billingMode := none
        startedAt := none
        accessEndReason := none
        balanceSeconds := none
        assignmentId := waiting.map (·.id)
        assignmentExpiresAt := waiting.map (·.expiresAt) }
    sign payload
    return payload

/-- `sessionLogin`: `matches` says whose e-mail address and password the request carries. -/
def sessionLogin (credentials : UUID → Bool) : Tx GamingSession := do
  let stationId ← requireMachine
  let c ← ask
  let now ← instant
  let db ← get
  let customerId ← orThrow (((db.waiting stationId now).map (·.customerId)).or
      ((db.activeByResource stationId).map (·.customerId)))
    (fail .unauthorized "Customer credentials or active station session are invalid")
  require (∃ u ∈ c.catalogue.users.find? customerId,
      u.role = .customer ∧ u.active ∧ u.deleted = false ∧ credentials customerId)
    (fail .unauthorized "Customer credentials or active station session are invalid")
  activate customerId stationId

/-- `sessionLogout`; `recovery` when the reason is `CLIENT_RECOVERY`. -/
def sessionLogout (sessionId : UUID) (recovery : Bool) : Tx Unit := do
  let stationId ← requireMachine
  let db ← get
  require (∃ s ∈ db.sessions.find? sessionId, s.resourceId = stationId)
    (fail .unauthorized "Customer credentials or active station session are invalid")
  if recovery then recover sessionId else tick sessionId false true

/-- `StationEnforcementStatus` as reported by a client. -/
inductive EnforcementReport
  | locked | other
  deriving DecidableEq, Repr

/-- `MachineDtos.HeartbeatRequest`. -/
structure HeartbeatRequest where
  status : MachineClientStatus
  enforcement : EnforcementReport
  lastCommandSequence : ℕ
  maintenanceActive : Bool
  errorCode : Option String
  deriving DecidableEq, Repr

/-- Finishes the session of the station when a report confirms that it is locked. -/
def endConfirmed (stationId : UUID) (confirmed : Bool) : Tx Unit := do
  let db ← get
  if confirmed then
    match (db.activeByResource stationId).filter (·.billingMode = .timeBalance) with
    | some s => tick s.id false true
    | none => return ()
  else return ()

/-- `heartbeat`: a client that confirms its lock after an error or after play ends the session. -/
def heartbeat (request : HeartbeatRequest) : Tx Unit := do
  let stationId ← requireMachine
  let c ← ask
  let now ← instant
  let _ ← orThrow (c.catalogue.stations.find? stationId) (fail .notFound "Station not found")
  let db ← get
  let previous := db.heartbeats.find? stationId
  let confirmedLock : Bool := request.enforcement = .locked ∧
    (request.errorCode.isSome ∨ ∃ b ∈ previous, b.clientStatus = .sessionActive)
  endConfirmed stationId (confirmedLock ∨ request.status = .maintenance)
  let report : StationHeartbeat :=
    { stationId
      clientStatus := request.status
      lastCommandSequence := max ((previous.map (·.lastCommandSequence)).getD 0) request.lastCommandSequence
      lastSeenAt := now
      maintenanceActive := request.maintenanceActive ∨ request.status = .maintenance
      clientErrorCode := request.errorCode }
  modify fun db => { db with heartbeats := db.heartbeats.upsert report }

/-- `MachineCommandResponse`. -/
structure MachineCommand where
  sequence : ℕ
  commandType : StationCommandType
  payload : CommandPayload
  availableAt : Instant
  expired : Bool
  deriving DecidableEq, Repr

/-- `poll`: the next hundred commands after a sequence number, in their order. -/
def poll (afterSequence : ℕ) : Tx (List MachineCommand) := do
  let stationId ← requireMachine
  let now ← instant
  let db ← get
  let later := db.commands.rows.filter fun c =>
    c.stationId = stationId ∧ afterSequence < c.sequence ∧ c.availableAt ≤ now
  return ((later.mergeSort fun a b => a.sequence ≤ b.sequence).take 100).map fun c =>
    ⟨c.sequence, c.commandType, c.payload, c.availableAt, c.expiresAt ≤ now⟩

/-- A heartbeat row that has seen a command of its station acknowledged. -/
def StationHeartbeat.acknowledge (stationId : UUID) (sequence : ℕ) (b : StationHeartbeat) :
    StationHeartbeat :=
  if b.stationId = stationId then { b with lastCommandSequence := max b.lastCommandSequence sequence } else b

theorem StationHeartbeat.acknowledge_stationId (stationId : UUID) (sequence : ℕ) (b : StationHeartbeat) :
    (b.acknowledge stationId sequence).stationId = b.stationId := by
  unfold acknowledge
  split
  · rfl
  · rfl

/-- `acknowledge`. -/
def acknowledge (sequence : ℕ) : Tx Unit := do
  let stationId ← requireMachine
  let db ← get
  let command ← orThrow (db.commands.find? (stationId, sequence)) (fail .notFound "Station command not found")
  let now ← instant
  let command := { command with acknowledgedAt := command.acknowledgedAt.or (some now) }
  modify fun db => { db with commands := db.commands.save command }
  modify fun db =>
    let heartbeats := db.heartbeats.edit (·.acknowledge stationId sequence)
      (StationHeartbeat.acknowledge_stationId stationId sequence)
    { db with heartbeats }

/-- The purge of `GamingSessionReconciliationJobHandler`: acknowledged commands past their expiry. -/
def purge : Tx Unit := do
  let now ← instant
  modify fun db =>
  { db with commands := db.commands.delete fun c => c.expiresAt < now ∧ c.acknowledgedAt.isSome }

end GManager

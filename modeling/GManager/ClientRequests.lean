import GManager.Process
import Mathlib.Data.List.Sort
import GManager.ClientRuntime

/-!
# The requests of the station client

`Refresh`, the local requests that `Handle` serves and what both call, as processes: every request to the
server is a point at which the process waits, and between any two of their acts the deadline loop may tick,
time passes and the machine may be switched off. The gate lets one of them run at a time, which is what a
`System` does. `Exchanges` is the network's side: what was handed out and what reached the server.
-/

namespace GManager.Client

/-- `Heartbeat`. -/
structure Heartbeat where
  status : MachineClientStatus
  lastCommandSequence : ℤ
  enforcementLocked : Bool
  sessionId : Option UUID
  leaseId : Option UUID
  configurationVersion : ℤ
  maintenanceActive : Bool
  errorCode : Option String
  deriving DecidableEq, Repr

/-- `CustomerSession`, the answer to a login. -/
structure CustomerSession where
  sessionId : UUID
  endsAt : Instant
  serverTime : Instant
  deriving DecidableEq, Repr

/-- The requests of `IMachineProtocolClient` that the runtime sends. -/
inductive MachineRequest
  | authenticate
  | configuration
  | lease
  | commands (afterSequence : ℤ)
  | ack (sequence : ℤ)
  | lockAck (sessionId : UUID) (sequence : ℤ) (leaseId : UUID)
  | heartbeat (h : Heartbeat)
  | login (email password : String)
  | logout (sessionId : UUID)
  | recoverSession (sessionId : UUID)
  | claimUpdate (requestId : Option UUID)
  deriving DecidableEq, Repr

abbrev MachineRequest.Reply : MachineRequest → Type
  | .configuration => SignedStationPolicy
  | .lease => SignedSessionLease
  | .commands _ => List MachineCommand
  | .login .. => CustomerSession
  | _ => Unit

abbrev ClientProc (α : Type) := Proc Runtime MachineRequest MachineRequest.Reply Exn α

open Proc (get modify stateful lift when failIf ifPresent)

def send (r : MachineRequest) : ClientProc r.Reply := Proc.request r

variable (env : ClientEnvironment)

/-- `Heartbeat()`. -/
def Runtime.heartbeat (c : Runtime) : Heartbeat where
  status := if c.maintenance then .maintenance else if c.view.mode = .active then .sessionActive else .locked
  lastCommandSequence := (c.recovery.map (·.appliedSequence)).getD 0
  enforcementLocked := !c.maintenance && c.enforcementVerified env && c.view.mode != .active
  sessionId := c.recovery.bind (·.lease.sessionId)
  leaseId := c.recovery.map (·.lease.leaseId)
  configurationVersion := c.policy.version
  maintenanceActive := c.maintenance
  errorCode := c.errorCode

def sendHeartbeat : ClientProc Unit := do
  let c ← get
  send (.heartbeat (c.heartbeat env))

/-- `EnsureToken`. -/
def ensureToken : ClientProc Unit := do
  let c ← get
  if c.token ∧ c.tokenFresh then return ()
  else do
    send .authenticate
    modify fun c => { c with token := true, tokenFresh := true }

/-! ### Commands and acknowledgements -/

/-- What the exception filter of `AckPendingCommand` lets pass. -/
def prunedAck (sequence : ℤ) (c : Runtime) : Prop :=
  ∃ r ∈ c.recovery, sequence ≤ r.appliedSequence ∧ sequence ≤ r.lease.commandCursor

instance decidablePrunedAck (sequence : ℤ) (c : Runtime) : Decidable (prunedAck sequence c) :=
  inferInstanceAs (Decidable (∃ _ ∈ _, _))

/-- `AckPendingCommand`. -/
def ackPendingCommand : ClientProc Unit := do
  let c ← get
  match c.recovery.bind (·.pendingCommandAckSequence) with
  | none => return ()
  | some sequence => do
    (send (.ack sequence)).tryCatch fun e => do
      let c ← get
      if e = .http (some 404) ∧ prunedAck sequence c then return () else .throw e
    modify (·.updateRecovery fun r => { r with pendingCommandAckSequence := none })
    modify (·.saveRecovery)

/-- Opens the command gap and locks. -/
def Runtime.openGap (c : Runtime) : Runtime := { c with commandGap := true }.lockLocal

/-- Moves past a command. -/
def advance (sequence : ℤ) : ClientProc Unit := do
  modify (·.updateRecovery fun r =>
    { r with appliedSequence := sequence, pendingCommandAckSequence := some sequence })
  modify (·.saveRecovery)
  ackPendingCommand

/-- The part of a lock command after `LockLocal`. -/
def Runtime.recordLock (sessionId : UUID) (sequence : ℤ) (c : Runtime) : Runtime :=
  c.updateRecovery fun r =>
    { r with pendingLockSequence := some sequence
             pendingLockSessionId := some sessionId
             locallyLocked := true
             blockedSessionId := some sessionId }

/-- A start of the session that the lease grants. -/
def Runtime.recordStart (sessionId : UUID) (sequence : ℤ) (c : Runtime) : Runtime :=
  c.updateRecovery (·.acceptStarted sessionId sequence)

/-- Whether a start belongs to the lease. -/
def startsLease (r : ClientRecoveryState) (sessionId : UUID) (sequence : ℤ) : Prop :=
  r.lease.sessionId = some sessionId ∧ r.lease.directive = .active ∧ sequence ≤ r.lease.commandCursor

instance decidableStartsLease (r : ClientRecoveryState) (sessionId : UUID) (sequence : ℤ) :
    Decidable (startsLease r sessionId sequence) := inferInstanceAs (Decidable (_ ∧ _))

/-- The effect of a command; false when it opens the gap instead. -/
def takeEffect (r : ClientRecoveryState) (sessionId : UUID) (command : MachineCommand) : ClientProc Bool := do
  if command.type = .sessionTerminated ∨ command.type = .forceLock then do
    modify (·.lockLocal)
    modify (·.recordLock sessionId command.sequence)
    return true
  else if command.type = .sessionStarted ∧ startsLease r sessionId command.sequence then do
    modify (·.recordStart sessionId command.sequence)
    return true
  else if command.type = .sessionStarted ∨ command.type = .sessionExtended then return true
  else do
    modify (·.openGap)
    return false

/-- The commands of one poll, in ascending order. -/
def applyCommands (stationId : UUID) : List MachineCommand → ClientProc Unit
  | [] => return ()
  | command :: rest => do
    let c ← get
    match c.recovery with
    | none => return ()
    | some r =>
      match SequenceDecision.decide r.appliedSequence command.sequence with
      | .duplicate => applyCommands stationId rest
      | .gap => modify (·.openGap)
      | .apply => do
        let sessionId ← lift (command.validate stationId)
        if r.lease.commandCursor < command.sequence then modify (·.openGap)
        else if command.expired then do
          advance command.sequence
          applyCommands stationId rest
        else do
          let taken ← takeEffect r sessionId command
          if taken then do
            advance command.sequence
            applyCommands stationId rest
          else return ()

/-- `ReconcileCommands`. -/
def reconcileCommands (stationId : UUID) : ClientProc Unit := do
  let c ← get
  match c.recovery with
  | none => return ()
  | some _ => do
    modify fun c => { c with commandGap := false }
    ackPendingCommand
    let c ← get
    let commands ← send (.commands ((c.recovery.map (·.appliedSequence)).getD 0))
    applyCommands stationId (commands.insertionSort fun a b => a.sequence ≤ b.sequence)

def Runtime.dropPendingLock (c : Runtime) : Runtime :=
  c.updateRecovery fun r => { r with pendingLockSequence := none, pendingLockSessionId := none }

/-- `AckPendingLock`. -/
def ackPendingLock : ClientProc Unit := do
  let c ← get
  match c.recovery with
  | none => return ()
  | some r =>
    match r.pendingLockSequence, r.pendingLockSessionId with
    | some sequence, some sessionId =>
      if env.development ∨ c.maintenance ∨ c.enforcementVerified env = false ∨ r.locallyLocked = false then
        return ()
      else if r.lease.directive = .active ∧ r.lease.sessionId ≠ some sessionId then modify (·.dropPendingLock)
      else do
        send (.lockAck sessionId sequence r.lease.leaseId)
        modify (·.dropPendingLock)
    | _, _ => return ()

/-! ### Leases -/

/-- Fetches and verifies the signed lease. -/
def fetchLease (stationId : UUID) : ClientProc (SignedSessionLease × SessionLease) := do
  let envelope ← send .lease
  let lease ← lift (envelope.verify stationId)
  return (envelope, lease)

/-- The lease replaces the one that recovery holds. -/
def Runtime.adopt (envelope : SignedSessionLease) (lease : SessionLease) (locallyLocked : Bool)
    (c : Runtime) : Runtime :=
  let r := c.recovery
  let next : ClientRecoveryState :=
    { envelope
      lease
      appliedSequence := (r.map (·.appliedSequence)).getD 0
      trustedUtcFloor := c.trusted
      pendingLockSequence := r.bind (·.pendingLockSequence)
      pendingLockSessionId := r.bind (·.pendingLockSessionId)
      locallyLocked
      blockedSessionId := r.bind (·.blockedSessionId)
      pendingCommandAckSequence := r.bind (·.pendingCommandAckSequence) }
  { c with recovery := some next }

/-- The session that a lease still grants while none is shown. -/
def Runtime.interrupted (c : Runtime) (lease : SessionLease) : Option UUID :=
  if c.view.mode ≠ .active ∧ lease.billingMode = some .timeBalance ∧ lease.directive = .active then
    lease.sessionId
  else none

/-- The lease that `Refresh` goes on with: access that no login has resumed is settled first. -/
def settledLease (stationId : UUID) : ClientProc (SignedSessionLease × SessionLease) := do
  let c ← get
  ifPresent (c.recovery.bind fun r => c.interrupted r.lease) fun sessionId => send (.recoverSession sessionId)
  let (envelope, lease) ← fetchLease stationId
  let c ← get
  match c.interrupted lease with
  | none => return (envelope, lease)
  | some sessionId => do
    send (.recoverSession sessionId)
    let (envelope, lease) ← fetchLease stationId
    failIf (lease.directive ≠ .lock) .invalidOperation
    return (envelope, lease)

/-- `PersistUpdateDirective`: the check of the signed update request. -/
def ClientUpdateDirective.validate (d : ClientUpdateDirective) : Except Exn Unit :=
  if d.id = emptyGuid ∨ d.versionParses = false ∨ d.expiresAt ≤ d.notBefore then
    .error .invalidData
  else .ok ()

def validateUpdate (lease : SessionLease) : Except Exn Unit :=
  match lease.clientUpdate with
  | none => .ok ()
  | some d => d.validate

/-! ### `Refresh` -/

def installPolicy (stationId : UUID) (signed : SignedStationPolicy) : ClientProc Unit := do
  let result ← stateful fun c => c.applyPolicy stationId signed
  lift result

/-- The part of `Refresh` outside maintenance. -/
def exchange (stationId : UUID) : ClientProc Unit := do
  let signed ← send .configuration
  installPolicy stationId signed
  let (envelope, lease) ← settledLease stationId
  let c ← get
  lift (validateRecovery c.recovery lease)
  modify (·.observe lease.issuedAt)
  let c ← get
  failIf (lease.configurationVersion ≠ c.policy.version) .cryptographic
  lift (validateUpdate lease)
  modify fun c => c.adopt envelope lease ((c.recovery.map (·.locallyLocked)).getD true)
  reconcileCommands stationId
  modify (·.applyLease lease)
  ackPendingLock env
  modify (·.saveRecovery)

/-- The error that a completed refresh leaves. -/
def Runtime.reconciliationError (c : Runtime) : Runtime :=
  let required : Prop :=
    ∃ r ∈ c.recovery, r.blockedSessionId.isSome ∧ r.blockedSessionId = r.lease.sessionId ∧
    r.lease.directive = .active
  { c with errorCode := if required then some "SESSION_RECONCILIATION_REQUIRED" else none }

/-- `API_HTTP_` or the code that the failure carries; only its presence matters here. -/
def httpErrorCode : Option ℕ → String
  | some _ => "API_HTTP"
  | none => "BACKEND_UNAVAILABLE"

def unauthorized (status : Option ℕ) : Bool := status == some 401 || status == some 403

/-- The exception handlers of `Refresh`. -/
def refreshFailed : Exn → ClientProc Unit
  | .http status => do
    when (unauthorized status) do
      modify fun c => { c with token := false }
      modify (·.lockLocal)
    modify fun c => { c with errorCode := some (httpErrorCode status) }
    modify (·.tick env)
    modify (·.saveRecovery)
  | .canceled false => do
    modify fun c => { c with errorCode := some "BACKEND_TIMEOUT" }
    modify (·.tick env)
    modify (·.saveRecovery)
  | .serverStateRollback => do
    modify fun c => { c with errorCode := some "SERVER_STATE_ROLLBACK" }.lockLocal
    modify (·.saveRecovery)
  | .cryptographic => do
    modify fun c => { c with errorCode := some "SIGNATURE_REJECTED" }.lockLocal
    modify (·.saveRecovery)
  | .io | .invalidData | .invalidOperation | .json | .format => do
    modify fun c => { c with errorCode := some "POLICY_FAILED" }.lockLocal
    modify (·.saveRecovery)
  | .canceled true => .throw (.canceled true)
  | .unauthorizedAccess => .throw .unauthorizedAccess

/-- The error report of the `finally` block. -/
def reportError : ClientProc Unit := do
  let c ← get
  if c.errorCode.isSome ∧ c.token then
    (sendHeartbeat env).tryCatch fun e =>
      match e with
      | .http _ | .canceled _ | .json => return ()
      | e => .throw e
  else return ()

def refreshBody (stationId : UUID) : ClientProc Unit := do
  modify (·.tick env)
  ensureToken
  let c ← get
  when (¬ c.maintenance) (exchange env stationId)
  modify (·.reconciliationError)
  sendHeartbeat env

/-- `Refresh`. -/
def refresh : ClientProc Unit :=
  match env.stationId with
  | none => do
    modify fun c => { c with errorCode := some "ENROLLMENT_REQUIRED" }
    modify (·.tick env)
  | some stationId =>
    ((refreshBody env stationId).tryCatch (refreshFailed env)).thenFinally
      ((reportError env).thenFinally (modify (·.tick env)))

/-! ### Local requests -/

/-- `LocalRequest`; `launch` with what the policy answers to it. -/
inductive LocalRequest
  | login (email password : Option String)
  | logout (sessionId : Option UUID)
  | launch (applicationCode : Option String) (allowed : Bool)
  | prepareMaintenance
  | prepareUpdate
  | other
  deriving DecidableEq, Repr

/-- When a login may be tried. -/
def Runtime.mayLogin (c : Runtime) : Prop :=
  c.commandGap = false ∧ ∃ r ∈ c.recovery, r.lease.commandCursor ≤ r.appliedSequence ∧
    (c.canUseAssignment r.lease ∨
      r.lease.directive = .active ∧ r.blockedSessionId ≠ r.lease.sessionId ∧ ¬ r.lease.mustLock c.trusted)

instance Runtime.decidableMayLogin (c : Runtime) : Decidable c.mayLogin :=
  inferInstanceAs (Decidable (_ ∧ ∃ _ ∈ _, _))

/-- What the locked block at the end of a login requires of the new lease. -/
def Runtime.mayEnter (c : Runtime) (result : CustomerSession) (lease : SessionLease) : Prop :=
  some result.sessionId = lease.sessionId ∧ c.commandGap = false ∧ ¬ c.behind lease ∧
    (∀ r ∈ c.recovery, r.blockedSessionId ≠ lease.sessionId) ∧ c.trusted < result.endsAt ∧
    ¬ lease.mustLock c.trusted ∧ c.maintenance = false

instance Runtime.decidableMayEnter (c : Runtime) (result : CustomerSession) (lease : SessionLease) :
    Decidable (c.mayEnter result lease) := inferInstanceAs (Decidable (_ ∧ _))

/-- Opens Windows for the session, which takes its time. -/
def Runtime.unlock (c : Runtime) : Runtime :=
  { c.setSessionActive true with trusted := c.trusted + c.policyTakes, locallyLocked := false }

/-- Shows the session of the customer. -/
def Runtime.welcome (result : CustomerSession) (c : Runtime) : Runtime :=
  { c.updateRecovery fun r => { r with locallyLocked := false } with
    view := { c.view with sessionId := some result.sessionId }.welcome }

/-- The locked block at the end of a login. -/
def Runtime.enter (result : CustomerSession) (lease : SessionLease) (c : Runtime) : Bool × Runtime :=
  if ¬ c.mayEnter result lease then (false, c)
  else if lease.mustLock c.unlock.trusted then (false, c.unlock.lockLocal)
  else (true, (c.unlock.welcome result).saveRecovery)

/-- The login: credentials alone never unlock. -/
def login (stationId : UUID) (email password : String) : ClientProc Bool := do
  let result ← send (.login email password)
  modify (·.observe result.serverTime)
  let (envelope, lease) ← fetchLease stationId
  let c ← get
  lift (validateRecovery c.recovery lease)
  failIf (lease.configurationVersion ≠ c.policy.version) .cryptographic
  modify (·.observe lease.issuedAt)
  modify (·.adopt envelope lease true)
  reconcileCommands stationId
  modify (·.applyLease lease)
  stateful (·.enter result lease)

/-- The end of play that the customer asks for. -/
def logout (stationId sessionId : UUID) : ClientProc Bool := do
  modify (·.lockLocal)
  send (.logout sessionId)
  let (envelope, lease) ← fetchLease stationId
  let c ← get
  lift (validateRecovery c.recovery lease)
  if lease.directive ≠ .lock ∨ lease.sessionId.isSome then return false
  else do
    modify (·.observe lease.issuedAt)
    modify (·.adopt envelope lease true)
    reconcileCommands stationId
    modify (·.applyLease lease)
    ackPendingLock env
    modify (·.saveRecovery)
    return true

/-- The exception handlers of `Handle`; an exception that none of them takes leaves the request. -/
def handleFailed : Exn → ClientProc Bool
  | .http _ | .canceled false => do
    modify (·.tick env)
    return false
  | .io | .cryptographic | .serverStateRollback | .invalidOperation | .unauthorizedAccess => do
    modify (·.lockLocal)
    return false
  | e => .throw e

/-- The session whose end the request asks for. -/
def LocalRequest.logoutRequested (request : LocalRequest) (c : Runtime) : Option UUID :=
  match request with
  | .logout (some s) => if c.view.sessionId = some s then some s else none
  | _ => none

/-- A request of the customer, once it is admitted. -/
def serve (stationId : UUID) (request : LocalRequest) (logoutRequested : Option UUID) : ClientProc Bool := do
  let c ← get
  match request, logoutRequested with
  | .login (some email) (some password), _ =>
    if c.mayLogin then login stationId email password else return false
  | .launch (some _) allowed, _ =>
    if c.view.mode ≠ .active then return false
    else if allowed then return true
    else .throw .unauthorizedAccess
  | _, some sessionId => logout env stationId sessionId
  | _, none => return false

/-- `Handle` after its gate, for the requests that any local user may send. -/
def handleRequest (stationId : UUID) (request : LocalRequest) : ClientProc Bool := do
  modify (·.tick env)
  let c ← get
  if c.maintenance ∨ c.trusted < c.preparingUntil then return false
  else do
    let logoutRequested := request.logoutRequested c
    when logoutRequested.isSome do
      modify (·.lockLocal)
      modify (·.saveRecovery)
    ensureToken
    serve env stationId request logoutRequested

/-- `AddSeconds(30)`. -/
def Runtime.prepare (c : Runtime) : Runtime := { c with preparingUntil := c.trusted.plusSeconds 30 }

def Runtime.block (s : UUID) (c : Runtime) : Runtime :=
  c.updateRecovery fun r => { r with blockedSessionId := some s, locallyLocked := true }

/-- The session of the lease, which `prepare-maintenance` blocks. -/
def blockLeased : ClientProc Unit := do
  let c ← get
  ifPresent (c.recovery.bind (·.lease.sessionId)) fun s => do
    modify (·.block s)
    modify (·.saveRecovery)
    modify fun c => { c with errorCode := some "SESSION_RECONCILIATION_REQUIRED" }

/-- The update that the server is asked to admit. -/
def Runtime.updateIntent (c : Runtime) : Option UUID :=
  (c.recovery.bind fun r => r.lease.clientUpdate.filter (c.trusted < ·.expiresAt)).map (·.id)

def claimAdmitted : ClientProc Bool := do
  ensureToken
  let c ← get
  send (.claimUpdate c.updateIntent)
  return true

/-- `prepare-update` asks the server first; false when it refuses. -/
def claimUpdate : ClientProc Bool := do
  let c ← get
  if c.maintenance = false ∧ ∃ r ∈ c.recovery, ¬ r.lease.mustLock c.trusted then return false
  else if env.development then return true
  else
    match env.stationId with
    | none => return false
    | some _ =>
      claimAdmitted.tryCatch fun e =>
        match e with
        | .http _ => return false
        | e => .throw e

def prepareAdmitted (forUpdate : Bool) : ClientProc Bool := if forUpdate then claimUpdate env else pure true

/-- `Handle` of an administrator's preparation. -/
def prepare (forUpdate : Bool) : ClientProc Bool := do
  let admitted ← prepareAdmitted env forUpdate
  if admitted then do
    modify (·.prepare)
    modify (·.lockLocal)
    when (forUpdate = false) blockLeased
    return true
  else return false

/-- `Handle` of a request, but for `status`, which only ticks. -/
def handle (request : LocalRequest) (administrator : Bool) : ClientProc Bool :=
  if administrator = true ∧ request = .prepareMaintenance then prepare env false
  else if administrator = true ∧ request = .prepareUpdate then prepare env true
  else
    match env.stationId with
    | none => return false
    | some stationId => (handleRequest env stationId request).tryCatch (handleFailed env)

/-- `Shutdown`. -/
def shutdown : ClientProc Unit := modify fun c => if c.maintenance then c else c.lockLocal

end GManager.Client

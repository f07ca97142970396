import GManager.ClientState

/-!
# The runtime of the station client

The fields of `ClientRuntime` with its trusted clock, the Windows policy that it enforces and the files that
survive it, and its synchronous methods: `Tick`, `LockLocal`, `ApplyLease`, `SaveRecovery`, `Recover` and
what they call. Of `ClientViewState` it keeps what decides: the mode and the session that is shown.
-/

namespace GManager.Client

inductive ClientMode
  | locked | login | active | offline | maintenance
  deriving DecidableEq, Repr

structure ClientViewState where
  mode : ClientMode
  sessionId : Option UUID
  deriving DecidableEq, Repr

/-- `ClientViewState.Locked`. -/
def ClientViewState.locked : ClientViewState := ⟨.locked, none⟩

/-- `ClientViewState.Apply`, from the session of a snapshot. -/
def ClientViewState.apply (sessionId : Option UUID) : ClientViewState :=
  ⟨if sessionId.isNone then .locked else .login, sessionId⟩

/-- `ClientViewState.Welcome`. -/
def ClientViewState.welcome (v : ClientViewState) : ClientViewState := { v with mode := .active }

/-- A signed station policy: its verification up to the scope, the verification of its applications and its
installation in Windows. -/
structure SignedStationPolicy where
  signature : Except Exn Unit
  stationId : UUID
  configurationVersion : ℤ
  applications : Except Exn Unit
  installation : Except Exn Unit

/-- `StationPolicyEnforcer`. -/
structure StationPolicy where
  version : ℤ
  active : Bool
  appliedActive : Option Bool
  enforcementVerified : Bool
  cached : Option SignedStationPolicy

/-- `maintenance.json`. -/
inductive MaintenanceFile
  | absent | null | malformed | unavailable
  | expiresAt (t : Instant)
  deriving DecidableEq, Repr

/-- `DateTimeOffset.MinValue`. -/
def minValue : Instant := -62135596800000000

structure ClientEnvironment where
  development : Bool
  /-- The station of the stored identity. -/
  stationId : Option UUID
  deriving DecidableEq, Repr

/-- `trusted` is the present reading of the trusted clock, `snapshots` what `snapshot.json` held, the latest
first. `appIdentityRunning` and `policyTakes` belong to Windows: whether the service runs that enforces the
policy, and how long the next change of the policy takes. -/
structure Runtime where
  view : ClientViewState
  token : Bool
  tokenFresh : Bool
  preparingUntil : Instant
  recovery : Option ClientRecoveryState
  trusted : Instant
  maintenance : Bool
  locallyLocked : Bool
  commandGap : Bool
  errorCode : Option String
  policy : StationPolicy
  snapshots : List ClientRecoveryState
  maintenanceFile : MaintenanceFile
  appIdentityRunning : Bool
  policyTakes : ℕ

namespace Runtime

variable (env : ClientEnvironment) (c : Runtime)

/-- A change of the recovery state, if there is one. -/
def updateRecovery (f : ClientRecoveryState → ClientRecoveryState) : Runtime :=
  { c with recovery := c.recovery.map f }

/-- `TrustedLeaseClock.Observe`. -/
def observe (verifiedServerTime : Instant) : Runtime := { c with trusted := max c.trusted verifiedServerTime }

/-- `SaveRecovery`. -/
def saveRecovery : Runtime :=
  match c.recovery with
  | none => c
  | some r =>
    let r := { r with trustedUtcFloor := c.trusted }
    { c with recovery := some r, snapshots := r :: c.snapshots }

/-! ### The Windows policy -/

/-- `SetSessionActive`: changing the policy verifies its enforcement anew. -/
def setSessionActive (value : Bool) : Runtime :=
  if c.policy.active = value ∧ c.policy.appliedActive = some value then c
  else { c with policy := { c.policy with
    active := value, appliedActive := some value, enforcementVerified := true } }

/-- `ReapplyLocked`. -/
def reapplyLocked : Runtime :=
  { c with policy := { c.policy with appliedActive := none } }.setSessionActive false

/-- `EnforcementVerified`. -/
def enforcementVerified : Bool := !env.development && c.policy.enforcementVerified

/-- `CheckApplicationIdentity`. -/
def checkApplicationIdentity : Bool × Runtime :=
  if env.development ∨ c.policy.enforcementVerified = false ∨ c.appIdentityRunning then (true, c)
  else (false, { c with policy := { c.policy with enforcementVerified := false, appliedActive := none } })

/-- `ApplyAsync`. -/
def applyPolicy (stationId : UUID) (signed : SignedStationPolicy) : Except Exn Unit × Runtime :=
  match signed.signature with
  | .error e => (.error e, c)
  | .ok () =>
    if signed.stationId ≠ stationId ∨ signed.configurationVersion < c.policy.version then
      (.error .cryptographic, c)
    else if signed.configurationVersion = c.policy.version then (.ok (), c)
    else
      match signed.applications with
      | .error e => (.error e, c)
      | .ok () =>
        match signed.installation with
        | .error e => (.error e, { c with policy := { c.policy with appliedActive := none } })
        | .ok () =>
          (.ok (), { c with policy :=
            { c.policy with version := signed.configurationVersion
                            appliedActive := some c.policy.active
                            enforcementVerified := true
                            cached := some signed } })

/-! ### Locking and showing -/

/-- `LockLocal`: a session that was active stays blocked. -/
def lockLocal : Runtime :=
  if c.locallyLocked ∧ c.view.mode = .locked then c.setSessionActive false
  else
    let blocked := if c.view.mode = .active then c.view.sessionId else none
    let c := c.setSessionActive false
    let c := c.updateRecovery fun r =>
      { r with blockedSessionId := blocked.or r.blockedSessionId, locallyLocked := true }
    { c with view := .locked, locallyLocked := true }

/-- `CanUseAssignment`. -/
def canUseAssignment (l : SessionLease) : Prop :=
  c.maintenance = false ∧ l.directive = .lock ∧ l.assignmentId.isSome ∧
    (∃ e ∈ l.assignmentExpiresAt, c.trusted < e) ∧ c.trusted < l.expiresAt

instance decidableCanUseAssignment (l : SessionLease) : Decidable (c.canUseAssignment l) :=
  inferInstanceAs (Decidable (_ ∧ _))

/-- Whether a command up to the cursor of the lease has yet to be applied. -/
def behind (l : SessionLease) : Prop := ∃ r ∈ c.recovery, r.appliedSequence < l.commandCursor

instance decidableBehind (l : SessionLease) : Decidable (c.behind l) :=
  inferInstanceAs (Decidable (∃ _ ∈ _, _))

/-- `ShowAssignment`. -/
def showAssignment (l : SessionLease) : Runtime :=
  if ¬ c.canUseAssignment l ∨ c.commandGap ∨ c.recovery = none ∨ c.behind l then c
  else { c.setSessionActive false with view := ⟨.login, l.assignmentId⟩ }

/-- Whether the session of the lease is locally blocked. -/
def blocks (l : SessionLease) : Prop :=
  l.sessionId ≠ none ∧ ∃ r ∈ c.recovery, r.blockedSessionId = l.sessionId

instance decidableBlocks (l : SessionLease) : Decidable (c.blocks l) :=
  inferInstanceAs (Decidable (_ ∧ ∃ _ ∈ _, _))

/-- `ApplyLease`. -/
def applyLease (l : SessionLease) : Runtime :=
  if c.maintenance then c
  else if c.behind l then c.lockLocal
  else if c.commandGap ∨ c.blocks l then c.lockLocal
  else if c.canUseAssignment l then (if c.locallyLocked then c else c.lockLocal).showAssignment l
  else if l.mustLock c.trusted then c.lockLocal
  else if c.view.mode ≠ .active ∨ c.view.sessionId ≠ l.sessionId then { c with view := .apply l.sessionId }
  else c

/-! ### `Tick` -/

/-- Whether the maintenance file keeps the station in maintenance. -/
def maintenanceEnabled : Prop :=
  env.development = false ∧ ∃ t, c.maintenanceFile = .expiresAt t ∧ c.trusted < t

instance decidableMaintenanceEnabled : Decidable (c.maintenanceEnabled env) :=
  match h : c.maintenanceFile with
  | .expiresAt t => decidable_of_iff (env.development = false ∧ c.trusted < t)
      (by simp [maintenanceEnabled, h])
  | .absent | .null | .malformed | .unavailable => .isFalse (by simp [maintenanceEnabled, h])

/-- The error that an unreadable maintenance file leaves. -/
def readMaintenance : Runtime :=
  if env.development then c
  else
    match c.maintenanceFile with
    | .malformed => { c with errorCode := some "MAINTENANCE_STATE_INVALID" }
    | .unavailable => { c with errorCode := some "MAINTENANCE_STATE_UNAVAILABLE" }
    | _ => c

def enterMaintenance : Runtime :=
  let (running, c) := c.checkApplicationIdentity env
  let c := if running then c else { c with errorCode := some "WINDOWS_ENFORCEMENT_UNAVAILABLE" }.reapplyLocked
  { c with maintenance := true, view := ⟨.maintenance, none⟩ }

def requireEnforcement : Runtime :=
  let (running, c) := c.checkApplicationIdentity env
  if running then c else { c with errorCode := some "WINDOWS_ENFORCEMENT_UNAVAILABLE" }.lockLocal

def leaveMaintenance : Runtime :=
  if c.maintenance then
    { c with maintenance := false, maintenanceFile := .expiresAt minValue }.reapplyLocked
  else c

/-- The deadline of the lease, or the assignment that it announces. -/
def checkDeadline : Runtime :=
  match c.recovery with
  | none => c.lockLocal
  | some r =>
    if c.canUseAssignment r.lease ∧ c.locallyLocked then c.showAssignment r.lease
    else if r.lease.mustLock c.trusted then c.lockLocal.showAssignment r.lease
    else c

/-- `TickCore`. -/
def tick : Runtime :=
  if c.maintenanceEnabled env then (c.readMaintenance env).enterMaintenance env
  else ((c.readMaintenance env).requireEnforcement env).leaveMaintenance.checkDeadline

/-! ### `Recover` -/

def rejectRecovery : Runtime := { c with errorCode := some "RECOVERY_FAILED" }.lockLocal

/-- The part of `Recover` after the snapshot. -/
def recoverPolicy (stationId : UUID) : Runtime :=
  match c.policy.cached with
  | none => c.lockLocal.tick env
  | some signed =>
    match c.applyPolicy stationId signed with
    | (.ok (), c) => c.lockLocal.tick env
    | (.error _, c) => c.rejectRecovery

/-- `Recover`. -/
def recover : Runtime :=
  match env.stationId with
  | none => { c with errorCode := some "ENROLLMENT_REQUIRED" }
  | some stationId =>
    match c.snapshots.head? with
    | none => c.recoverPolicy env stationId
    | some r =>
      match r.envelope.verify stationId with
      | .error _ => { c with recovery := some r }.rejectRecovery
      | .ok lease =>
        { c with recovery := some { r with lease, locallyLocked := true }
                 trusted := max c.trusted r.trustedUtcFloor }.recoverPolicy env stationId

/-- A new process: only the files and Windows remain; `utcNow` is the wall clock. -/
def start (utcNow : Instant) : Runtime :=
  { view := .locked
    token := false
    tokenFresh := false
    preparingUntil := minValue
    recovery := none
    trusted := utcNow
    maintenance := false
    locallyLocked := false
    commandGap := false
    errorCode := none
    policy := { c.policy with
      version := 0, active := false, appliedActive := none, enforcementVerified := false }
    snapshots := c.snapshots
    maintenanceFile := c.maintenanceFile
    appIdentityRunning := c.appIdentityRunning
    policyTakes := c.policyTakes }

/-- The end of the process at any moment and the start of the next one. -/
def restart (utcNow : Instant) : Runtime := (c.start utcNow).recover env

end Runtime

end GManager.Client

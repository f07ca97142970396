import GManager.Rows

/-!
# What the station client keeps and checks

The messages of the machine protocol as the client reads them, the recovery state that it persists, and the
pure checks of `SessionLeaseRuntime`: `SessionLeaseVerifier`, `CommandSequenceReducer`, `LeaseRecoveryPolicy`,
`MachineCommandValidation` and `LeaseDeadlinePolicy`. What arrives is any text of the right shape, so a signed
envelope may carry a foreign signature and a command a payload that is no JSON.
-/

namespace GManager.Client

/-- The exceptions of a request to the server and of the local checks. -/
inductive Exn
  | http (status : Option ℕ)
  | canceled (requested : Bool)
  | cryptographic
  | serverStateRollback
  | invalidData
  | invalidOperation
  | io
  | json
  | format
  | unauthorizedAccess
  deriving DecidableEq, Repr

inductive Directive
  | active | lock | other
  deriving DecidableEq, Repr

inductive BillingMode
  | timeBalance | other
  deriving DecidableEq, Repr

/-- `ClientUpdateDirective`; of the version only whether it parses. -/
structure ClientUpdateDirective where
  id : UUID
  versionParses : Bool
  notBefore : Instant
  expiresAt : Instant
  deriving DecidableEq, Repr

structure SessionLease where
  leaseId : UUID
  stationId : UUID
  sessionId : Option UUID
  customerId : Option UUID
  sessionEndsAt : Option Instant
  configurationVersion : ℤ
  issuedAt : Instant
  expiresAt : Instant
  graceEndsAt : Instant
  commandCursor : ℤ
  directive : Directive
  clientUpdate : Option ClientUpdateDirective
  billingMode : Option BillingMode
  startedAt : Option Instant
  balanceSeconds : Option ℤ
  assignmentId : Option UUID
  assignmentExpiresAt : Option Instant
  deriving DecidableEq, Repr

/-- What the payload of a signed envelope turns out to be. -/
inductive LeasePayload
  | notBase64 | notJson | null
  | lease (l : SessionLease)
  deriving DecidableEq, Repr

/-- `trustedKey`: it names the algorithm and the key of the policy; `signature`: this key
has signed the payload. -/
structure SignedSessionLease where
  payload : LeasePayload
  trustedKey : Bool
  signature : Bool
  deriving DecidableEq, Repr

/-- The claims of a time balance that `Verify` requires of an active lease. -/
def SessionLease.validTimeBalance (l : SessionLease) : Prop :=
  l.billingMode = some .timeBalance ∧ l.customerId.isSome ∧ l.startedAt.isSome ∧
    (∃ b ∈ l.balanceSeconds, 0 ≤ b) ∧ l.graceEndsAt = l.expiresAt

def SessionLease.validAssignment (l : SessionLease) : Prop :=
  l.directive = .lock ∧ l.sessionId = none ∧ ∃ e ∈ l.assignmentExpiresAt, l.issuedAt < e

def SessionLease.validInterval (l : SessionLease) : Prop :=
  l.issuedAt ≤ l.expiresAt ∧ l.expiresAt ≤ l.graceEndsAt ∧ (l.directive = .active ∨ l.directive = .lock) ∧
    (l.directive = .active → l.sessionId.isSome ∧ l.sessionEndsAt.isSome) ∧
    ∀ e ∈ l.sessionEndsAt, l.graceEndsAt ≤ e

instance SessionLease.decidableValidTimeBalance (l : SessionLease) : Decidable l.validTimeBalance :=
  inferInstanceAs (Decidable (_ ∧ _))

instance SessionLease.decidableValidAssignment (l : SessionLease) : Decidable l.validAssignment :=
  inferInstanceAs (Decidable (_ ∧ _))

instance SessionLease.decidableValidInterval (l : SessionLease) : Decidable l.validInterval :=
  inferInstanceAs (Decidable (_ ∧ _))

/-- `SessionLeaseVerifier.Verify`. -/
def SignedSessionLease.verify (envelope : SignedSessionLease) (stationId : UUID) : Except Exn SessionLease :=
  if envelope.trustedKey = false then .error .cryptographic
  else
    match envelope.payload with
    | .notBase64 => .error .format
    | payload =>
      if envelope.signature = false then .error .cryptographic
      else
        match payload with
        | .lease l =>
          if l.stationId ≠ stationId then .error .cryptographic
          else if l.directive = .active ∧ ¬ l.validTimeBalance then .error .cryptographic
          else if l.assignmentId.isSome ∧ ¬ l.validAssignment then .error .cryptographic
          else if ¬ l.validInterval then .error .cryptographic
          else .ok l
        | .notJson => .error .json
        | _ => .error .invalidData

/-- `LeaseDeadlinePolicy.MustLock`. -/
def SessionLease.mustLock (l : SessionLease) (trustedNow : Instant) : Prop :=
  l.directive ≠ .active ∨ l.billingMode ≠ some .timeBalance ∨ l.sessionId = none ∨
    l.graceEndsAt ≤ trustedNow ∨ ∃ e ∈ l.sessionEndsAt, e ≤ trustedNow

instance SessionLease.decidableMustLock (l : SessionLease) (trustedNow : Instant) :
    Decidable (l.mustLock trustedNow) :=
  inferInstanceAs (Decidable (_ ∨ _))

/-- The lease grants a running time balance for a session. -/
structure SessionLease.Grants (l : SessionLease) (sessionId : UUID) : Prop where
  active : l.directive = .active
  timeBalance : l.billingMode = some .timeBalance
  session : l.sessionId = some sessionId

theorem SessionLease.grants_of_not_mustLock {l : SessionLease} {t : Instant} (h : ¬ l.mustLock t) :
    ∃ s, l.Grants s ∧ t < l.graceEndsAt ∧ ∀ e ∈ l.sessionEndsAt, t < e := by
  simp only [mustLock, not_or, not_not, not_le, not_exists, not_and] at h
  obtain ⟨ha, hb, hs, hg, he⟩ := h
  obtain ⟨s, hs⟩ := Option.ne_none_iff_exists'.1 hs
  exact ⟨s, ⟨ha, hb, hs⟩, hg, he⟩

/-! ### Commands -/

inductive CommandType
  | sessionStarted | sessionExtended | sessionTerminated | forceLock | other
  deriving DecidableEq, Repr

/-- What the payload of a command turns out to be; of an object the two identifiers that it may have. -/
inductive CommandPayload
  | notJson | notObject
  | object (stationId sessionId : Option UUID)
  deriving DecidableEq, Repr

structure MachineCommand where
  sequence : ℤ
  type : CommandType
  payloadVersion : ℤ
  payload : CommandPayload
  expired : Bool
  deriving DecidableEq, Repr

/-- `Guid.Empty`. -/
def emptyGuid : UUID := 0

/-- `MachineCommandValidation.Validate`: the session of a command for the station. -/
def MachineCommand.validate (command : MachineCommand) (stationId : UUID) : Except Exn UUID :=
  if command.sequence ≤ 0 ∨ command.payloadVersion ≠ 1 ∨ command.type = .other then .error .invalidData
  else
    match command.payload with
    | .notJson => .error .json
    | .notObject => .error .invalidOperation
    | .object target session =>
      if target ≠ some stationId then .error .cryptographic
      else
        match session with
        | none => .error .invalidData
        | some s => if s = emptyGuid then .error .invalidData else .ok s

inductive SequenceDecision
  | duplicate | apply | gap
  deriving DecidableEq, Repr

/-- `CommandSequenceReducer.Decide`. -/
def SequenceDecision.decide (applied incoming : ℤ) : SequenceDecision :=
  if incoming ≤ applied then .duplicate else if incoming = applied + 1 then .apply else .gap

theorem SequenceDecision.decide_eq_apply {applied incoming : ℤ} (h : decide applied incoming = .apply) :
    incoming = applied + 1 := by
  unfold decide at h
  split_ifs at h with _ h'
  exact h'

/-! ### The recovery state -/

structure ClientRecoveryState where
  envelope : SignedSessionLease
  lease : SessionLease
  appliedSequence : ℤ
  trustedUtcFloor : Instant
  pendingLockSequence : Option ℤ
  pendingLockSessionId : Option UUID
  locallyLocked : Bool
  blockedSessionId : Option UUID
  pendingCommandAckSequence : Option ℤ
  deriving DecidableEq, Repr

/-- When `AcceptStarted` takes a start of the session to lift a local lock. -/
def ClientRecoveryState.admitsStart (r : ClientRecoveryState) (sessionId : UUID) (sequence : ℤ) : Prop :=
  r.lease.directive = .active ∧ r.lease.sessionId = some sessionId ∧ 0 < sequence ∧
    sequence ≤ r.lease.commandCursor ∧ ∀ n ∈ r.pendingLockSequence, n < sequence

instance ClientRecoveryState.decidableAdmitsStart (r : ClientRecoveryState) (sessionId : UUID)
    (sequence : ℤ) : Decidable (r.admitsStart sessionId sequence) := inferInstanceAs (Decidable (_ ∧ _))

/-- `AcceptStarted`. -/
def ClientRecoveryState.acceptStarted (r : ClientRecoveryState) (sessionId : UUID) (sequence : ℤ) :
    ClientRecoveryState :=
  if r.admitsStart sessionId sequence then
    { r with blockedSessionId := none, pendingLockSequence := none, pendingLockSessionId := none }
  else r

/-- `LeaseRecoveryPolicy.Validate`. -/
def validateRecovery (previous : Option ClientRecoveryState) (incoming : SessionLease) : Except Exn Unit :=
  match previous with
  | none => .ok ()
  | some r =>
    if incoming.commandCursor < r.appliedSequence ∨ incoming.commandCursor < r.lease.commandCursor ∨
        incoming.issuedAt < r.lease.issuedAt then .error .serverStateRollback
    else .ok ()

end GManager.Client

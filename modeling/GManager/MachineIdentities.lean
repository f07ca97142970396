import GManager.Db
import Mathlib.Data.List.Sort

/-!
# Machine identities

How a station gets a key and its machine gets tokens: `MachineIdentityAdminService`, the enrolment,
challenge and token requests of `MachineProtocolService`, and `MachineAuthenticationFilter`. An
enrolment token is exchanged for an identity, a challenge for a machine token; a rotation leaves the
old key usable for ten minutes.
-/

namespace GManager.Machines

open Txn

inductive EnrollmentPurpose
  | initial | rotation
  deriving DecidableEq, Repr

inductive EnrollmentTokenStatus
  | active | consumed | revoked
  deriving DecidableEq, Repr

/-- A row of `station_enrollment_tokens`. -/
structure StationEnrollmentToken where
  id : UUID
  stationId : UUID
  tokenHash : String
  purpose : EnrollmentPurpose
  status : EnrollmentTokenStatus
  expiresAt : Instant
  consumedAt : Option Instant
  createdBy : UUID
  deriving DecidableEq, Repr

inductive MachineIdentityStatus
  | active | rotating | revoked
  deriving DecidableEq, Repr

/-- A row of `station_machine_identities`. -/
structure StationMachineIdentity where
  id : UUID
  stationId : UUID
  publicKeyBase64 : String
  publicKeyFingerprint : String
  keyVersion : ℕ
  status : MachineIdentityStatus
  enrolledAt : Instant
  enrolledBy : UUID
  overlapExpiresAt : Option Instant
  revokedAt : Option Instant
  lastAuthenticatedAt : Option Instant
  deriving DecidableEq, Repr

/-- A row of `station_auth_challenges`. -/
structure StationAuthChallenge where
  id : UUID
  identityId : UUID
  nonceHash : String
  expiresAt : Instant
  consumedAt : Option Instant
  deriving DecidableEq, Repr

structure MachineTokenClaims where
  identityId : UUID
  stationId : UUID
  keyVersion : ℕ
  deriving DecidableEq, Repr

structure MachinePrincipal where
  identityId : UUID
  stationId : UUID
  keyVersion : ℕ
  deriving DecidableEq, Repr

/-- The clock, the tables, and the number of row identifiers drawn so far. The unique key of the
enrolment tokens is their hash. -/
structure MachineDb where
  clock : Clock
  stations : Table GamingStationProfile.resourceId
  tokens : Table StationEnrollmentToken.tokenHash
  identities : Table StationMachineIdentity.id
  challenges : Table StationAuthChallenge.id
  issued : ℕ

/-- `MachineCrypto` and the machine part of `JwtService`. A key is given by its encoding. -/
structure MachineCrypto where
  hash : String → String
  publicKey : String → Option String
  fingerprint : String → String
  verify : String → String → String → Bool
  issueMachine : MachineTokenClaims → Instant → String
  parseMachine : String → Instant → Option MachineTokenClaims

/-- What a request brings along: its principal, the readings of the clock that it
takes, and its random text. -/
structure MachineCall where
  actor : UUID
  readings : List Instant
  random : String

abbrev MachineTx := Txn MachineCall MachineDb Failure

structure EnrollmentTokenResponse where
  tokenId : UUID
  stationId : UUID
  purpose : EnrollmentPurpose
  enrollmentToken : String
  expiresAt : Instant

structure EnrollRequest where
  enrollmentToken : String
  publicKeyBase64 : String

structure EnrollResponse where
  identityId : UUID
  stationId : UUID
  keyVersion : ℕ

structure ChallengeResponse where
  challengeId : UUID
  identityId : UUID
  nonce : String
  expiresAt : Instant

structure TokenRequest where
  identityId : UUID
  challengeId : UUID
  nonce : String
  signature : String

structure MachineTokenResponse where
  token : String
  issuedAt : Instant

/-! ### Rows -/

/-- `clock.instant()`. -/
def instant : MachineTx Instant := fun _ db => .ok (db.clock.next.now, { db with clock := db.clock.next })

def drawId : MachineTx UUID := do
  let db ← get
  modify fun db => { db with issued := db.issued + 1 }
  return db.issued

/-- `findByStationIdOrderByKeyVersionDesc`. -/
def MachineDb.identitiesOf (db : MachineDb) (stationId : UUID) : List StationMachineIdentity :=
  (db.identities.rows.filter fun i => i.stationId == stationId).insertionSort fun i j =>
    j.keyVersion ≤ i.keyVersion

/-- `findByStationIdAndStatusIn`, with `ACTIVE` and `ROTATING`. -/
def MachineDb.standing (db : MachineDb) (stationId : UUID) : List StationMachineIdentity :=
  db.identities.rows.filter fun i => i.stationId == stationId && i.status != .revoked

/-- The rows of a station that are `ACTIVE` become `REVOKED`. -/
def StationEnrollmentToken.revokedFor (stationId : UUID) (t : StationEnrollmentToken) :
    StationEnrollmentToken :=
  { t with status := if t.stationId = stationId ∧ t.status = .active then .revoked else t.status }

def revokeTokens (stationId : UUID) : MachineTx Unit :=
  modify fun db =>
    { db with tokens := db.tokens.edit (StationEnrollmentToken.revokedFor stationId) fun _ => rfl }

/-- The standing identities of a station become `REVOKED`. -/
def StationMachineIdentity.revokedFor (stationId : UUID) (now : Instant) (i : StationMachineIdentity) :
    StationMachineIdentity :=
  { i with
    status := if i.stationId = stationId then .revoked else i.status
    revokedAt := if i.stationId = stationId ∧ i.status ≠ .revoked then some now else i.revokedAt }

/-- The `ACTIVE` identities of a station become `ROTATING`, for ten minutes. -/
def StationMachineIdentity.rotatedFor (stationId : UUID) (now : Instant) (i : StationMachineIdentity) :
    StationMachineIdentity :=
  { i with
    status := if i.stationId = stationId ∧ i.status = .active then .rotating else i.status
    overlapExpiresAt := if i.stationId = stationId ∧ i.status = .active then some (now.plusSeconds 600)
      else i.overlapExpiresAt }

/-- `valid`: the overlap is compared with a reading of its own. -/
def valid (i : StationMachineIdentity) : MachineTx Bool :=
  match i.status, i.overlapExpiresAt with
  | .active, _ => return true
  | .rotating, some overlap => do
    let now ← instant
    return now < overlap
  | _, _ => return false

/-- `stream().anyMatch(this::valid)`. -/
def anyValid : List StationMachineIdentity → MachineTx Bool
  | [] => return false
  | i :: is => do
    let found ← valid i
    if found then return true else anyValid is

/-! ### Administration -/

def createToken (K : MachineCrypto) (stationId : UUID) (purpose : EnrollmentPurpose) :
    MachineTx EnrollmentTokenResponse := do
  let c ← ask
  let db ← get
  let station ← orThrow (db.stations.find? stationId) (fail .notFound "Gaming station not found")
  require station.clientEnabled (fail .conflict "Gaming Client must be enabled before enrollment")
  let hasIdentity ← anyValid (db.standing stationId)
  require (¬ (purpose = .initial ∧ hasIdentity)) (fail .conflict "Station already has a machine identity")
  require (¬ (purpose = .rotation ∧ hasIdentity = false))
    (fail .conflict "Station has no active identity to rotate")
  let now ← instant
  revokeTokens stationId
  let id ← drawId
  let db ← get
  let tokens ← orThrow (db.tokens.insert
    { id, stationId, tokenHash := K.hash c.random, purpose, status := .active,
      expiresAt := now.plusSeconds 600,
      consumedAt := none, createdBy := c.actor }) .dataIntegrity
  modify fun db => { db with tokens }
  return ⟨id, stationId, purpose, c.random, now.plusSeconds 600⟩

/-- `revoke`, with the number of identities revoked. -/
def revoke (stationId : UUID) : MachineTx ℕ := do
  let db ← get
  let _ ← orThrow (db.stations.find? stationId) (fail .notFound "Gaming station not found")
  let now ← instant
  modify fun db => { db with identities := db.identities.edit (·.revokedFor stationId now) fun _ => rfl }
  revokeTokens stationId
  return (db.standing stationId).length

/-! ### The protocol -/

def invalidEnrollment : Failure := fail .unauthorized "Enrollment token is invalid or expired"

def invalidChallenge : Failure := fail .unauthorized "Machine challenge is invalid or expired"

/-- The version of the next key of a station. -/
def nextVersion (existing : List StationMachineIdentity) : ℕ := (existing.map (·.keyVersion)).foldr max 0 + 1

def enroll (K : MachineCrypto) (request : EnrollRequest) : MachineTx EnrollResponse := do
  let now ← instant
  let db ← get
  let token ← orThrow (db.tokens.find? (K.hash request.enrollmentToken)) invalidEnrollment
  require (token.status = .active ∧ now < token.expiresAt) invalidEnrollment
  let _ ← orThrow ((db.stations.find? token.stationId).filter (·.clientEnabled)) invalidEnrollment
  let key ← orThrow (K.publicKey request.publicKeyBase64)
    (fail .badRequest "Public key must be a Base64 X.509 Ed25519 key")
  require (∀ i ∈ db.identities.rows, i.publicKeyFingerprint ≠ K.fingerprint key)
    (fail .conflict "Machine public key is already enrolled")
  let existing := db.identitiesOf token.stationId
  let active ← anyValid existing
  require (¬ (token.purpose = .initial ∧ active) ∧ ¬ (token.purpose = .rotation ∧ active = false))
    invalidEnrollment
  when (token.purpose = .rotation) do
    modify fun db =>
      { db with identities := db.identities.edit (·.rotatedFor token.stationId now) fun _ => rfl }
  let id ← drawId
  let db ← get
  let identities ← orThrow (db.identities.insert
    { id, stationId := token.stationId, publicKeyBase64 := key, publicKeyFingerprint := K.fingerprint key,
      keyVersion := nextVersion existing, status := .active, enrolledAt := now, enrolledBy := token.createdBy,
      overlapExpiresAt := none, revokedAt := none, lastAuthenticatedAt := none }) .dataIntegrity
  modify fun db => { db with
    identities
    tokens := db.tokens.save { token with status := .consumed, consumedAt := some now } }
  return ⟨id, token.stationId, nextVersion existing⟩

def requireValid (id : UUID) : MachineTx StationMachineIdentity := do
  let db ← get
  let identity ← orThrow (db.identities.find? id) invalidChallenge
  let ok ← valid identity
  require ok (fail .unauthorized "Machine identity is unavailable")
  return identity

def challenge (K : MachineCrypto) (identityId : UUID) : MachineTx ChallengeResponse := do
  let c ← ask
  let identity ← requireValid identityId
  let now ← instant
  let id ← drawId
  let db ← get
  require (∀ x ∈ db.challenges.rows, x.nonceHash ≠ K.hash c.random) .dataIntegrity
  let challenges ← orThrow (db.challenges.insert
    { id, identityId := identity.id, nonceHash := K.hash c.random, expiresAt := now.plusSeconds 60,
      consumedAt := none })
    .dataIntegrity
  modify fun db => { db with challenges }
  return ⟨id, identity.id, c.random, now.plusSeconds 60⟩

/-- The text that a machine signs. -/
def signed (challengeId identityId : UUID) (nonce : String) : String :=
  toString challengeId ++ ":" ++ toString identityId ++ ":" ++ nonce

def token (K : MachineCrypto) (request : TokenRequest) : MachineTx MachineTokenResponse := do
  let now ← instant
  let identity ← requireValid request.identityId
  let db ← get
  let challenge ← orThrow ((db.challenges.find? request.challengeId).filter fun x => x.identityId ==
    identity.id) invalidChallenge
  require (challenge.consumedAt = none ∧ now < challenge.expiresAt ∧
    K.hash request.nonce = challenge.nonceHash) invalidChallenge
  require (K.verify identity.publicKeyBase64 (signed challenge.id identity.id request.nonce)
    request.signature) invalidChallenge
  modify fun db => { db with
    challenges := db.challenges.save { challenge with consumedAt := some now }
    identities := db.identities.save { identity with lastAuthenticatedAt := some now } }
  let issuedAt ← instant
  return ⟨K.issueMachine ⟨identity.id, identity.stationId, identity.keyVersion⟩ issuedAt, issuedAt⟩

/-- `MachineAuthenticationFilter.authenticate`: the principal of a request with this bearer token. -/
def authenticate (K : MachineCrypto) (bearer : String) : MachineTx (Option MachinePrincipal) := do
  let parsedAt ← instant
  let db ← get
  match K.parseMachine bearer parsedAt with
  | none => return none
  | some claims => match db.identities.find? claims.identityId with
    | none => return none
    | some identity =>
      if identity.stationId ≠ claims.stationId ∨ identity.keyVersion ≠ claims.keyVersion ∨
        identity.status = .revoked then
        return none
      else match identity.status, identity.overlapExpiresAt with
        | .rotating, none => return none
        | .rotating, some overlap => do
          let now ← instant
          if overlap ≤ now then return none
          else return some ⟨identity.id, identity.stationId, identity.keyVersion⟩
        | _, _ => return some ⟨identity.id, identity.stationId, identity.keyVersion⟩

/-! ### Runs -/

/-- One request, with its readings of the clock. -/
def request {α : Type} (x : MachineTx α) (c : MachineCall) (db : MachineDb) :
    Except Failure (α × MachineDb) :=
  x.run c { db with clock := { db.clock with readings := c.readings } }

/-- The tables after a request. -/
def after {α : Type} (x : MachineTx α) (c : MachineCall) (db : MachineDb) : MachineDb :=
  match request x c db with
  | .ok (_, db') => db'
  | .error _ => db

inductive MachineEvent
  | createToken (c : MachineCall) (stationId : UUID) (purpose : EnrollmentPurpose)
  | revoke (c : MachineCall) (stationId : UUID)
  | enroll (c : MachineCall) (request : EnrollRequest)
  | challenge (c : MachineCall) (identityId : UUID)
  | token (c : MachineCall) (request : TokenRequest)
  | authenticate (c : MachineCall) (bearer : String)
  /-- The clock goes on. -/
  | advance (t : Instant)
  /-- Another service writes a station. -/
  | configure (station : GamingStationProfile)

/-- A new installation at `t`. -/
def MachineDb.empty (t : Instant) : MachineDb := ⟨⟨t, []⟩, .empty, .empty, .empty, .empty, 0⟩

def step (K : MachineCrypto) (db : MachineDb) : MachineEvent → MachineDb
  | .createToken c stationId purpose => after (createToken K stationId purpose) c db
  | .revoke c stationId => after (revoke stationId) c db
  | .enroll c r => after (enroll K r) c db
  | .challenge c identityId => after (challenge K identityId) c db
  | .token c r => after (token K r) c db
  | .authenticate c bearer => after (authenticate K bearer) c db
  | .advance t => { db with clock := { db.clock with now := max db.clock.now t } }
  | .configure station => { db with stations := db.stations.upsert station }

def run (K : MachineCrypto) (db : MachineDb) (es : List MachineEvent) : MachineDb := es.foldl (step K) db

theorem run_append (K : MachineCrypto) (db : MachineDb) (es fs : List MachineEvent) :
    run K db (es ++ fs) = run K (run K db es) fs := List.foldl_append ..

end GManager.Machines

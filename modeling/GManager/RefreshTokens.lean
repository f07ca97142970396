import GManager.Rows

/-!
# Refresh tokens

`AuthService` and `UserService.changePassword`. A login opens a session with one refresh token; every
refresh exchanges the token presented for a successor in the same session. Requests are single
transactions, except the change of a password: it reads the user, revokes the user's tokens in a
transaction of its own, and writes the new hash when its outer transaction commits. `AuthSettings.run`
interleaves any number of requests.
-/

namespace GManager.Auth

open Txn

/-- A row of `refresh_tokens`. -/
structure RefreshToken where
  id : UUID
  userId : UUID
  sessionId : UUID
  tokenHash : String
  expiresAt : Instant
  revoked : Bool
  replacedByTokenId : Option UUID
  deviceLabel : String
  userAgentSummary : String
  ipHash : String
  lastSeenAt : Instant
  deriving DecidableEq, Repr

/-- A row of `users`, with the columns that authentication reads. -/
structure UserRow where
  id : UUID
  email : String
  passwordHash : String
  active : Bool
  mustChangePassword : Bool
  version : ℕ
  deriving DecidableEq, Repr

/-- A running `changePassword`: the user as it was read, the new hash, and whether the tokens are revoked. -/
structure PasswordChange where
  request : ℕ
  user : UserRow
  passwordHash : String
  revoked : Bool
  deriving DecidableEq, Repr

/-- The tables, the number of identifiers drawn so far, and the password changes that have not committed. The
unique key of the tokens is their hash. -/
structure AuthDb where
  users : Table UserRow.id
  tokens : Table RefreshToken.tokenHash
  issued : ℕ
  changes : Table PasswordChange.request

structure SessionRequestMetadata where
  deviceLabel : String
  userAgentSummary : String
  ipHash : String
  deriving DecidableEq, Repr

/-- What the deployment fixes: the digest, the password encoder, the comparison of e-mails in
`findByEmailIgnoreCase` after `normalizeEmail`, and the lifetime of refresh tokens. -/
structure AuthSettings where
  hash : String → String
  passwordMatches : String → String → Bool
  sameEmail : String → String → Bool
  refreshTokenDays : ℤ

/-- What a request brings along: its principal, two readings of the clock, the client's metadata, and what
`generateRefreshToken` yields. -/
structure AuthCall where
  actor : Option UUID
  now : Instant
  later : Instant
  metadata : SessionRequestMetadata
  randomToken : String

/-- What a login or a refresh hands out; the access token is for `userId`. -/
structure Session where
  userId : UUID
  refreshToken : String
  sessionId : UUID
  deriving DecidableEq, Repr

inductive RotationResult
  | success (session : Session)
  | invalid
  | reused
  deriving DecidableEq, Repr

abbrev AuthTx := Txn AuthCall AuthDb Failure

def invalidCredentials : Failure := fail .unauthorized "Invalid email or password"

def unauthorizedSession : Failure := fail .unauthorized "Refresh session is not valid"

def reuseDetected : Failure := fail .unauthorized "Refresh token reuse detected"

/-- `Character.isWhitespace`. -/
def isWhitespace (c : Char) : Bool :=
  let n := c.toNat
  (9 ≤ n && n ≤ 13) || (28 ≤ n && n ≤ 32) || n == 0x1680 || (0x2000 ≤ n && n ≤ 0x200A && n != 0x2007) ||
    n == 0x2028 || n == 0x2029 || n == 0x205F || n == 0x3000

def isBlank (s : String) : Bool := s.toList.all isWhitespace

/-- The token that a request presents, if it presents one. -/
def presented (rawToken : Option String) : Option String := rawToken.filter fun s => !isBlank s

/-! ### Rows -/

/-- `UUID.randomUUID()`, and the identifiers that Hibernate draws: none comes twice. -/
def randomUUID : AuthTx UUID := do
  let db ← get
  modify fun db => { db with issued := db.issued + 1 }
  return db.issued

def requireCurrentUser : AuthTx UUID := do
  let c ← ask
  orThrow c.actor (fail .unauthorized "Authentication is required")

def RefreshToken.revoke (replacementId : Option UUID) (t : RefreshToken) : RefreshToken :=
  { t with revoked := true, replacedByTokenId := replacementId }

def insertToken (t : RefreshToken) : AuthTx Unit := do
  let db ← get
  let tokens ← orThrow (db.tokens.insert t) .dataIntegrity
  modify fun db => { db with tokens }

def saveToken (t : RefreshToken) : AuthTx Unit := modify fun db => { db with tokens := db.tokens.save t }

/-- The row after `SET revoked = TRUE WHERE …`. -/
def RefreshToken.revokedIf (p : RefreshToken → Bool) (t : RefreshToken) : RefreshToken :=
  { t with revoked := t.revoked || p t }

/-- `UPDATE refresh_tokens SET revoked = TRUE WHERE …`. -/
def AuthDb.revokeAll (p : RefreshToken → Bool) (db : AuthDb) : AuthDb :=
  { db with tokens := db.tokens.edit (RefreshToken.revokedIf p) fun _ => rfl }

def revokeAll (p : RefreshToken → Bool) : AuthTx Unit := modify (·.revokeAll p)

def revokeAllBySessionId (sessionId : UUID) : AuthTx Unit :=
  revokeAll fun t => t.sessionId == sessionId && !t.revoked

def revokeAllByUserId (userId : UUID) : AuthTx Unit := revokeAll fun t => t.userId == userId && !t.revoked

def AuthDb.findByIdAndUserId (db : AuthDb) (id userId : UUID) : Option RefreshToken :=
  db.tokens.rows.find? fun t => t.id == id && t.userId == userId

/-! ### Requests -/

namespace AuthSettings

variable (A : AuthSettings)

/-- `now.plus(refreshTtl)`. -/
def expiry (now : Instant) : Instant := now.plusSeconds (86400 * A.refreshTokenDays)

def createSession (user : UserRow) : AuthTx Session := do
  let c ← ask
  let sessionId ← randomUUID
  let id ← randomUUID
  insertToken
    { id, userId := user.id, sessionId, tokenHash := A.hash c.randomToken,
      expiresAt := A.expiry c.now, revoked := false,
      replacedByTokenId := none, deviceLabel := c.metadata.deviceLabel,
      userAgentSummary := c.metadata.userAgentSummary,
      ipHash := c.metadata.ipHash, lastSeenAt := c.later }
  return ⟨user.id, c.randomToken, sessionId⟩

/-- The user whom a login may open a session for. -/
def candidate (db : AuthDb) (email : String) : Option UserRow :=
  ((db.users.rows.find? fun u => A.sameEmail email u.email).filter (·.active)).filter fun u =>
    !u.mustChangePassword

def login (email password : String) : AuthTx Session := do
  let db ← get
  let user ← orThrow (A.candidate db email) invalidCredentials
  require (A.passwordMatches password user.passwordHash) invalidCredentials
  A.createSession user

/-- The successor of a token. -/
def replacement (c : AuthCall) (existing : RefreshToken) (user : UserRow) (id : UUID) : RefreshToken :=
  { id, userId := user.id, sessionId := existing.sessionId, tokenHash := A.hash c.randomToken,
    expiresAt := A.expiry c.now,
    revoked := false, replacedByTokenId := none, deviceLabel := existing.deviceLabel,
    userAgentSummary := existing.userAgentSummary, ipHash := c.metadata.ipHash,
    lastSeenAt := if existing.lastSeenAt.plusSeconds 300 < c.now then c.now else existing.lastSeenAt }

def rotate (rawToken : String) : AuthTx RotationResult := do
  let c ← ask
  let db ← get
  match db.tokens.find? (A.hash rawToken) with
  | none => return .invalid
  | some existing =>
    if existing.revoked then do
      revokeAllBySessionId existing.sessionId
      return .reused
    else if existing.expiresAt ≤ c.now then do
      saveToken (existing.revoke none)
      return .invalid
    else match (db.users.find? existing.userId).filter (·.active) with
      | none => do
        revokeAllBySessionId existing.sessionId
        return .invalid
      | some user => do
        let id ← randomUUID
        insertToken (A.replacement c existing user id)
        saveToken (existing.revoke (some id))
        return .success ⟨user.id, c.randomToken, existing.sessionId⟩

/-- `refresh`: what is answered, and the tables afterwards. The failures of a rotation
are raised after its commit. -/
def refresh (rawToken : Option String) (c : AuthCall) (db : AuthDb) : Except Failure Session × AuthDb :=
  match presented rawToken with
  | none => (.error unauthorizedSession, db)
  | some raw => match (A.rotate raw).run c db with
    | .error e => (.error e, db)
    | .ok (.invalid, db') => (.error unauthorizedSession, db')
    | .ok (.reused, db') => (.error reuseDetected, db')
    | .ok (.success session, db') => (.ok session, db')

/-- `findByTokenHash`, with the token that a request presents. -/
def tokenOf (db : AuthDb) (rawToken : Option String) : Option RefreshToken :=
  (presented rawToken).bind fun raw => db.tokens.find? (A.hash raw)

def logout (rawToken : Option String) : AuthTx Unit := do
  let db ← get
  ifPresent (A.tokenOf db rawToken) fun token => saveToken (token.revoke none)

/-- Whether the session revoked is the caller's own. -/
def revokeSession (tokenId : UUID) (rawCurrentToken : Option String) : AuthTx Bool := do
  let userId ← requireCurrentUser
  let db ← get
  let token ← orThrow (db.findByIdAndUserId tokenId userId) (fail .notFound "Session was not found")
  let current := (rawCurrentToken.bind fun raw => db.tokens.find? (A.hash raw)).any fun active =>
    active.sessionId == token.sessionId
  revokeAllBySessionId token.sessionId
  return current

end AuthSettings

def revokeAllSessions : AuthTx Unit := do
  let userId ← requireCurrentUser
  revokeAllByUserId userId

namespace AuthSettings

variable (A : AuthSettings)

/-! ### The change of a password -/

/-- `changePassword` up to the revocation; `encoded` is what the encoder makes of the new password. -/
def changePassword (request : ℕ) (currentPassword newPassword encoded : String) : AuthTx Unit := do
  let userId ← requireCurrentUser
  let db ← get
  let user ← orThrow ((db.users.find? userId).filter (·.active)) (fail .unauthorized "User is not active")
  require (A.passwordMatches currentPassword user.passwordHash)
    (fail .badRequest "Current password is incorrect")
  require (A.passwordMatches newPassword user.passwordHash = false)
    (fail .badRequest "New password must differ from the current password")
  let changes ← orThrow (db.changes.insert ⟨request, user, encoded, false⟩) .dataIntegrity
  modify fun db => { db with changes }

end AuthSettings

/-- `RefreshTokenRevocationService.revokeAllSessions`, which commits on its own. -/
def revokeForChange (request : ℕ) : AuthTx Unit := do
  let db ← get
  let change ← orThrow ((db.changes.find? request).filter fun p => !p.revoked) .noSuchElement
  revokeAllByUserId change.user.id
  modify fun db => { db with changes := db.changes.save { change with revoked := true } }

/-- The user with the new password. -/
def PasswordChange.changed (p : PasswordChange) : UserRow :=
  { p.user with passwordHash := p.passwordHash, mustChangePassword := false, version := p.user.version + 1 }

/-- The outer transaction rolls back. -/
def abandonChange (request : ℕ) : AuthTx Unit :=
  modify fun db => { db with changes := db.changes.delete fun p => p.request == request }

/-- The end of `changePassword`: it commits, and returns the user, unless another transaction has written
the user since it was read. -/
def commitChange (request : ℕ) : AuthTx (Option UUID) := do
  let db ← get
  let change ← orThrow ((db.changes.find? request).filter (·.revoked)) .noSuchElement
  abandonChange request
  match (db.users.find? change.user.id).filter fun u => u.version == change.user.version with
  | none => return none
  | some _ => do
    modify fun db => { db with users := db.users.save change.changed }
    return some change.user.id

/-- Other services create, activate, deactivate and edit users. -/
def manage (user : UserRow) : AuthTx Unit := modify fun db => { db with users := db.users.upsert user }

/-! ### Runs -/

inductive AuthEvent
  | login (c : AuthCall) (email password : String)
  | refresh (c : AuthCall) (rawToken : Option String)
  | logout (c : AuthCall) (rawToken : Option String)
  | revokeSession (c : AuthCall) (tokenId : UUID) (rawCurrentToken : Option String)
  | revokeAllSessions (c : AuthCall)
  | changePassword (c : AuthCall) (request : ℕ) (currentPassword newPassword encoded : String)
  | revokeForChange (c : AuthCall) (request : ℕ)
  | commitChange (c : AuthCall) (request : ℕ)
  | abandonChange (c : AuthCall) (request : ℕ)
  | manage (c : AuthCall) (user : UserRow)

/-- A new installation with these users. -/
def AuthDb.start (users : Table UserRow.id) : AuthDb := ⟨users, .empty, 0, .empty⟩

namespace AuthSettings

variable (A : AuthSettings)

def step (db : AuthDb) : AuthEvent → AuthDb
  | .login c email password => (A.login email password).commit c db
  | .refresh c rawToken => (A.refresh rawToken c db).2
  | .logout c rawToken => (A.logout rawToken).commit c db
  | .revokeSession c tokenId rawCurrentToken => (A.revokeSession tokenId rawCurrentToken).commit c db
  | .revokeAllSessions c => Auth.revokeAllSessions.commit c db
  | .changePassword c request currentPassword newPassword encoded =>
    (A.changePassword request currentPassword newPassword encoded).commit c db
  | .revokeForChange c request => (Auth.revokeForChange request).commit c db
  | .commitChange c request => (Auth.commitChange request).commit c db
  | .abandonChange c request => (Auth.abandonChange request).commit c db
  | .manage c user => (Auth.manage user).commit c db

def run (db : AuthDb) (es : List AuthEvent) : AuthDb := es.foldl A.step db

theorem run_append (db : AuthDb) (es fs : List AuthEvent) : A.run db (es ++ fs) = A.run (A.run db es) fs :=
  List.foldl_append ..

end AuthSettings

end GManager.Auth

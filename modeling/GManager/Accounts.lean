import GManager.OptimisticLocks
import GManager.Resources
import GManager.TransactionRuns

/-!
# Accounts

`UserService`, `CustomerAccountService`, `InitialOwnerProvisioner` and the accounts that
`AuthService.login` lets in, as transactions over the tables of users and of activation codes. Everything
that happens to an account leaves an entry, of the audit or of the security events: the journal holds them
in the order of the commits. E-mail addresses arrive normalized, passwords and codes hashed; what a hash
matches is a parameter of the call.
-/

namespace GManager.Accounts

/-! ### Tables -/

/-- A row of `users`. -/
structure Account where
  id : UUID
  email : String
  passwordHash : String
  role : Role
  active : Bool
  mustChangePassword : Bool
  deleted : Bool
  version : ℕ
  deriving DecidableEq, Repr

/-- `CustomerActivationToken`. -/
structure Token where
  tokenHash : String
  userId : UUID
  expiresAt : Instant
  consumedAt : Option Instant
  createdBy : UUID
  deriving DecidableEq, Repr

/-- What is written down about an account. -/
inductive Entry
  | userCreated (actor : AuthenticatedUser) (id : UUID) (role : Role)
  | userDeactivated (actor : AuthenticatedUser) (id : UUID)
  | userDeleted (actor : AuthenticatedUser) (id : UUID)
  | userRestored (actor : AuthenticatedUser) (id : UUID)
  /-- `CUSTOMER_CREATED` with `CUSTOMER_ACTIVATION_ISSUED`. -/
  | customerCreated (actor : AuthenticatedUser) (id : UUID) (tokenHash : String) (issuedAt : Instant)
  | customerUpdated (actor : AuthenticatedUser) (id : UUID)
  | customerDeactivated (actor : AuthenticatedUser) (id : UUID)
  | activated (id : UUID) (tokenHash : String) (now : Instant)
  | loggedIn (id : UUID)
  | passwordChanged (id : UUID)
  deriving DecidableEq, Repr

def Entry.account : Entry → UUID
  | .userCreated _ id _ | .userDeactivated _ id | .userDeleted _ id | .userRestored _ id => id
  | .customerCreated _ id _ _ | .customerUpdated _ id | .customerDeactivated _ id => id
  | .activated id _ _ | .loggedIn id | .passwordChanged id => id

structure Registry where
  accounts : Table Account.id
  tokens : Table Token.tokenHash
  journal : List Entry

def Account.raise (a : Account) : Account := { a with version := a.version + 1 }

namespace Registry

variable (s : Registry)

/-- `findById` and `findByIdForUpdate`. -/
def live (id : UUID) : Option Account := (s.accounts.find? id).filter fun a => !a.deleted

def findDeletedById (id : UUID) : Option Account := (s.accounts.find? id).filter (·.deleted)

/-- `findByEmailForUpdate`. -/
def findByEmail (email : String) : Option Account :=
  s.accounts.rows.find? fun a => a.email = email ∧ a.deleted = false

/-- `existsByEmailIgnoreCase`. -/
def existsByEmail (email : String) : Bool := s.accounts.rows.any fun a => a.email = email

/-- `existsByEmailIgnoreCaseAndIdNotAndDeletedAtIsNull`. -/
def emailUsedByOther (email : String) (id : UUID) : Bool :=
  s.accounts.rows.any fun a => a.email = email ∧ a.id ≠ id ∧ a.deleted = false

/-- Writes a new row; the unique e-mail address refuses a second one. -/
def insertAccount (a : Account) (e : List Entry) : Option Registry :=
  if s.existsByEmail a.email then none
  else (s.accounts.insert a).map fun accounts => { s with accounts, journal := s.journal ++ e }

/-- Writes over the row that was read as `a`. -/
def saveAccount (a a' : Account) (e : Entry) : Option Registry :=
  if s.accounts.rows.any (fun b => b.email = a'.email ∧ b.id ≠ a.id) then none
  else (s.accounts.flush Account.version Account.raise a a').map fun accounts =>
    { s with accounts, journal := s.journal ++ [e] }

/-- `consumeActiveForUser`. -/
def consumeActiveForUser (userId : UUID) (now : Instant) : Registry :=
  let consume :=
    fun t : Token => if t.userId = userId ∧ t.consumedAt = none then { t with consumedAt := some now } else t
  { s with tokens := s.tokens.edit consume (fun t => by unfold consume; split <;> rfl) }

/-- Who has been let in, and so may hold a token of access. -/
def signedIn (id : UUID) : Bool := .loggedIn id ∈ s.journal

end Registry

/-! ### Rules -/

def isManagement (role : Role) : Bool := role = .owner ∨ role = .admin

def requireManagementRole (actor : AuthenticatedUser) : Except Failure Unit :=
  check (isManagement actor.role) (fail .forbidden "User management is not permitted")

/-- `requireCreatableRole`. -/
def creatable (actor : AuthenticatedUser) (role : Role) : Bool :=
  if actor.role = .owner then role = .admin ∨ role = .employee else actor.role = .admin ∧ role = .employee

def requireCreatableRole (actor : AuthenticatedUser) (role : Role) : Except Failure Unit :=
  check (creatable actor role) (fail .forbidden "The requested role cannot be created")

/-- Whose account an actor may deactivate, delete or restore. -/
def governs (actor : AuthenticatedUser) (role : Role) : Bool :=
  if actor.role = .owner then role ≠ .owner else actor.role = .admin ∧ role = .employee

/-- `requireDeactivation`. -/
def requireDeactivation (actor : AuthenticatedUser) (target : Account) : Except Failure Unit := do
  check (actor.id ≠ target.id) (fail .conflict "You cannot deactivate your own account")
  check (governs actor target.role) (fail .forbidden "The requested user cannot be deactivated")

/-- Who holds `CUSTOMER_CREATE`, `CUSTOMER_UPDATE_LIMITED` and `CUSTOMER_DEACTIVATE`. -/
def onboards (actor : AuthenticatedUser) : Bool := actor.role ≠ .customer

def emailInUse : Failure := fail .conflict "Email is already in use"

/-! ### Transactions that hold the row of the user -/

def activationHour : ℤ := 3600

namespace Registry

variable (s : Registry)

/-- The codes that the generator draws are tried until one is free, up to 128 of them. -/
def freeCode (draws : List String) : Option String :=
  (draws.take 128).find? fun h => (s.tokens.find? h).isNone

/-- The body of `CustomerAccountService.create` behind the check of the address, under
the lock of the generation. -/
def createCustomer (actor : AuthenticatedUser) (id : UUID) (email passwordHash : String) (draws : List String)
    (now : Instant) : Option Registry := do
  let s' ← s.insertAccount ⟨id, email, passwordHash, .customer, true, true, false, 0⟩ []
  let code ← s'.freeCode draws
  let tokens ← s'.tokens.insert ⟨code, id, now.plusSeconds activationHour, none, actor.id⟩
  return { s' with tokens, journal := s'.journal ++ [.customerCreated actor id code now] }

/-- `requireCustomer`. -/
def customer (id : UUID) : Except Failure Account :=
  orFail ((s.live id).filter fun a => a.role = .customer) (fail .notFound "Customer not found")

/-- `update`. -/
def updateCustomer (actor : AuthenticatedUser) (id : UUID) (version : ℕ) (email : String) :
    Except Failure (Option Registry) := do
  check (onboards actor) .accessDenied
  let a ← s.customer id
  check (a.version = version) (fail .conflict "Customer was changed by another user")
  check (s.emailUsedByOther email id = false) emailInUse
  return s.saveAccount a { a with email } (.customerUpdated actor id)

/-- `deactivate`. -/
def deactivateCustomer (actor : AuthenticatedUser) (id : UUID) (now : Instant) :
    Except Failure (Option Registry) := do
  check (onboards actor) .accessDenied
  let a ← s.customer id
  if a.active then
    return (s.saveAccount a { a with active := false } (.customerDeactivated actor id)).map fun s =>
      s.consumeActiveForUser id now
  else return some s

def invalidActivation : Failure := fail .badRequest "Activation code is invalid or expired"

/-- `activate`: the code is looked at when its row is locked, and its deadline again
after the password was hashed. -/
def activate (email tokenHash passwordHash : String) (locked now : Instant) :
    Except Failure (Option Registry) := do
  let a ← orFail ((s.findByEmail email).filter fun a => a.role = .customer ∧ a.active ∧ a.mustChangePassword)
    invalidActivation
  let token ← orFail ((((s.tokens.find? tokenHash).filter fun t => t.userId = a.id).filter
    fun t => t.consumedAt = none).filter fun t => locked < t.expiresAt) invalidActivation
  check (now < token.expiresAt) invalidActivation
  return (s.saveAccount a { a with passwordHash, mustChangePassword := false }
    (.activated a.id tokenHash now)).map fun s =>
    s.consumeActiveForUser a.id now

/-- `CustomerActivationCleanup.cleanup`; at most 1000 rows of each kind go. -/
def cleanup (consumed expired : List String) (now : Instant) : Registry :=
  let cutoff := now.plusSeconds (-(7 * 24 * 3600))
  let kept := s.tokens.delete fun t => t.tokenHash ∈ consumed.take 1000 ∧ ∃ x ∈ t.consumedAt, x ≤ cutoff
  { s with
    tokens :=
      kept.delete (fun t => t.tokenHash ∈ expired.take 1000 ∧ t.consumedAt = none ∧ t.expiresAt ≤ cutoff) }

end Registry

/-! ### All transactions -/

inductive AccountCall
  | provision (id : UUID) (email passwordHash : String)
  | createUser (actor : AuthenticatedUser) (id : UUID) (email passwordHash : String) (role : Role)
  | deactivateUser (actor : AuthenticatedUser) (id : UUID)
  | deleteUser (actor : AuthenticatedUser) (id : UUID)
  | restoreUser (actor : AuthenticatedUser) (id : UUID)
  | changePassword (id : UUID) (isCurrent isNew : String → Bool) (passwordHash : String)
  | createCustomer (actor : AuthenticatedUser) (id : UUID) (email passwordHash : String) (draws : List String)
    (now : Instant)
  | updateCustomer (actor : AuthenticatedUser) (id : UUID) (version : ℕ) (email : String)
  | deactivateCustomer (actor : AuthenticatedUser) (id : UUID) (now : Instant)
  | activate (email tokenHash passwordHash : String) (locked now : Instant)
  | cleanup (consumed expired : List String) (now : Instant)
  | login (email : String) (isPassword : String → Bool)

/-- A transaction under locks, which nothing comes between. -/
def lockedWrite (f : Registry → Except Failure (Option Registry)) : Transaction Registry :=
  .write (fun s => (f s).toOption.join) .done

def accountCode : AccountCall → Transaction Registry
  | .provision id email passwordHash =>
    .read fun s =>
      if (s.accounts.rows.any fun a => a.role = .owner) ∨ s.existsByEmail email then .done
      else .write (·.insertAccount ⟨id, email, passwordHash, .owner, true, false, false, 0⟩ []) .done
  | .createUser actor id email passwordHash role =>
    .attempt (fun s => do
      requireManagementRole actor
      requireCreatableRole actor role
      check (s.existsByEmail email = false) emailInUse) fun _ =>
      .write (·.insertAccount ⟨id, email, passwordHash, role, true, false, false, 0⟩
        [.userCreated actor id role]) .done
  | .deactivateUser actor id =>
    .attempt (fun s => do
      requireManagementRole actor
      let a ← orFail (s.live id) (fail .notFound "User not found")
      requireDeactivation actor a
      return a) fun a =>
      if a.active then
        .write (·.saveAccount a { a with active := false } (.userDeactivated actor id)) .done
      else .done
  | .deleteUser actor id =>
    .attempt (fun s => do
      let a ← orFail (s.live id) (fail .notFound "User not found")
      requireDeactivation actor a
      return a) fun a =>
      .write (·.saveAccount a { a with deleted := true, active := false } (.userDeleted actor id)) .done
  | .restoreUser actor id =>
    .attempt (fun s => do
      let a ← orFail (s.findDeletedById id) (fail .notFound "Deleted user not found")
      requireDeactivation actor a
      check (s.emailUsedByOther a.email id = false)
        (fail .conflict "Email is already used by an active account")
      return a) fun a =>
      .write (·.saveAccount a { a with deleted := false } (.userRestored actor id)) .done
  | .changePassword id isCurrent isNew passwordHash =>
    .attempt (fun s => do
      check (s.signedIn id) .accessDenied
      let a ← orFail ((s.live id).filter (·.active)) (fail .unauthorized "User is not active")
      check (isCurrent a.passwordHash) (fail .badRequest "Current password is incorrect")
      check (isNew a.passwordHash = false)
        (fail .badRequest "New password must differ from the current password")
      return a) fun a =>
      .write (·.saveAccount a { a with passwordHash, mustChangePassword := false } (.passwordChanged id))
        .done
  | .createCustomer actor id email passwordHash draws now =>
    .attempt (fun s => do
      check (onboards actor) .accessDenied
      check (s.existsByEmail email = false) emailInUse) fun _ =>
      .write (·.createCustomer actor id email passwordHash draws now) .done
  | .updateCustomer actor id version email => lockedWrite (·.updateCustomer actor id version email)
  | .deactivateCustomer actor id now => lockedWrite (·.deactivateCustomer actor id now)
  | .activate email tokenHash passwordHash locked now =>
    lockedWrite (·.activate email tokenHash passwordHash locked now)
  | .cleanup consumed expired now => .write (fun s => some (s.cleanup consumed expired now)) .done
  | .login email isPassword =>
    .attempt (fun s => do
      let a ← orFail ((s.findByEmail email).filter fun a => a.active ∧ a.mustChangePassword = false)
        (fail .unauthorized "Invalid email or password")
      check (isPassword a.passwordHash) (fail .unauthorized "Invalid email or password")
      return a) fun a =>
      .write (fun s => some { s with journal := s.journal ++ [.loggedIn a.id] }) .done

end GManager.Accounts

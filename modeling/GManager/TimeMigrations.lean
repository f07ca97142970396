import GManager.Journal
import GManager.Rows
import GManager.Table
import Mathlib.Data.List.Dedup

/-!
# The migrations of gaming time

`V48` closes the legacy billing and credits what packages and sessions had left to new time accounts,
`V50` credits what `V48` left out of the packages, and `V51` checks the books and retires the legacy
tables. In between the backend grants and consumes time in the new ledger. The statements of a migration
read the clock on their own.
-/

namespace GManager.Migrations

/-- A row of `users`, with whether its role is `CUSTOMER`. -/
structure User where
  id : UUID
  customer : Bool
  deriving DecidableEq, Repr

/-- `gaming_time_packages`. -/
structure TimePackage where
  id : UUID
  customerId : UUID
  minutes : ℤ
  expiresAt : Option Instant
  deriving DecidableEq, Repr

/-- `gaming_wallet_ledger`. -/
structure WalletEntry where
  packageId : Option UUID
  minutes : ℤ
  deriving DecidableEq, Repr

inductive BillingMode
  | fixedDuration | prepaidMetered | timeBalance | historical
  deriving DecidableEq, Repr

/-- `gaming_sessions`. -/
structure Session where
  id : UUID
  customerId : Option UUID
  guestName : Option String
  resourceId : UUID
  startedBy : UUID
  billingMode : BillingMode
  status : GamingSessionStatus
  startedAt : Instant
  endsAt : Instant
  moveTargetId : Option UUID
  moveRemainingSeconds : Option ℤ
  billedSeconds : ℤ
  lastBilledAt : Option Instant
  meteredLeaseUntil : Option Instant
  accessUntil : Option Instant
  deriving DecidableEq, Repr

inductive OperationKind
  | payment | refund | creditTopup | packageSale | creditCorrection | timeGrant | timeRefund
  deriving DecidableEq, Repr

/-- `kind IN ('TIME_GRANT','TIME_REFUND')`. -/
def OperationKind.time (k : OperationKind) : Bool := k = .timeGrant ∨ k = .timeRefund

inductive OperationMethod
  | cash | externalPos | wallet
  deriving DecidableEq, Repr

/-- `gaming_financial_operations`. -/
structure Operation where
  id : UUID
  kind : OperationKind
  method : OperationMethod
  originalId : Option UUID
  deriving DecidableEq, Repr

inductive EntryKind
  | migration | grant | consumption
  deriving DecidableEq, Repr

/-- The keys `legacy-packages:<customer>`, `legacy-session:<session>`,
`legacy-packages-no-expiry:<customer>`, and those of the backend. -/
inductive EntryKey
  | legacyPackages (customer : UUID)
  | legacySession (session : UUID)
  | legacyPackagesNoExpiry (customer : UUID)
  | backend (key : SourceKey)
  deriving DecidableEq, Repr

/-- `gaming_time_ledger`. -/
structure TimeEntry where
  customerId : UUID
  sessionId : Option UUID
  operationId : Option UUID
  actorId : UUID
  deltaSeconds : ℤ
  balanceAfter : ℤ
  kind : EntryKind
  reason : Option String
  sourceKey : EntryKey
  createdAt : Instant
  deriving DecidableEq, Repr

/-- The legacy database, with the foreign keys and checks of `V43` and `V46` on what the migrations read. -/
structure LegacyDb where
  users : Table User.id
  packages : Table TimePackage.id
  wallet : List WalletEntry
  sessions : Table Session.id
  operations : Table Operation.id
  /-- The keys of `gaming_business_policy`. -/
  policy : List ℤ
  fk_package_customer : ∀ p ∈ packages, ∃ u ∈ users, u.id = p.customerId
  fk_session_customer : ∀ s ∈ sessions, ∀ c ∈ s.customerId, ∃ u ∈ users, u.id = c
  fk_fin_original : ∀ f ∈ operations, ∀ id ∈ f.originalId, ∃ p ∈ operations, p.id = id
  chk_fin_kind : ∀ f ∈ operations, f.kind.time = false
  chk_metered_session : ∀ s ∈ sessions, (s.billingMode = .fixedDuration ∨ s.billingMode = .prepaidMetered) ∧
    0 ≤ s.billedSeconds

/-- The database from `V48` on. -/
structure TimeDb where
  accounts : Table TimeAccount.customerId
  ledger : List TimeEntry
  packages : Table TimePackage.id
  wallet : List WalletEntry
  sessions : Table Session.id
  operations : Table Operation.id
  policy : List ℤ

/-- The ledger as a journal of the customers' accounts. -/
def entryJournal : Journal UUID TimeEntry := ⟨(·.customerId), (·.deltaSeconds), (·.balanceAfter)⟩

/-- `SUM(l.minutes)` of the ledger rows of a package. -/
def remaining (wallet : List WalletEntry) (p : TimePackage) : ℤ :=
  ((wallet.filter fun l => l.packageId = some p.id).map WalletEntry.minutes).sum

/-- `SUM(l.minutes)*60` of a customer over the selected packages. -/
def packageSeconds (packages : Table TimePackage.id) (wallet : List WalletEntry)
    (select : TimePackage → Bool) (customer : UUID) : ℤ :=
  ((packages.rows.filter fun p => p.customerId = customer ∧ select p).map (remaining wallet)).sum * 60

/-- The packages that have ledger rows, as the inner join takes them. -/
def joined (packages : Table TimePackage.id) (wallet : List WalletEntry) : List TimePackage :=
  packages.rows.filter fun p => wallet.any fun l => l.packageId = some p.id

namespace TimeDb

variable (d : TimeDb)

def balance (customer : UUID) : ℤ := ((d.accounts.find? customer).map (·.balanceSeconds)).getD 0

/-- `COALESCE(SUM(delta_seconds),0)` of a customer. -/
def total (customer : UUID) : ℤ := entryJournal.sumWhere (fun e => e.customerId = customer) d.ledger

def hasKey (key : EntryKey) : Bool := d.ledger.any fun e => e.sourceKey = key

def recounted (select : UUID → Bool) (a : TimeAccount) : TimeAccount :=
  if select a.customerId then { a with balanceSeconds := d.total a.customerId } else a

theorem recounted_customerId (select : UUID → Bool) (a : TimeAccount) :
    (d.recounted select a).customerId = a.customerId := by
  rw [recounted]
  split <;> rfl

/-- Sets the balances of the selected accounts to the sums of their entries. -/
def recount (select : UUID → Bool) : TimeDb :=
  { d with accounts := d.accounts.edit (d.recounted select) (d.recounted_customerId select) }

/-- The `MIGRATION` seconds under a key. -/
def migrated (customer : UUID) (key : EntryKey) : ℤ :=
  entryJournal.sumWhere (fun e => e.customerId = customer ∧ e.kind = .migration ∧ e.sourceKey = key) d.ledger

end TimeDb

/-! ### V48 -/

/-- What is left of a legacy session. -/
def Session.unused (s : Session) (now : Instant) : ℤ :=
  s.moveRemainingSeconds.getD (Int.tdiv (s.endsAt - now) 1000000)

/-- `p.expires_at IS NULL OR p.expires_at>UTC_TIMESTAMP(6)`. -/
def TimePackage.valid (now : Instant) (p : TimePackage) : Bool := p.expiresAt.all fun t => now < t

namespace LegacyDb

variable (l : LegacyDb)

/-- The users that get an account. -/
def holders : List User :=
  l.users.rows.filter fun u => u.customer ∨ u.id ∈ l.packages.rows.map TimePackage.customerId ∨
    u.id ∈ l.sessions.rows.filterMap Session.customerId

theorem nodup_holders :
    ((l.holders.map fun u => (⟨u.id, 0⟩ : TimeAccount)).map TimeAccount.customerId).Nodup := by
  rw [List.map_map]
  exact l.users.nodup.sublist (List.filter_sublist.map User.id)

def active : List Session := l.sessions.rows.filter fun s => s.status = .active

/-- The new tables, before anything is credited. -/
def opened : TimeDb :=
  ⟨⟨l.holders.map fun u => ⟨u.id, 0⟩, l.nodup_holders⟩, [], l.packages, l.wallet, l.sessions,
    l.operations, l.policy⟩

/-- The entries for the packages that are valid, one for each customer. -/
def packageEntries (now : Instant) : List TimeEntry :=
  (l.packages.rows.map TimePackage.customerId).dedup.filterMap fun c =>
    let seconds := packageSeconds l.packages l.wallet (TimePackage.valid now) c
    if 0 < seconds then
      some ⟨c, none, none, c, seconds, seconds, .migration,
        some "Unspent historical time packages; original package and financial records retained",
        .legacyPackages c, now⟩
    else none

/-- The entries for the fixed sessions of customers that are running. -/
def sessionEntries (d : TimeDb) (now : Instant) : List TimeEntry :=
  l.active.filterMap fun s => do
    let c ← s.customerId
    let a ← d.accounts.find? c
    let seconds := s.unused now
    if s.billingMode = .fixedDuration ∧ 0 < seconds then
      some ⟨c, some s.id, none, s.startedBy, seconds, a.balanceSeconds + seconds, .migration,
        some "Unused legacy session time", .legacySession s.id, now⟩
    else none

/-- `V48`; two running sessions of a customer or on a station break its unique keys. -/
def v48 (packagesAt sessionsAt : Instant) : Option TimeDb :=
  if (l.active.filterMap Session.customerId).Nodup ∧ (l.active.map Session.resourceId).Nodup then
    let d := { l.opened with ledger := l.packageEntries packagesAt }.recount fun _ => true
    let d := { d with ledger := d.ledger ++ l.sessionEntries d sessionsAt }.recount fun _ => true
    some { d with
      sessions := d.sessions.edit (fun s => if s.status = .active then { s with status := .terminated }
        else s) fun s => by
        split <;> rfl }
  else none

end LegacyDb

/-! ### The new ledger -/

/-- The check of a running time session. -/
def Session.metered (s : Session) : Prop :=
  s.billingMode = .timeBalance ∧ s.customerId.isSome ∧ s.guestName = none ∧ s.moveTargetId = none ∧
    s.meteredLeaseUntil.isSome ∧ (∃ billed ∈ s.lastBilledAt, s.startedAt ≤ billed) ∧
    (∃ until' ∈ s.accessUntil, s.endsAt ≤ until') ∧ 0 ≤ s.billedSeconds

instance (s : Session) : Decidable s.metered := inferInstanceAs (Decidable (_ ∧ _))

inductive TimeEvent
  | grant (operation : UUID) (method : OperationMethod) (customer actor : UUID) (seconds : ℤ)
      (key : String) (now : Instant)
  | consume (customer session actor : UUID) (total seconds : ℤ) (now : Instant)
  | session (s : Session)
  deriving DecidableEq, Repr

namespace TimeDb

variable (d : TimeDb)

/-- `append`; a used key changes nothing, a negative balance is refused. -/
def append (e : TimeEntry) : TimeDb :=
  if d.hasKey e.sourceKey ∨ d.balance e.customerId + e.deltaSeconds < 0 then d
  else
    let after := d.balance e.customerId + e.deltaSeconds
    { d with
      accounts := d.accounts.upsert ⟨e.customerId, after⟩
      ledger := d.ledger ++ [{ e with balanceAfter := after }] }

/-- What the backend of `V48` does to these tables. -/
def step : TimeEvent → TimeDb
  | .grant operation method customer actor seconds key now =>
    if seconds ≤ 0 ∨ method = .wallet ∨ d.hasKey (.backend (.grant actor customer key)) then d
    else
      match d.operations.insert ⟨operation, .timeGrant, method, none⟩ with
      | none => d
      | some operations => { d with operations }.append ⟨customer, none, some operation, actor, seconds, 0,
          .grant, none, .backend (.grant actor customer key), now⟩
  | .consume customer session actor total seconds now =>
    if seconds ≤ 0 then d
    else d.append ⟨customer, some session, none, actor, -seconds, 0, .consumption, none,
      .backend (.use session total), now⟩
  | .session s =>
    if s.metered ∧ ∀ old ∈ d.sessions.find? s.id, old.billingMode = .timeBalance then
      { d with sessions := d.sessions.upsert s }
    else d

def run (es : List TimeEvent) : TimeDb := es.foldl step d

/-! ### V50 -/

/-- The entry of an account whose packages had more seconds than were converted. -/
def restoration (now : Instant) (a : TimeAccount) : Option TimeEntry :=
  let c := a.customerId
  let missing := packageSeconds d.packages d.wallet (fun _ => true) c - d.migrated c (.legacyPackages c)
  if (joined d.packages d.wallet).any (fun p => p.customerId = c) ∧ 0 < missing ∧
    d.hasKey (.legacyPackagesNoExpiry c) = false then
    some ⟨c, none, none, c, missing, a.balanceSeconds + missing, .migration,
      some "Unconverted historical package time; calendar expiry removed", .legacyPackagesNoExpiry c, now⟩
  else none

def restorations (now : Instant) : List TimeEntry := d.accounts.rows.filterMap (d.restoration now)

/-- `V50`. -/
def v50 (now : Instant) : TimeDb :=
  let d := { d with ledger := d.ledger ++ d.restorations now }
  d.recount fun c => d.hasKey (.legacyPackagesNoExpiry c)

end TimeDb

/-! ### V51 -/

/-- How `V51` stops: a check that finds something before the first change, or a constraint
when tables are gone already. -/
inductive Abort
  | refused (message : String)
  | violated (constraint : String)
  deriving DecidableEq, Repr

def requireZero (count : ℕ) (message : String) : Except Abort Unit :=
  if count = 0 then .ok () else .error (.refused message)

def constrain (p : Prop) [Decidable p] (constraint : String) : Except Abort Unit :=
  if p then .ok () else .error (.violated constraint)

/-- `RETIRED`. -/
def retired : List String := ["gaming_wallet_ledger", "gaming_time_packages", "gaming_tariffs",
    "gaming_charges", "gaming_business_policy"]

/-- The foreign keys to the retired tables, from `V43`. -/
def exportedKeys : List (String × String) :=
  [("gaming_time_packages", "gaming_tariffs"), ("gaming_wallet_ledger", "gaming_time_packages")]

namespace TimeDb

variable (d : TimeDb)

/-- The seconds of the packages that were credited. -/
def credited (customer : UUID) : ℤ :=
  entryJournal.sumWhere (fun e => e.customerId = customer ∧ e.kind = .migration ∧
    (e.sourceKey = .legacyPackages customer ∨ e.sourceKey = .legacyPackagesNoExpiry customer)) d.ledger

def checks : Except Abort Unit := do
  requireZero (d.sessions.rows.countP fun s => s.billingMode ≠ .timeBalance ∧ s.status = .active)
    "Close and reconcile active legacy sessions with the previous backend before upgrading"
  requireZero (d.accounts.rows.countP fun a => a.balanceSeconds < 0 ∨ a.balanceSeconds ≠ d.total a.customerId)
    "Time account and ledger disagree; restore financial consistency before upgrading"
  requireZero (d.packages.rows.countP fun p => remaining d.wallet p < 0 ∨ p.minutes < remaining d.wallet p)
    "Historical package ledger is inconsistent; no data has been removed"
  requireZero (((joined d.packages d.wallet).map TimePackage.customerId).dedup.countP fun c =>
      d.credited c < packageSeconds d.packages d.wallet (fun _ => true) c)
    "V48/V50 did not preserve all purchased package seconds; reconcile before retiring the source tables"
  requireZero (d.ledger.countP fun e => d.operations.rows.any fun f => e.operationId = some f.id ∧
    ¬ f.kind.time)
      "A current time ledger entry references legacy money; an explicit audited reconciliation is required"
  requireZero (d.operations.rows.countP fun f => f.kind.time ∧ d.operations.rows.any fun p =>
    f.originalId = some p.id ∧
    ¬ p.kind.time) "A current financial operation references legacy money; reconcile before upgrading"
  requireZero (d.operations.rows.countP fun f => f.kind.time ∧ f.method ≠ .cash ∧ f.method ≠ .externalPos)
    "Current time payments must use CASH or EXTERNAL_POS"
  requireZero (if d.policy.count 1 = 1 then 0 else 1) "The gaming minute price configuration is missing"
  requireZero (exportedKeys.countP fun k => k.2 ∈ retired ∧ k.1 ∉ retired)
    "unexpected dependency; no source tables were removed"

/-- `gaming_sessions` with the legacy modes renamed. -/
def historicSessions : Table Session.id :=
  d.sessions.edit (fun s => if s.billingMode = .timeBalance then s else { s with
    billingMode := .historical }) fun s => by
    split <;> rfl

/-- `DELETE FROM gaming_financial_operations WHERE kind NOT IN ('TIME_GRANT','TIME_REFUND')`. -/
def timeOperations : Table Operation.id := d.operations.delete fun f => ¬ f.kind.time

/-- `V51`; the policy becomes `gaming_time_price`. -/
def v51 : Except Abort TimeDb := do
  d.checks
  constrain (∀ e ∈ d.ledger, ∀ id ∈ e.operationId, ∃ f ∈ d.timeOperations.rows, f.id = id) "fk_time_operation"
  constrain (∀ f ∈ d.timeOperations.rows, ∀ id ∈ f.originalId, ∃ p ∈ d.timeOperations.rows, p.id = id)
    "fk_fin_original"
  constrain (∀ f ∈ d.timeOperations.rows, f.kind.time) "chk_fin_kind"
  constrain (∀ f ∈ d.timeOperations.rows, f.method = .cash ∨ f.method = .externalPos) "chk_fin_method"
  constrain (∀ s ∈ d.historicSessions.rows, 0 ≤ s.billedSeconds ∧
    (s.billingMode = .historical ∧ s.status ≠ .active ∨ s.metered)) "chk_time_session"
  return { d with
    packages := .empty, wallet := [], operations := d.timeOperations, sessions := d.historicSessions }

end TimeDb

end GManager.Migrations

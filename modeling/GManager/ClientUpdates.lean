import GManager.Requests
import Mathlib.Data.List.Sort

/-!
# Client updates of the stations

`StationClientUpdateService`: an update is requested for a station, its client reports on it, and claims the
installation, which holds the station for ten minutes. The service reads the sessions and assignments, and
`requireReadyForSession` asks it whether an installation is running. The station of a request is taken after
its authorization.
-/

namespace GManager

open Txn

inductive UpdateStatus
  | requested | deferred | downloading | installing | applied | failed | expired | superseded
  deriving DecidableEq, Repr

/-- A row of `station_client_updates`. -/
structure StationClientUpdate where
  id : UUID
  stationId : UUID
  targetVersion : String
  status : UpdateStatus
  requestedBy : Option UUID
  claimedBy : Option UUID
  claimUntil : Option Instant
  requestedAt : Instant
  notBefore : Instant
  expiresAt : Instant
  updatedAt : Instant
  reason : String
  deriving DecidableEq, Repr

/-- `app.gaming-client`: the version that the server offers, and whether its status is `RELEASED`. -/
structure ClientRelease where
  version : String
  released : Bool

structure StationSystem where
  db : Db
  updates : Table StationClientUpdate.id

def StationSystem.empty (t : Instant) : StationSystem := ⟨.empty t, .empty⟩

def StationSystem.listen (s : StationSystem) (readings : List Instant) : StationSystem :=
  { s with db := s.db.listen readings }

abbrev StationTx := Txn Call StationSystem Failure

/-- A transaction on the tables of the sessions. -/
def onDb {α : Type} (x : Tx α) : StationTx α := fun c s => match x.run c s.db with
  | .ok (a, db) => .ok (a, { s with db })
  | .error e => .error e

@[simp] theorem wp_onDb {α : Type} {x : Tx α} {Q : α → StationSystem → Prop} {c : Call} {s : StationSystem} :
    wp (onDb x) Q c s ↔ wp x (fun a db => Q a { s with db }) c s.db := by
  constructor
  · intro h a db hx
    refine h a { s with db } ?_
    simp only [Txn.run, onDb] at hx ⊢
    rw [hx]
  · intro h a s' hx
    simp only [Txn.run, onDb] at hx
    split at hx
    · cases hx
      exact h _ _ ‹_›
    · cases hx

/-! ### Reading -/

def UpdateStatus.pending (value : UpdateStatus) : Bool :=
  value ∈ [.requested, .deferred, .downloading, .installing]

/-- An update is installing at two readings of the clock, one for its claim and one for its expiry. -/
def StationClientUpdate.installingAt (u : StationClientUpdate) (t t' : Instant) : Prop :=
  u.status = .installing ∧ (∃ claimUntil ∈ u.claimUntil, t < claimUntil) ∧ t' < u.expiresAt

instance StationClientUpdate.decidableInstallingAt (u : StationClientUpdate) (t t' : Instant) :
    Decidable (u.installingAt t t') := inferInstanceAs (Decidable (_ ∧ _ ∧ _))

/-- The rows among which `installing` looks. -/
def StationSystem.installingAt (s : StationSystem) (stationId : UUID) (t t' : Instant) : Bool :=
  s.updates.rows.any fun u => u.stationId = stationId ∧ u.installingAt t t'

def installing (stationId : UUID) : StationTx Bool := do
  let t ← onDb instant
  let t' ← onDb instant
  let s ← get
  return s.installingAt stationId t t'

/-- `effectiveStatus`: a pending update whose time or claim has run out is expired. -/
def effectiveStatus (u : StationClientUpdate) : StationTx UpdateStatus := do
  if u.status.pending then
    let now ← onDb instant
    if u.expiresAt ≤ now then return .expired
    else if u.status = .installing then
      let now ← onDb instant
      return if ∃ claimUntil ∈ u.claimUntil, now < claimUntil then .installing else .expired
    else return u.status
  else return u.status

/-- `ORDER BY requested_at DESC, id DESC`. -/
def StationClientUpdate.later (a b : StationClientUpdate) : Prop :=
  b.requestedAt < a.requestedAt ∨ b.requestedAt = a.requestedAt ∧ b.id ≤ a.id

instance StationClientUpdate.decidableLater : DecidableRel StationClientUpdate.later :=
  fun a b => inferInstanceAs (Decidable (b.requestedAt < a.requestedAt ∨ _))

/-- `rows(stationId, 1)`: the latest update of the station, with its effective status. -/
def latestUpdate (stationId : UUID) : StationTx (Option StationClientUpdate) := do
  let s ← get
  match ((s.updates.rows.filter (·.stationId = stationId)).insertionSort StationClientUpdate.later).head? with
  | none => return none
  | some u => do
    let status ← effectiveStatus u
    return some { u with status }

/-! ### Writing -/

/-- `UPDATE station_client_updates SET status = …, updated_at = … WHERE p`. -/
def markUpdates (p : StationClientUpdate → Prop) [DecidablePred p] (status : UpdateStatus)
    (now : Instant) : StationTx Unit :=
  modify fun s =>
    let updates := s.updates.edit (fun u => if p u then { u with status, updatedAt := now } else u)
      fun u => by split <;> rfl
    { s with updates }

def insertUpdate : StationClientUpdate → StationTx Unit := fun u => do
  let s ← get
  let updates ← orThrow (s.updates.insert u) .dataIntegrity
  modify fun s => { s with updates }

/-- The pending updates of a station give way to a new one. -/
def supersede (stationId : UUID) (now : Instant) : StationTx Unit :=
  markUpdates (fun u => u.stationId = stationId ∧ u.status.pending) .superseded now

/-- `\d+\.\d+\.\d+(\.\d+)?`. -/
def validVersion (version : String) : Bool :=
  let parts := version.toList.splitOn '.'
  (parts.length == 3 || parts.length == 4) && parts.all fun part => !part.isEmpty && part.all (·.isDigit)

/-- `request`, of an actor who may maintain the station. -/
def requestUpdate (release : ClientRelease) (stationId : UUID) (requestedTime : Option Instant)
    (reason : Option String) : StationTx (Option StationClientUpdate) := do
  let c ← ask
  require (∃ station ∈ c.catalogue.stations.find? stationId, station.clientEnabled)
    (fail .conflict "Enabled Client station required")
  require (release.released ∧ validVersion release.version)
    (fail .conflict "No approved Client release available")
  let now ← onDb instant
  let notBefore := requestedTime.getD now
  require (now.plusSeconds (-60) ≤ notBefore ∧ notBefore ≤ now.plusSeconds (3 * 86400))
    (fail .badRequest "Update time must be within the next three days")
  let reason ← orThrow (reason.filter fun r => ¬ blank r ∧ javaLength r ≤ 500)
    (fail .badRequest "A reason up to 500 characters is required")
  let _ ← orThrow (c.catalogue.resources.find? stationId) .noSuchElement
  let current ← latestUpdate stationId
  if ∃ u ∈ current, u.status.pending ∧ u.targetVersion = release.version then return current
  else
    let running ← installing stationId
    require (¬ running) (fail .conflict "Client installation is already in progress")
    supersede stationId now
    insertUpdate
      { id := c.freshId
        stationId
        targetVersion := release.version
        status := .requested
        requestedBy := some c.actor.id
        claimedBy := none
        claimUntil := none
        requestedAt := now
        notBefore
        expiresAt := notBefore.plusSeconds (7 * 86400)
        updatedAt := now
        reason := trim reason }
    latestUpdate stationId

/-- The status that a report of the client asks for. -/
def reportedStatus : Option String → Option UpdateStatus
  | some "DEFERRED" => some .deferred
  | some "DOWNLOADING" => some .downloading
  | some "FAILED" => some .failed
  | some "ROLLED_BACK" => some .failed
  | _ => none

/-- `observe`: what a heartbeat tells about the latest update. -/
def observeUpdate (stationId : UUID) (installedVersion updateStatus : Option String)
    (requestId : Option UUID) :
    StationTx Unit := do
  let current ← latestUpdate stationId
  match current with
  | none => return ()
  | some value =>
    if installedVersion = some value.targetVersion ∧ value.status ∉ [.superseded, .applied] then
      let now ← onDb instant
      markUpdates (fun u => u.id = value.id) .applied now
    else if value.status.pending then
      let next := if installedVersion = some value.targetVersion then some .applied
        else if requestId = some value.id then reportedStatus updateStatus
        else none
      -- a claimed installation is not taken back by a report that is older than the claim
      if value.status = .installing ∧ next ∈ [some .deferred, some .downloading] then return ()
      else match next with
        | none => return ()
        | some next =>
          when (next ≠ value.status) do
            let now ← onDb instant
            markUpdates (fun u => u.id = value.id ∧ u.status.pending) next now
    else return ()

/-- The update that a claim installs: the one it names, or a new one for a local administrator. -/
def claimedUpdate (release : ClientRelease) (stationId : UUID) (requestId : Option UUID) (now : Instant) :
    StationTx UUID := match requestId with
  | some id => return id
  | none => do
    let c ← ask
    supersede stationId now
    insertUpdate
      { id := c.freshId
        stationId
        targetVersion := release.version
        status := .requested
        requestedBy := none
        claimedBy := none
        claimUntil := none
        requestedAt := now
        notBefore := now
        expiresAt := now.plusSeconds 600
        updatedAt := now
        reason := "Update authorized by a local Windows administrator" }
    return c.freshId

/-- The row of a claimed update. -/
def StationClientUpdate.claim (identityId : UUID) (now : Instant) (u : StationClientUpdate) :
    StationClientUpdate :=
  { u with
    status := .installing, claimedBy := some identityId, claimUntil := some (now.plusSeconds 600),
    updatedAt := now }

/-- `claim`: the client takes the station for an installation. -/
def claimUpdate (release : ClientRelease) (identityId : UUID) (requestId : Option UUID) : StationTx Unit := do
  let c ← ask
  let stationId ← onDb requireMachine
  require release.released (fail .conflict "No approved release available")
  let _ ← orThrow (c.catalogue.resources.find? stationId) .noSuchElement
  let t ← onDb instant
  let s ← get
  require (∀ a ∈ s.db.assignments.rows, ¬ (a.resourceId = stationId ∧ a.status = .waitingForLogin ∧
    t < a.expiresAt)) (fail .conflict "Cancel the waiting gaming assignment before installation")
  require (s.db.activeByResource stationId = none ∧ s.db.activeByMoveTarget stationId = none)
    (fail .conflict "A paid session must finish before installation")
  let running ← installing stationId
  require (¬ running) (fail .conflict "An installation is already in progress")
  let intent ← latestUpdate stationId
  let now ← onDb instant
  require (∀ id ∈ requestId, ∃ u ∈ intent, u.id = id ∧ u.status.pending ∧ u.targetVersion = release.version ∧
      u.notBefore ≤ now)
    (fail .conflict "The signed update request is not eligible")
  let id ← claimedUpdate release stationId requestId now
  modify fun s =>
    let updates := s.updates.edit (fun u => if u.id = id then u.claim identityId now else u) fun u => by
      split <;> rfl
    { s with updates }

/-! ### Steps -/

/-- The requests beside those of the sessions; `expireWaiting` is called by the ticker. -/
inductive UpdateOp
  | request (release : ClientRelease) (stationId : UUID) (requestedTime : Option Instant)
      (reason : Option String)
  | observe (stationId : UUID) (installedVersion updateStatus : Option String) (requestId : Option UUID)
  | claim (release : ClientRelease) (identityId : UUID) (requestId : Option UUID)
  | expireWaiting

def UpdateOp.perform : UpdateOp → StationTx Unit
  | request release stationId requestedTime reason =>
    (requestUpdate release stationId requestedTime reason).discard
  | observe stationId installedVersion updateStatus requestId =>
    observeUpdate stationId installedVersion updateStatus requestId
  | claim release identityId requestId => claimUpdate release identityId requestId
  | expireWaiting => onDb do
    let now ← instant
    GManager.expireWaiting now

/-- What a transaction that leads to `db` is told about installations: the answers of `installing` at two
readings of the clock during the transaction. -/
def StationSystem.Answers (s : StationSystem) (c : Call) (db : Db) : Prop :=
  ∃ t t', s.db.clock.now ≤ t ∧ t ≤ t' ∧ t' ≤ db.clock.now ∧
    ∀ stationId, (c.signs stationId).installing = s.installingAt stationId t t'

/-- A request is served: one of the sessions, which is told about the installations, or one of the updates. -/
inductive StationStep (s : StationSystem) : StationSystem → Prop
  | served {r : Request} (ha : s.Answers r.call (step s.db r)) : StationStep s { s with db := step s.db r }
  | performed (c : Call) (op : UpdateOp) : StationStep s (op.perform.commit c (s.listen c.readings))

abbrev StationRun := Relation.ReflTransGen StationStep

end GManager

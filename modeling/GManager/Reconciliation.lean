import GManager.Requests
import GManager.Enforcement

/-!
# Reconciliation of the station commands

`StationCommandWriter.matchesCurrentProjection` and `GamingSessionReconciliationJobHandler`: a pass repairs
every session within retention whose newest command is missing or stale, each in a transaction of its own,
and then purges. `CommandLog` is the database together with what its history has written and purged; it
serves the requests, an operator's forced lock, single repairs and whole passes.
-/

namespace GManager

open Txn

/-! ### The projection of a session -/

/-- Whether a command of this type tells the station in which state the session is. -/
def GamingSession.announcedBy (s : GamingSession) (type : StationCommandType) : Bool :=
  if s.status = .active ∧ s.moveTargetId = none then type = .sessionStarted ∨ type = .sessionExtended
  else type = .sessionTerminated ∨ type = .forceLock

/-- Whether the command says what the session is now. -/
def StationCommand.projects (w : StationCommand) (s : GamingSession) : Bool :=
  s.announcedBy w.commandType ∧ w.payload.endsAt = s.endsAt ∧ w.payload.status = s.status ∧
    w.payload.endedAt = s.endedAt

/-- `matchesCurrentProjection`. -/
def Db.matchesCurrentProjection (db : Db) (s : GamingSession) : Bool := match s.lastCommandSequence with
  | none => false
  | some sequence =>
    ((db.commands.find? (s.resourceId, sequence)).filter (·.sessionId = s.id)).any (·.projects s)

/-! ### The repair of one session -/

/-- `outsideRetention`; the clock is read for sessions that have ended only. -/
def outsideRetention (s : GamingSession) : Tx Bool := do
  let c ← ask
  match s.endedAt with
  | none => return false
  | some endedAt =>
    if s.status = .active then return false
    else do
      let now ← instant
      return endedAt < now.plusSeconds (-c.settings.retentionSeconds)

/-- The type of the command that a repair writes. -/
def GamingSession.repairType (s : GamingSession) : StationCommandType :=
  if s.moveTargetId.isSome then .forceLock
  else if s.status = .active then (if s.lastCommandSequence = none then .sessionStarted else .sessionExtended)
  else .sessionTerminated

/-- `repair`: whether a command was written. -/
def repair (id : UUID) : Tx Bool := do
  let db ← get
  match db.sessions.find? id with
  | none => return false
  | some s => do
    let outside ← outsideRetention s
    if outside ∨ db.matchesCurrentProjection s then return false
    else do
      let sequence ← writeCommand s s.repairType
      saveSession (s.announced sequence)
      return true

/-- `GamingOperationsBoardService.forceLock`, by an actor who may manage the station. -/
def GamingOperationsBoard.forceLock (stationId : UUID) : Tx Unit := do
  let db ← get
  let s ← orThrow ((latestCandidate db.sessions.rows stationId).filter (·.status ≠ .active)) .noSuchElement
  let sequence ← writeCommand s .forceLock
  saveSession (s.announced sequence)

/-! ### The log of the commands -/

/-- The transactions that may write or remove commands. -/
inductive CommandOp
  | request (op : Op)
  | forceLock (stationId : UUID)
  | repair (id : UUID)

def CommandOp.perform : CommandOp → Tx Unit
  | request op => op.perform
  | forceLock stationId => GamingOperationsBoard.forceLock stationId
  | repair id => (GManager.repair id).discard

/-- The database, and for the statements about histories the commands that have appeared in it, in the order
of their commits, and those that have disappeared. -/
structure CommandLog where
  db : Db
  written : List StationCommand
  purged : List StationCommand

namespace CommandLog

def empty (t : Instant) : CommandLog := ⟨.empty t, [], []⟩

/-- The log when the database has become `db`. -/
def become (l : CommandLog) (db : Db) : CommandLog where
  db
  written :=
    l.written ++ db.commands.rows.filter fun w => l.db.commands.find? (w.stationId, w.sequence) = none
  purged := l.purged ++ l.db.commands.rows.filter fun w => db.commands.find? (w.stationId, w.sequence) = none

/-- A transaction commits, or nothing changes. -/
def commit {α : Type} (l : CommandLog) (c : Call) (x : Tx α) : CommandLog := l.become (x.commit c l.db)

def listen (l : CommandLog) (readings : List Instant) : CommandLog := { l with db := l.db.listen readings }

def step (l : CommandLog) (c : Call) (op : CommandOp) : CommandLog :=
  (l.listen c.readings).commit c op.perform

/-! ### A pass of the reconciliation -/

/-- `findReconciliationIds`: the next hundred sessions after an identifier that are not past the cutoff. -/
def reconciliationIds (db : Db) (cutoff : Instant) (afterId : Option UUID) : List UUID :=
  ((sortById (·.id) (db.sessions.rows.filter fun s =>
    (s.status = .active ∨ ∀ e ∈ s.endedAt, cutoff ≤ e) ∧ ∀ a ∈ afterId, a < s.id)).take 100).map (·.id)

/-- The loop of `handle`, over at most so many pages. No repair fails, so none stops
the pass (`repair_commits`). -/
def pages (c : Call) : ℕ → Option UUID → CommandLog → CommandLog
  | 0, _, l => l
  | n + 1, afterId, l =>
    let l := l.commit c instant
    let ids := reconciliationIds l.db (l.db.clock.now.plusSeconds (-c.settings.retentionSeconds)) afterId
    match ids.getLast? with
    | none => l
    | some last => pages c n (some last) (ids.foldl (fun l id => l.commit c (repair id)) l)

/-- `handle`: each page moves on to a later session, so one page more than there are sessions is enough. -/
def reconcile (c : Call) (l : CommandLog) : CommandLog :=
  (pages c (l.db.sessions.rows.length + 1) none (l.listen c.readings)).commit c purge

/-- What an installation can become whose retention is `R` seconds. -/
inductive Reached (R : ℕ) : CommandLog → Prop
  | empty (t : Instant) : Reached R (.empty t)
  | step {l : CommandLog} (h : Reached R l) (c : Call) (hc : c.settings.retentionSeconds = R)
      (op : CommandOp) : Reached R (l.step c op)
  | reconcile {l : CommandLog} (h : Reached R l) (c : Call) (hc : c.settings.retentionSeconds = R) :
      Reached R (l.reconcile c)

end CommandLog

end GManager

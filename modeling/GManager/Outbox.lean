import GManager.Rows
import Mathlib.Data.List.Sort
import Mathlib.Logic.Function.Basic

/-!
# The transactional outbox

`OutboxStore` and `OutboxPublisher`. A publisher claims a batch of events and delivers them one by one. A
delivery is one transaction: it locks the claimed row, hands the event to every registered consumer that has
no receipt yet, and marks it processed; a delivery that fails is rolled back, and a second transaction marks
the event failed. Both are fenced by the worker and the number of the attempt. `OutboxSystem` interleaves any
number of publishers with the operator's replay and the retention.
-/

namespace GManager

open Txn

inductive OutboxStatus
  | pending | processing | processed | dead
  deriving DecidableEq, Repr

/-- A row of `outbox_events`. -/
structure OutboxEvent where
  id : UUID
  eventType : String
  schemaVersion : ℤ
  aggregateType : String
  aggregateId : UUID
  occurredAt : Instant
  correlationId : String
  payload : String
  status : OutboxStatus
  attempts : ℕ
  availableAt : Instant
  claimedBy : Option String
  claimedAt : Option Instant
  processedAt : Option Instant
  createdAt : Instant
  deriving DecidableEq, Repr

/-- What a publisher gets of an event; the attempt is the one that its claim starts. -/
structure OutboxMessage where
  id : UUID
  eventType : String
  schemaVersion : ℤ
  aggregateType : String
  aggregateId : UUID
  occurredAt : Instant
  correlationId : String
  payload : String
  attempts : ℕ
  deriving DecidableEq, Repr

/-- A row of `outbox_consumer_receipts`. -/
structure OutboxReceipt where
  consumerName : String
  eventId : UUID
  processedAt : Instant
  deriving DecidableEq, Repr

/-- What was committed, for the statements about histories: that an event was written, claimed or replayed,
and that a consumer wrote its effect. -/
inductive OutboxNote
  | written (id : UUID)
  | claimed (id : UUID)
  | effect (consumer : String) (id : UUID)
  | replayed (id : UUID)
  deriving DecidableEq, Repr

/-- The two tables, and the history with the newest note first. -/
structure OutboxDb where
  events : Table OutboxEvent.id
  receipts : Table fun r : OutboxReceipt => (r.consumerName, r.eventId)
  log : List OutboxNote

def OutboxDb.empty : OutboxDb := ⟨.empty, .empty, []⟩

abbrev OutboxTx := Txn Unit OutboxDb Failure

def OutboxEvent.message (e : OutboxEvent) : OutboxMessage :=
  { id := e.id
    eventType := e.eventType
    schemaVersion := e.schemaVersion
    aggregateType := e.aggregateType
    aggregateId := e.aggregateId
    occurredAt := e.occurredAt
    correlationId := e.correlationId
    payload := e.payload
    attempts := e.attempts + 1 }

/-- `OutboxWriter.write`: the event as it is in the table. -/
def OutboxEvent.new (id : UUID) (eventType aggregateType : String) (aggregateId : UUID)
    (correlationId payload : String) (now : Instant) : OutboxEvent :=
  { id, eventType, schemaVersion := 1, aggregateType, aggregateId, occurredAt := now, correlationId, payload,
    status := .pending, attempts := 0, availableAt := now, claimedBy := none, claimedAt := none,
    processedAt := none,
    createdAt := now }

def writeEvent (e : OutboxEvent) : OutboxTx Unit := do
  let db ← get
  let t ← orThrow (db.events.insert e) .dataIntegrity
  modify fun db => { db with events := t, log := .written e.id :: db.log }

/-- `UPDATE outbox_events SET … WHERE id = ? AND …`: whether a row was updated. -/
def updateEvent (id : UUID) (p : OutboxEvent → Prop) [DecidablePred p] (f : OutboxEvent → OutboxEvent) :
    OutboxTx Bool := do
  let db ← get
  match (db.events.find? id).filter fun e => p e with
  | some e => do
    modify fun db => { db with events := db.events.save (f e) }
    return true
  | none => return false

/-! ### Claims -/

/-- What a claim is told: the worker, the rows that other transactions hold locked, the size of the batch, the
instant and the length of the leases. -/
structure OutboxClaim where
  workerId : String
  locked : UUID → Bool
  limit : ℕ
  now : Instant
  leaseSeconds : ℤ

/-- The condition of the claiming query. -/
def OutboxEvent.due (c : OutboxClaim) (e : OutboxEvent) : Prop :=
  e.status = .pending ∧ e.availableAt ≤ c.now ∨ e.status = .processing ∧
    ∃ t ∈ e.claimedAt, t < c.now.plusSeconds (-c.leaseSeconds)

instance OutboxClaim.decidableDue (c : OutboxClaim) (e : OutboxEvent) : Decidable (e.due c) :=
  inferInstanceAs (Decidable (_ ∨ _))

/-- The rows that the claim takes: the first due ones that are not locked. -/
def OutboxDb.taken (db : OutboxDb) (c : OutboxClaim) : List OutboxEvent :=
  ((db.events.rows.filter fun e => e.due c ∧ c.locked e.id = false).insertionSort fun a b =>
    a.createdAt ≤ b.createdAt).take c.limit

/-- The row while the worker has it. -/
def OutboxClaim.take (c : OutboxClaim) (e : OutboxEvent) : OutboxEvent :=
  { e with
    status := .processing, claimedBy := some c.workerId, claimedAt := some c.now, attempts := e.attempts + 1 }

def claimEvents (c : OutboxClaim) : List OutboxMessage → OutboxTx Unit
  | [] => return ()
  | m :: ms => do
    let _ ← updateEvent m.id (fun _ => True) c.take
    modify fun db => { db with log := .claimed m.id :: db.log }
    claimEvents c ms

/-- `claim`. -/
def claimOutbox (c : OutboxClaim) : OutboxTx (List OutboxMessage) := do
  let db ← get
  let messages := (db.taken c).map OutboxEvent.message
  claimEvents c messages
  return messages

/-! ### Deliveries -/

/-- The condition of `lockClaim` and `markFailed`: the worker has the event in this attempt. -/
def OutboxEvent.claimedIn (workerId : String) (attempt : ℕ) (e : OutboxEvent) : Prop :=
  e.status = .processing ∧ e.claimedBy = some workerId ∧ e.attempts = attempt

instance OutboxEvent.decidableClaimedIn (workerId : String) (attempt : ℕ) (e : OutboxEvent) :
    Decidable (e.claimedIn workerId attempt) :=
  inferInstanceAs (Decidable (_ ∧ _))

/-- `hasReceipt`. -/
def OutboxDb.hasReceipt (db : OutboxDb) (consumer : String) (id : UUID) : Bool :=
  (db.receipts.find? (consumer, id)).isSome

/-- `addReceipt`. -/
def addReceipt (consumer : String) (id : UUID) (now : Instant) : OutboxTx Unit := do
  let db ← get
  let t ← orThrow (db.receipts.insert ⟨consumer, id, now⟩) .dataIntegrity
  modify fun db => { db with receipts := t }

/-- The loop over the registered consumers; a consumer may raise an exception. -/
def consume (raises : String → Bool) (id : UUID) (now : Instant) : List String → OutboxTx Unit
  | [] => return ()
  | consumer :: consumers => do
    let db ← get
    when (db.hasReceipt consumer id = false) do
      require (raises consumer = false) .noSuchElement
      modify fun db => { db with log := .effect consumer id :: db.log }
      addReceipt consumer id now
    consume raises id now consumers

/-- The row of a processed event. -/
def OutboxEvent.process (e : OutboxEvent) (now : Instant) : OutboxEvent :=
  { e with status := .processed, processedAt := some now, claimedBy := none, claimedAt := none }

/-- `markProcessed`. -/
def markProcessed (id : UUID) (now : Instant) : OutboxTx Unit :=
  (updateEvent id (fun _ => True) (·.process now)).discard

/-- The delivery transaction of `publish`. -/
def deliver (consumers : List String) (raises : String → Bool) (workerId : String)
    (m : OutboxMessage) (now : Instant) :
    OutboxTx Bool := do
  let db ← get
  match (db.events.find? m.id).filter fun e => e.claimedIn workerId m.attempts with
  | none => return false
  | some _ => do
    consume raises m.id now consumers
    markProcessed m.id now
    return true

/-- The row after a failed attempt, the last of which leaves it dead. -/
def OutboxEvent.failed (e : OutboxEvent) (dead : Bool) (availableAt : Instant) : OutboxEvent :=
  { e with status := if dead then .dead else .pending, availableAt, claimedBy := none, claimedAt := none }

/-- `markFailed`. -/
def markFailed (workerId : String) (m : OutboxMessage) (maxAttempts : ℕ)
    (availableAt : Instant) : OutboxTx Bool :=
  updateEvent m.id (fun e => e.claimedIn workerId m.attempts)
    (·.failed (maxAttempts ≤ m.attempts) availableAt)

/-! ### Operators -/

/-- The row of a dead event that is to be tried again. -/
def OutboxEvent.replay (e : OutboxEvent) (now : Instant) : OutboxEvent :=
  { e with
    status := .pending
    attempts := 0
    availableAt := now
    claimedBy := none
    claimedAt := none
    processedAt := none }

/-- `replayDead`. -/
def replayDead (id : UUID) (now : Instant) : OutboxTx Unit := do
  let replayed ← updateEvent id (fun e => e.status = .dead) (·.replay now)
  when (replayed = true) (modify fun db => { db with log := .replayed id :: db.log })

/-- The condition of the retention. -/
def OutboxEvent.outdated (cutoff : Instant) (e : OutboxEvent) : Bool :=
  e.status = .processed ∧ ∃ t ∈ e.processedAt, t < cutoff

/-- `deleteProcessedBefore`. -/
def deleteProcessedBefore (cutoff : Instant) : OutboxTx Unit := modify fun db =>
  { db with
    receipts := db.receipts.delete fun r => db.events.rows.any fun e => e.outdated cutoff ∧ e.id = r.eventId
    events := db.events.delete fun e => e.outdated cutoff }

/-! ### Publishers -/

/-- A message of a batch; `serial` says which claim of its event the message comes from. -/
structure HeldMessage where
  message : OutboxMessage
  serial : ℕ
  deriving DecidableEq, Repr

/-- The rest of a batch, and whether the delivery of its first message has failed. -/
structure Publisher where
  batch : List HeldMessage
  failing : Bool
  deriving DecidableEq, Repr

/-- What the deployment fixes: the registered consumers and the limit of attempts. -/
structure OutboxConfig where
  consumers : List String
  maxAttempts : ℕ+

structure OutboxSystem where
  db : OutboxDb
  publishers : String → Publisher

def OutboxSystem.empty : OutboxSystem := ⟨.empty, fun _ => ⟨[], false⟩⟩

/-- The number of claims of an event. -/
def claimsOf (id : UUID) : List OutboxNote → ℕ
  | [] => 0
  | .claimed k :: log => claimsOf id log + if k = id then 1 else 0
  | .written _ :: log | .effect _ _ :: log | .replayed _ :: log => claimsOf id log

/-- The transactions. A publisher claims when its batch is through; a delivery may fail because
a consumer raises an exception or because the transaction does not commit; and a publisher may
drop the rest of its batch. -/
inductive OutboxOp
  | write (id : UUID) (eventType aggregateType : String) (aggregateId : UUID)
      (correlationId payload : String) (now : Instant)
  | claim (c : OutboxClaim)
  | deliver (workerId : String) (raises : String → Bool) (commits : Bool) (now : Instant)
  | fail (workerId : String) (availableAt : Instant)
  | drop (workerId : String)
  | replayDead (id : UUID) (now : Instant)
  | applyRetention (cutoff : Instant)

namespace OutboxSystem

def setPublisher (s : OutboxSystem) (workerId : String) (p : Publisher) : OutboxSystem :=
  { s with publishers := Function.update s.publishers workerId p }

/-- The batch of a claim that is the last of each of its events. -/
def hold (db : OutboxDb) (messages : List OutboxMessage) : List HeldMessage :=
  messages.map fun m => ⟨m, claimsOf m.id db.log⟩

/-- `publishAvailable`, up to the first delivery. -/
def claim (s : OutboxSystem) (c : OutboxClaim) : OutboxSystem :=
  if (s.publishers c.workerId).batch = [] then
    match (claimOutbox c).run () s.db with
    | .ok (messages, db) => { s with db }.setPublisher c.workerId ⟨hold db messages, false⟩
    | .error _ => s
  else s

/-- `publish`, up to the delivery. -/
def deliver (s : OutboxSystem) (consumers : List String) (workerId : String) (raises : String → Bool)
    (commits : Bool) (now : Instant) : OutboxSystem := match s.publishers workerId with
  | ⟨m :: batch, false⟩ => match (GManager.deliver consumers raises workerId m.message now).run ()
      s.db, commits with
    | .ok (_, db), true => { s with db }.setPublisher workerId ⟨batch, false⟩
    | _, _ => s.setPublisher workerId ⟨m :: batch, true⟩
  | _ => s

/-- `publish`, after a delivery that has failed. -/
def fail (s : OutboxSystem) (maxAttempts : ℕ) (workerId : String) (availableAt : Instant) : OutboxSystem :=
  match s.publishers workerId with
  | ⟨m :: batch, true⟩ =>
    { s with db := (markFailed workerId m.message maxAttempts availableAt).commit () s.db }.setPublisher
      workerId ⟨batch, false⟩
  | _ => s

def step (cfg : OutboxConfig) (s : OutboxSystem) : OutboxOp → OutboxSystem
  | .write id eventType aggregateType aggregateId correlationId payload now =>
    { s with db := (writeEvent (.new id eventType aggregateType aggregateId correlationId payload
      now)).commit () s.db }
  | .claim c => s.claim c
  | .deliver workerId raises commits now => s.deliver cfg.consumers workerId raises commits now
  | .fail workerId availableAt => s.fail cfg.maxAttempts workerId availableAt
  | .drop workerId => s.setPublisher workerId ⟨[], false⟩
  | .replayDead id now => { s with db := (GManager.replayDead id now).commit () s.db }
  | .applyRetention cutoff => { s with db := (deleteProcessedBefore cutoff).commit () s.db }

def run (cfg : OutboxConfig) (s : OutboxSystem) (ops : List OutboxOp) : OutboxSystem := ops.foldl (step cfg) s

end OutboxSystem

end GManager

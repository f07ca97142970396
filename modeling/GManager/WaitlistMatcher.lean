import GManager.Waitlist

/-!
# The matcher of the waitlist

`matchAvailable`: it expires offers, then goes through the waiting entries page by page, in the order
in which they entered the queue, and assesses each on a snapshot that the entries of a page share. An
entry whose time is free gets an offer, unless an open offer overlaps it on its employee or on the
resource that the assessment names. The last section has the requests to the waitlist and the runs that
they make up with all other requests.
-/

namespace GManager

/-- The place in the queue: by the time of entering, then by identifier. -/
def WaitlistEntry.position (e : WaitlistEntry) : Instant ×ₗ UUID := toLex (e.queueEnteredAt, e.id)

namespace Waitlist

open Txn

/-! ### The queue -/

namespace WaitlistDb

variable (w : WaitlistDb)

/-- `waitingForUpdate`, of one page. -/
def waitingForUpdate (now : Instant) (after : Option (Instant ×ₗ UUID)) (page : ℕ) : List WaitlistEntry :=
  ((w.entries.rows.filter fun e => e.status = .waiting ∧ now < e.desiredStart ∧
    ∀ p ∈ after, p < e.position).insertionSort fun e e' => e.position ≤ e'.position).take page

/-- `findByStatusAndExpiresAtLessThanEqual` of the status OFFERED. -/
def expiredOffers (now : Instant) : List WaitlistOffer :=
  w.offers.rows.filter fun o => o.status = .offered ∧ o.expiresAt ≤ now

/-- `overlappingOffers`. -/
def overlappingOffers (employeeId : UUID) (resourceId : Option UUID) (start stop now : Instant) :
    List WaitlistOffer :=
  w.offers.rows.filter fun o => o.status = .offered ∧ now < o.expiresAt ∧
    (∃ e ∈ w.entries.find? o.entryId, e.desiredStart < stop ∧ ∃ d ∈ e.desiredEnd, start < d) ∧
    (o.employeeId = employeeId ∨ ∃ id ∈ resourceId, o.resourceId = some id)

end WaitlistDb

/-! ### Expiry -/

/-- One round of the first loop: the offer ends, and its entry waits again. -/
def expireOffer (now : Instant) (reference : WaitlistOffer) : WaitlistTx Unit := do
  let entry ← lockEntry reference.entryId
  let offer ← lockOffer reference.id
  if offer.status = .offered ∧ offer.expiresAt ≤ now then
    closeOffer offer
    when (entry.status = .offered) (modify (·.putEntry { entry with status := .waiting }))
  else return ()

def expireOffers (now : Instant) : List WaitlistOffer → WaitlistTx Unit
  | [] => return ()
  | o :: os => do
    expireOffer now o
    expireOffers now os

/-! ### One page -/

/-- The text that names the snapshots of a page. -/
abbrev SnapshotKey := UUID × Option UUID × Option UUID × Option UUID × LocalDate

abbrev Snapshots := List (SnapshotKey × Snapshot)

/-- The snapshot for an entry, which the entries of the same service, place and day share. -/
def snapshotFor (employeeIds : List UUID) (cache : Snapshots) (entry : WaitlistEntry) (duration : ℤ) :
    WaitlistTx (Snapshot × Snapshots) := do
  let c ← ask
  let day := c.call.hours.zone.dateOf entry.desiredStart
  let key : SnapshotKey := (entry.serviceId, entry.resourceId, entry.locationId, entry.areaId, day)
  match cache.lookup key with
  | some s => return (s, cache)
  | none => do
    let s ← onDb (prepare entry.serviceId entry.resourceId entry.locationId employeeIds (c.startOfDay day)
      ((c.startOfDay (day + 1)).plusMinutes duration) none none entry.areaId)
    return (s, (key, s) :: cache)

/-- The new offer of an entry, for fifteen minutes. -/
def newOffer (id : UUID) (now : Instant) (entry : WaitlistEntry) (resourceId : Option UUID) : WaitlistOffer :=
  { id
    entryId := entry.id
    employeeId := entry.employeeId
    resourceId
    expiresAt := now.plusMinutes 15
    status := .offered
    reservationId := none
    activeKey := some entry.id }

/-- Writes the offer and marks the entry. -/
def issueOffer (now : Instant) (entry : WaitlistEntry) (resourceId : Option UUID) (stop : Instant) :
    WaitlistTx Unit := do
  let c ← ask
  let w ← get
  let offer := newOffer (c.offerId entry.id) now entry resourceId
  require (∀ o ∈ w.offers.rows, o.activeKey ≠ some entry.id) .dataIntegrity
  let offers ← orThrow (w.offers.insert offer) .dataIntegrity
  modify fun w => { w with offers }.putEntry { entry with desiredEnd := some stop, status := .offered }

/-- Offers the entry what it waits for, if that is free. -/
def offerTo (now : Instant) (employeeIds : List UUID) (service : CatalogItem) (cache : Snapshots)
    (entry : WaitlistEntry) :
    WaitlistTx Snapshots := do
  let duration ← orThrow service.durationMinutes .noSuchElement
  let stop := entry.desiredStart.plusMinutes duration
  let (s, cache) ← snapshotFor employeeIds cache entry duration
  let state := s.assess entry.employeeId entry.desiredStart stop
  if state.available then
    let resourceId := state.resource.map (·.id)
    let w ← get
    when (w.overlappingOffers entry.employeeId resourceId entry.desiredStart stop now = [])
      (issueOffer now entry resourceId stop)
    return cache
  else return cache

/-- The failures after which the next entry is tried. -/
def skips : Failure → Bool
  | .application e => e.status = .notFound ∨ e.status = .unprocessableEntity
  | _ => false

/-- One round of the loop of `matchBatch`, on the row as it is now. -/
def matchEntry (now : Instant) (employeeIds : List UUID) (cache : Snapshots) (id : UUID) :
    WaitlistTx Snapshots := do
  let c ← ask
  let w ← get
  let entry ← orThrow (w.entries.find? id) .noSuchElement
  if entry.status = .waiting ∧ c.call.catalogue.matchesEmployee entry.employeeId then
    match c.call.catalogue.matchedService entry.serviceId with
    | none => return cache
    | some service => do
      let result ← attempt (offerTo now employeeIds service cache entry)
      match result with
      | .ok cache => return cache
      | .error e => if skips e then return cache else throw e
  else return cache

def matchEntries (now : Instant) (employeeIds : List UUID) : Snapshots → List UUID → WaitlistTx Unit
  | _, [] => return ()
  | cache, id :: ids => do
    let cache ← matchEntry now employeeIds cache id
    matchEntries now employeeIds cache ids

/-- `matchBatch`. -/
def matchBatch (waiting : List WaitlistEntry) (now : Instant) : WaitlistTx Unit :=
  matchEntries now (waiting.map (·.employeeId)) [] (waiting.map (·.id))

/-! ### The whole queue -/

/-- The second loop; it takes a page in each round, so it ends after at most as many
rounds as there are entries. -/
def matchPages (now : Instant) : ℕ → Option (Instant ×ₗ UUID) → WaitlistTx Unit
  | 0, _ => return ()
  | rounds + 1, after => do
    let w ← get
    let waiting := w.waitingForUpdate now after 100
    match waiting.getLast? with
    | none => return ()
    | some last => do
      matchBatch waiting now
      matchPages now rounds (some last.position)

/-- `matchAvailable`. -/
def matchAvailable : WaitlistTx Unit := do
  let now ← onDb instant
  let w ← get
  expireOffers now (w.expiredOffers now)
  let w ← get
  matchPages now (w.entries.rows.length + 1) none

/-! ### Requests and runs -/

inductive WaitlistOp
  | join (request : CreateWaitlistRequest)
  | createManaged (request : ManageWaitlistRequest)
  | updateManaged (id : UUID) (request : ManageWaitlistRequest)
  | cancelManaged (id : UUID) (version : ℕ)
  | cancel (id : UUID) (version : ℕ)
  | accept (offerId : UUID)
  | matchAvailable
  | other (op : Op)

def WaitlistOp.perform : WaitlistOp → WaitlistTx Unit
  | join request => Waitlist.join request
  | createManaged request => Waitlist.createManaged request
  | updateManaged id request => Waitlist.updateManaged id request
  | cancelManaged id version => Waitlist.cancelManaged id version
  | cancel id version => Waitlist.cancel id version
  | accept offerId => (Waitlist.accept offerId).discard
  | matchAvailable => Waitlist.matchAvailable
  | other op => onDb op.perform

/-- A request and what it finds when it is served. -/
structure WaitlistRequest where
  call : WaitlistCall
  op : WaitlistOp

def WaitlistDb.listen (w : WaitlistDb) (readings : List Instant) : WaitlistDb :=
  { w with db := w.db.listen readings }

def step (w : WaitlistDb) (r : WaitlistRequest) : WaitlistDb :=
  r.op.perform.commit r.call (w.listen r.call.call.readings)

def run (w : WaitlistDb) (rs : List WaitlistRequest) : WaitlistDb := rs.foldl step w

/-- The states of an installation that started empty. -/
def Reachable (w : WaitlistDb) : Prop := ∃ t rs, w = run (.empty t) rs

end Waitlist

end GManager

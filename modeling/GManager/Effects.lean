import GManager.Machine
import GManager.Reservations
import GManager.Limits
import Mathlib.Logic.Relation

/-!
# What the services do to sessions, accounts and reservations

`Effect` lists the ways in which the services change the time ledger, the sessions and the reservations,
each with all that the code has checked when it does so; whatever else happens is `Quiet`. Every request is
a sequence of effects, so an invariant of the whole system is shown once for each effect. The last
sections describe the steps that several requests share: posting, settlement, the limit of access.
-/

namespace GManager

open Txn

/-! ### Quiet transactions -/

/-- The clock may have advanced and other tables may have changed. -/
structure Quiet (db db' : Db) : Prop where
  clock : db.clock.now ≤ db'.clock.now
  accounts : db'.accounts = db.accounts
  ledger : db'.ledger = db.ledger
  sessions : db'.sessions = db.sessions
  reservations : db'.reservations = db.reservations
  signed : db'.signed = db.signed

namespace Quiet

variable {db db₁ db' : Db}

@[simp] theorem refl (db : Db) : Quiet db db := ⟨le_rfl, rfl, rfl, rfl, rfl, rfl⟩

theorem trans (h : Quiet db db₁) (h' : Quiet db₁ db') : Quiet db db' :=
  ⟨h.clock.trans h'.clock, h'.accounts.trans h.accounts, h'.ledger.trans h.ledger,
    h'.sessions.trans h.sessions, h'.reservations.trans h.reservations, h'.signed.trans h.signed⟩

@[simp] theorem next (db : Db) : Quiet db { db with clock := db.clock.next } :=
  ⟨db.clock.le_next, rfl, rfl, rfl, rfl, rfl⟩

theorem balance (h : Quiet db db') (customer : UUID) : db'.balance customer = db.balance customer :=
  Db.balance_congr h.accounts customer

theorem hasEntry (h : Quiet db db') (source : SourceKey) : db'.hasEntry source = db.hasEntry source := by
  rw [Db.hasEntry, h.ledger, Db.hasEntry]

end Quiet

/-- A transaction that leaves ledger, sessions and reservations alone. -/
def QuietTx {α : Type} (x : Tx α) : Prop := ∀ c db, wp x (fun _ db' => Quiet db db') c db

namespace QuietTx

variable {α β : Type}

theorem bind {x : Tx α} {f : α → Tx β} (hx : QuietTx x) (hf : ∀ a, QuietTx (f a)) : QuietTx (x >>= f) :=
  fun c db => wp_bind.2 (wp_mono (hx c db) fun a db' h => wp_mono (hf a c db') fun _ _ h' => h.trans h')

/-- Goes through a quiet transaction; what follows starts in a state like the one before. -/
theorem bind_wp {x : Tx α} {f : α → Tx β} {Q : β → Db → Prop} {c : Call} {db : Db} (hx : QuietTx x)
    (h : ∀ a db', Quiet db db' → wp (f a) Q c db') : wp (x >>= f) Q c db :=
  wp_bind.2 (wp_mono (hx c db) h)

theorem pure (a : α) : QuietTx (Pure.pure a : Tx α) := fun _ db => wp_pure.2 (.refl db)

theorem lift (x : Except Failure α) : QuietTx (Txn.lift x) := fun _ db => wp_lift.2 fun _ _ => .refl db

theorem orThrow (o : Option α) (e : Failure) : QuietTx (Txn.orThrow o e) :=
  fun _ db => wp_orThrow.2 fun _ _ => .refl db

theorem require (p : Prop) [Decidable p] (e : Failure) : QuietTx (Txn.require p e) :=
  fun _ db => wp_require.2 fun _ => .refl db

theorem instant : QuietTx GManager.instant := fun c db => by simp

theorem ite {p : Prop} {_ : Decidable p} {x y : Tx α} (hx : QuietTx x) (hy : QuietTx y) :
    QuietTx (if p then x else y) := by
  split
  · exact hx
  · exact hy

theorem when {p : Prop} {_ : Decidable p} {x : Tx Unit} (hx : QuietTx x) :
    QuietTx (Txn.when p x) := ite hx (pure ())

theorem ifPresent {o : Option α} {f : α → Tx Unit} (hf : ∀ a, QuietTx (f a)) :
    QuietTx (Txn.ifPresent o f) := by
  cases o with
  | none => exact pure ()
  | some a => exact hf a

theorem preAuthorize (permission : Permission) : QuietTx (GManager.preAuthorize permission) := fun c db => by
  simp [GManager.preAuthorize]

theorem requireStaff (permission : Permission) : QuietTx (GManager.requireStaff permission) := fun c db => by
  simp [GManager.requireStaff]

theorem lockCustomer (id : UUID) (active : Bool) : QuietTx (GManager.lockCustomer id active) := fun c db => by
  simp [GManager.lockCustomer]

theorem requireAccess (id : UUID) : QuietTx (GManager.requireAccess id) := fun c db => by
  simp [GManager.requireAccess]

theorem financialContext : QuietTx GManager.financialContext := fun c db => by
  simp [GManager.financialContext]

theorem requireReadyForSession (id : UUID) : QuietTx (GManager.requireReadyForSession id) := fun c db => by
  simp [GManager.requireReadyForSession]

theorem account (id : UUID) : QuietTx (GManager.account id) :=
  bind (requireAccess id) fun _ c db => by simp

theorem writeCommand (s : GamingSession) (type : StationCommandType) :
    QuietTx (GManager.writeCommand s type) :=
  fun c db => by
    simp only [GManager.writeCommand, wp_bind, wp_instant, wp_ask, wp_get, wp_modify, wp_insertRow, wp_pure]
    exact fun _ _ => ⟨db.clock.le_next, rfl, rfl, rfl, rfl, rfl⟩

theorem expireWaiting (now : Instant) : QuietTx (GManager.expireWaiting now) := fun c db => by
  simp only [GManager.expireWaiting, wp_modify]
  exact ⟨le_rfl, rfl, rfl, rfl, rfl, rfl⟩

theorem saveAssignment (a : StationAssignment) : QuietTx (GManager.saveAssignment a) := fun c db => by
  simp only [GManager.saveAssignment, wp_modify]
  exact ⟨le_rfl, rfl, rfl, rfl, rfl, rfl⟩

theorem insertAssignment (a : StationAssignment) : QuietTx (GManager.insertAssignment a) := fun c db => by
  simp only [GManager.insertAssignment, wp_insertRow]
  exact fun _ _ => ⟨le_rfl, rfl, rfl, rfl, rfl, rfl⟩

theorem requireResourceReservationAvailableForUpdate (resourceId : UUID) (start stop : Instant)
    (excludeId : Option UUID) :
    QuietTx (GManager.requireResourceReservationAvailableForUpdate resourceId start stop excludeId) :=
  fun c db => by
  simp [GManager.requireResourceReservationAvailableForUpdate]

end QuietTx

/-! ### Effects -/

namespace Db

/-- A posting to the account of a customer at the head of its running balance. -/
def entry (db : Db) (customer : UUID) (session operation : Option UUID) (actor : UUID) (delta : ℤ)
    (kind : LedgerKind) (reason : Option String) (source : SourceKey) (createdAt : Instant) : LedgerEntry :=
  ⟨customer, session, operation, actor, delta, db.balance customer + delta, kind, reason, source, createdAt⟩

/-- Books an entry, unless its source key is used. -/
def post (db : Db) (e : LedgerEntry) : Db := match db.ledger.insert e with
  | some ledger => { db with accounts := db.accounts.upsert ⟨e.customerId, e.balanceAfter⟩, ledger }
  | none => db

end Db

/-- The session after some of its seconds are booked. -/
def GamingSession.charge (s : GamingSession) (delta : ℤ) : GamingSession :=
  { s with billedSeconds := s.billedSeconds + delta, lastBilledAt := s.lastBilledAt.plusSeconds delta }

/-- The session after its end. -/
def GamingSession.closed (s : GamingSession) (status : GamingSessionStatus) (reason : String) (sequence : ℕ) :
    GamingSession :=
  { s with
    status
    endedAt := some s.lastBilledAt
    terminationReason := some reason
    lastCommandSequence := some sequence }

/-- A session of which the station has been told. -/
def GamingSession.announced (s : GamingSession) (sequence : ℕ) : GamingSession :=
  { s with lastCommandSequence := some sequence }

/-- The session after a top-up: its new end and the limit by which the end was taken. -/
def GamingSession.extended (s : GamingSession) (balance : ℤ) (limit : Instant)
    (sequence : ℕ) : GamingSession :=
  let stop := min (s.lastBilledAt.plusSeconds balance) limit
  { s with
    endsAt := stop
    accessUntil := limit
    meteredLeaseUntil := min s.meteredLeaseUntil stop
    lastCommandSequence := some sequence }

/-- A change of the ledger, a session or a reservation, up to quiet changes, at the opening hours `h` and
with leases of `l` seconds, where no lease before was longer than `L` seconds. -/
inductive Effect (h : Hours) (l L : ℕ) (db : Db) : Db → Prop
  | quiet {db' : Db} (q : Quiet db db') : Effect h l L db db'
  | charged {db' : Db} {s : GamingSession} {delta : ℤ} {createdAt : Instant} {e : LedgerEntry}
      (hs : s ∈ db.sessions) (ha : s.status = .active) (hm : s.billingMode = .timeBalance)
      (hd : delta = unsettled s db.clock.now (db.balance s.customerId)) (h0 : 0 < delta)
      (hlt : s.billedSeconds + delta < 2 ^ 63)
      (he : e = db.entry s.customerId (some s.id) none s.startedBy (-delta) .consumption none
        (.use s.id (s.billedSeconds + delta)) createdAt)
      (q : Quiet ((db.post e).putSession (s.charge delta)) db') : Effect h l L db db'
  | closed {db' : Db} {s : GamingSession} {status : GamingSessionStatus} {reason : String} {sequence : ℕ}
      (hs : s ∈ db.sessions) (hst : status ≠ .active)
      (q : Quiet (db.putSession (s.closed status reason sequence)) db') : Effect h l L db db'
  | granted {db' : Db} {customer actor operation : UUID} {seconds : ℤ} {key : String} {createdAt : Instant}
      {e : LedgerEntry} (hidle : ∀ s ∈ db.sessions, s.customerId = customer → s.status ≠ .active)
      (hfresh : db.hasEntry (.grant actor customer key) = false) (h0 : 0 < seconds)
      (hlt : db.balance customer + seconds < 2 ^ 63)
      (he : e = db.entry customer none (some operation) actor seconds .grant none
        (.grant actor customer key) createdAt)
      (q : Quiet (db.post e) db') : Effect h l L db db'
  | toppedUp {db' : Db} {s : GamingSession} {actor operation : UUID} {seconds : ℤ} {key : String}
      {createdAt now limit : Instant} {sequence : ℕ} {e : LedgerEntry}
      (hs : s ∈ db.sessions) (ha : s.status = .active)
      (hfresh : db.hasEntry (.grant actor s.customerId key) = false) (h0 : 0 < seconds)
      (hlt : db.balance s.customerId + seconds < 2 ^ 63)
      (he : e = db.entry s.customerId none (some operation) actor seconds .grant none
        (.grant actor s.customerId key) createdAt)
      (hnow : db.clock.now ≤ now) (hnow' : now ≤ db'.clock.now)
      (hl : Limit h db s.resourceId s.locationId s.customerId s.reservationId now limit)
      (q : Quiet ((db.post e).putSession (s.extended (db.balance s.customerId + seconds) limit sequence))
        db') : Effect h l L db db'
  | renewed {db' : Db} {s : GamingSession} (hs : s ∈ db.sessions) (ha : s.status = .active)
      (q : Quiet (db.putSession { s with meteredLeaseUntil := min (db.clock.now.plusSeconds l) s.endsAt })
        db') : Effect h l L db db'
  | leased {db' : Db} {s : GamingSession} {p : SessionLeasePayload} {now : Instant}
      (hs : s ∈ db.sessions) (ha : s.status = .active) (hnow : now ≤ db.clock.now)
      (hsigned : ∀ p ∈ db.signed, p.expiresAt ≤ now.plusSeconds L)
        (hbilled : s.lastBilledAt ≤ now.plusSeconds L)
      (hp : p.sessionId = some s.id ∧ p.directive = .active ∧ p.graceEndsAt = p.expiresAt ∧
        p.expiresAt = min (min (now.plusSeconds l) s.endsAt) s.meteredLeaseUntil)
      (q : Quiet { db.putSession { s with meteredLeaseUntil := p.expiresAt } with
        signed := p :: db.signed } db') : Effect h l L db db'
  | refused {db' : Db} {p : SessionLeasePayload} (hp : p.sessionId = none ∧ p.directive = .lock)
      (he : p.expiresAt ≤ db.clock.now.plusSeconds l)
      (q : Quiet { db with signed := p :: db.signed } db') : Effect h l L db db'
  | started {db' : Db} {s : GamingSession} {sessions : Table GamingSession.id}
      (hfresh : ∀ x ∈ db.sessions, x.id ≠ s.id) (hmem : ∀ x, x ∈ sessions ↔ x ∈ db.sessions ∨ x = s)
      (hcustomer : ∀ x ∈ db.sessions, x.customerId = s.customerId → x.status ≠ .active)
      (hstation : ∀ x ∈ db.sessions, x.resourceId = s.resourceId → x.status ≠ .active)
      (ha : s.status = .active) (hm : s.billingMode = .timeBalance) (hmove : s.moveTargetId = none)
      (hb : s.billedSeconds = 0 ∧ 0 < db.balance s.customerId)
      (hnow : s.startedAt ≤ db.clock.now ∧ s.lastBilledAt = s.startedAt)
      (hends : s.endsAt = min (s.startedAt.plusSeconds (db.balance s.customerId)) s.accessUntil)
      (hlease : s.meteredLeaseUntil = min (s.startedAt.plusSeconds l) s.endsAt)
      (hl : Limit h db s.resourceId s.locationId s.customerId s.reservationId s.startedAt s.accessUntil)
      (q : Quiet { db with sessions } db') : Effect h l L db db'
  | booked {db' : Db} {r : Reservation} {reservations : Table Reservation.id} (hr : r.startTime < r.endTime)
      (hp : r.status = .pending)
      (hemployee : db.employeeConflicts r.employeeId r.startTime r.endTime none = [])
      (hresource : ∀ id, r.resourceId = some id → db.resourceConflicts id r.startTime r.endTime none = [] ∧
        db.sessionIntervals [id] r.startTime r.endTime = [])
      (hi : db.reservations.insert r = some reservations)
      (q : Quiet { db with reservations } db') : Effect h l L db db'
  | moved {db' : Db} {r r' : Reservation} (hr : r ∈ db.reservations)
      (hsame : r'.id = r.id ∧ r'.employeeId = r.employeeId ∧ r'.status = r.status ∧
        r'.customerId = r.customerId)
      (hstatus : r.status = .pending ∨ r.status = .confirmed) (hlt : r'.startTime < r'.endTime)
      (hemployee : r'.startTime = r.startTime ∧ r'.endTime = r.endTime ∨
        db.employeeConflicts r.employeeId r'.startTime r'.endTime (some r.id) = [])
      (hresource : ∀ id, r'.resourceId = some id → db.resourceConflicts id r'.startTime r'.endTime
        (some r.id) = [] ∧ db.sessionIntervals [id] r'.startTime r'.endTime = [])
      (hsession : r.resourceId = none ∧ r'.startTime = r.startTime ∧ r'.endTime = r.endTime ∨
        ∀ s ∈ db.sessions, ¬ (s.reservationId = some r.id ∧ s.status = .active))
      (q : Quiet (db.putReservation r') db') : Effect h l L db db'
  | changed {db' : Db} {r : Reservation} {status : ReservationStatus} {version : ℕ} (hr : r ∈ db.reservations)
      (hc : status ∈ r.status.candidates)
      (q : Quiet (db.putReservation { r with status, version }) db') : Effect h l L db db'

/-- A sequence of effects. -/
abbrev Effects (h : Hours) (l L : ℕ) : Db → Db → Prop := Relation.ReflTransGen (Effect h l L)

end GManager

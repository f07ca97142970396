import GManager.Columns
import GManager.Window

/-!
# What a lease promises

`StationLeaseService.lease` at the resolution of the clock: it signs the end of the lease in nanoseconds
and meters the session to it, and the column keeps microseconds. A reading is given by its column value
and by what it has above it; the readings of the other operations only come into columns, or are compared
with columns, and have nothing above. Sessions keep their windows whatever the clock reads. No lease
promises more than the session is metered to if the readings of the leases are not rounded down, or the
session ends within the lease anyway.
-/

namespace GManager.SignedLeases

open Txn Nanos

/-! ### The lease in nanoseconds -/

/-- What a reading of the clock has above its column value, in nanoseconds. -/
structure Offset where
  nanos : ℤ
  low : -500 ≤ nanos
  high : nanos < 500

/-- A payload whose instants are rewritten. -/
def mapInstants (f : ℤ → ℤ) (p : SessionLeasePayload) : SessionLeasePayload :=
  { p with
    sessionEndsAt := p.sessionEndsAt.map f
    issuedAt := f p.issuedAt
    expiresAt := f p.expiresAt
    graceEndsAt := f p.graceEndsAt
    startedAt := p.startedAt.map f
    assignmentExpiresAt := p.assignmentExpiresAt.map f }

/-- Whether a lease issued at `now`, in nanoseconds, grants access to the session. -/
def leasableAt (s : GamingSession) (now : ℤ) : Prop :=
  s.billingMode = .timeBalance ∧ s.status = .active ∧ s.moveTargetId = none ∧ now < fromColumn s.endsAt

instance (s : GamingSession) (now : ℤ) : Decidable (leasableAt s now) :=
  inferInstanceAs (Decidable (_ ∧ _ ∧ _ ∧ _))

/-- `lease`, which renews the session `elapsed` nanoseconds after its first reading. The payload is in
nanoseconds; what is signed is also kept in the resolution of the columns. -/
def lease (offset : Offset) (elapsed : ℕ) : Tx SessionLeasePayload := do
  let stationId ← requireMachine
  let c ← ask
  let reading ← instant
  let now := fromColumn reading + offset.nanos
  let configVersion ← configurationVersion stationId
  let session ← renewedSession stationId
  let db ← get
  let cursor := db.currentCursor stationId
  let expires := plusSeconds now c.settings.leaseSeconds
  match session.filter (leasableAt · now) with
  | some s => do
    -- the entity still has the instant that `tick` has set, not the one in its column
    let metered := min (plusSeconds (now + elapsed) c.settings.leaseSeconds) (fromColumn s.endsAt)
    let expires := min (min expires (fromColumn s.endsAt)) metered
    saveSession { s with meteredLeaseUntil := timestamp6 expires }
    let payload : SessionLeasePayload :=
      { leaseId := c.freshId
        stationId
        sessionId := some s.id
        customerId := some s.customerId
        sessionEndsAt := some (fromColumn s.endsAt)
        configurationVersion := configVersion
        issuedAt := now
        expiresAt := expires
        graceEndsAt := expires
        commandCursor := cursor
        directive := .active
        billingMode := some s.billingMode
        startedAt := some (fromColumn s.startedAt)
        accessEndReason := some (if s.endsAt = s.accessUntil then .boundary else .time)
        balanceSeconds := some (db.balance s.customerId)
        assignmentId := none
        assignmentExpiresAt := none }
    sign (mapInstants timestamp6 payload)
    return payload
  | none => do
    let later ← instant
    let waiting := db.waiting stationId later
    let payload : SessionLeasePayload :=
      { leaseId := c.freshId
        stationId
        sessionId := none
        customerId := none
        sessionEndsAt := none
        configurationVersion := configVersion
        issuedAt := now
        expiresAt := expires
        graceEndsAt := plusSeconds expires c.settings.graceSeconds
        commandCursor := cursor
        directive := .lock
        billingMode := none
        startedAt := none
        accessEndReason := none
        balanceSeconds := none
        assignmentId := waiting.map (·.id)
        assignmentExpiresAt := waiting.map (fromColumn ·.expiresAt) }
    sign (mapInstants timestamp6 payload)
    return payload

/-- A request, with what its readings have besides their column values if it is a lease. -/
structure NanoRequest where
  request : Request
  offset : Offset
  elapsed : ℕ

/-- The database, and the payloads that have been signed. -/
structure Server where
  db : Db
  leases : List SessionLeasePayload

namespace Server

def empty (t : Instant) : Server := ⟨.empty t, []⟩

def step (s : Server) (r : NanoRequest) : Server :=
  match r.request.op with
  | .lease =>
    match (lease r.offset r.elapsed).run r.request.call (s.db.listen r.request.call.readings) with
    | .ok (p, db) => ⟨db, p :: s.leases⟩
    | .error _ => ⟨s.db.listen r.request.call.readings, s.leases⟩
  | _ => ⟨GManager.step s.db r.request, s.leases⟩

def run (s : Server) (rs : List NanoRequest) : Server := rs.foldl step s

/-- If the request is a lease, its reading is not rounded down, or the running
session ends within the lease. -/
def Kept (s : Server) (r : NanoRequest) : Prop :=
  match r.request.op with
  | .lease => r.offset.nanos ≤ 0 ∨
    ∀ station, r.request.call.machineStation = some station → ∀ x ∈ s.db.activeByResource station,
      x.endsAt ≤ (s.db.listen r.request.call.readings).clock.next.now.plusSeconds
        r.request.call.settings.leaseSeconds
  | _ => True

def RunKept : Server → List NanoRequest → Prop
  | _, [] => True
  | s, r :: rs => s.Kept r ∧ (s.step r).RunKept rs

end Server

/-- How far the session, as it is loaded, is billed when it is closed at `now`. -/
def cutoffAt (s : GamingSession) (now : ℤ) : ℤ :=
  min now (min (fromColumn s.endsAt) (fromColumn s.meteredLeaseUntil))

/-- All requests find the opening hours `h` and a lease length of `L` seconds. -/
def Steady (h : Hours) (L : ℕ) (rs : List NanoRequest) : Prop :=
  ∀ r ∈ rs, r.request.call.hours = h ∧ r.request.call.settings.leaseSeconds = L

/-! ### The end of a lease in its column -/

section rounding

theorem timestamp6_min (a b : ℤ) : timestamp6 (min a b) = min (timestamp6 a) (timestamp6 b) := by
  unfold timestamp6
  omega

theorem Offset.timestamp6 (o : Offset) (t : Instant) : Nanos.timestamp6 (fromColumn t + o.nanos) = t := by
  have hlow := o.low
  have hhigh := o.high
  unfold Nanos.timestamp6 fromColumn
  omega

theorem timestamp6_plusSeconds (t n : ℤ) :
    timestamp6 (plusSeconds t n) = Instant.plusSeconds (timestamp6 t) n := by
  unfold timestamp6 plusSeconds Instant.plusSeconds microsPerSecond
  omega

/-- What the renewal has set in memory lies at or behind the end of the lease. -/
theorem min_renewed (now : ℤ) (elapsed L : ℕ) (stop : ℤ) :
    min (min (plusSeconds now L) stop) (min (plusSeconds (now + elapsed) L) stop) =
    min (plusSeconds now L) stop := by
  unfold plusSeconds
  omega

theorem timestamp6_expires (o : Offset) (t : Instant) (elapsed L : ℕ) (stop : Instant) :
    timestamp6 (min (min (plusSeconds (fromColumn t + o.nanos) L) (fromColumn stop))
      (min (plusSeconds (fromColumn t + o.nanos + elapsed) L) (fromColumn stop))) =
      min (t.plusSeconds L) stop := by
  rw [min_renewed, timestamp6_min, timestamp6_plusSeconds, o.timestamp6, timestamp6_fromColumn]

/-- The signed end is a column value, or its column is rounded up. -/
theorem expires_le {o : Offset} {t stop : Instant} {elapsed L : ℕ}
    (h : o.nanos ≤ 0 ∨ stop ≤ t.plusSeconds L) :
    min (min (plusSeconds (fromColumn t + o.nanos) L) (fromColumn stop))
      (min (plusSeconds (fromColumn t + o.nanos + elapsed) L) (fromColumn stop)) ≤
        fromColumn (min (t.plusSeconds L) stop) := by
  rw [min_renewed]
  unfold Instant.plusSeconds microsPerSecond at h
  unfold plusSeconds fromColumn Instant.plusSeconds microsPerSecond Instant at *
  omega

end rounding

/-! ### A lease as effects -/

section effects

variable {c : Call} {db db' : Db} {h : Hours} {L : ℕ} {K : Prop} {p : SessionLeasePayload}

/-- The reading of the lease at `now` loses nothing. -/
def Unrounded (c : Call) (offset : Offset) (now : Instant) (db : Db) : Prop :=
  offset.nanos ≤ 0 ∨ ∀ station, c.machineStation = some station → ∀ x ∈ db.activeByResource station,
    x.endsAt ≤ now.plusSeconds c.settings.leaseSeconds

/-- What is known of a payload from when it is signed. -/
structure Promised (K : Prop) (p : SessionLeasePayload) (db : Db) : Prop where
  signed : mapInstants timestamp6 p ∈ db.signed
  kept : K → ∀ id, p.sessionId = some id →
    p.graceEndsAt = p.expiresAt ∧ p.expiresAt ≤ fromColumn (timestamp6 p.expiresAt)

theorem mem_signed_effect {l : ℕ} (e : Effect h l L db db') : ∀ p ∈ db.signed, p ∈ db'.signed := by
  intro p hp
  cases e with
  | quiet q => exact q.signed ▸ hp
  | charged _ _ _ _ _ _ _ q => exact (q.signed.trans Db.post_signed) ▸ hp
  | closed _ _ q => exact q.signed ▸ hp
  | granted _ _ _ _ _ q => exact (q.signed.trans Db.post_signed) ▸ hp
  | toppedUp _ _ _ _ _ _ _ _ _ q => exact (q.signed.trans Db.post_signed) ▸ hp
  | renewed _ _ q => exact q.signed ▸ hp
  | leased _ _ _ _ _ _ q => exact q.signed ▸ List.mem_cons_of_mem _ hp
  | refused _ _ q => exact q.signed ▸ List.mem_cons_of_mem _ hp
  | started _ _ _ _ _ _ _ _ _ _ _ _ q => exact q.signed ▸ hp
  | booked _ _ _ _ _ q => exact q.signed ▸ hp
  | moved _ _ _ _ _ _ _ q => exact q.signed ▸ hp
  | changed _ _ q => exact q.signed ▸ hp

theorem Promised.effects {l : ℕ} (hp : Promised K p db) (e : Effects h l L db db') : Promised K p db' := by
  refine ⟨?_, hp.kept⟩
  induction e with
  | refl => exact hp.signed
  | tail _ e ih => exact mem_signed_effect e _ ih

theorem Promised.imp {K' : Prop} (hp : Promised K p db) (hK : K' → K) : Promised K' p db :=
  ⟨hp.signed, fun h => hp.kept (hK h)⟩

theorem activeByResource_congr (hs : db'.sessions = db.sessions) (station : UUID) :
    db'.activeByResource station = db.activeByResource station := by
  rw [Db.activeByResource, hs, Db.activeByResource]

/-- A lease is a sequence of effects: the column has the end of a lease that is issued at the
column value of the reading. -/
theorem wp_lease (o : Orderly L db) (hL : c.settings.leaseSeconds = L) (offset : Offset) (elapsed : ℕ) :
    wp (lease offset elapsed) (fun p db' => Effects c.hours L L db db' ∧
      Promised (Unrounded c offset db.clock.next.now db) p db') c db := by
  simp only [lease, requireMachine, wp_bind, wp_ask, wp_orThrow, wp_instant]
  intro station hstation
  refine wp_mono (QuietTx.configurationVersion _ c _) fun version db₁ q₁ => ?_
  have q := (Quiet.next db).trans q₁
  refine wp_mono (wp_renewedSession o q db.clock.le_next q₁.clock) ?_
  rintro session db₂ ⟨e₂, hl⟩
  rw [hL] at e₂ hl
  have e : Effects c.hours L L db db₂ := (Effects.of_quiet q).trans e₂
  simp only [wp_get]
  split
  · rename_i s hs
    obtain ⟨hs, hleasable⟩ := Option.filter_eq_some_iff.1 hs
    have hleasable := of_decide_eq_true hleasable
    obtain ⟨hm, hbilled, ⟨s₀, hs₀, hends⟩, hmetered⟩ := hl.mem s hs hleasable.1 hleasable.2.1
    have hexpires := timestamp6_expires offset db.clock.next.now elapsed L s.endsAt
    have hsign : ∀ (metered : Instant) (p : SessionLeasePayload), p.sessionId = some s.id ∧
      p.directive = .active ∧
        p.graceEndsAt = p.expiresAt → p.expiresAt = metered →
        metered = min (db.clock.next.now.plusSeconds L) s.endsAt → Effects c.hours L L db
          { db₂.putSession { s with meteredLeaseUntil := metered } with signed := p :: db₂.signed } := by
      rintro _ p ⟨hid, hdirective, hgrace⟩ rfl he
      refine e.tail (.leased hm hleasable.2.1 hl.clock hl.signed hbilled
        ⟨hid, hdirective, hgrace, ?_⟩ (.refl _))
      rw [min_eq_left hmetered]
      exact he
    simp only [wp_bind, saveSession, sign, wp_modify, wp_pure, hL]
    refine ⟨hsign _ _ ⟨rfl, rfl, rfl⟩ rfl hexpires, List.mem_cons_self, fun hK id _ => ⟨rfl, ?_⟩⟩
    show _ ≤ fromColumn (timestamp6 _)
    rw [hexpires]
    refine expires_le (hK.imp_right fun hK => ?_)
    rw [hends, ← hL]
    exact hK station hstation s₀ (activeByResource_congr q.sessions station ▸ hs₀)
  · simp only [wp_bind, wp_instant, wp_pure, sign, wp_modify]
    refine ⟨(e.tail (.quiet (.next db₂))).tail (.refused ⟨rfl, rfl⟩ ?_ (.refl _)), List.mem_cons_self,
      fun _ id hid => absurd hid (by simp)⟩
    show timestamp6 (plusSeconds (fromColumn db.clock.next.now + offset.nanos) c.settings.leaseSeconds) ≤ _
    rw [timestamp6_plusSeconds, offset.timestamp6, hL]
    exact Instant.plusSeconds_mono (hl.clock.trans db₂.clock.le_next) _

end effects

/-! ### Over a run -/

section runs

variable {h : Hours} {L : ℕ} {s : Server} {r : NanoRequest} {rs : List NanoRequest} {K : Prop}

theorem Server.step_of_ne (hop : r.request.op ≠ .lease) :
    s.step r = ⟨GManager.step s.db r.request, s.leases⟩ := by
  unfold step
  split
  · contradiction
  · rfl

/-- A request is a sequence of effects, and what it signs is kept. -/
theorem Server.step_spec (hr : r.request.call.hours = h ∧ r.request.call.settings.leaseSeconds = L)
    (o : Orderly L s.db) : Effects h L L s.db (s.step r).db ∧
      ∀ p ∈ (s.step r).leases, p ∈ s.leases ∨ Promised (s.Kept r) p (s.step r).db := by
  obtain ⟨rfl, hL⟩ := hr
  by_cases hop : r.request.op = .lease
  · have q : Quiet s.db (s.db.listen r.request.call.readings) := .listen _
    have hspec := wp_lease (o.quiet q) hL r.offset r.elapsed
    unfold step Kept
    simp only [hop]
    split
    · rename_i p db hrun
      obtain ⟨e, hp⟩ := hspec p db hrun
      refine ⟨.head (.quiet q) e, fun x hx => ?_⟩
      rcases List.mem_cons.1 hx with rfl | hx
      · refine .inr (hp.imp fun hk => hk.imp_right fun hk station hstation x hx => hk station hstation x ?_)
        rwa [← activeByResource_congr q.sessions]
      · exact .inl hx
    · exact ⟨.single (.quiet q), fun x hx => .inl hx⟩
  · rw [step_of_ne hop]
    refine ⟨?_, fun p hp => .inl hp⟩
    have e := GManager.step_effects hL.le o
    rwa [hL] at e

theorem Server.run_cons (s : Server) (r : NanoRequest) (rs : List NanoRequest) :
    s.run (r :: rs) = (s.step r).run rs :=
  rfl

/-- What every effect preserves, a run preserves, and what it has signed stays known. -/
theorem Server.run_induct {P : Db → Prop}
    (hstep : ∀ {db db'}, Orderly L db → P db → Effect h L L db db' → P db') (hrs : Steady h L rs)
    (hK : K → s.RunKept rs) (o : Orderly L s.db) (hP : P s.db) (hp : ∀ p ∈ s.leases, Promised K p s.db) :
    Orderly L (s.run rs).db ∧ P (s.run rs).db ∧ ∀ p ∈ (s.run rs).leases, Promised K p (s.run rs).db := by
  induction rs generalizing s with
  | nil => exact ⟨o, hP, hp⟩
  | cons r rs ih =>
    obtain ⟨e, hleases⟩ := step_spec (hrs r List.mem_cons_self) o
    have hboth : Orderly L (s.step r).db ∧ P (s.step r).db := by
      generalize (s.step r).db = db' at e
      induction e with
      | refl => exact ⟨o, hP⟩
      | tail _ e ih => exact ⟨ih.1.effect le_rfl e, hstep ih.1 ih.2 e⟩
    rw [run_cons]
    refine ih (fun x hx => hrs x (List.mem_cons_of_mem _ hx)) (fun hk => (hK hk).2) hboth.1
      hboth.2 fun p hpm => ?_
    rcases hleases p hpm with hpm | hpm
    · exact (hp p hpm).effects e
    · exact hpm.imp fun hk => (hK hk).1

/-- Under steady hours and lease lengths every active session keeps its window, and its end never moves
back. If no lease of the run is rounded down, none promises access beyond the lease to which the session is
metered, and an expired lease is never closed before a deadline that was signed. -/
theorem session_window {t : Instant} (hrs : Steady h L rs) :
    (∀ s ∈ ((Server.empty t).run rs).db.sessions, s.status = .active →
      s.endsAt = min (s.lastBilledAt.plusSeconds (((Server.empty t).run rs).db.balance s.customerId))
        s.accessUntil ∧
      (s.lastBilledAt ≤ s.meteredLeaseUntil ∧ s.meteredLeaseUntil ≤ s.endsAt) ∧
      ∀ rs', Steady h L rs' → ∀ s' ∈ (((Server.empty t).run rs).run rs').db.sessions, s'.id = s.id →
        s'.status = .active → s.endsAt ≤ s'.endsAt) ∧
    ((Server.empty t).RunKept rs → ∀ p ∈ ((Server.empty t).run rs).leases,
      ∀ s ∈ ((Server.empty t).run rs).db.sessions, s.status = .active → p.sessionId = some s.id →
        p.graceEndsAt = p.expiresAt ∧ p.expiresAt ≤ fromColumn s.meteredLeaseUntil ∧
        ∀ now, fromColumn s.meteredLeaseUntil ≤ now → p.graceEndsAt ≤ cutoffAt s now) := by
  obtain ⟨o, w, hp⟩ := Server.run_induct (s := .empty t) (K := (Server.empty t).RunKept rs)
    (fun o w e => Windowed.effect w o e) hrs (fun hk => hk) (.empty t) (.empty t)
    (fun _ hp => absurd hp List.not_mem_nil)
  refine ⟨fun s hs ha => ?_, fun hk p hpm s hs ha hid => ?_⟩
  · have hw := w.active s hs ha
    refine ⟨hw.ends, ⟨hw.billed, hw.metered⟩, fun rs' hrs' s' hs' hid ha' => ?_⟩
    have hfrom : EndsFrom s.id s.endsAt ((Server.empty t).run rs).db :=
      ⟨⟨s, hs, rfl⟩, fun x hx hid _ => (Table.eq_of_key hx hs hid ▸ le_rfl)⟩
    obtain ⟨-, ⟨-, he⟩, -⟩ := Server.run_induct (s := (Server.empty t).run rs) (K := False)
      (P := fun db => Windowed h db ∧ EndsFrom s.id s.endsAt db)
      (fun o hP e => ⟨hP.1.effect o e, hP.2.effect hP.1 e⟩) hrs' False.elim o ⟨w, hfrom⟩
      fun p hpm => (hp p hpm).imp False.elim
    exact he.2 s' hs' hid ha'
  · have hw := w.active s hs ha
    obtain ⟨hg, hle⟩ := (hp p hpm).kept hk _ hid
    have hmetered : fromColumn (timestamp6 p.expiresAt) ≤ fromColumn s.meteredLeaseUntil :=
      mul_le_mul_of_nonneg_right (hw.signed _ (hp p hpm).signed hid).2 (by norm_num)
    have hends : fromColumn s.meteredLeaseUntil ≤ fromColumn s.endsAt :=
      mul_le_mul_of_nonneg_right hw.metered (by norm_num)
    have hexp := hle.trans hmetered
    exact ⟨hg, hexp, fun now hnow => hg ▸ le_min (hexp.trans hnow) (le_min (hexp.trans hends) hexp)⟩

/-! ### An evening at the station -/

namespace Arcade

def plain (r : Request) : NanoRequest := ⟨r, ⟨0, by decide, by decide⟩, 0⟩

/-- A customer plays, and the station takes a lease 20.5 s after the start, less or more some nanoseconds. -/
def evening (offset : Offset) : List NanoRequest :=
  [plain (GManager.Arcade.grant 100 10000000 "first"),
   plain (GManager.Arcade.request 101 11000000 (.assign ⟨2, 40, none⟩)),
   plain (GManager.Arcade.login 12000000),
   ⟨GManager.Arcade.request 103 20500000 .lease, offset, 90⟩]

end Arcade

theorem session_window_evening :
    ∃ w, w = (Server.empty 0).run (Arcade.evening ⟨-400, by decide, by decide⟩) ∧
      ∃ p ∈ w.leases, ∃ s ∈ w.db.sessions, s.status = .active ∧ p.sessionId = some s.id ∧
        p.expiresAt ≤ fromColumn s.meteredLeaseUntil := by
  have hsteady : Steady GManager.Arcade.hours 60 (Arcade.evening ⟨-400, by decide, by decide⟩) := by
    simp [Steady, Arcade.evening, Arcade.plain, GManager.Arcade.grant, GManager.Arcade.login,
      GManager.Arcade.request]
  have hkept : (Server.empty 0).RunKept (Arcade.evening ⟨-400, by decide, by decide⟩) :=
    ⟨trivial, trivial, trivial, .inl (by decide), trivial⟩
  refine ⟨_, rfl, ?_⟩
  obtain ⟨p, hp, s, hs, ha, hid⟩ :
      ∃ p ∈ ((Server.empty 0).run (Arcade.evening ⟨-400, by decide, by decide⟩)).leases,
        ∃ s ∈ ((Server.empty 0).run (Arcade.evening ⟨-400, by decide, by decide⟩)).db.sessions.rows,
          s.status = .active ∧ p.sessionId = some s.id := by decide +kernel
  exact ⟨p, hp, s, hs, ha, hid, ((session_window hsteady).2 hkept p hp s hs ha hid).2.1⟩

/-- The lease ends 400 ns after the column to which the session is metered. -/
theorem lease_promises_more :
    ∃ p ∈ ((Server.empty 0).run (Arcade.evening ⟨400, by decide, by decide⟩)).leases,
      ∃ s ∈ ((Server.empty 0).run (Arcade.evening ⟨400, by decide, by decide⟩)).db.sessions.rows,
        s.status = .active ∧ p.sessionId = some s.id ∧ fromColumn s.meteredLeaseUntil < p.expiresAt ∧
          cutoffAt s p.expiresAt < p.graceEndsAt := by
  decide +kernel

end runs

end GManager.SignedLeases

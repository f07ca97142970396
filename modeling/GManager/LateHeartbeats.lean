import GManager.Requests
import GManager.ClientEntitlement

/-!
# Heartbeats that arrive late

The heartbeats of the station clients on their way: a client composes one, gives up on it, and the server
processes it whenever it arrives, between any other requests. `heartbeat` ends whatever session the station
then plays; the session that the heartbeat names is not looked at. It is the session of the lease that the
client held, so where it is the one that plays, it played already when the heartbeat was composed.
-/

namespace GManager

open Txn

variable {h : Hours} {l L : ℕ} {c : Call} {db db₀ db' : Db}

/-! ### What one heartbeat ends -/

/-- Whether the report confirms a lock or maintenance, so that `heartbeat` ends the session of the station. -/
def HeartbeatRequest.Confirms (request : HeartbeatRequest) (previous : Option StationHeartbeat) : Prop :=
  (request.enforcement = .locked ∧
    (request.errorCode.isSome ∨ ∃ b ∈ previous, b.clientStatus = .sessionActive)) ∨
    request.status = .maintenance

/-- The session is active before and no longer after. -/
def Ended (db db' : Db) (s : GamingSession) : Prop :=
  s ∈ db.sessions ∧ s.status = .active ∧ ∀ x ∈ db'.sessions, x.id = s.id → x.status ≠ .active

/-- A session is over, and the others are as they were. -/
structure Over (id : UUID) (db db' : Db) : Prop where
  gone : ∀ x ∈ db'.sessions, x.id = id → x.status ≠ .active
  others : ∀ x, x.id ≠ id → (x ∈ db'.sessions ↔ x ∈ db.sessions)

theorem over_putSession {s r : GamingSession} (hid : r.id = s.id) (hr : r.status ≠ .active)
    (q : Quiet (db.putSession r) db') : Over s.id db db' := by
  refine ⟨fun x hx hxid => ?_, fun x hne => ?_⟩
  · rw [q.sessions] at hx
    rcases Table.mem_save.1 hx with ⟨-, hne⟩ | ⟨rfl, -⟩
    · exact absurd (hxid.trans hid.symm) hne
    · exact hr
  · rw [q.sessions]
    refine Table.mem_save.trans ⟨?_, fun hx => .inl ⟨hx, fun he => hne (he.trans hid)⟩⟩
    rintro (⟨hx, -⟩ | ⟨rfl, -⟩)
    · exact hx
    · exact absurd hid hne

theorem wp_finish {s : GamingSession} (hs : s ∈ db.sessions) :
    wp (finishOrRenew s false true) (fun _ db' => Over s.id db db') c db := by
  simp only [finishOrRenew, wp_bind, wp_ask, wp_ite, wp_pure]
  refine ⟨fun _ => wp_close fun sequence _ q => ?_, fun hn => ⟨?_, fun _ => ?_⟩⟩
  · exact over_putSession (r := s.closed .terminated "Customer finished gaming" sequence) rfl
      (show GamingSessionStatus.terminated ≠ .active by decide) q
  · rintro ⟨hf, -⟩
    cases hf
  · refine ⟨fun x hx hxid => ?_, fun _ _ => Iff.rfl⟩
    rw [Table.eq_of_key hx hs hxid]
    exact fun ha => hn ⟨trivial, ha⟩

/-- A tick that finishes ends the session that it names and no other. -/
theorem wp_tick_finish {s : GamingSession} (hs : s ∈ db.sessions) (hm : s.billingMode = .timeBalance) :
    wp (tick s.id false true) (fun _ db' => Over s.id db db') c db := by
  unfold tick
  simp only [wp_bind, wp_ask, wp_get]
  rw [Table.find?_eq_some.2 ⟨hs, rfl⟩]
  simp only [wp_bind, wp_ite, wp_pure, lockCustomer, wp_ask, wp_require, wp_lift, wp_instant]
  refine ⟨fun _ _ _ _ => ⟨fun ha => ?_, fun hn => ?_⟩, fun hne => absurd hm hne⟩
  · refine wp_mono (@wp_settle c { db with clock := db.clock.next } c.hours c.settings.leaseSeconds 0 s hs)
      fun s₁ db₁ h₁ => ?_
    refine wp_mono (wp_finish h₁.mem) fun _ db₂ h₂ => ?_
    rw [h₁.id] at h₂
    exact ⟨h₂.gone, fun x hx => (h₂.others x hx).trans (h₁.others x hx)⟩
  · refine ⟨fun x hx hxid => ?_, fun _ _ => Iff.rfl⟩
    rw [Table.eq_of_key hx hs hxid]
    exact hn

/-- The session that a heartbeat ends: the one that the station plays on paid time. -/
def Db.endedBy (db : Db) (station : UUID) (request : HeartbeatRequest) (s : GamingSession) : Prop :=
  request.Confirms (db.heartbeats.find? station) ∧ db.activeByResource station = some s ∧
    s.billingMode = .timeBalance

/-- A heartbeat that commits ends the session of `endedBy`, and every other session stays. -/
theorem wp_heartbeat_ends {request : HeartbeatRequest} {station : UUID}
    (hst : c.machineStation = some station) :
    wp (heartbeat request) (fun _ db' => (∀ s, db.endedBy station request s → Over s.id db db') ∧
      ((¬ ∃ s, db.endedBy station request s) → db'.sessions = db.sessions)) c db := by
  simp only [heartbeat, requireMachine, wp_bind, wp_ask, wp_orThrow, wp_instant, wp_get, wp_modify, hst]
  rintro _ ⟨⟩ _ _
  simp only [endConfirmed, wp_bind, wp_get, wp_ite, wp_pure]
  refine ⟨fun hconf => ?_, fun hconf => ⟨?_, fun _ => trivial⟩⟩
  · have hc : request.Confirms (db.heartbeats.find? station) := by
      simpa [HeartbeatRequest.Confirms] using hconf
    cases ha : db.activeByResource station with
    | none =>
      have hd : ({ db with clock := db.clock.next } : Db).activeByResource station = none := ha
      rw [hd]
      refine wp_pure.2 ⟨?_, fun _ => rfl⟩
      rintro s ⟨-, hs, -⟩
      rw [ha] at hs
      cases hs
    | some s =>
      have hd : ({ db with clock := db.clock.next } : Db).activeByResource station = some s := ha
      rw [hd]
      by_cases hm : s.billingMode = .timeBalance
      · simp only [Option.filter_some, hm, decide_true, if_true]
        have hmem : s ∈ ({ db with clock := db.clock.next } : Db).sessions :=
          (Db.activeByResource_eq_some ha).1
        refine wp_mono (wp_tick_finish hmem hm) fun _ db₁ h₁ => ⟨?_, fun hn => ?_⟩
        · rintro x ⟨-, hx, -⟩
          obtain rfl : s = x := Option.some.inj (ha.symm.trans hx)
          exact ⟨h₁.gone, h₁.others⟩
        · exact absurd ⟨s, hc, ha, hm⟩ hn
      · simp only [Option.filter_some, hm, decide_false, if_neg Bool.false_ne_true]
        refine wp_pure.2 ⟨?_, fun _ => rfl⟩
        rintro x ⟨-, hx, hxm⟩
        obtain rfl : s = x := Option.some.inj (ha.symm.trans hx)
        exact absurd hxm hm
  · rintro s ⟨hc, -⟩
    exact absurd (by simpa [HeartbeatRequest.Confirms] using hc) hconf

/-! ### Sessions and the leases that name them -/

/-- Sessions neither disappear, move nor come back: those of `db₀` are still there, at their stations, and
active only if they were. -/
structure Lasting (db₀ db : Db) : Prop where
  kept : ∀ s₀ ∈ db₀.sessions, ∃ s ∈ db.sessions, s.id = s₀.id
  same : ∀ s₀ ∈ db₀.sessions, ∀ s ∈ db.sessions, s.id = s₀.id →
    s.resourceId = s₀.resourceId ∧ (s.status = .active → s₀.status = .active)

namespace Lasting

theorem refl (db : Db) : Lasting db db :=
  ⟨fun s hs => ⟨s, hs, rfl⟩, fun s₀ h₀ s hs hid => by
    obtain rfl : s = s₀ := Table.eq_of_key hs h₀ hid
    exact ⟨rfl, id⟩⟩

theorem congr {db₁ : Db} (hl : Lasting db₀ db) (hs : db₁.sessions = db.sessions) : Lasting db₀ db₁ := by
  refine ⟨fun s₀ h₀ => ?_, fun s₀ h₀ s hmem => ?_⟩
  · rw [hs]
    exact hl.kept s₀ h₀
  · rw [hs] at hmem
    exact hl.same s₀ h₀ s hmem

/-- A session is rewritten at its station, and not woken. -/
theorem put (hl : Lasting db₀ db) {s r : GamingSession} (hs : s ∈ db.sessions) (hid : r.id = s.id)
    (hst : r.resourceId = s.resourceId) (ha : r.status = .active → s.status = .active)
    (hsess : db'.sessions = db.sessions.save r) : Lasting db₀ db' := by
  refine ⟨fun s₀ h₀ => ?_, fun s₀ h₀ x hx hxid => ?_⟩
  · obtain ⟨x, hx, hxid⟩ := hl.kept s₀ h₀
    rcases eq_or_ne x.id s.id with he | hne
    · exact ⟨r, (Db.mem_saved hs hid hsess).2 (.inl rfl), hid.trans (he.symm.trans hxid)⟩
    · exact ⟨x, (Db.mem_saved hs hid hsess).2 (.inr ⟨hx, hne⟩), hxid⟩
  · rcases (Db.mem_saved hs hid hsess).1 hx with rfl | ⟨hx, -⟩
    · obtain ⟨hsame, hact⟩ := hl.same s₀ h₀ s hs (hid.symm.trans hxid)
      exact ⟨hst.trans hsame, fun h => hact (ha h)⟩
    · exact hl.same s₀ h₀ x hx hxid

/-- A new session has a new identifier. -/
theorem add (hl : Lasting db₀ db) {s : GamingSession} (hfresh : ∀ x ∈ db.sessions, x.id ≠ s.id)
    (hmem : ∀ x, x ∈ db'.sessions ↔ x ∈ db.sessions ∨ x = s) : Lasting db₀ db' := by
  refine ⟨fun s₀ h₀ => ?_, fun s₀ h₀ x hx hxid => ?_⟩
  · obtain ⟨x, hx, hxid⟩ := hl.kept s₀ h₀
    exact ⟨x, (hmem x).2 (.inl hx), hxid⟩
  · rcases (hmem x).1 hx with hx | rfl
    · exact hl.same s₀ h₀ x hx hxid
    · obtain ⟨y, hy, hyid⟩ := hl.kept s₀ h₀
      exact absurd (hyid.trans hxid.symm) (hfresh y hy)

theorem effect (hl : Lasting db₀ db) (e : Effect h l L db db') : Lasting db₀ db' := by
  cases e with
  | quiet q => exact hl.congr q.sessions
  | @charged s delta createdAt e hs ha hm hd h0 hlt he q =>
    exact hl.put (r := s.charge delta) hs rfl rfl id (q.sessions.trans Db.post_putSession_sessions)
  | @closed s status reason sequence hs hst q =>
    exact hl.put (r := s.closed status reason sequence) hs rfl rfl (fun ha => absurd ha hst) q.sessions
  | granted hidle hfresh h0 hlt he q => exact hl.congr (q.sessions.trans Db.post_sessions)
  | @toppedUp s actor operation seconds key createdAt now limit sequence e hs ha hfresh h0 hlt he
      hnow hnow' hlim q =>
    exact hl.put (r := s.extended (db.balance s.customerId + seconds) limit sequence) hs rfl rfl id
      (q.sessions.trans Db.post_putSession_sessions)
  | @renewed s hs ha q =>
    exact hl.put (r := { s with meteredLeaseUntil := min (db.clock.now.plusSeconds l) s.endsAt }) hs
      rfl rfl id q.sessions
  | @leased s p now hs ha hnow hsigned hbilled hp q =>
    exact hl.put (r := { s with meteredLeaseUntil := p.expiresAt }) hs rfl rfl id q.sessions
  | refused hp he q => exact hl.congr q.sessions
  | started hfresh hmem hcustomer hstation ha hm hmove hb hnow hends hlease hlim q =>
    exact hl.add hfresh fun x => by rw [q.sessions, hmem]
  | booked hr hp hemployee hresource hi q => exact hl.congr q.sessions
  | moved hr hsame hstatus hlt hemployee hresource hsession q => exact hl.congr q.sessions
  | changed hr hc q => exact hl.congr q.sessions

end Lasting

/-- Every signed lease that names a session names one of the table. -/
def LeasesNamed (db : Db) : Prop :=
  ∀ p ∈ db.signed, ∀ id, p.sessionId = some id → ∃ s ∈ db.sessions, s.id = id

theorem LeasesNamed.later (hn : LeasesNamed db) (hl : Lasting db db') (hs : db'.signed = db.signed) :
    LeasesNamed db' := by
  intro p hp id hid
  rw [hs] at hp
  obtain ⟨s, hmem, rfl⟩ := hn p hp id hid
  exact hl.kept s hmem

theorem LeasesNamed.effect (hn : LeasesNamed db) (e : Effect h l L db db') : LeasesNamed db' := by
  have hl := (Lasting.refl db).effect e
  cases e with
  | quiet q => exact hn.later hl q.signed
  | charged hs ha hm hd h0 hlt he q => exact hn.later hl (q.signed.trans Db.post_signed)
  | closed hs hst q => exact hn.later hl q.signed
  | granted hidle hfresh h0 hlt he q => exact hn.later hl (q.signed.trans Db.post_signed)
  | toppedUp hs ha hfresh h0 hlt he hnow hnow' hlim q => exact hn.later hl (q.signed.trans Db.post_signed)
  | renewed hs ha q => exact hn.later hl q.signed
  | @leased s _ now hs ha hnow hsigned hbilled hp q =>
    intro x hx id hid
    rw [q.signed] at hx
    rcases List.mem_cons.1 hx with rfl | hx
    · obtain rfl : s.id = id := Option.some.inj (hp.1.symm.trans hid)
      exact hl.kept s hs
    · obtain ⟨y, hy, rfl⟩ := hn x hx id hid
      exact hl.kept y hy
  | refused hp he q =>
    intro x hx id hid
    rw [q.signed] at hx
    rcases List.mem_cons.1 hx with rfl | hx
    · rw [hp.1] at hid
      cases hid
    · obtain ⟨y, hy, rfl⟩ := hn x hx id hid
      exact hl.kept y hy
  | started hfresh hmem hcustomer hstation ha hm hmove hb hnow hends hlease hlim q =>
    exact hn.later hl q.signed
  | booked hr hp hemployee hresource hi q => exact hn.later hl q.signed
  | moved hr hsame hstatus hlt hemployee hresource hsession q => exact hn.later hl q.signed
  | changed hr hc q => exact hn.later hl q.signed

theorem Reachable.leasesNamed (hdb : Reachable db) : LeasesNamed db :=
  hdb.induct (fun _ _ hp => absurd hp List.not_mem_nil) fun _ hn e => hn.effect e

theorem Reachable.lasting (hdb : Reachable db) (rs : List Request) : Lasting db (GManager.run db rs) :=
  hdb.run_induct (fun _ hl e => hl.effect e) rs (.refl db)

/-! ### Heartbeats on their way -/

/-- The request that a client's heartbeat makes. -/
def Client.Heartbeat.request (b : Client.Heartbeat) : HeartbeatRequest where
  status := b.status
  enforcement := if b.enforcementLocked then .locked else .other
  lastCommandSequence := b.lastCommandSequence.toNat
  maintenanceActive := b.maintenanceActive
  errorCode := b.errorCode

/-- A heartbeat that the client of a station has composed, when the server was in the state `composedAt`. -/
structure Posted where
  station : UUID
  report : Client.Heartbeat
  composedAt : Db

/-- The server and all heartbeats composed so far. -/
structure Wire where
  db : Db
  posted : List Posted

/-- The server processes the heartbeat; what is in the call is what it finds then. -/
def Wire.deliver (w : Wire) (p : Posted) (call : Call) : Wire :=
  { w with db := step w.db ⟨{ call with machineStation := some p.station }, .heartbeat p.report.request⟩ }

/-- The server serves any request, or processes any heartbeat, be it late or a second time; and a client
composes a heartbeat. A session that its lease names is named by a lease that the server has signed. -/
inductive WireStep : Wire → Wire → Prop
  | serve (w : Wire) (r : Request) : WireStep w { w with db := step w.db r }
  | deliver (w : Wire) (p : Posted) (hp : p ∈ w.posted) (call : Call) : WireStep w (w.deliver p call)
  | compose (w : Wire) (station : UUID) (env : Client.ClientEnvironment) (client : Client.Runtime)
      (hlease : ∀ id, client.recovery.bind (·.lease.sessionId) = some id →
        ∃ p ∈ w.db.signed, p.sessionId = some id) :
      WireStep w { w with posted := ⟨station, client.heartbeat env, w.db⟩ :: w.posted }

/-- The runs of an installation that started empty. -/
def WireRun (t : Instant) : Wire → Prop := Relation.ReflTransGen WireStep ⟨.empty t, []⟩

/-- What holds of a composed heartbeat while the server goes on. -/
structure Posted.Follows (p : Posted) (db : Db) : Prop where
  reachable : Reachable p.composedAt
  run : ∃ rs, db = GManager.run p.composedAt rs
  named : ∀ id, p.report.sessionId = some id → ∃ x ∈ p.composedAt.signed, x.sessionId = some id
  locked : p.report.enforcementLocked → p.report.status = .locked

theorem Posted.Follows.step {p : Posted} (hf : p.Follows db) (r : Request) :
    p.Follows (GManager.step db r) := by
  obtain ⟨rs, rfl⟩ := hf.run
  exact ⟨hf.reachable, ⟨rs ++ [r], (run_append _ _ [r]).symm⟩, hf.named, hf.locked⟩

theorem heartbeat_locked (env : Client.ClientEnvironment) (client : Client.Runtime)
    (hl : (client.heartbeat env).enforcementLocked) : (client.heartbeat env).status = .locked := by
  simp only [Client.Runtime.heartbeat, Bool.and_eq_true, bne_iff_ne, ne_eq, Bool.not_eq_true'] at hl ⊢
  obtain ⟨⟨hm, -⟩, hv⟩ := hl
  simp [hm, hv]

theorem WireRun.follows {t : Instant} {w : Wire} (hw : WireRun t w) :
    Reachable w.db ∧ ∀ p ∈ w.posted, p.Follows w.db := by
  induction hw with
  | refl => exact ⟨⟨t, [], rfl⟩, fun _ hp => absurd hp List.not_mem_nil⟩
  | tail _ hs ih =>
    obtain ⟨hr, hf⟩ := ih
    cases hs with
    | serve r => exact ⟨hr.run [r], fun p hp => (hf p hp).step r⟩
    | deliver p hp call => exact ⟨hr.run [_], fun q hq => (hf q hq).step _⟩
    | compose station env client hlease =>
      refine ⟨hr, fun p hp => ?_⟩
      rcases List.mem_cons.1 hp with rfl | hp
      · exact ⟨hr, ⟨[], rfl⟩, hlease, heartbeat_locked env client⟩
      · exact hf p hp

/-- The session was active at the station when the heartbeat was composed, and the heartbeat, which reports a
lock or maintenance, names it. -/
structure Posted.Owns (p : Posted) (s : GamingSession) : Prop where
  named : p.report.sessionId = some s.id
  reported : p.report.status = .locked ∨ p.report.status = .maintenance
  active : ∃ s₀ ∈ p.composedAt.sessions, s₀.id = s.id ∧ s₀.status = .active ∧ s₀.resourceId = p.station

/-- The session that the server would end now, if any, is the one that the heartbeat names. -/
def Posted.Fits (p : Posted) (db : Db) : Prop :=
  ∀ s, db.endedBy p.station p.report.request s → p.report.sessionId = some s.id

theorem Posted.owns {p : Posted} (hf : p.Follows db) {s : GamingSession}
    (he : db.endedBy p.station p.report.request s) (hn : p.report.sessionId = some s.id) : p.Owns s := by
  obtain ⟨hconf, hact, -⟩ := he
  obtain ⟨hs, hst, ha⟩ := Db.activeByResource_eq_some hact
  refine ⟨hn, ?_, ?_⟩
  · rcases hconf with ⟨hl, -⟩ | hm
    · refine .inl (hf.locked ?_)
      by_contra hne
      simp [Client.Heartbeat.request, hne] at hl
    · exact .inr hm
  · obtain ⟨x, hx, hxid⟩ := hf.named _ hn
    obtain ⟨s₀, h₀, hid⟩ := hf.reachable.leasesNamed x hx _ hxid
    obtain ⟨rs, rfl⟩ := hf.run
    obtain ⟨hsame, hwas⟩ := (hf.reachable.lasting rs).same s₀ h₀ s hs hid.symm
    exact ⟨s₀, h₀, hid, hwas ha, hsame.symm.trans hst⟩

theorem ended_endedBy {w : Wire} {p : Posted} {call : Call} {s : GamingSession}
    (hs : Ended w.db (w.deliver p call).db s) : w.db.endedBy p.station p.report.request s := by
  obtain ⟨hmem, ha, hgone⟩ := hs
  have hdb : (w.deliver p call).db.sessions = w.db.sessions ∨
      ∃ x, w.db.endedBy p.station p.report.request x ∧ Over x.id w.db (w.deliver p call).db := by
    refine commit_of_wp (c := { call with machineStation := some p.station }) (s := w.db.listen call.readings)
      (P := fun d => d.sessions = w.db.sessions ∨
        ∃ x, w.db.endedBy p.station p.report.request x ∧ Over x.id w.db d) (.inl rfl) ?_
    refine wp_mono (wp_heartbeat_ends rfl) fun _ d hd => ?_
    by_cases he : ∃ x, w.db.endedBy p.station p.report.request x
    · obtain ⟨x, hx⟩ := he
      exact .inr ⟨x, hx, (hd.1 x hx).gone, (hd.1 x hx).others⟩
    · exact .inl (hd.2 he)
  rcases hdb with hsame | ⟨x, hx, hover⟩
  · rw [hsame] at hgone
    exact absurd ha (hgone s hmem rfl)
  · by_cases hid : s.id = x.id
    · obtain rfl : s = x := Table.eq_of_key hmem (Db.activeByResource_eq_some hx.2.1).1 hid
      exact hx
    · exact absurd ha (hgone s ((hover.others s hid).2 hmem) rfl)

/-- In every run, a heartbeat of which the server ends only the session that it names ends a session only if
that session played at the station already when the heartbeat was composed. The content is in this direction.
The other one, for a heartbeat that is processed without an error, only reads the name of the session back:
`Owns` asks for it, and the server then ends the session of `endedBy`. -/
theorem heartbeat_ends_its_own {t : Instant} {w : Wire} (hw : WireRun t w) {p : Posted} (hp : p ∈ w.posted)
    (call : Call) :
    (p.Fits w.db → ∀ s, Ended w.db (w.deliver p call).db s → p.Owns s) ∧
    ∀ d, (heartbeat p.report.request).run { call with machineStation := some p.station }
      (w.db.listen call.readings) =
        .ok ((), d) →
      ((∀ s, Ended w.db (w.deliver p call).db s → p.Owns s) ↔ p.Fits w.db) := by
  have hf := hw.follows.2 p hp
  have hown : p.Fits w.db → ∀ s, Ended w.db (w.deliver p call).db s → p.Owns s := fun hfit s hs =>
    Posted.owns hf (ended_endedBy hs) (hfit s (ended_endedBy hs))
  refine ⟨hown, fun d hrun => ⟨fun hall s he => ?_, hown⟩⟩
  have hstep : (w.deliver p call).db = d := by
    show commit _ _ _ = d
    unfold commit Op.perform
    rw [hrun]
  refine (hall s ⟨(Db.activeByResource_eq_some he.2.1).1, (Db.activeByResource_eq_some he.2.1).2.2, ?_⟩).named
  rw [hstep]
  exact ((wp_heartbeat_ends rfl _ _ hrun).1 s he).gone

namespace Arcade

/-! ### A login overtakes a heartbeat -/

def client : Client.ClientEnvironment := ⟨false, some 40⟩

/-- What the station holds while customer 2 is expected. -/
def announcement : Client.SessionLease where
  leaseId := 103
  stationId := 40
  sessionId := none
  customerId := none
  sessionEndsAt := none
  configurationVersion := 1
  issuedAt := 11500000
  expiresAt := 71500000
  graceEndsAt := 71500000
  commandCursor := 0
  directive := .lock
  clientUpdate := none
  billingMode := none
  startedAt := none
  balanceSeconds := none
  assignmentId := some 101
  assignmentExpiresAt := some 131000000

/-- A refresh whose heartbeat times out; the client now reports the timeout. -/
def timedOut : Client.Runtime :=
  ((Client.client client fun _ => true).run (Client.firstStart client 11500000)
    (Client.Handover.job .refresh [.done, .policy ⟨.ok (), 40, 1, .ok (), .ok ()⟩,
      .lease ⟨.lease announcement, true, true⟩, .commands [], .canceled false])).own

/-- The client composes this report, and the customer logs in before the server has processed it. -/
def overtaken : Wire :=
  { db := GManager.run afternoon [request 103 11500000 .lease, login 12000000]
    posted := [⟨40, timedOut.heartbeat client, GManager.run afternoon [request 103 11500000 .lease]⟩] }

theorem wireStep_run (w : Wire) (rs : List Request) :
    Relation.ReflTransGen WireStep w { w with db := GManager.run w.db rs } := by
  induction rs generalizing w with
  | nil => exact .refl
  | cons r rs ih => exact (Relation.ReflTransGen.single (.serve w r)).trans (ih { w with db := step w.db r })

theorem wireRun_overtaken : WireRun 0 overtaken := by
  have hnone : timedOut.recovery.bind (·.lease.sessionId) = none := by decide +kernel
  refine ((wireStep_run ⟨.empty 0, []⟩ [grant 100 10000000 "first",
    request 101 11000000 (.assign ⟨2, 40, none⟩), request 103 11500000 .lease]).tail
      (.compose _ 40 client timedOut fun id hid => ?_)).tail (.serve _ (login 12000000))
  rw [hnone] at hid
  cases hid

/-- The late report of the timeout ends the session that began after it was composed. -/
theorem login_lost : WireRun 0 overtaken ∧ timedOut.mayLogin ∧
    (∀ p ∈ overtaken.posted, (∀ s ∈ p.composedAt.sessions.rows, s.status ≠ .active) ∧
      (∃ s ∈ overtaken.db.sessions.rows, s.id = 102 ∧ s.status = .active) ∧
      ∀ s ∈ (overtaken.deliver p (login 13000000).call).db.sessions.rows, s.id = 102 →
      s.status ≠ .active) := by
  refine ⟨wireRun_overtaken, ?_⟩
  decide +kernel

/-- The client while it is serviced; its lease is that of the session. -/
def serviced : Client.Runtime :=
  { timedOut with
    maintenance := true
    recovery := timedOut.recovery.map fun r => { r with lease := { r.lease with sessionId := some 102 } } }

def report : Posted := ⟨40, serviced.heartbeat client, evening⟩

/-- Maintenance begins while the customer plays. -/
def paused : Wire := ⟨evening, [report]⟩

theorem wireRun_paused : WireRun 0 paused := by
  refine (wireStep_run ⟨.empty 0, []⟩ [grant 100 10000000 "first",
    request 101 11000000 (.assign ⟨2, 40, none⟩), login 12000000, request 103 20500000 .lease,
    request 104 70250000 .lease]).tail (.compose _ 40 client serviced fun id hid => ?_)
  have hname : serviced.recovery.bind (·.lease.sessionId) = some 102 := by decide +kernel
  obtain rfl : 102 = id := Option.some.inj (hname.symm.trans hid)
  show ∃ p ∈ evening.signed, p.sessionId = some 102
  decide +kernel

theorem heartbeat_ends_its_own_serviced :
    (∃ s ∈ evening.sessions.rows, s.id = 102 ∧ s.status = .active ∧
      ∀ x ∈ (paused.deliver report (login 75000000).call).db.sessions.rows, x.id = 102 → x.status ≠ .active) ∧
    ∀ s, Ended evening (paused.deliver report (login 75000000).call).db s → report.Owns s := by
  refine ⟨by decide +kernel,
    (heartbeat_ends_its_own wireRun_paused List.mem_cons_self (login 75000000).call).1 ?_⟩
  rintro s ⟨-, hact, -⟩
  obtain ⟨hs, -, ha⟩ := Db.activeByResource_eq_some hact
  have hall : ∀ s ∈ evening.sessions.rows, s.status = .active →
      report.report.sessionId = some s.id := by decide +kernel
  exact hall s hs ha

end Arcade

end GManager

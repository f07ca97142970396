import GManager.Settlement

/-!
# The requests to sessions as effects

`Orderly` is what the services rely on between requests: nobody owes time, nobody plays twice, and no
session or signed lease reaches further than one lease from now. Every effect keeps it; in an orderly
state every request that touches time, sessions or stations is a sequence of effects.
-/

namespace GManager

open Txn

/-- What holds between requests at leases of `L` seconds. -/
structure Orderly (L : ℕ) (db : Db) : Prop where
  nonneg : ∀ customer, 0 ≤ db.balance customer
  single : ∀ s ∈ db.sessions, ∀ t ∈ db.sessions, s.status = .active → t.status = .active →
    s.customerId = t.customerId → s = t
  billed : ∀ s ∈ db.sessions, s.status = .active → s.lastBilledAt ≤ db.clock.now
  metered : ∀ s ∈ db.sessions, s.status = .active → s.meteredLeaseUntil ≤ db.clock.now.plusSeconds L
  signed : ∀ p ∈ db.signed, p.expiresAt ≤ db.clock.now.plusSeconds L

theorem Db.balance_post {db : Db} {e : LedgerEntry} (h : db.hasEntry e.sourceKey = false) (customer : UUID) :
    (db.post e).balance customer = if customer = e.customerId then e.balanceAfter
    else db.balance customer := by
  obtain ⟨t, -, ht⟩ := Db.post_of_fresh h
  rw [ht]
  show (((db.accounts.upsert _).find? customer).map _).getD 0 = _
  rw [Table.find?_upsert]
  split
  · rfl
  · rfl

theorem Db.balance_post_entry {db : Db} {customer actor : UUID} {session operation : Option UUID} {delta : ℤ}
    {kind : LedgerKind} {reason : Option String} {source : SourceKey} {createdAt : Instant}
    (h : db.hasEntry source = false) :
    (db.post (db.entry customer session operation actor delta kind reason source createdAt)).balance
      customer = db.balance customer + delta :=
  (Db.balance_post h customer).trans (if_pos rfl)

theorem Db.mem_putSession {db : Db} {s r x : GamingSession} (hs : s ∈ db.sessions) (hid : r.id = s.id) :
    x ∈ (db.putSession r).sessions ↔ x = r ∨ x ∈ db.sessions ∧ x.id ≠ s.id :=
  Table.mem_save_of_mem hs hid

/-- The sessions after one of them is rewritten. -/
theorem Db.mem_saved {db db' : Db} {s r x : GamingSession} (hs : s ∈ db.sessions) (hid : r.id = s.id)
    (hsess : db'.sessions = db.sessions.save r) : x ∈ db'.sessions ↔ x = r ∨
    x ∈ db.sessions ∧ x.id ≠ s.id := by
  rw [hsess]
  exact Db.mem_putSession hs hid

namespace Orderly

variable {h : Hours} {l L : ℕ} {db db' : Db}

theorem empty (t : Instant) : Orderly L (Db.empty t) :=
  ⟨fun _ => le_rfl, fun _ hs => absurd hs Table.not_mem_empty, fun _ hs => absurd hs Table.not_mem_empty,
    fun _ hs => absurd hs Table.not_mem_empty, fun _ hp => absurd hp List.not_mem_nil⟩

theorem mono {L' : ℕ} (o : Orderly L db) (hL : L ≤ L') : Orderly L' db := by
  have hle : ∀ t : Instant, t.plusSeconds L ≤ t.plusSeconds L' := fun t =>
    Instant.plusSeconds_le_plusSeconds.2 (Int.ofNat_le.2 hL)
  exact ⟨o.nonneg, o.single, o.billed, fun s hs ha => (o.metered s hs ha).trans (hle _),
    fun p hp => (o.signed p hp).trans (hle _)⟩

theorem quiet (o : Orderly L db) (q : Quiet db db') : Orderly L db' := by
  refine ⟨fun customer => ?_, ?_, ?_, ?_, ?_⟩
  · rw [q.balance]
    exact o.nonneg customer
  · rw [q.sessions]
    exact o.single
  · rw [q.sessions]
    exact fun s hs ha => (o.billed s hs ha).trans q.clock
  · rw [q.sessions]
    exact fun s hs ha => (o.metered s hs ha).trans (Instant.plusSeconds_mono q.clock _)
  · rw [q.signed]
    exact fun p hp => (o.signed p hp).trans (Instant.plusSeconds_mono q.clock _)

theorem post (o : Orderly L db) {e : LedgerEntry} (h0 : 0 ≤ e.balanceAfter) : Orderly L (db.post e) := by
  refine ⟨fun customer => ?_, ?_, ?_, ?_, ?_⟩
  · cases hk : db.hasEntry e.sourceKey with
    | true =>
      rw [Db.post_of_hasEntry hk]
      exact o.nonneg customer
    | false =>
      rw [Db.balance_post hk]
      split
      · exact h0
      · exact o.nonneg customer
  · simpa only [Db.post_sessions] using o.single
  · simpa only [Db.post_sessions, Db.post_clock] using o.billed
  · simpa only [Db.post_sessions, Db.post_clock] using o.metered
  · simpa only [Db.post_signed, Db.post_clock] using o.signed

/-- A session is written that is active only where it was, within the same bounds. -/
theorem putSession (o : Orderly L db) {s r : GamingSession} (hs : s ∈ db.sessions) (hid : r.id = s.id)
    (hc : r.customerId = s.customerId) (ha : r.status = .active → s.status = .active ∧
      r.lastBilledAt ≤ db.clock.now ∧ r.meteredLeaseUntil ≤ db.clock.now.plusSeconds L) :
    Orderly L (db.putSession r) := by
  refine ⟨o.nonneg, fun x hx y hy hxa hya hxy => ?_, fun x hx hxa => ?_, fun x hx hxa => ?_, o.signed⟩
  · rcases (Db.mem_putSession hs hid).1 hx with rfl | ⟨hx', hnx⟩ <;>
      rcases (Db.mem_putSession hs hid).1 hy with rfl | ⟨hy', hny⟩
    · rfl
    · exact absurd (o.single s hs y hy' (ha hxa).1 hya (hc.symm.trans hxy) ▸ rfl) hny
    · exact absurd (o.single x hx' s hs hxa (ha hya).1 (hxy.trans hc) ▸ rfl) hnx
    · exact o.single x hx' y hy' hxa hya hxy
  · rcases (Db.mem_putSession hs hid).1 hx with rfl | ⟨hx, -⟩
    · exact (ha hxa).2.1
    · exact o.billed x hx hxa
  · rcases (Db.mem_putSession hs hid).1 hx with rfl | ⟨hx, -⟩
    · exact (ha hxa).2.2
    · exact o.metered x hx hxa

theorem sign (o : Orderly L db) {p : SessionLeasePayload} (hp : p.expiresAt ≤ db.clock.now.plusSeconds L) :
    Orderly L { db with signed := p :: db.signed } := by
  refine ⟨o.nonneg, o.single, o.billed, o.metered, fun x hx => ?_⟩
  rcases List.mem_cons.1 hx with rfl | hx
  · exact hp
  · exact o.signed x hx

theorem reservations (o : Orderly L db) (t : Table Reservation.id) :
    Orderly L { db with reservations := t } :=
  ⟨o.nonneg, o.single, o.billed, o.metered, o.signed⟩

theorem effect (o : Orderly L db) (hl : l ≤ L) (e : Effect h l L db db') : Orderly L db' := by
  have hlL : ∀ t : Instant, t.plusSeconds l ≤ t.plusSeconds L := fun t =>
    Instant.plusSeconds_le_plusSeconds.2 (Int.ofNat_le.2 hl)
  cases e with
  | quiet q => exact o.quiet q
  | @charged s delta createdAt e hs ha hm hd h0 hlt he q =>
    subst hd
    have hafter : 0 ≤ e.balanceAfter := by
      have : unsettled s db.clock.now (db.balance s.customerId) ≤ db.balance s.customerId := min_le_left _ _
      rw [he, Db.entry_balanceAfter]
      omega
    refine ((o.post hafter).putSession (s := s) (r := s.charge _) (by rwa [Db.post_sessions]) rfl rfl
      fun _ => ⟨ha, ?_, ?_⟩).quiet q
    · rw [Db.post_clock]
      exact (charge_lastBilledAt h0).trans (min_le_left _ _)
    · rw [Db.post_clock]
      exact o.metered s hs ha
  | @closed s status reason sequence hs hst q =>
    exact (o.putSession (r := s.closed status reason sequence) hs rfl rfl fun ha => absurd ha hst).quiet q
  | @granted customer actor operation seconds key createdAt e hidle hfresh h0 hlt he q =>
    refine (o.post ?_).quiet q
    have := o.nonneg customer
    rw [he, Db.entry_balanceAfter]
    omega
  | @toppedUp s actor operation seconds key createdAt now limit sequence e hs ha hfresh h0 hlt he
      hnow hnow' hl q =>
    have hafter : 0 ≤ e.balanceAfter := by
      have := o.nonneg s.customerId
      rw [he, Db.entry_balanceAfter]
      omega
    refine ((o.post hafter).putSession (s := s) (r := s.extended _ limit sequence)
      (by rwa [Db.post_sessions]) rfl rfl fun _ => ⟨ha, ?_, ?_⟩).quiet q
    · rw [Db.post_clock]
      exact o.billed s hs ha
    · rw [Db.post_clock]
      exact (min_le_left _ _).trans (o.metered s hs ha)
  | @renewed s hs ha q =>
    exact (o.putSession (r := { s with meteredLeaseUntil := min (db.clock.now.plusSeconds l) s.endsAt }) hs
      rfl rfl fun _ => ⟨ha, o.billed s hs ha, (min_le_left _ _).trans (hlL _)⟩).quiet q
  | @leased s p now hs ha hnow hsigned hbilled hp q =>
    have hle : p.expiresAt ≤ db.clock.now.plusSeconds L := by
      rw [hp.2.2.2]
      exact ((min_le_left _ _).trans (min_le_left _ _)).trans
        ((Instant.plusSeconds_mono hnow _).trans (hlL _))
    exact ((o.putSession (r := { s with meteredLeaseUntil := p.expiresAt }) hs rfl rfl
      fun _ => ⟨ha, o.billed s hs ha, hle⟩).sign hle).quiet q
  | refused hp he q => exact (o.sign (he.trans (hlL _))).quiet q
  | @started s sessions hfresh hmem hcustomer hstation ha hm hmove hb hnow hends hlease hl q =>
    refine Orderly.quiet (show Orderly L { db with sessions } from
      ⟨o.nonneg, fun x hx y hy hxa hya hxy => ?_, fun x hx hxa => ?_, fun x hx hxa => ?_, o.signed⟩) q
    · rcases (hmem x).1 hx with hx' | rfl <;> rcases (hmem y).1 hy with hy' | rfl
      · exact o.single x hx' y hy' hxa hya hxy
      · exact absurd hxa (hcustomer x hx' hxy)
      · exact absurd hya (hcustomer y hy' hxy.symm)
      · rfl
    · rcases (hmem x).1 hx with hx | rfl
      · exact o.billed x hx hxa
      · exact hnow.2.le.trans hnow.1
    · rcases (hmem x).1 hx with hx | rfl
      · exact o.metered x hx hxa
      · rw [hlease]
        exact (min_le_left _ _).trans ((Instant.plusSeconds_mono hnow.1 _).trans (hlL _))
  | booked hr hp he hres hi q => exact (o.reservations _).quiet q
  | moved hr hsame hstatus hlt he hres hses q => exact (o.reservations _).quiet q
  | changed hr hc q => exact (o.reservations _).quiet q

theorem effects (o : Orderly L db) (hl : l ≤ L) (e : Effects h l L db db') : Orderly L db' := by
  induction e with
  | refl => exact o
  | tail _ e ih => exact ih.effect hl e

end Orderly

/-! ### Granting time -/

theorem Limit.congr {h : Hours} {db db' : Db} {station location customer : UUID} {own : Option UUID}
    {now limit : Instant} (hr : db'.reservations = db.reservations)
    (hl : Limit h db' station location customer own now limit) :
    Limit h db station location customer own now limit :=
  ⟨hl.after, hl.hours, hr ▸ hl.booking, hr ▸ hl.place, hr ▸ hl.others, hr ▸ hl.greatest⟩

theorem Effects.of_quiet {h : Hours} {L : ℕ} {db db' : Db} (q : Quiet db db') : Effects h l L db db' :=
  .single (.quiet q)

/-- A grant to a customer who does not play. -/
theorem wp_append_granted {l L : ℕ} {c : Call} {db : Db} {customer actor operation : UUID} {seconds : ℤ}
    {key : String} (hidle : ∀ s ∈ db.sessions, s.customerId = customer → s.status ≠ .active)
    (hfresh : db.hasEntry (.grant actor customer key) = false) (h0 : 0 < seconds) :
    wp (append customer none (some operation) actor seconds .grant none (.grant actor customer key))
      (fun _ => Effects c.hours l L db) c db :=
  wp_append fun _ _ hlt q => .single (.granted hidle hfresh h0 (hlt hfresh).2 rfl q)

/-- A grant to a customer who plays moves the end of the session. -/
theorem wp_append_refreshEnd {l L : ℕ} {c : Call} {db : Db} {s : GamingSession} {actor operation : UUID}
    {seconds : ℤ} {key : String} (o : Orderly L db) (hs : s ∈ db.sessions) (ha : s.status = .active)
    (hfresh : db.hasEntry (.grant actor s.customerId key) = false) (h0 : 0 < seconds) :
    wp (append s.customerId none (some operation) actor seconds .grant none
      (.grant actor s.customerId key) >>= fun _ => refreshEnd s) (fun _ => Effects c.hours l L db) c db := by
  refine wp_bind.2 (wp_append fun createdAt db₁ hlt q₁ => ?_)
  have hb : db₁.balance s.customerId = db.balance s.customerId + seconds := by
    rw [q₁.balance]
    exact Db.balance_post_entry hfresh
  have := o.nonneg s.customerId
  simp only [refreshEnd, wp_bind, wp_get, wp_ite, wp_instant, hb]
  refine ⟨fun hz => by omega, fun _ => wp_boundary fun limit hl => ?_⟩
  have hann := @wp_announce c { db₁ with clock := db₁.clock.next }
    { s with
      endsAt := min (s.lastBilledAt.plusSeconds (db.balance s.customerId + seconds)) limit
      accessUntil := limit
      meteredLeaseUntil :=
        min s.meteredLeaseUntil (min (s.lastBilledAt.plusSeconds (db.balance s.customerId + seconds)) limit) }
    .sessionExtended (fun _ => Effects c.hours l L db) fun sequence db' q => ?_
  · simp only [wp_bind, wp_pure] at hann ⊢
    exact hann
  · refine .single (.toppedUp hs ha hfresh h0 (hlt hfresh).2 rfl ?_ ?_
      (Limit.congr ?_ hl) (Quiet.trans ((q₁.trans (.next db₁)).put _) q))
    · have := q₁.clock.trans db₁.clock.le_next
      rwa [Db.post_clock] at this
    · exact q.clock
    · exact q₁.reservations.trans Db.post_reservations

theorem wp_lockActive {customer : UUID} {c : Call} {db : Db} :
    wp (lockActive customer) (fun active db' => active = db.activeByCustomer customer ∧ db' = db) c db := by
  simp only [lockActive, wp_bind, wp_ask, wp_get]
  split
  · rename_i h
    exact wp_pure.2 ⟨h.symm, rfl⟩
  · rename_i h
    simp only [wp_bind, wp_lift, wp_pure]
    exact fun _ _ => ⟨h.symm, trivial⟩

/-- The state of a grant after its settlement: the session that is left to extend, if any. -/
structure ReadyToGrant (h : Hours) (l L : ℕ) (customer : UUID) (db : Db) (active : Option GamingSession)
    (db' : Db) : Prop where
  effects : Effects h l L db db'
  grants : ∀ actor customer key, db'.hasEntry (.grant actor customer key) = db.hasEntry
    (.grant actor customer key)
  idle : (∀ s ∈ active, s.status ≠ .active) → ∀ s ∈ db'.sessions, s.customerId = customer → s.status ≠ .active
  active : ∀ s ∈ active, s ∈ db'.sessions ∧ s.customerId = customer

theorem wp_settleActive {customer : UUID} {h : Hours} {l L : ℕ} {c : Call} {db : Db} (o : Orderly L db) :
    wp (settleActive (db.activeByCustomer customer)) (ReadyToGrant h l L customer db) c db := by
  cases hs : db.activeByCustomer customer with
  | none =>
    simp only [settleActive, wp_pure]
    exact ⟨.refl, fun _ _ _ => rfl, fun _ => Db.activeByCustomer_eq_none.1 hs,
      fun _ hx => absurd hx (Option.not_mem_none _)⟩
  | some s =>
    obtain ⟨hm, hc, ha⟩ := Db.activeByCustomer_eq_some hs
    simp only [settleActive, wp_bind, wp_instant, wp_pure]
    refine wp_mono (@wp_settle c { db with clock := db.clock.next } h l L _ hm) fun s₁ db₁ h₁ => ?_
    refine ⟨(Effects.of_quiet (.next db)).trans h₁.effects, h₁.grants, fun hna x hx hxc => ?_, ?_⟩
    · by_cases hid : x.id = s.id
      · rw [Table.eq_of_key hx h₁.mem (hid.trans h₁.id.symm)]
        exact hna s₁ rfl
      · exact fun hxa => hid (o.single x ((h₁.others x hid).1 hx) s hm hxa ha (hxc.trans hc.symm) ▸ rfl)
    · intro x hx
      obtain rfl := Option.mem_some_iff.1 hx
      exact ⟨h₁.mem, h₁.customerId.trans hc⟩

theorem wp_refreshActive_inactive {active : Option GamingSession} {c : Call} {db : Db}
    (ha : ∀ s ∈ active, s.status ≠ .active) : wp (refreshActive active) (fun _ db' => db' = db) c db := by
  cases active with
  | none => exact wp_pure.2 rfl
  | some s =>
    simp only [refreshActive, wp_ite, wp_pure]
    exact ⟨fun h => absurd h (ha s rfl), fun _ => trivial⟩

theorem wp_sell {operation : FinancialOperation} {key : String} {l L : ℕ} {c : Call} {db : Db} (hl : l ≤ L)
    (o : Orderly L db) (h0 : 0 < operation.grantedSeconds)
    (hfresh : db.hasEntry (.grant operation.actorId operation.customerId key) = false) :
    wp (sell operation (.grant operation.actorId operation.customerId key))
      (fun _ => Effects c.hours l L db) c db := by
  simp only [sell, wp_bind, wp_instant, wp_insertRow]
  refine wp_mono wp_lockActive fun _ _ hactive => ?_
  obtain ⟨rfl, rfl⟩ := hactive
  refine wp_mono (wp_settleActive (h := c.hours) (l := l) o) fun active db₁ h₁ operations _ => ?_
  have q₂ : Quiet db₁ { db₁ with clock := db₁.clock.next, operations } :=
    ⟨db₁.clock.le_next, rfl, rfl, rfl, rfl, rfl⟩
  have e₂ := h₁.effects.tail (.quiet q₂)
  have o₂ : Orderly L { db₁ with clock := db₁.clock.next, operations } := o.effects hl e₂
  have hfresh₂ : Db.hasEntry { db₁ with clock := db₁.clock.next, operations }
      (.grant operation.actorId operation.customerId key) = false := (h₁.grants _ _ _).trans hfresh
  by_cases ha : ∃ s ∈ active, s.status = .active
  · obtain ⟨s, rfl, ha⟩ := ha
    obtain ⟨hs, hc⟩ := h₁.active s rfl
    rw [← hc] at hfresh₂
    have hext := @wp_append_refreshEnd l L c _ _ _ operation.id _ _ o₂ hs ha hfresh₂ h0
    simp only [refreshActive, wp_bind, wp_ite, wp_pure, hc] at hext ⊢
    exact wp_mono hext fun _ _ hr => ⟨fun _ => wp_mono hr fun _ _ he => e₂.trans he, fun hna => absurd ha hna⟩
  · push Not at ha
    have hgr := @wp_append_granted l L c { db₁ with clock := db₁.clock.next, operations } _ _ operation.id _ _
      (h₁.idle ha) hfresh₂ h0
    refine wp_mono hgr fun _ _ he => wp_mono (wp_refreshActive_inactive ha) ?_
    rintro _ _ rfl
    exact e₂.trans he

/-- A grant books nothing under a used key, and sells under a new one. -/
theorem wp_grant_cases {customer : UUID} {request : Grant} {key : String} {c : Call} {db : Db} {Q : Db → Prop}
    (hused : db.hasEntry (.grant c.actor.id customer key) = true → ∀ db', Quiet db db' → Q db')
    (hnew : db.hasEntry (.grant c.actor.id customer key) = false →
      ∀ db₁ operation minutes version, Quiet db db₁ → request.confirmed = some (minutes, version) →
      operation.grantedSeconds = minutes * 60 → operation.customerId = customer →
      operation.actorId = c.actor.id →
      wp (sell operation (.grant operation.actorId operation.customerId key)) (fun _ db₂ =>
        ∀ db', Quiet db₂ db' → Q db') c db₁) :
    wp (grant customer request key) (fun _ => Q) c db := by
  refine (QuietTx.preAuthorize _).bind_wp fun _ db₁ q₁ => ?_
  refine wp_bind.2 (wp_ask.2 ((QuietTx.requireStaff _).bind_wp fun _ db₂ q₂ => ?_))
  refine (QuietTx.lockCustomer _ _).bind_wp fun _ db₃ q₃ =>
    QuietTx.financialContext.bind_wp fun context db₄ q₄ => ?_
  have q := ((q₁.trans q₂).trans q₃).trans q₄
  simp only [wp_bind, wp_lift, wp_require, wp_orThrow, wp_get, wp_ite]
  intro _ _ locationId _ _ confirmed hconf
  obtain ⟨minutes, priceVersion⟩ := confirmed
  refine ⟨fun hk _ _ _ => ?_, fun hk price _ _ _ => ?_⟩
  · rw [q.hasEntry] at hk
    exact wp_mono (QuietTx.account _ _ _) fun _ _ q' => hused hk _ (q.trans q')
  · rw [q.hasEntry, Bool.not_eq_true] at hk
    refine wp_mono (hnew hk db₄ _ minutes priceVersion q hconf rfl rfl rfl) fun _ db₅ h₅ => ?_
    exact wp_mono (QuietTx.account _ _ _) fun _ _ q' => h₅ _ q'

theorem wp_grant {customer : UUID} {request : Grant} {key : String} {l L : ℕ} {c : Call} {db : Db}
    (hl : l ≤ L) (o : Orderly L db) :
    wp (grant customer request key) (fun _ => Effects c.hours l L db) c db := by
  refine wp_grant_cases (fun _ _ q => .of_quiet q)
    fun hfresh db₁ operation minutes version q hconf hs hc ha => ?_
  have h0 : 0 < operation.grantedSeconds := by
    have := Grant.le_of_confirmed hconf
    omega
  have hfresh₁ : db₁.hasEntry (.grant operation.actorId operation.customerId key) = false := by
    rw [q.hasEntry, hc, ha]
    exact hfresh
  exact wp_mono (wp_sell hl (o.quiet q) h0 hfresh₁) fun _ _ e _ q' =>
    ((Effects.of_quiet q).trans e).tail (.quiet q')

/-! ### Starting and ending sessions -/

theorem wp_open {s : GamingSession} {a : StationAssignment} {c : Call} {d : Db} {Q : ℕ → Db → Prop}
    (hQ : ∀ sequence sessions db', (∀ x ∈ d.sessions, x.id ≠ (s.announced sequence).id) →
      (∀ x, x ∈ sessions ↔ x ∈ d.sessions ∨ x = s.announced sequence) →
      Quiet { d with sessions } db' → Q sequence db') :
    wp (do
      insertSession s
      saveAssignment a
      let sequence ← writeCommand s .sessionStarted
      saveSession (s.announced sequence)
      return sequence) Q c d := by
  simp only [insertSession, saveSession, wp_bind, wp_insertRow, wp_modify, wp_pure]
  intro sessions hi
  refine wp_mono (QuietTx.saveAssignment a c _) fun _ db₁ q₁ => ?_
  refine wp_mono (QuietTx.writeCommand _ _ c _) fun sequence db₂ q₂ => ?_
  have q := q₁.trans q₂
  exact hQ sequence (sessions.save (s.announced sequence)) _ (Table.insert_eq_some.1 hi).1
    (fun _ => Table.mem_insert_save hi rfl) (q.put _)

/-- A started session is the only new one, and has used nothing. -/
theorem wp_start {customer station : UUID} {now : Instant} {L : ℕ} {c : Call} {db : Db} {Q : Db → Prop}
    (hnow : now ≤ db.clock.now) (hidle : ∀ s ∈ db.sessions, s.customerId = customer → s.status ≠ .active)
    (hQ : ∀ db₁ s sessions db', Quiet db db₁ → (∀ x, x ∈ sessions ↔ x ∈ db₁.sessions ∨ x = s) →
      s.billedSeconds = 0 → Quiet { db₁ with sessions } db' →
      Effects c.hours c.settings.leaseSeconds L db db' → Q db') :
    wp (start customer station now) (fun _ => Q) c db := by
  simp only [start, wp_bind, wp_ask, wp_get, wp_orThrow, wp_require, wp_lift]
  intro a _ hfree _ _
  refine wp_mono (QuietTx.requireReadyForSession station c db) fun _ db₁ q₁ => ?_
  intro hpos resource _ location _
  refine wp_boundary fun limit hl => ?_
  refine wp_mono (QuietTx.requireResourceReservationAvailableForUpdate _ _ _ _ c db₁) fun _ db₂ q₂ => ?_
  have q := q₁.trans q₂
  have hopen :=
    wp_open (c := c) (d := db₂) (a := { a with status := .activated, sessionId := some c.freshId }) (s := {
      id := c.freshId
      customerId := customer
      resourceId := station
      locationId := location
      reservationId := a.reservationId
      startedBy := a.assignedBy
      billingMode := .timeBalance
      billedSeconds := 0
      lastBilledAt := now
      meteredLeaseUntil :=
        min (now.plusSeconds c.settings.leaseSeconds) (min (now.plusSeconds (db.balance customer)) limit)
      accessUntil := limit
      moveTargetId := none
      startedAt := now
      endsAt := min (now.plusSeconds (db.balance customer)) limit
      endedAt := none
      status := .active
      terminationReason := none
      lastCommandSequence := none })
    (Q := fun _ => Q) fun sequence sessions db' hfresh hmem q' => hQ db₂ _ sessions db' q hmem rfl q' ?_
  · simp only [wp_bind, wp_pure] at hopen ⊢
    exact wp_mono hopen fun _ _ h₁ => wp_mono h₁ fun _ _ h₂ => wp_mono h₂ fun _ _ h₃ =>
      wp_mono h₃ fun _ _ h₄ _ _ => h₄
  · refine (Effects.of_quiet q).tail (.started hfresh hmem ?_ ?_ rfl rfl rfl ⟨rfl, ?_⟩ ⟨?_, rfl⟩ ?_ rfl ?_ q')
    · rw [q.sessions]
      exact hidle
    · rw [q.sessions]
      exact Db.activeByResource_eq_none.1 hfree.1
    · rw [q.balance]
      exact hpos
    · exact hnow.trans q.clock
    · exact congrArg (fun b => min (now.plusSeconds b) limit) (q.balance customer).symm
    · exact Limit.congr (q₂.reservations.symm) hl

theorem wp_activate {customer station : UUID} {L : ℕ} {c : Call} {db : Db} :
    wp (activate customer station) (fun _ => Effects c.hours c.settings.leaseSeconds L db) c db := by
  simp only [activate, lockCustomer, wp_bind, wp_ask, wp_require, wp_lift, wp_instant, wp_get]
  intro _ _ _ _
  split
  · rename_i s hs
    obtain ⟨hm, -, -⟩ := Db.activeByCustomer_eq_some hs
    simp only [wp_bind, wp_require, wp_pure]
    refine fun _ => wp_mono (@wp_settle c { db with clock := db.clock.next } c.hours c.settings.leaseSeconds
      L _ hm) fun s₁ db₁ h₁ _ => ?_
    exact (Effects.of_quiet (.next db)).trans h₁.effects
  · rename_i hs
    exact wp_start le_rfl (Db.activeByCustomer_eq_none.1 hs) fun _ _ _ _ _ _ _ _ e =>
      (Effects.of_quiet (.next db)).trans e

theorem wp_finishByOperator {id : UUID} {L : ℕ} {c : Call} {db : Db} :
    wp (finishByOperator id) (fun _ => Effects c.hours c.settings.leaseSeconds L db) c db := by
  simp only [finishByOperator, wp_bind, wp_get, wp_orThrow, wp_pure]
  exact wp_mono wp_tick fun _ _ h _ _ => h.effects

theorem wp_recover {id : UUID} {L : ℕ} {c : Call} {db : Db} :
    wp (recover id) (fun _ => Effects c.hours c.settings.leaseSeconds L db) c db := by
  simp only [recover, wp_bind, wp_get]
  refine wp_mono (wp_tick (h := c.hours) (L := L)) fun _ db₁ h₁ => ?_
  split
  · exact wp_pure.2 h₁.effects
  · rename_i s hs
    simp only [wp_bind, wp_ite, wp_pure]
    refine ⟨fun _ => wp_close fun sequence db' q => ?_, fun _ => h₁.effects⟩
    exact h₁.effects.tail (.closed (Table.find?_eq_some.1 hs).1 (by decide) q)

/-! ### The requests of the stations -/

/-- The session that a lease of `l` seconds may sign: it is not billed beyond a lease, ends as the `running`
one did, and is metered to the end of the lease. -/
structure Leasable (l L : ℕ) (now : Instant) (running session : Option GamingSession) (db : Db) : Prop where
  mem : ∀ s ∈ session, s.billingMode = .timeBalance → s.status = .active → s ∈ db.sessions ∧
    s.lastBilledAt ≤ now.plusSeconds L ∧ (∃ s₀ ∈ running, s.endsAt = s₀.endsAt) ∧
    min (now.plusSeconds l) s.endsAt ≤ s.meteredLeaseUntil
  clock : now ≤ db.clock.now
  signed : ∀ p ∈ db.signed, p.expiresAt ≤ now.plusSeconds L

theorem wp_renewedSession {station : UUID} {now : Instant} {L : ℕ} {c : Call} {db₀ db : Db}
    (o : Orderly L db₀) (q : Quiet db₀ db) (hle : db₀.clock.now ≤ now) (hge : now ≤ db.clock.now) :
    wp (renewedSession station) (fun session db' => Effects c.hours c.settings.leaseSeconds L db db' ∧
      Leasable c.settings.leaseSeconds L now (db.activeByResource station) session db') c db := by
  have hmono := Instant.plusSeconds_mono hle L
  have hsigned : ∀ p ∈ db.signed, p.expiresAt ≤ now.plusSeconds L := by
    rw [q.signed]
    exact fun p hp => (o.signed p hp).trans hmono
  have hbilled : ∀ s ∈ db.sessions, s.status = .active → s.lastBilledAt ≤ now.plusSeconds L := by
    rw [q.sessions]
    exact fun s hs ha => ((o.billed s hs ha).trans hle).trans (Instant.le_plusSeconds (Int.natCast_nonneg _))
  have hmetered : ∀ s ∈ db.sessions, s.status = .active →
      s.meteredLeaseUntil ≤ now.plusSeconds L := by
    rw [q.sessions]
    exact fun s hs ha => (o.metered s hs ha).trans hmono
  simp only [renewedSession, wp_bind, wp_get]
  split
  · exact wp_pure.2 ⟨.refl, fun _ hs => absurd hs (Option.not_mem_none _), hge, hsigned⟩
  · rename_i s hs
    obtain ⟨hm, -, ha⟩ := Db.activeByResource_eq_some hs
    simp only [wp_ite, wp_bind, wp_get, wp_pure]
    refine ⟨fun _ => wp_mono (wp_tick (h := c.hours) (L := L)) fun _ db₁ h₁ =>
      ⟨h₁.effects, fun x hx hb hax => ?_, hge.trans h₁.clock, ?_⟩,
      fun hb => ⟨.refl, fun x hx hbx _ => absurd hbx ?_, hge, hsigned⟩⟩
    · obtain ⟨hmem, hid⟩ := Table.find?_eq_some.1 hx
      have hlong : min (now.plusSeconds c.settings.leaseSeconds) x.endsAt ≤ x.meteredLeaseUntil :=
        (min_le_min_right _ (Instant.plusSeconds_mono hge _)).trans (h₁.renewed rfl rfl x hmem hid hb hax)
      obtain ⟨s₀, hs₀, hid₀, hsame⟩ := h₁.session x hmem hid
      obtain rfl := Table.eq_of_key hs₀ hm hid₀
      rcases hsame with rfl | ⟨ha₀, hle, hends⟩
      · exact ⟨hmem, hbilled _ hs₀ hax, ⟨_, hs, rfl⟩, hlong⟩
      · exact ⟨hmem, hle.trans (max_le (hbilled s₀ hs₀ ha₀) (hmetered s₀ hs₀ ha₀)), ⟨_, hs, hends⟩, hlong⟩
    · rw [h₁.signed]
      exact hsigned
    · rwa [← Option.mem_some_iff.1 hx]

theorem QuietTx.configurationVersion (station : UUID) :
    QuietTx (configurationVersion station) := fun c db => by
  simp [GManager.configurationVersion]

theorem wp_lease {L : ℕ} {c : Call} {db : Db} (o : Orderly L db) :
    wp lease (fun _ => Effects c.hours c.settings.leaseSeconds L db) c db := by
  simp only [lease, requireMachine, wp_bind, wp_ask, wp_orThrow, wp_instant]
  intro station _
  refine wp_mono (QuietTx.configurationVersion _ c _) fun version db₁ q₁ => ?_
  have q := (Quiet.next db).trans q₁
  refine wp_mono (wp_renewedSession o q db.clock.le_next q₁.clock) ?_
  rintro session db₂ ⟨e₂, hl⟩
  have e : Effects c.hours c.settings.leaseSeconds L db db₂ := (Effects.of_quiet q).trans e₂
  simp only [wp_get]
  split
  · rename_i s hs
    obtain ⟨hs, hleasable⟩ := Option.filter_eq_some_iff.1 hs
    have hleasable := of_decide_eq_true hleasable
    obtain ⟨hm, hb, -⟩ := hl.mem s hs hleasable.1 hleasable.2.1
    have hsign : ∀ p : SessionLeasePayload, p.sessionId = some s.id ∧ p.directive = .active ∧
        p.graceEndsAt = p.expiresAt ∧
        p.expiresAt = min (min (db.clock.next.now.plusSeconds c.settings.leaseSeconds)
          s.endsAt) s.meteredLeaseUntil →
        wp (sign p) (fun _ => Effects c.hours c.settings.leaseSeconds L db) c
          (db₂.putSession { s with meteredLeaseUntil := p.expiresAt }) := by
      intro p hp
      simp only [sign, wp_modify]
      exact e.tail (.leased hm hleasable.2.1 hl.clock hl.signed hb hp (.refl _))
    simp only [wp_bind, saveSession, wp_modify, wp_pure]
    exact hsign _ ⟨rfl, rfl, rfl, rfl⟩
  · have hsign : ∀ p : SessionLeasePayload, p.sessionId = none ∧ p.directive = .lock →
        p.expiresAt = db.clock.next.now.plusSeconds c.settings.leaseSeconds →
        wp (sign p) (fun _ => Effects c.hours c.settings.leaseSeconds L db) c
          { db₂ with clock := db₂.clock.next } := by
      intro p hp he
      simp only [sign, wp_modify]
      refine (e.tail (.quiet (.next db₂))).tail (.refused hp (he.trans_le ?_) (.refl _))
      exact Instant.plusSeconds_mono (hl.clock.trans db₂.clock.le_next) _
    simp only [wp_bind, wp_instant, wp_pure]
    exact hsign _ ⟨rfl, rfl⟩ rfl

theorem wp_sessionLogin {credentials : UUID → Bool} {L : ℕ} {c : Call} {db : Db} :
    wp (sessionLogin credentials) (fun _ => Effects c.hours c.settings.leaseSeconds L db) c db := by
  simp only [sessionLogin, requireMachine, wp_bind, wp_ask, wp_orThrow, wp_instant, wp_get, wp_require]
  exact fun _ _ _ _ _ => wp_mono wp_activate fun _ _ he => (Effects.of_quiet (.next db)).trans he

theorem wp_sessionLogout {id : UUID} {recovery : Bool} {L : ℕ} {c : Call} {db : Db} :
    wp (sessionLogout id recovery) (fun _ => Effects c.hours c.settings.leaseSeconds L db) c db := by
  simp only [sessionLogout, requireMachine, wp_bind, wp_ask, wp_orThrow, wp_get, wp_require, wp_ite]
  exact fun _ _ _ => ⟨fun _ => wp_recover, fun _ => wp_mono wp_tick fun _ _ h => h.effects⟩

theorem wp_heartbeat {request : HeartbeatRequest} {L : ℕ} {c : Call} {db : Db} :
    wp (heartbeat request) (fun _ => Effects c.hours c.settings.leaseSeconds L db) c db := by
  have hend : ∀ station confirmed db, wp (endConfirmed station confirmed)
      (fun _ => Effects c.hours c.settings.leaseSeconds L db) c db := by
    intro station confirmed db
    simp only [endConfirmed, wp_bind, wp_get, wp_ite, wp_pure]
    refine ⟨fun _ => ?_, fun _ => .refl⟩
    split
    · exact wp_mono wp_tick fun _ _ h => h.effects
    · exact wp_pure.2 .refl
  simp only [heartbeat, requireMachine, wp_bind, wp_ask, wp_orThrow, wp_instant, wp_get, wp_modify]
  intro station _ _ _
  refine wp_mono (hend station _ _) fun _ db₁ e₁ => ?_
  exact ((Effects.of_quiet (.next db)).trans e₁).tail (.quiet ⟨le_rfl, rfl, rfl, rfl, rfl, rfl⟩)

theorem QuietTx.poll (after : ℕ) : QuietTx (poll after) := fun c db => by
  simp [GManager.poll, requireMachine]

theorem QuietTx.acknowledge (sequence : ℕ) : QuietTx (acknowledge sequence) := fun c db => by
  simp only [GManager.acknowledge, requireMachine, wp_bind, wp_ask, wp_orThrow, wp_get, wp_instant, wp_modify]
  exact fun _ _ _ _ => ⟨db.clock.le_next, rfl, rfl, rfl, rfl, rfl⟩

theorem QuietTx.purge : QuietTx purge := fun c db => by
  simp only [GManager.purge, wp_bind, wp_instant, wp_modify]
  exact ⟨db.clock.le_next, rfl, rfl, rfl, rfl, rfl⟩

/-! ### Assignments -/

theorem QuietTx.boundary (station location customer : UUID) (own : Option UUID) (now : Instant) :
    QuietTx (boundary station location customer own now) := fun _ db => wp_boundary fun _ _ => .refl db

theorem QuietTx.assign (request : AssignmentRequest) : QuietTx (assign request) := by
  refine bind (preAuthorize _) fun _ c db => wp_bind.2 (wp_ask.2 (bind (requireStaff _) (fun _ => ?_) c db))
  refine bind (lockCustomer _ _) fun _ => bind (lift _) fun _ => bind (lift _) fun _ =>
    bind instant fun now => ?_
  refine bind (expireWaiting now) fun _ c' db => wp_bind.2 (wp_get.2 (bind (require _ _) (fun _ => ?_) c' db))
  refine bind (require _ _) fun _ => bind (require _ _) fun _ => bind (lift _) fun _ => ?_
  refine bind (requireReadyForSession _) fun _ => bind (lift _) fun _ => bind (boundary _ _ _ _ _) fun _ => ?_
  exact bind (requireResourceReservationAvailableForUpdate _ _ _ _) fun _ =>
    bind (insertAssignment _) fun _ => pure _

theorem QuietTx.cancel (id : UUID) : QuietTx (cancel id) := by
  refine bind (preAuthorize _) fun _ c db => ?_
  simp only [GManager.lockCustomer, wp_bind, wp_ask, wp_get, wp_orThrow, wp_require, wp_lift]
  exact fun _ _ _ _ _ _ _ => saveAssignment _ c db

end GManager

import GManager.Ledger

/-!
# Metering

How many seconds a settlement books. Every settlement rounds down to whole seconds, but the last billed
instant moves by whole seconds too, so the fractions are never lost: the billed seconds of a running session
are those since its start, whenever and however often it was settled before.
-/

namespace GManager

open Txn

variable {db : Db}

/-! ### One settlement -/

theorem unsettled_nonneg (s : GamingSession) (now : Instant) {balance : ℤ} (h : 0 ≤ balance) :
    0 ≤ unsettled s now balance := le_min h (le_max_left _ _)

/-- What a settlement of `delta` seconds leaves of an active session. -/
structure SettledBy (delta : ℤ) (s : GamingSession) (now : Instant) (db : Db) (s' : GamingSession)
    (db' : Db) : Prop where
  mem : s' ∈ db'.sessions
  id : s'.id = s.id
  startedAt : s'.startedAt = s.startedAt
  billedSeconds : s'.billedSeconds = s.billedSeconds + delta
  balance : db'.balance s.customerId = db.balance s.customerId - delta
  active : s'.status = .active → db.balance s.customerId - delta ≠ 0 ∧ now < s.endsAt ∧
    now < s.meteredLeaseUntil

theorem wp_settle_by {s : GamingSession} {now : Instant} {c : Call} (hc : Conserved db) (hs : s ∈ db.sessions)
    (ha : s.status = .active) (hm : s.billingMode = .timeBalance) :
    wp (settle s now) (SettledBy (unsettled s now (db.balance s.customerId)) s now db) c db := by
  have hn := unsettled_nonneg s now (hc.balanced.nonneg s.customerId)
  generalize hd : unsettled s now (db.balance s.customerId) = delta at hn ⊢
  simp only [settle, wp_ite, wp_bind, wp_get, wp_pure, hd]
  refine ⟨fun h => absurd h (by simp [ha, hm]), fun _ => ?_⟩
  have hcharge : wp (charge s delta) (fun s₁ db₁ => s₁ = s.charge delta ∧ s₁ ∈ db₁.sessions ∧
      db₁.balance s.customerId = db.balance s.customerId - delta) c db := by
    refine wp_charge (fun h0 => ?_) fun createdAt db₁ h0 _ _ q => ⟨rfl, ?_, ?_⟩
    · obtain rfl : delta = 0 := by omega
      exact ⟨by simp [GamingSession.charge, Instant.plusSeconds_zero], hs, (sub_zero _).symm⟩
    · rw [q.sessions, Db.post_putSession_sessions]
      exact Table.mem_save_self hs rfl
    · rw [q.balance, sub_eq_add_neg]
      exact Db.balance_post_entry (hc.use_fresh hs h0)
  refine wp_mono hcharge ?_
  rintro s₁ db₁ ⟨hs₁, hmem, hb⟩
  subst hs₁
  have hclose : ∀ status reason, status ≠ .active →
      wp (close (s.charge delta) status reason) (SettledBy delta s now db) c db₁ := by
    intro status reason hne
    refine wp_close fun sequence db₂ q => ⟨?_, rfl, rfl, rfl, ?_, fun h => absurd h hne⟩
    · rw [q.sessions]
      exact Table.mem_save_self hmem rfl
    · rw [q.balance]
      exact hb
  refine ⟨fun _ => ⟨fun _ => hclose _ _ (by decide), fun _ => hclose _ _ (by decide)⟩, fun hgo => ?_⟩
  have hgo : ¬ (db₁.balance s.customerId = 0 ∨ s.endsAt ≤ now ∨ s.meteredLeaseUntil ≤ now) := hgo
  rw [not_or, not_or, not_le, not_le, hb] at hgo
  exact ⟨hmem, rfl, rfl, rfl, hb, fun _ => hgo⟩

/-- What the metering promises of a settlement at `now`, given the seconds supplied to the session so far. -/
structure Metered (supply : ℤ) (s : GamingSession) (now : Instant) (s' : GamingSession)
    (db' : Db) : Prop where
  mem : s' ∈ db'.sessions
  id : s'.id = s.id
  running : s'.status = .active → s'.billedSeconds = secondsBetween s.startedAt now ∧
    0 < db'.balance s.customerId
  closed : s'.status ≠ .active → s'.billedSeconds = if s.lastBilledAt < s.cutoff now then
    min supply (secondsBetween s.startedAt (s.cutoff now)) else s.billedSeconds

/-- The seconds from the last billed instant are those from the start that are not billed yet. -/
theorem Conserved.secondsBetween (hc : Conserved db) {s : GamingSession} (hs : s ∈ db.sessions)
    (t : Instant) : GManager.secondsBetween s.lastBilledAt t = GManager.secondsBetween s.startedAt t -
    s.billedSeconds := by
  rw [hc.billedAt s hs, secondsBetween_plusSeconds]

theorem secondsBetween_nonneg {t t' : Instant} (h : t ≤ t') : 0 ≤ secondsBetween t t' := by
  rw [← secondsBetween_self t]
  exact secondsBetween_mono h

theorem secondsBetween_nonpos {t t' : Instant} (h : t' ≤ t) : secondsBetween t t' ≤ 0 := by
  rw [← secondsBetween_self t]
  exact secondsBetween_mono h

theorem wp_settle_metered {s : GamingSession} {now : Instant} {c : Call} (hc : Conserved db)
    (hs : s ∈ db.sessions) (ha : s.status = .active) (hm : s.billingMode = .timeBalance)
    (hnow : s.lastBilledAt ≤ now) :
    wp (settle s now) (Metered (db.balance s.customerId + s.billedSeconds) s now) c db := by
  have hb := hc.balanced.nonneg s.customerId
  refine wp_mono (wp_settle_by hc hs ha hm) fun s' db' h => ⟨h.mem, h.id, fun hact => ?_, fun _ => ?_⟩
  · obtain ⟨hne, hends, hlease⟩ := h.active hact
    have hcut : s.cutoff now = now := min_eq_left (le_min hends.le hlease.le)
    have h0 := secondsBetween_nonneg hnow
    have hsec := hc.secondsBetween hs now
    rw [h.billedSeconds, h.balance]
    rw [unsettled, hcut] at hne ⊢
    omega
  · rw [h.billedSeconds, unsettled]
    have hsec := hc.secondsBetween hs (s.cutoff now)
    split
    · rename_i hlt
      have h0 := secondsBetween_nonneg hlt.le
      omega
    · rename_i hge
      have h0 := secondsBetween_nonpos (not_lt.1 hge)
      omega

/-! ### The seconds supplied to a session -/

/-- While the session `id` of the customer is active, the balance and its billed seconds make up `supply` and
the seconds granted. -/
structure Supplied (id customer : UUID) (supply : ℤ) (db : Db) : Prop where
  conserved : Conserved db
  known : ∃ s ∈ db.sessions, s.id = id
  supply : ∀ s ∈ db.sessions, s.id = id → s.status = .active →
    s.customerId = customer ∧ db.balance customer + s.billedSeconds = supply + db.grantedTo customer

theorem Db.grantedTo_post {e : LedgerEntry} (hfresh : db.hasEntry e.sourceKey = false) (customer : UUID) :
    (db.post e).grantedTo customer =
      db.grantedTo customer + if e.kind = .grant ∧ e.customerId = customer then e.deltaSeconds else 0 := by
  rw [grantedTo, Db.post_rows hfresh, Journal.sumWhere_concat, ← grantedTo]
  simp only [decide_eq_true_eq]
  rfl

namespace Supplied

variable {id customer : UUID} {supply : ℤ} {db' : Db}

theorem congr (hp : Supplied id customer supply db) (hc : Conserved db') (ha : db'.accounts = db.accounts)
    (hl : db'.ledger = db.ledger) (hs : db'.sessions = db.sessions) : Supplied id customer supply db' := by
  refine ⟨hc, hs ▸ hp.known, ?_⟩
  rw [hs, Db.balance_congr ha, Db.grantedTo_congr hl]
  exact hp.supply

/-- One session is rewritten; the supply of the session `id` changes with it or not at all. -/
theorem save (hp : Supplied id customer supply db) (hc : Conserved db') {s r : GamingSession}
    (hs : s ∈ db.sessions) (hid : r.id = s.id) (hsess : db'.sessions = db.sessions.save r)
    (hr : s.id = id → r.status = .active → r.customerId = customer ∧
      db'.balance customer + r.billedSeconds = supply + db'.grantedTo customer)
    (hx : ∀ x ∈ db.sessions, x.status = .active → x.id ≠ s.id → x.customerId = customer →
      db'.balance customer = db.balance customer ∧ db'.grantedTo customer = db.grantedTo customer) :
    Supplied id customer supply db' := by
  have hmem : ∀ x, x ∈ db'.sessions ↔ x = r ∨ x ∈ db.sessions ∧ x.id ≠ s.id :=
    fun _ => Db.mem_saved hs hid hsess
  obtain ⟨x, hxm, hxid⟩ := hp.known
  refine ⟨hc, ?_, fun y hy hyid hya => ?_⟩
  · by_cases hxs : x.id = s.id
    · exact ⟨r, (hmem r).2 (.inl rfl), hid.trans (hxs.symm.trans hxid)⟩
    · exact ⟨x, (hmem x).2 (.inr ⟨hxm, hxs⟩), hxid⟩
  · rcases (hmem y).1 hy with rfl | ⟨hym, hne⟩
    · exact hr (hid.symm.trans hyid) hya
    · obtain ⟨hyc, hsum⟩ := hp.supply y hym hyid hya
      obtain ⟨hb, hg⟩ := hx y hym hya hne hyc
      exact ⟨hyc, by rw [hb, hg]; exact hsum⟩

/-- One session is rewritten without its account. -/
theorem touch (hp : Supplied id customer supply db) (hc : Conserved db') (ha : db'.accounts = db.accounts)
    (hl : db'.ledger = db.ledger) {s r : GamingSession} (hs : s ∈ db.sessions) (hid : r.id = s.id)
    (hcust : r.customerId = s.customerId) (hb : r.billedSeconds = s.billedSeconds)
    (hact : r.status = .active → s.status = .active) (hsess : db'.sessions = db.sessions.save r) :
    Supplied id customer supply db' := by
  have hbal := Db.balance_congr ha customer
  have hgr := Db.grantedTo_congr hl customer
  refine hp.save hc hs hid hsess (fun hsid ha' => ?_) fun _ _ _ _ _ => ⟨hbal, hgr⟩
  rw [hcust, hbal, hb, hgr]
  exact hp.supply s hs hsid (hact ha')

theorem effect {h : Hours} {l L : ℕ} (hp : Supplied id customer supply db) (o : Orderly L db)
    (e : Effect h l L db db') : Supplied id customer supply db' := by
  have hc := hp.conserved.effect e
  cases e with
  | quiet q => exact hp.congr hc q.accounts q.ledger q.sessions
  | @charged s delta createdAt e hs ha hm hd h0 hlt he q =>
    have hfresh : db.hasEntry (.use s.id (s.billedSeconds + delta)) = false := hp.conserved.use_fresh hs h0
    have hgrant : ∀ customer, db'.grantedTo customer = db.grantedTo customer := by
      intro customer
      rw [Db.grantedTo_congr q.ledger]
      refine (Db.grantedTo_post (by rw [he]; exact hfresh) customer).trans ?_
      rw [if_neg (by simp [he, Db.entry]), add_zero]
    refine hp.save hc hs (r := s.charge delta) rfl (q.sessions.trans Db.post_putSession_sessions)
      (fun hid _ => ?_) fun x hx hxa hne hxc => ⟨?_, hgrant _⟩
    · obtain ⟨rfl, hsum⟩ := hp.supply s hs hid ha
      refine ⟨rfl, ?_⟩
      rw [hgrant, q.balance]
      have hbal : (db.post e).balance s.customerId = db.balance s.customerId + -delta := by
        rw [he]
        exact Db.balance_post_entry hfresh
      show (db.post e).balance s.customerId + (s.billedSeconds + delta) = _
      omega
    · rw [q.balance]
      refine (Db.balance_post (by rw [he]; exact hfresh) _).trans (if_neg fun hce => hne ?_)
      rw [he] at hce
      exact o.single x hx s hs hxa ha (hxc.trans hce) ▸ rfl
  | @closed s status reason sequence hs hst q =>
    exact hp.touch hc q.accounts q.ledger (r := s.closed status reason sequence) hs rfl rfl rfl
      (fun ha => absurd ha hst) q.sessions
  | @granted other actor operation seconds key createdAt e hidle hfresh h0 hlt he q =>
    have hsess : db'.sessions = db.sessions := q.sessions.trans Db.post_sessions
    refine ⟨hc, hsess ▸ hp.known, fun s hs hid ha => ?_⟩
    rw [hsess] at hs
    obtain ⟨rfl, hsum⟩ := hp.supply s hs hid ha
    -- the grant goes to somebody who does not play
    have hne : other ≠ s.customerId := fun h => hidle s hs h.symm ha
    refine ⟨rfl, ?_⟩
    rw [q.balance, Db.grantedTo_congr q.ledger, Db.grantedTo_post (by rw [he]; exact hfresh),
      Db.balance_post (by rw [he]; exact hfresh), if_neg (by rw [he]; exact hne.symm),
      if_neg (by rw [he]; exact fun h => hne h.2), add_zero]
    exact hsum
  | @toppedUp s actor operation seconds key createdAt now limit sequence e hs ha hfresh h0 hlt he
      hnow hnow' hl q =>
    have hgrant : ∀ customer, db'.grantedTo customer =
        db.grantedTo customer + if e.kind = .grant ∧ e.customerId = customer then e.deltaSeconds else 0 := by
      intro customer
      rw [Db.grantedTo_congr q.ledger]
      exact Db.grantedTo_post (by rw [he]; exact hfresh) customer
    refine hp.save hc hs (r := s.extended (db.balance s.customerId + seconds) limit sequence) rfl
      (q.sessions.trans Db.post_putSession_sessions) (fun hid _ => ?_) fun x hx hxa hne hxc => ?_
    · obtain ⟨rfl, hsum⟩ := hp.supply s hs hid ha
      refine ⟨rfl, ?_⟩
      have hbal : (db.post e).balance s.customerId = db.balance s.customerId + seconds := by
        rw [he]
        exact Db.balance_post_entry hfresh
      have hdelta : e.deltaSeconds = seconds := by rw [he, Db.entry]
      rw [hgrant, q.balance, if_pos (by rw [he]; exact ⟨rfl, rfl⟩), hdelta]
      show (db.post e).balance s.customerId + s.billedSeconds = supply + (db.grantedTo s.customerId + seconds)
      omega
    · have hne : customer ≠ s.customerId := fun h => hne (o.single x hx s hs hxa ha (hxc.trans h) ▸ rfl)
      rw [hgrant, q.balance, if_neg (by rw [he]; exact fun h => hne h.2.symm), add_zero]
      exact ⟨(Db.balance_post (by rw [he]; exact hfresh) _).trans (if_neg (by rw [he]; exact hne)), rfl⟩
  | @renewed s hs ha q =>
    exact hp.touch hc q.accounts q.ledger
      (r := { s with meteredLeaseUntil := min (db.clock.now.plusSeconds l) s.endsAt }) hs rfl rfl rfl
        (fun _ => ha) q.sessions
  | @leased s p now hs ha hnow hsigned hbilled hl q =>
    exact hp.touch hc q.accounts q.ledger (r := { s with meteredLeaseUntil := p.expiresAt }) hs rfl rfl rfl
      (fun _ => ha) q.sessions
  | refused hl hexp q => exact hp.congr hc q.accounts q.ledger q.sessions
  | @started s sessions hfresh hmem hcustomer hstation ha hm hmove hb hnow hends hlease hl q =>
    obtain ⟨x, hx, rfl⟩ := hp.known
    refine ⟨hc, ⟨x, ?_, rfl⟩, fun y hy hyid hya => ?_⟩
    · rw [q.sessions]
      exact (hmem x).2 (.inl hx)
    · rw [q.sessions] at hy
      rw [q.balance, Db.grantedTo_congr q.ledger]
      rcases (hmem y).1 hy with hy | rfl
      · exact hp.supply y hy hyid hya
      · exact absurd hyid.symm (hfresh x hx)
  | booked hlt hpend hemployee hresource hi q => exact hp.congr hc q.accounts q.ledger q.sessions
  | moved hr hsame hstatus hlt hemployee hresource hsession q =>
    exact hp.congr hc q.accounts q.ledger q.sessions
  | changed hr hcd q => exact hp.congr hc q.accounts q.ledger q.sessions

end Supplied

/-- The requests that start sessions. -/
def Op.Activates : Op → Prop
  | .activate _ _ => True
  | .sessionLogin _ => True
  | _ => False

/-- The sessions that are new in `db'` have used nothing, and nothing was booked. -/
def OpensUnbilled (db db' : Db) : Prop :=
  ∀ s ∈ db'.sessions, (∀ x ∈ db.sessions, x.id ≠ s.id) →
    s.billedSeconds = 0 ∧ db'.accounts = db.accounts ∧ db'.ledger = db.ledger

theorem OpensUnbilled.of_quiet {db' : Db} (q : Quiet db db') : OpensUnbilled db db' :=
  fun s hs hnew => absurd rfl (hnew s (q.sessions ▸ hs))

theorem OpensUnbilled.head {db₁ db' : Db} (q : Quiet db db₁) (h : OpensUnbilled db₁ db') :
    OpensUnbilled db db' := by
  intro s hs hnew
  rw [← q.sessions] at hnew
  obtain ⟨hb, ha, hl⟩ := h s hs hnew
  exact ⟨hb, ha.trans q.accounts, hl.trans q.ledger⟩

theorem wp_activate_unbilled {customerId stationId : UUID} {c : Call} :
    wp (activate customerId stationId) (fun _ => OpensUnbilled db) c db := by
  simp only [activate, lockCustomer, wp_bind, wp_ask, wp_require, wp_lift, wp_instant, wp_get]
  intro _ _ _ _
  split
  · rename_i s hs
    obtain ⟨hm, -, -⟩ := Db.activeByCustomer_eq_some hs
    simp only [wp_bind, wp_require, wp_pure]
    refine fun _ => wp_mono (@wp_settle c { db with clock := db.clock.next } c.hours 0 0 _ hm)
      fun s₁ db₁ h₁ _ x hx hnew => ?_
    by_cases hid : x.id = s.id
    · exact absurd hid.symm (hnew s hm)
    · exact absurd rfl (hnew x ((h₁.others x hid).1 hx))
  · rename_i hs
    refine wp_start (L := 0) le_rfl (Db.activeByCustomer_eq_none.1 hs)
      fun db₁ s sessions db' q hmem hb q' _ x hx hnew => ?_
    rw [q'.sessions] at hx
    rcases (hmem x).1 hx with hx | rfl
    · exact absurd rfl (hnew x (q.sessions ▸ hx))
    · exact ⟨hb, q'.accounts.trans q.accounts, q'.ledger.trans q.ledger⟩

theorem wp_sessionLogin_unbilled {credentials : UUID → Bool} {c : Call} :
    wp (sessionLogin credentials) (fun _ => OpensUnbilled db) c db := by
  simp only [sessionLogin, requireMachine, wp_bind, wp_ask, wp_orThrow, wp_instant, wp_get, wp_require]
  exact fun _ _ _ _ _ => wp_mono wp_activate_unbilled fun _ _ h => h.head (.next db)

theorem step_unbilled {r : Request} (hop : r.op.Activates) : OpensUnbilled db (step db r) := by
  have q : Quiet db (db.listen r.call.readings) := .listen _
  refine commit_of_wp (.of_quiet q) ?_
  cases hr : r.op with
  | activate customerId stationId => exact wp_discard (wp_mono wp_activate_unbilled fun _ _ h => h.head q)
  | sessionLogin credentials => exact wp_discard (wp_mono wp_sessionLogin_unbilled fun _ _ h => h.head q)
  | _ => exact absurd hop (by simp [hr, Op.Activates])

/-- The seconds supplied to a session: those of the account when it was activated, and those granted since. -/
theorem Reachable.supplied {db₀ : Db} (hdb : Reachable db₀) {r : Request} (hop : r.op.Activates)
    {s₁ : GamingSession} (hs₁ : s₁ ∈ (step db₀ r).sessions) (hnew : ∀ x ∈ db₀.sessions, x.id ≠ s₁.id)
    (rs : List Request) : Supplied s₁.id s₁.customerId
      (db₀.balance s₁.customerId - db₀.grantedTo s₁.customerId) (GManager.run (step db₀ r) rs) := by
  have hstep : Reachable (step db₀ r) := hdb.run [r]
  refine hstep.run_induct (fun o hp e => hp.effect o e) rs ⟨hstep.conserved, ⟨s₁, hs₁, rfl⟩,
    fun s hs hid _ => ?_⟩
  obtain rfl := Table.eq_of_key hs hs₁ hid
  obtain ⟨hb, ha, hl⟩ := step_unbilled hop s hs hnew
  refine ⟨rfl, ?_⟩
  rw [hb, Db.balance_congr ha, Db.grantedTo_congr hl]
  omega

end GManager

import GManager.Requests

/-!
# Conservation of time

The balances, the ledger, the billed seconds of the sessions and their last billed instants are written
separately; `Conserved` is what keeps them in step. The source key `use:<session>:<total>` never hides an
entry, because the totals of a session only grow.
-/

namespace GManager

open Txn

/-- The ledger read as a journal of the customers' accounts. -/
def timeJournal : Journal UUID LedgerEntry := ⟨(·.customerId), (·.deltaSeconds), (·.balanceAfter)⟩

namespace Db

/-- The seconds taken by the consumption entries of a session. -/
def consumedBy (db : Db) (session : UUID) : ℤ :=
  -timeJournal.sumWhere (fun e => e.kind = .consumption ∧ e.sessionId = some session) db.ledger.rows

/-- The seconds booked under a source key. -/
def bookedUnder (db : Db) (source : SourceKey) : ℤ :=
  timeJournal.sumWhere (fun e => e.sourceKey = source) db.ledger.rows

/-- The seconds ever granted to a customer. -/
def grantedTo (db : Db) (customer : UUID) : ℤ :=
  timeJournal.sumWhere (fun e => e.kind = .grant ∧ e.customerId = customer) db.ledger.rows

end Db

theorem Db.grantedTo_congr {db db' : Db} (h : db'.ledger = db.ledger) (customer : UUID) :
    db'.grantedTo customer = db.grantedTo customer := by
  rw [grantedTo, h, grantedTo]

theorem Db.bookedUnder_congr {db db' : Db} (h : db'.ledger = db.ledger) (source : SourceKey) :
    db'.bookedUnder source = db.bookedUnder source := by
  rw [bookedUnder, h, bookedUnder]

theorem Db.post_rows {db : Db} {e : LedgerEntry} (hfresh : db.hasEntry e.sourceKey = false) :
    (db.post e).ledger.rows = db.ledger.rows ++ [e] := by
  obtain ⟨t, hi, ht⟩ := Db.post_of_fresh hfresh
  rw [ht]
  exact (Table.insert_eq_some.1 hi).2

theorem Db.mem_post {db : Db} {e x : LedgerEntry} (hfresh : db.hasEntry e.sourceKey = false) :
    x ∈ (db.post e).ledger ↔ x ∈ db.ledger ∨ x = e := by
  rw [← Table.mem_rows, Db.post_rows hfresh, List.mem_append, List.mem_singleton, Table.mem_rows]

/-- The four records of used time agree. -/
structure Conserved (db : Db) : Prop where
  balanced : timeJournal.Balanced db.balance db.ledger.rows
  consumed : ∀ s ∈ db.sessions, db.consumedBy s.id = s.billedSeconds
  billedAt : ∀ s ∈ db.sessions, s.lastBilledAt = s.startedAt.plusSeconds s.billedSeconds
  keys : ∀ e ∈ db.ledger, ∀ session total, e.sourceKey = .use session total →
    ∃ s ∈ db.sessions, s.id = session ∧ total ≤ s.billedSeconds
  session : ∀ e ∈ db.ledger, ∀ session, e.sessionId = some session → ∃ s ∈ db.sessions, s.id = session

namespace Conserved

variable {h : Hours} {l L : ℕ} {db db' : Db}

theorem empty (t : Instant) : Conserved (Db.empty t) :=
  ⟨Journal.balanced_nil _, fun _ hs => absurd hs Table.not_mem_empty, fun _ hs =>
    absurd hs Table.not_mem_empty, fun _ he => absurd he Table.not_mem_empty, fun _ he =>
    absurd he Table.not_mem_empty⟩

/-- No total beyond the billed seconds of a session has been booked. -/
theorem use_fresh (hc : Conserved db) {s : GamingSession} (hs : s ∈ db.sessions) {delta : ℤ}
    (h0 : 0 < delta) : db.hasEntry (.use s.id (s.billedSeconds + delta)) = false := by
  refine Db.hasEntry_eq_false.2 fun e he hk => ?_
  obtain ⟨s', hs', hid, hle⟩ := hc.keys e he _ _ hk
  rw [Table.eq_of_key hs' hs hid] at hle
  omega

theorem congr (hc : Conserved db) (ha : db'.accounts = db.accounts) (hl : db'.ledger = db.ledger)
    (hs : db'.sessions = db.sessions) : Conserved db' := by
  refine ⟨?_, ?_, ?_, ?_, ?_⟩
  · rw [hl]
    exact hc.balanced.congr (Db.balance_congr ha)
  · rw [hs]
    simpa only [Db.consumedBy, hl] using hc.consumed
  · rw [hs]
    exact hc.billedAt
  · rw [hl, hs]
    exact hc.keys
  · rw [hl, hs]
    exact hc.session

theorem quiet (hc : Conserved db) (q : Quiet db db') : Conserved db' :=
  hc.congr q.accounts q.ledger q.sessions

/-- A session is written that has used and started what it had before. -/
theorem putSession (hc : Conserved db) {s r : GamingSession} (hs : s ∈ db.sessions) (hid : r.id = s.id)
    (hb : r.billedSeconds = s.billedSeconds) (hl : r.lastBilledAt = s.lastBilledAt)
    (hst : r.startedAt = s.startedAt) : Conserved (db.putSession r) := by
  have hex : ∀ id, (∃ x ∈ db.sessions, x.id = id) → ∃ x ∈ (db.putSession r).sessions, x.id = id := by
    rintro id ⟨x, hx, rfl⟩
    by_cases hxs : x.id = s.id
    · exact ⟨r, (Db.mem_putSession hs hid).2 (.inl rfl), hid.trans hxs.symm⟩
    · exact ⟨x, (Db.mem_putSession hs hid).2 (.inr ⟨hx, hxs⟩), rfl⟩
  refine ⟨hc.balanced, fun x hx => ?_, fun x hx => ?_, fun e he session total hk => ?_,
    fun e he session hk => hex _ (hc.session e he session hk)⟩
  · rcases (Db.mem_putSession hs hid).1 hx with rfl | ⟨hx, -⟩
    · rw [hid, hb]
      exact hc.consumed s hs
    · exact hc.consumed x hx
  · rcases (Db.mem_putSession hs hid).1 hx with rfl | ⟨hx, -⟩
    · rw [hl, hst, hb]
      exact hc.billedAt s hs
    · exact hc.billedAt x hx
  · obtain ⟨x, hx, hxid, hle⟩ := hc.keys e he session total hk
    by_cases hxs : x.id = s.id
    · refine ⟨r, (Db.mem_putSession hs hid).2 (.inl rfl), hid.trans (hxs.symm.trans hxid), ?_⟩
      rwa [hb, ← Table.eq_of_key hx hs hxs]
    · exact ⟨x, (Db.mem_putSession hs hid).2 (.inr ⟨hx, hxs⟩), hxid, hle⟩

theorem balanced_post (hc : Conserved db) {e : LedgerEntry} (hfresh : db.hasEntry e.sourceKey = false)
    (hafter : e.balanceAfter = db.balance e.customerId + e.deltaSeconds) (h0 : 0 ≤ e.balanceAfter) :
    timeJournal.Balanced (db.post e).balance (db.post e).ledger.rows := by
  rw [Db.post_rows hfresh]
  exact hc.balanced.post hafter h0 (Db.balance_post hfresh)

/-- The entry of a grant is booked. -/
theorem post_grant (hc : Conserved db) {customer actor : UUID} {operation : Option UUID} {seconds : ℤ}
    {key : String} {createdAt : Instant} {e : LedgerEntry}
    (hfresh : db.hasEntry (.grant actor customer key) = false) (h0 : 0 < seconds)
    (he : e = db.entry customer none operation actor seconds .grant none (.grant actor customer key)
      createdAt) :
    Conserved (db.post e) := by
  have hn := hc.balanced.nonneg customer
  have hfresh : db.hasEntry e.sourceKey = false := by rwa [he, Db.entry]
  refine ⟨hc.balanced_post hfresh (by rw [he, Db.entry]) ?_, fun s hs => ?_, ?_,
    fun x hx session total hk => ?_, fun x hx session hk => ?_⟩
  · rw [he, Db.entry_balanceAfter]
    omega
  · rw [Db.post_sessions] at hs
    rw [Db.consumedBy, Db.post_rows hfresh, Journal.sumWhere_concat,
      if_neg (by simp [he, Db.entry]), add_zero]
    exact hc.consumed s hs
  · rw [Db.post_sessions]
    exact hc.billedAt
  · rw [Db.post_sessions]
    rcases (Db.mem_post hfresh).1 hx with hx | rfl
    · exact hc.keys x hx session total hk
    · rw [he, Db.entry] at hk
      cases hk
  · rw [Db.post_sessions]
    rcases (Db.mem_post hfresh).1 hx with hx | rfl
    · exact hc.session x hx session hk
    · rw [he, Db.entry] at hk
      cases hk

/-- The entry of a settlement is booked and its seconds are added to the session. -/
theorem charge (hc : Conserved db) {s : GamingSession} (hs : s ∈ db.sessions) {delta : ℤ} (h0 : 0 < delta)
    (hle : delta ≤ db.balance s.customerId) {e : LedgerEntry} {createdAt : Instant}
    (he : e = db.entry s.customerId (some s.id) none s.startedBy (-delta) .consumption none
      (.use s.id (s.billedSeconds + delta)) createdAt) :
      Conserved ((db.post e).putSession (s.charge delta)) := by
  have hkey : e.sourceKey = .use s.id (s.billedSeconds + delta) := by rw [he, Db.entry]
  have hsid : e.sessionId = some s.id := by rw [he, Db.entry]
  have hfresh : db.hasEntry e.sourceKey = false := by
    rw [hkey]
    exact hc.use_fresh hs h0
  have hs' : s ∈ (db.post e).sessions := by rwa [Db.post_sessions]
  have hmem : ∀ x, x ∈ ((db.post e).putSession (s.charge delta)).sessions ↔
      x = s.charge delta ∨ x ∈ db.sessions ∧ x.id ≠ s.id := by
    intro x
    rw [Db.mem_putSession (s := s) (r := s.charge delta) hs' rfl, Db.post_sessions]
  refine ⟨?_, fun x hx => ?_, fun x hx => ?_, fun x hx session total hk => ?_, fun x hx session hk => ?_⟩
  · refine hc.balanced_post hfresh (by rw [he, Db.entry]) ?_
    rw [he, Db.entry_balanceAfter]
    omega
  · show -timeJournal.sumWhere _ (db.post e).ledger.rows = _
    rw [Db.post_rows hfresh, Journal.sumWhere_concat]
    rcases (hmem x).1 hx with rfl | ⟨hx, hne⟩
    · rw [if_pos (by simp [he, Db.entry, GamingSession.charge]), he]
      have : db.consumedBy s.id = s.billedSeconds := hc.consumed s hs
      have hsum : -(-db.consumedBy s.id + -delta) = s.billedSeconds + delta := by omega
      rwa [Db.consumedBy, neg_neg] at hsum
    · rw [if_neg (by simpa [hsid] using fun _ => Ne.symm hne), add_zero]
      exact hc.consumed x hx
  · rcases (hmem x).1 hx with rfl | ⟨hx, -⟩
    · show s.lastBilledAt.plusSeconds delta = s.startedAt.plusSeconds (s.billedSeconds + delta)
      rw [hc.billedAt s hs, Instant.plusSeconds_plusSeconds]
    · exact hc.billedAt x hx
  · rcases (Db.mem_post hfresh).1 hx with hx | rfl
    · obtain ⟨y, hy, hid, hn⟩ := hc.keys x hx session total hk
      by_cases hys : y.id = s.id
      · obtain rfl := Table.eq_of_key hy hs hys
        exact ⟨_, (hmem _).2 (.inl rfl), hid, hn.trans (by simp [GamingSession.charge, h0.le])⟩
      · exact ⟨y, (hmem y).2 (.inr ⟨hy, hys⟩), hid, hn⟩
    · rw [hkey] at hk
      cases hk
      exact ⟨_, (hmem _).2 (.inl rfl), rfl, le_rfl⟩
  · rcases (Db.mem_post hfresh).1 hx with hx | rfl
    · obtain ⟨y, hy, hid⟩ := hc.session x hx session hk
      by_cases hys : y.id = s.id
      · exact ⟨_, (hmem _).2 (.inl rfl), hys.symm.trans hid⟩
      · exact ⟨y, (hmem y).2 (.inr ⟨hy, hys⟩), hid⟩
    · rw [hsid] at hk
      exact ⟨_, (hmem _).2 (.inl rfl), Option.some.inj hk⟩

theorem effect (hc : Conserved db) (e : Effect h l L db db') : Conserved db' := by
  cases e with
  | quiet q => exact hc.quiet q
  | @charged s delta createdAt e hs ha hm hd h0 hlt he q =>
    refine (hc.charge hs h0 ?_ he).quiet q
    rw [hd]
    exact min_le_left _ _
  | @closed s status reason sequence hs hst q =>
    exact (hc.putSession (r := s.closed status reason sequence) hs rfl rfl rfl rfl).quiet q
  | @granted customer actor operation seconds key createdAt e hidle hfresh h0 hlt he q =>
    exact (hc.post_grant hfresh h0 he).quiet q
  | @toppedUp s actor operation seconds key createdAt now limit sequence e hs ha hfresh h0 hlt he
      hnow hnow' hl q =>
    have hs' : s ∈ (db.post e).sessions := by rwa [Db.post_sessions]
    exact ((hc.post_grant hfresh h0 he).putSession (r := s.extended _ limit sequence) hs' rfl
      rfl rfl rfl).quiet q
  | @renewed s hs ha q =>
    exact (hc.putSession (r := { s with meteredLeaseUntil := min (db.clock.now.plusSeconds l) s.endsAt })
      hs rfl rfl rfl rfl).quiet q
  | @leased s p now hs ha hnow hsigned hbilled hp q =>
    have hput := hc.putSession (r := { s with meteredLeaseUntil := p.expiresAt }) hs rfl rfl rfl rfl
    exact hput.congr q.accounts q.ledger q.sessions
  | refused hp he q => exact hc.congr q.accounts q.ledger q.sessions
  | @started s sessions hfresh hmem hcustomer hstation ha hm hmove hb hnow hends hlease hl q =>
    refine (Conserved.quiet (show Conserved { db with sessions } from
      ⟨hc.balanced, fun x hx => ?_, fun x hx => ?_, fun e he session total hk => ?_,
        fun e he session hk => ?_⟩) q)
    · rcases (hmem x).1 hx with hx | rfl
      · exact hc.consumed x hx
      · -- nothing was booked for a session that did not exist
        rw [hb.1, Db.consumedBy, Journal.sumWhere_eq_zero, neg_zero]
        intro e he
        refine decide_eq_false fun hk => ?_
        obtain ⟨y, hy, hid⟩ := hc.session e he _ hk.2
        exact hfresh y hy hid
    · rcases (hmem x).1 hx with hx | rfl
      · exact hc.billedAt x hx
      · rw [hb.1, hnow.2, Instant.plusSeconds_zero]
    · obtain ⟨y, hy, hrest⟩ := hc.keys e he session total hk
      exact ⟨y, (hmem y).2 (.inl hy), hrest⟩
    · obtain ⟨y, hy, hid⟩ := hc.session e he session hk
      exact ⟨y, (hmem y).2 (.inl hy), hid⟩
  | booked hr hp he hres hi q => exact hc.congr q.accounts q.ledger q.sessions
  | moved hr hsame hstatus hlt he hres hses q => exact hc.congr q.accounts q.ledger q.sessions
  | changed hr hcd q => exact hc.congr q.accounts q.ledger q.sessions

end Conserved

theorem Reachable.conserved {db : Db} (hdb : Reachable db) : Conserved db :=
  hdb.induct .empty fun _ hc e => hc.effect e

/-! ### The ledger only grows -/

theorem Db.prefix_post {db : Db} {e : LedgerEntry} : db.ledger.rows <+: (db.post e).ledger.rows := by
  cases hk : db.hasEntry e.sourceKey with
  | true =>
    have hsame := Db.post_of_hasEntry hk
    exact hsame.symm ▸ List.prefix_rfl
  | false =>
    rw [Db.post_rows hk]
    exact List.prefix_append _ _

theorem Effect.ledger_prefix {h : Hours} {l L : ℕ} {db db' : Db} (e : Effect h l L db db') :
    db.ledger.rows <+: db'.ledger.rows := by
  cases e with
  | charged _ _ _ _ _ _ _ q | granted _ _ _ _ _ q | toppedUp _ _ _ _ _ _ _ _ _ q =>
    rw [q.ledger]
    exact Db.prefix_post
  | quiet q | closed _ _ q | renewed _ _ q | leased _ _ _ _ _ _ q | refused _ _ q
  | started _ _ _ _ _ _ _ _ _ _ _ _ q
  | booked _ _ _ _ _ q | moved _ _ _ _ _ _ _ q | changed _ _ q =>
    exact (congrArg Table.rows q.ledger.symm) ▸ List.prefix_rfl

/-- What is booked under a used key stays the same. -/
theorem Db.bookedUnder_of_prefix {db db' : Db} (hp : db.ledger.rows <+: db'.ledger.rows) {source : SourceKey}
    (hs : db.hasEntry source = true) : db'.bookedUnder source = db.bookedUnder source := by
  obtain ⟨t, ht⟩ := hp
  obtain ⟨x, hx⟩ := Option.isSome_iff_exists.1 hs
  obtain ⟨hmem, rfl⟩ := Table.find?_eq_some.1 hx
  have hnodup := db'.ledger.nodup
  rw [← ht, List.map_append] at hnodup
  have hnone : timeJournal.sumWhere (fun e => e.sourceKey = x.sourceKey) t = 0 := by
    refine Journal.sumWhere_eq_zero _ fun y hy => decide_eq_false fun hk => ?_
    exact List.disjoint_of_nodup_append hnodup (List.mem_map_of_mem hmem) (List.mem_map.2 ⟨y, hy, hk⟩)
  rw [bookedUnder, ← ht, Journal.sumWhere_append, hnone, add_zero, bookedUnder]

theorem Reachable.ledger_prefix {db : Db} (hdb : Reachable db) (rs : List Request) :
    db.ledger.rows <+: (GManager.run db rs).ledger.rows :=
  hdb.run_induct (P := fun db' => db.ledger.rows <+: db'.ledger.rows)
    (fun _ hp e => hp.trans e.ledger_prefix) rs List.prefix_rfl

/-! ### Grants -/

theorem Db.bookedUnder_post {db : Db} {e : LedgerEntry} (hfresh : db.hasEntry e.sourceKey = false) :
    (db.post e).bookedUnder e.sourceKey = e.deltaSeconds := by
  have hnone : timeJournal.sumWhere (fun x => x.sourceKey = e.sourceKey) db.ledger.rows = 0 :=
    Journal.sumWhere_eq_zero _ fun x hx => decide_eq_false (Db.hasEntry_eq_false.1 hfresh x hx)
  rw [bookedUnder, Db.post_rows hfresh, Journal.sumWhere_concat, hnone, if_pos (decide_eq_true rfl), zero_add]
  rfl

theorem wp_refreshActive_ledger {active : Option GamingSession} {c : Call} {db : Db} :
    wp (refreshActive active) (fun _ db' => db'.ledger = db.ledger) c db := by
  cases active with
  | none => exact wp_pure.2 rfl
  | some s =>
    simp only [refreshActive, refreshEnd, wp_ite, wp_bind, wp_get, wp_instant, wp_pure]
    refine ⟨fun _ => ⟨fun _ => wp_close fun _ _ q => q.ledger, fun _ => wp_boundary fun limit _ => ?_⟩,
      fun _ => trivial⟩
    have hann := @wp_announce c { db with clock := db.clock.next }
      { s with
        endsAt := min (s.lastBilledAt.plusSeconds (db.balance s.customerId)) limit
        accessUntil := limit
        meteredLeaseUntil :=
          min s.meteredLeaseUntil (min (s.lastBilledAt.plusSeconds (db.balance s.customerId)) limit) }
      .sessionExtended (fun _ db' => db'.ledger = db.ledger) fun _ _ q => q.ledger
    simp only [wp_bind, wp_pure] at hann ⊢
    exact hann

theorem wp_sell_booked {operation : FinancialOperation} {key : String} {L : ℕ} {c : Call} {db : Db}
    (o : Orderly L db) (hfresh : db.hasEntry (.grant operation.actorId operation.customerId key) = false) :
    wp (sell operation (.grant operation.actorId operation.customerId key)) (fun _ db' =>
      db'.bookedUnder (.grant operation.actorId operation.customerId key) =
        operation.grantedSeconds) c db := by
  simp only [sell, wp_bind, wp_instant, wp_insertRow]
  refine wp_mono wp_lockActive fun _ _ hactive => ?_
  obtain ⟨rfl, rfl⟩ := hactive
  refine wp_mono (wp_settleActive (h := c.hours) (l := 0) o) fun active db₁ h₁ operations _ => ?_
  refine wp_append fun createdAt db₂ _ q₂ => wp_mono wp_refreshActive_ledger fun _ db₃ h₃ => ?_
  rw [Db.bookedUnder_congr (h₃.trans q₂.ledger)]
  exact Db.bookedUnder_post ((h₁.grants _ _ _).trans hfresh)

theorem wp_grant_booked {customer : UUID} {request : Grant} {key : String} {c : Call} {db : Db} {L : ℕ}
    (o : Orderly L db) (hfresh : db.hasEntry (.grant c.actor.id customer key) = false) :
    wp (grant customer request key)
      (fun _ db' => ∃ minutes version, request.confirmed = some (minutes, version) ∧
        db'.bookedUnder (.grant c.actor.id customer key) = minutes * 60) c db := by
  refine wp_grant_cases (fun hused => absurd hused (by simp [hfresh]))
    fun _ db₁ operation minutes version q hconf hs hc ha => ?_
  have hfresh₁ : db₁.hasEntry (.grant operation.actorId operation.customerId key) = false := by
    rw [q.hasEntry, hc, ha]
    exact hfresh
  refine wp_mono (wp_sell_booked (o.quiet q) hfresh₁) fun _ db₂ hb db' q' => ⟨minutes, version, hconf, ?_⟩
  rw [Db.bookedUnder_congr q'.ledger, ← hs, ← hb, hc, ha]

/-- If the key is used, then for the minutes that the request confirms. -/
def SoldOnce (request : Grant) (source : SourceKey) (db : Db) : Prop :=
  db.hasEntry source = true → ∃ minutes version, request.confirmed = some (minutes, version) ∧
    db.bookedUnder source = minutes * 60

theorem step_soldOnce {L : ℕ} {db : Db} (o : Orderly L db) {r : Request} {customer : UUID} {request : Grant}
    {key : String} (hr : r.op = .grant customer request key)
    (hfresh : db.hasEntry (.grant r.call.actor.id customer key) = false) :
    SoldOnce request (.grant r.call.actor.id customer key) (step db r) := by
  have q : Quiet db (db.listen r.call.readings) := .listen _
  have hfresh' := (q.hasEntry _).trans hfresh
  unfold step
  rw [hr]
  refine commit_of_wp (P := SoldOnce request (.grant r.call.actor.id customer key)) (fun h => ?_) ?_
  · rw [hfresh'] at h
    cases h
  · exact wp_discard (wp_mono (wp_grant_booked (o.quiet q) hfresh') fun _ _ h _ => h)

/-- The records of used and granted time agree in every reachable state; no settlement finds its source
key used; and what a grant books under its key is booked once, whatever is requested afterwards. -/
theorem Reachable.time_conserved {db : Db} (hdb : Reachable db) :
    (∀ customer, 0 ≤ db.balance customer ∧
      db.balance customer = timeJournal.sumWhere (fun e => e.customerId = customer) db.ledger.rows ∧
      ∀ e, (db.ledger.rows.filter fun e => e.customerId = customer).getLast? = some e →
        e.balanceAfter = db.balance customer) ∧
    (∀ s ∈ db.sessions, db.consumedBy s.id = s.billedSeconds ∧
      s.lastBilledAt = s.startedAt.plusSeconds s.billedSeconds ∧
      ∀ delta, 0 < delta → db.hasEntry (.use s.id (s.billedSeconds + delta)) = false) ∧
    ∀ r customer request key rs, r.op = .grant customer request key →
      db.hasEntry (.grant r.call.actor.id customer key) = false →
      (step db r).hasEntry (.grant r.call.actor.id customer key) = true →
      ∃ minutes version, request.confirmed = some (minutes, version) ∧
        (GManager.run (step db r) rs).bookedUnder (.grant r.call.actor.id customer key) = minutes * 60 := by
  have hc := hdb.conserved
  obtain ⟨L, o⟩ := hdb.orderly
  refine ⟨fun customer => ⟨hc.balanced.nonneg customer, hc.balanced.sum customer, hc.balanced.last customer⟩,
    fun s hs => ⟨hc.consumed s hs, hc.billedAt s hs, fun _ h0 => hc.use_fresh hs h0⟩,
    fun r customer request key rs hr hfresh hused => ?_⟩
  obtain ⟨minutes, version, hconf, hb⟩ := step_soldOnce o hr hfresh hused
  have hkeep := Db.bookedUnder_of_prefix (Reachable.ledger_prefix (hdb.run [r]) rs) hused
  exact ⟨minutes, version, hconf, hkeep.trans hb⟩

theorem time_conserved_arcade :
    timeJournal.sumWhere (fun e => e.customerId = 2) Arcade.evening.ledger.rows = 1742 ∧
    (∃ minutes version, (⟨some ⟨30, 0⟩, some 1, .cash, none⟩ : Grant).confirmed = some (minutes, version) ∧
      (run (step Arcade.evening (Arcade.grant 106 71000000 "second"))
        [Arcade.grant 107 72000000 "second"]).bookedUnder (.grant 1 2 "second") = minutes * 60) := by
  have h := Reachable.time_conserved Arcade.reachable_evening
  refine ⟨?_, h.2.2 (Arcade.grant 106 71000000 "second") 2 _ "second" _ rfl (by decide +kernel)
    (by decide +kernel)⟩
  rw [← (h.1 2).2.1]
  decide +kernel

end GManager

import GManager.Metering

/-!
# Bounds

Balances and billed seconds fit into their columns in every reachable state, and a session that is paid for
ends no later than its balance.
-/

namespace GManager

/-- Balances and billed seconds fit into their columns, and no session lasts longer than it is paid for. -/
structure Bounded (db : Db) : Prop where
  conserved : Conserved db
  balance : ∀ customer, db.balance customer < 2 ^ 63
  billed : ∀ s ∈ db.sessions, 0 ≤ s.billedSeconds ∧ s.billedSeconds < 2 ^ 63
  paid : ∀ s ∈ db.sessions, s.status = .active →
    s.endsAt ≤ s.lastBilledAt.plusSeconds (db.balance s.customerId)
  mode : ∀ s ∈ db.sessions, s.billingMode = .timeBalance

namespace Bounded

variable {h : Hours} {l L : ℕ} {db db' : Db}

theorem empty (t : Instant) : Bounded (Db.empty t) :=
  ⟨.empty t, fun _ => by show (0 : ℤ) < 2 ^ 63; norm_num, fun _ hs => absurd hs Table.not_mem_empty,
    fun _ hs => absurd hs Table.not_mem_empty, fun _ hs => absurd hs Table.not_mem_empty⟩

theorem congr (hb : Bounded db) (hc : Conserved db') (ha : db'.accounts = db.accounts)
    (hs : db'.sessions = db.sessions) :
    Bounded db' := by
  refine ⟨hc, fun customer => ?_, hs ▸ hb.billed, fun s hm hact => ?_, hs ▸ hb.mode⟩
  · rw [Db.balance_congr ha]
    exact hb.balance customer
  · rw [Db.balance_congr ha]
    exact hb.paid s (hs ▸ hm) hact

theorem save (hb : Bounded db) (hc : Conserved db') {s r : GamingSession} (hs : s ∈ db.sessions)
    (hid : r.id = s.id) (hmode : r.billingMode = s.billingMode) (hsess : db'.sessions = db.sessions.save r)
    (hbal : ∀ customer, db'.balance customer < 2 ^ 63)
    (hbilled : 0 ≤ r.billedSeconds ∧ r.billedSeconds < 2 ^ 63)
    (hpaid : r.status = .active → r.endsAt ≤ r.lastBilledAt.plusSeconds (db'.balance r.customerId))
    (hx : ∀ x ∈ db.sessions, x.status = .active → x.id ≠ s.id →
      db'.balance x.customerId = db.balance x.customerId) :
    Bounded db' := by
  refine ⟨hc, hbal, fun x hxm => ?_, fun x hxm hxa => ?_, fun x hxm => ?_⟩ <;>
    rcases (Db.mem_saved hs hid hsess).1 hxm with rfl | ⟨hxm, hne⟩
  · exact hbilled
  · exact hb.billed x hxm
  · exact hpaid hxa
  · rw [hx x hxm hxa hne]
    exact hb.paid x hxm hxa
  · exact hmode.trans (hb.mode s hs)
  · exact hb.mode x hxm

theorem effect (hb : Bounded db) (o : Orderly L db) (e : Effect h l L db db') : Bounded db' := by
  have hc := hb.conserved.effect e
  cases e with
  | quiet q => exact hb.congr hc q.accounts q.sessions
  | @charged s delta createdAt e hs ha hm hd h0 hlt he q =>
    have hfresh : db.hasEntry (.use s.id (s.billedSeconds + delta)) = false := hb.conserved.use_fresh hs h0
    have hbal : ∀ customer, db'.balance customer =
        if customer = s.customerId then db.balance s.customerId + -delta else db.balance customer := by
      intro customer
      rw [q.balance, he]
      exact Db.balance_post hfresh customer
    refine hb.save hc hs (r := s.charge delta) rfl rfl (q.sessions.trans Db.post_putSession_sessions)
      (fun customer => ?_) ⟨?_, hlt⟩ (fun _ => ?_) fun x hx hxa hne => ?_
    · have := hb.balance customer
      have := hb.balance s.customerId
      rw [hbal]
      split <;> omega
    · have := (hb.billed s hs).1
      show 0 ≤ s.billedSeconds + delta
      omega
    · show s.endsAt ≤ (s.lastBilledAt.plusSeconds delta).plusSeconds (db'.balance s.customerId)
      rw [hbal, if_pos rfl, Instant.plusSeconds_plusSeconds, add_comm, neg_add_cancel_right]
      exact hb.paid s hs ha
    · rw [hbal, if_neg fun h => hne (o.single x hx s hs hxa ha h ▸ rfl)]
  | @closed s status reason sequence hs hst q =>
    exact hb.save hc hs (r := s.closed status reason sequence) rfl rfl q.sessions
      (fun customer => q.balance customer ▸ hb.balance customer) (hb.billed s hs) (fun ha => absurd ha hst)
      fun _ _ _ _ => q.balance _
  | @granted customer actor operation seconds key createdAt e hidle hfresh h0 hlt he q =>
    have hbal : ∀ other, db'.balance other =
        if other = customer then db.balance customer + seconds else db.balance other := by
      intro other
      rw [q.balance, he]
      exact Db.balance_post hfresh other
    have hsess : db'.sessions = db.sessions := q.sessions.trans Db.post_sessions
    refine ⟨hc, fun other => ?_, hsess ▸ hb.billed, fun s hs ha => ?_, hsess ▸ hb.mode⟩
    · have := hb.balance other
      rw [hbal]
      split <;> omega
    · rw [hsess] at hs
      rw [hbal, if_neg fun h => hidle s hs h ha]
      exact hb.paid s hs ha
  | @toppedUp s actor operation seconds key createdAt now limit sequence e hs ha hfresh h0 hlt he
      hnow hnow' hl q =>
    have hbal : ∀ customer, db'.balance customer =
        if customer = s.customerId then db.balance s.customerId + seconds else db.balance customer := by
      intro customer
      rw [q.balance, he]
      exact Db.balance_post hfresh customer
    refine hb.save hc hs (r := s.extended (db.balance s.customerId + seconds) limit sequence) rfl rfl
      (q.sessions.trans Db.post_putSession_sessions) (fun customer => ?_) (hb.billed s hs) (fun _ => ?_)
      fun x hx hxa hne => ?_
    · have := hb.balance customer
      rw [hbal]
      split <;> omega
    · show min (s.lastBilledAt.plusSeconds (db.balance s.customerId + seconds)) limit ≤
        s.lastBilledAt.plusSeconds (db'.balance s.customerId)
      rw [hbal, if_pos rfl]
      exact min_le_left _ _
    · rw [hbal, if_neg fun h => hne (o.single x hx s hs hxa ha h ▸ rfl)]
  | @renewed s hs ha q =>
    exact hb.save hc hs (r := { s with meteredLeaseUntil := min (db.clock.now.plusSeconds l) s.endsAt }) rfl
      rfl q.sessions (fun customer => q.balance customer ▸ hb.balance customer) (hb.billed s hs)
      (fun _ => by rw [q.balance]; exact hb.paid s hs ha) fun _ _ _ _ => q.balance _
  | @leased s p now hs ha hnow hsigned hbilled hp q =>
    exact hb.save hc hs (r := { s with meteredLeaseUntil := p.expiresAt }) rfl rfl q.sessions
      (fun customer => q.balance customer ▸ hb.balance customer) (hb.billed s hs)
      (fun _ => by rw [q.balance]; exact hb.paid s hs ha) fun _ _ _ _ => q.balance _
  | refused hp hexp q => exact hb.congr hc q.accounts q.sessions
  | @started s sessions hfresh hmem hcustomer hstation ha hm hmove hbb hnow hends hlease hl q =>
    refine ⟨hc, fun customer => q.balance customer ▸ hb.balance customer, fun x hx => ?_,
      fun x hx hxa => ?_, fun x hx => ?_⟩ <;>
      rw [q.sessions] at hx <;> rcases (hmem x).1 hx with hx | rfl
    · exact hb.billed x hx
    · rw [hbb.1]
      norm_num
    · rw [q.balance]
      exact hb.paid x hx hxa
    · rw [q.balance, hnow.2, hends]
      exact min_le_left _ _
    · exact hb.mode x hx
    · exact hm
  | booked hlt hpend hemployee hresource hi q => exact hb.congr hc q.accounts q.sessions
  | moved hr hsame hstatus hlt hemployee hresource hsession q => exact hb.congr hc q.accounts q.sessions
  | changed hr hcd q => exact hb.congr hc q.accounts q.sessions

end Bounded

theorem Reachable.bounded {db : Db} (hdb : Reachable db) : Bounded db :=
  hdb.induct .empty fun o hb e => hb.effect o e

end GManager

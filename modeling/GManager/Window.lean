import GManager.Ledger
import GManager.Exclusivity

/-!
# The window of a session

Where the end of an active session, its metered lease and the leases signed for it lie, while opening
hours and the length of a lease stay the same. The end never moves back: the limit of a top-up is at least
the old end, because no later booking cuts into the session and no window that contains the present closes
before the one it started in.
-/

namespace GManager

open Txn

/-- The window of an active session. -/
structure GamingSession.InWindow (h : Hours) (db : Db) (s : GamingSession) : Prop where
  ends : s.endsAt = min (s.lastBilledAt.plusSeconds (db.balance s.customerId)) s.accessUntil
  billed : s.lastBilledAt ≤ s.meteredLeaseUntil
  metered : s.meteredLeaseUntil ≤ s.endsAt
  hours : ∃ day opening closing, h.availabilityWindow (some s.locationId) day = some (opening, closing) ∧
    opening ≤ db.clock.now ∧ s.accessUntil ≤ closing
  booking : ∀ id, s.reservationId = some id → ∃ b ∈ db.reservations, b.id = id ∧ s.accessUntil ≤ b.endTime
  signed : ∀ p ∈ db.signed, p.sessionId = some s.id → p.graceEndsAt = p.expiresAt ∧
    p.expiresAt ≤ s.meteredLeaseUntil

structure Windowed (h : Hours) (db : Db) : Prop where
  conserved : Conserved db
  exclusive : Exclusive db
  active : ∀ s ∈ db.sessions, s.status = .active → s.InWindow h db
  known : ∀ p ∈ db.signed, ∀ id, p.sessionId = some id → ∃ s ∈ db.sessions, s.id = id

namespace GamingSession.InWindow

variable {h : Hours} {db db' : Db} {s : GamingSession}

/-- What has opened stays open. -/
theorem opened (w : s.InWindow h db) {t : Instant} (ht : db.clock.now ≤ t) :
    ∃ day opening closing, h.availabilityWindow (some s.locationId) day = some (opening, closing) ∧
      opening ≤ t ∧ s.accessUntil ≤ closing := by
  obtain ⟨day, opening, closing, hw, hle, hge⟩ := w.hours
  exact ⟨day, opening, closing, hw, hle.trans ht, hge⟩

/-- Nothing changes for the session but the time. -/
theorem congr (w : s.InWindow h db) (hb : db'.balance s.customerId = db.balance s.customerId)
    (hc : db.clock.now ≤ db'.clock.now) (hr : db'.reservations = db.reservations)
    (hs : ∀ p ∈ db'.signed, p ∈ db.signed ∨ p.sessionId ≠ some s.id) : s.InWindow h db' := by
  refine ⟨hb ▸ w.ends, w.billed, w.metered, w.opened hc, hr ▸ w.booking, fun p hp hid => ?_⟩
  rcases hs p hp with hp | hne
  · exact w.signed p hp hid
  · exact absurd hid hne

/-- The reservations change, but not the own one. -/
theorem rebook (w : s.InWindow h db) {t : Table Reservation.id}
    (hk : ∀ b ∈ db.reservations, s.reservationId = some b.id → ∃ b' ∈ t, b'.id = b.id ∧
      b.endTime ≤ b'.endTime) :
    s.InWindow h { db with reservations := t } := by
  refine ⟨w.ends, w.billed, w.metered, w.hours, fun id hid => ?_, w.signed⟩
  obtain ⟨b, hb, rfl, hle⟩ := w.booking id hid
  obtain ⟨b', hb', hid', hle'⟩ := hk b hb hid
  exact ⟨b', hb', hid', hle.trans hle'⟩

theorem le_plusSeconds (w : s.InWindow h db) :
    s.endsAt ≤ s.lastBilledAt.plusSeconds (db.balance s.customerId) :=
  w.ends ▸ min_le_left _ _

theorem le_accessUntil (w : s.InWindow h db) : s.endsAt ≤ s.accessUntil := w.ends ▸ min_le_right _ _

/-- A limit of access taken now or later does not lie before the end. -/
theorem endsAt_le_limit (w : s.InWindow h db) (hclear : s.ClearOf db.reservations db.clock.now)
    (ha : s.status = .active) {now limit : Instant} (hnow : db.clock.now ≤ now)
    (hl : Limit h db s.resourceId s.locationId s.customerId s.reservationId now limit) :
    s.endsAt ≤ limit := by
  by_cases hlt : now < s.endsAt
  · refine hl.greatest _ (fun closing hcl => ?_) (fun b hb hown => ?_) (fun r hr hbl => ?_)
    · obtain ⟨day, opening, closing', hw, hop, hcls⟩ := w.hours
      have hends : s.endsAt ≤ closing' := w.le_accessUntil.trans hcls
      obtain ⟨e, he, hle⟩ := Hours.le_closingTime ⟨opening, hw, hop.trans hnow, hlt.trans_le hends⟩
      rw [hcl] at he
      exact hends.trans (Option.some.inj he ▸ hle)
    · obtain ⟨b', hb', hid, hle⟩ := w.booking _ hown
      rw [Table.eq_of_key hb hb' hid.symm]
      exact w.le_accessUntil.trans hle
    · rcases (hclear ha).2 r hr hbl.1 hbl.2.1 hbl.2.2.1 with hp | hp
      · exact absurd hbl.2.2.2 (not_lt.2 (hp.trans hnow))
      · exact hp
  · exact (not_lt.1 hlt).trans hl.after.le

end GamingSession.InWindow

namespace Windowed

variable {h : Hours} {L : ℕ} {db db' : Db}

theorem empty (t : Instant) : Windowed h (Db.empty t) :=
  ⟨.empty t, .empty t, fun _ hs => absurd hs Table.not_mem_empty, fun _ hp => absurd hp List.not_mem_nil⟩

/-- The end of an active session after a top-up. -/
theorem endsAt_le_extended (w : Windowed h db) {s : GamingSession} (hs : s ∈ db.sessions)
    (ha : s.status = .active) {seconds : ℤ} (h0 : 0 < seconds) {now limit : Instant} (sequence : ℕ)
    (hnow : db.clock.now ≤ now)
    (hl : Limit h db s.resourceId s.locationId s.customerId s.reservationId now limit) :
    s.endsAt ≤ (s.extended (db.balance s.customerId + seconds) limit sequence).endsAt := by
  have hw := w.active s hs ha
  refine le_min (hw.le_plusSeconds.trans (Instant.plusSeconds_le_plusSeconds.2 ?_))
    (hw.endsAt_le_limit (w.exclusive.sessions s hs) ha hnow hl)
  omega

/-- One session is rewritten; the accounts of the others do not change. -/
theorem of_session (w : Windowed h db) (hc : Conserved db') (hx : Exclusive db') {s r : GamingSession}
    (hs : s ∈ db.sessions) (hid : r.id = s.id) (hsess : db'.sessions = db.sessions.save r)
    (hclock : db.clock.now ≤ db'.clock.now) (hr : db'.reservations = db.reservations)
    (hb : ∀ x ∈ db.sessions, x.status = .active → x.id ≠ s.id →
      db'.balance x.customerId = db.balance x.customerId)
    (hsigned : ∀ p ∈ db'.signed, p ∈ db.signed ∨ p.sessionId = some s.id)
    (hw : r.status = .active → r.InWindow h db') : Windowed h db' := by
  have hmem : ∀ x, x ∈ db'.sessions ↔ x = r ∨ x ∈ db.sessions ∧ x.id ≠ s.id :=
    fun _ => Db.mem_saved hs hid hsess
  refine ⟨hc, hx, fun x hxm hxa => ?_, fun p hp id hpid => ?_⟩
  · rcases (hmem x).1 hxm with rfl | ⟨hxm, hne⟩
    · exact hw hxa
    · refine (w.active x hxm hxa).congr (hb x hxm hxa hne) hclock hr fun p hp =>
        (hsigned p hp).imp_right fun h he => ?_
      exact hne (Option.some.inj (he.symm.trans h))
  · rcases hsigned p hp with hp | hps
    · obtain ⟨x, hxm, rfl⟩ := w.known p hp id hpid
      by_cases hxs : x.id = s.id
      · exact ⟨r, (hmem r).2 (.inl rfl), hid.trans hxs.symm⟩
      · exact ⟨x, (hmem x).2 (.inr ⟨hxm, hxs⟩), rfl⟩
    · obtain rfl := Option.some.inj (hpid.symm.trans hps)
      exact ⟨r, (hmem r).2 (.inl rfl), hid⟩

/-- No other active session shares the account that an entry is posted to. -/
theorem balance_post_of_ne {L : ℕ} (o : Orderly L db) {s x : GamingSession} (hs : s ∈ db.sessions)
    (ha : s.status = .active) (hx : x ∈ db.sessions) (hxa : x.status = .active) (hne : x.id ≠ s.id)
    {e : LedgerEntry} (he : e.customerId = s.customerId) (hfresh : db.hasEntry e.sourceKey = false) :
    (db.post e).balance x.customerId = db.balance x.customerId := by
  rw [Db.balance_post hfresh, if_neg]
  exact fun hc => hne (o.single x hx s hs hxa ha (hc.trans he) ▸ rfl)

theorem rebook (w : Windowed h db) {t : Table Reservation.id} (hx : Exclusive { db with reservations := t })
    (hk : ∀ s ∈ db.sessions, s.status = .active → ∀ b ∈ db.reservations, s.reservationId = some b.id →
      ∃ b' ∈ t, b'.id = b.id ∧ b.endTime ≤ b'.endTime) : Windowed h { db with reservations := t } :=
  ⟨w.conserved.congr rfl rfl rfl, hx, fun s hs ha => (w.active s hs ha).rebook (hk s hs ha), w.known⟩

/-- A reservation changes, and none of a session in progress ends earlier. -/
theorem putReservation (w : Windowed h db) {r x : Reservation} (hr : r ∈ db.reservations)
    (hid : x.id = r.id) (hx : Exclusive (db.putReservation x))
    (hk : ∀ s ∈ db.sessions, s.status = .active → s.reservationId = some r.id → r.endTime ≤ x.endTime) :
    Windowed h (db.putReservation x) := by
  refine w.rebook hx fun s hs ha b hb hown => ?_
  by_cases hbr : b.id = r.id
  · obtain rfl := Table.eq_of_key hb hr hbr
    exact ⟨x, Table.mem_save_self hb hid.symm, hid, hk s hs ha hown⟩
  · exact ⟨b, Table.mem_save.2 (.inl ⟨hb, fun h => hbr (h.trans hid)⟩), rfl, le_rfl⟩

theorem quiet (w : Windowed h db) (q : Quiet db db') : Windowed h db' := by
  refine ⟨w.conserved.quiet q, w.exclusive.quiet q, fun s hs ha => ?_, ?_⟩
  · rw [q.sessions] at hs
    exact (w.active s hs ha).congr (q.balance _) q.clock q.reservations fun p hp => .inl (q.signed ▸ hp)
  · rw [q.signed, q.sessions]
    exact w.known

theorem effect (w : Windowed h db) (o : Orderly L db) (e : Effect h L L db db') : Windowed h db' := by
  have hc := w.conserved.effect e
  have hx := w.exclusive.effect e
  cases e with
  | quiet q => exact w.quiet q
  | @charged s delta createdAt e hs ha hm hd h0 hlt he q =>
    have hfresh : db.hasEntry e.sourceKey = false := by
      rw [he, Db.entry]
      exact w.conserved.use_fresh hs h0
    have hcust : e.customerId = s.customerId := by rw [he, Db.entry]
    have hclock : db.clock.now ≤ db'.clock.now := (@Db.post_clock db e) ▸ q.clock
    have hr : db'.reservations = db.reservations := q.reservations.trans Db.post_reservations
    have hsigned : db'.signed = db.signed := q.signed.trans Db.post_signed
    have hbal : db'.balance s.customerId = db.balance s.customerId - delta := by
      rw [q.balance]
      refine (Db.balance_post hfresh _).trans ?_
      rw [if_pos hcust.symm, he, Db.entry_balanceAfter, sub_eq_add_neg]
    have hw := w.active s hs ha
    refine w.of_session hc hx hs (r := s.charge delta) rfl ?_ hclock hr (fun x hxm hxa hne => ?_)
      (fun p hp => .inl (hsigned ▸ hp)) fun _ =>
      ⟨?_, ?_, hw.metered, hw.opened hclock, hr ▸ hw.booking, hsigned ▸ hw.signed⟩
    · exact q.sessions.trans Db.post_putSession_sessions
    · exact (q.balance _).trans (balance_post_of_ne o hs ha hxm hxa hne hcust hfresh)
    · show s.endsAt = min ((s.lastBilledAt.plusSeconds delta).plusSeconds (db'.balance s.customerId))
        s.accessUntil
      rw [hbal, Instant.plusSeconds_plusSeconds, add_sub_cancel]
      exact hw.ends
    · rw [hd] at h0 ⊢
      exact ((charge_lastBilledAt h0).trans (min_le_right _ _)).trans (min_le_right _ _)
  | @closed s status reason sequence hs hst q =>
    exact w.of_session hc hx hs (r := s.closed status reason sequence) rfl q.sessions q.clock q.reservations
      (fun _ _ _ _ => q.balance _) (fun p hp => .inl (q.signed ▸ hp)) fun ha => absurd ha hst
  | @granted customer actor operation seconds key createdAt e hidle hfresh h0 hlt he q =>
    have hfresh : db.hasEntry e.sourceKey = false := by rwa [he, Db.entry]
    have hcust : e.customerId = customer := by rw [he, Db.entry]
    have hsess : db'.sessions = db.sessions := q.sessions.trans Db.post_sessions
    have hsigned : db'.signed = db.signed := q.signed.trans Db.post_signed
    refine ⟨hc, hx, fun x hxm hxa => ?_, ?_⟩
    · rw [hsess] at hxm
      refine (w.active x hxm hxa).congr ?_ ((@Db.post_clock db e) ▸ q.clock)
        (q.reservations.trans Db.post_reservations) fun p hp => .inl (hsigned ▸ hp)
      rw [q.balance, Db.balance_post hfresh, if_neg]
      exact fun hcx => hidle x hxm (hcx.trans hcust) hxa
    · rw [hsigned, hsess]
      exact w.known
  | @toppedUp s actor operation seconds key createdAt now limit sequence e hs ha hfresh h0 hlt he
      hnow hnow' hl q =>
    have hfresh : db.hasEntry e.sourceKey = false := by rwa [he, Db.entry]
    have hcust : e.customerId = s.customerId := by rw [he, Db.entry]
    have hclock : db.clock.now ≤ db'.clock.now := hnow.trans hnow'
    have hr : db'.reservations = db.reservations := q.reservations.trans Db.post_reservations
    have hsigned : db'.signed = db.signed := q.signed.trans Db.post_signed
    have hbal : db'.balance s.customerId = db.balance s.customerId + seconds := by
      rw [q.balance]
      refine (Db.balance_post hfresh _).trans ?_
      rw [if_pos hcust.symm, he, Db.entry_balanceAfter]
    have hw := w.active s hs ha
    have hn := o.nonneg s.customerId
    have hends := w.endsAt_le_extended hs ha h0 sequence hnow hl
    refine w.of_session hc hx hs (r := s.extended (db.balance s.customerId + seconds) limit sequence) rfl ?_
      hclock hr (fun x hxm hxa hne => ?_) (fun p hp => .inl (hsigned ▸ hp)) fun _ =>
      ⟨?_, ?_, min_le_right _ _, hl.opened hnow', hr ▸ hl.booked, ?_⟩
    · exact q.sessions.trans Db.post_putSession_sessions
    · exact (q.balance _).trans (balance_post_of_ne o hs ha hxm hxa hne hcust hfresh)
    · show _ = min (s.lastBilledAt.plusSeconds (db'.balance s.customerId)) limit
      rw [hbal]
      rfl
    · exact le_min hw.billed ((hw.billed.trans hw.metered).trans hends)
    · rw [hsigned]
      intro p hp hid
      obtain ⟨hg, hle⟩ := hw.signed p hp hid
      exact ⟨hg, le_min hle ((hle.trans hw.metered).trans hends)⟩
  | @renewed s hs ha q =>
    have hw := w.active s hs ha
    refine w.of_session hc hx hs
      (r := { s with meteredLeaseUntil := min (db.clock.now.plusSeconds L) s.endsAt }) rfl q.sessions
        q.clock q.reservations (fun _ _ _ _ => q.balance _) (fun p hp => .inl (q.signed ▸ hp))
      fun _ => ⟨?_, ?_, min_le_right _ _, hw.opened q.clock, q.reservations ▸ hw.booking, ?_⟩
    · show s.endsAt = _
      rw [q.balance]
      exact hw.ends
    · refine le_min ((o.billed s hs ha).trans ?_) (hw.billed.trans hw.metered)
      exact Instant.le_plusSeconds (Int.natCast_nonneg _)
    · rw [q.signed]
      intro p hp hid
      obtain ⟨hg, hle⟩ := hw.signed p hp hid
      exact ⟨hg, le_min (hle.trans (o.metered s hs ha)) (hle.trans hw.metered)⟩
  | @leased s p now hs ha hnow hsigned hbilled hp q =>
    have hw := w.active s hs ha
    obtain ⟨hpid, -, hpg, hpe⟩ := hp
    refine w.of_session hc hx hs (r := { s with meteredLeaseUntil := p.expiresAt }) rfl q.sessions q.clock
      q.reservations (fun _ _ _ _ => q.balance _) (fun x hxp => ?_) fun _ =>
      ⟨?_, ?_, ?_, hw.opened q.clock, q.reservations ▸ hw.booking, ?_⟩
    · rw [q.signed] at hxp
      rcases List.mem_cons.1 hxp with rfl | hxp
      · exact .inr hpid
      · exact .inl hxp
    · show s.endsAt = _
      rw [q.balance]
      exact hw.ends
    · show s.lastBilledAt ≤ p.expiresAt
      rw [hpe]
      exact le_min (le_min hbilled (hw.billed.trans hw.metered)) hw.billed
    · show p.expiresAt ≤ s.endsAt
      rw [hpe]
      exact (min_le_left _ _).trans (min_le_right _ _)
    · rw [q.signed]
      intro x hxp hid
      rcases List.mem_cons.1 hxp with rfl | hxp
      · exact ⟨hpg, le_rfl⟩
      · -- the leases signed before reach as far as this one
        obtain ⟨hg, hle⟩ := hw.signed x hxp hid
        refine ⟨hg, ?_⟩
        show x.expiresAt ≤ p.expiresAt
        rw [hpe]
        exact le_min (le_min (hsigned x hxp) (hle.trans hw.metered)) hle
  | @refused p hp he q =>
    refine ⟨hc, hx, fun x hxm hxa => ?_, fun x hxp id hid => ?_⟩
    · rw [q.sessions] at hxm
      refine (w.active x hxm hxa).congr (q.balance _) q.clock q.reservations fun y hy => ?_
      rw [q.signed] at hy
      rcases List.mem_cons.1 hy with rfl | hy
      · exact .inr (by simp [hp.1])
      · exact .inl hy
    · rw [q.signed] at hxp
      rw [q.sessions]
      rcases List.mem_cons.1 hxp with rfl | hxp
      · rw [hp.1] at hid
        cases hid
      · exact w.known x hxp id hid
  | @started s sessions hfresh hmem hcustomer hstation ha hm hmove hb hnow hends hlease hl q =>
    have hstop : s.startedAt ≤ s.endsAt := by
      rw [hends]
      exact le_min (Instant.le_plusSeconds hb.2.le) hl.after.le
    refine ⟨hc, hx, fun x hxm hxa => ?_, fun p hp id hid => ?_⟩
    · rw [q.sessions] at hxm
      rcases (hmem x).1 hxm with hxm | rfl
      · exact (w.active x hxm hxa).congr (q.balance _) q.clock q.reservations fun p hp => .inl (q.signed ▸ hp)
      · refine ⟨?_, ?_, ?_, hl.opened (hnow.1.trans q.clock), q.reservations ▸ hl.booked, fun p hp hid => ?_⟩
        · rw [q.balance, hnow.2]
          exact hends
        · rw [hnow.2, hlease]
          exact le_min (Instant.le_plusSeconds (Int.natCast_nonneg _)) hstop
        · rw [hlease]
          exact min_le_right _ _
        · -- nothing was signed for a session that did not exist
          rw [q.signed] at hp
          obtain ⟨y, hy, hyid⟩ := w.known p hp _ hid
          exact absurd hyid (hfresh y hy)
    · rw [q.signed] at hp
      rw [q.sessions]
      obtain ⟨y, hy, hyid⟩ := w.known p hp id hid
      exact ⟨y, (hmem y).2 (.inl hy), hyid⟩
  | @booked r reservations hlt hp hemployee hresource hi q =>
    refine Windowed.quiet (show Windowed h { db with reservations } from
      w.rebook ?_ fun s hs ha b hb hid => ?_) q
    · exact w.exclusive.effect (h := h) (l := L) (L := L) (.booked hlt hp hemployee hresource hi (.refl _))
    · exact ⟨b, (Table.mem_insert hi).2 (.inl hb), rfl, le_rfl⟩
  | @moved r r' hr hsame hstatus hlt hemployee hresource hsession q =>
    refine (w.putReservation hr hsame.1 ?_ fun s hs ha hown => ?_).quiet q
    · exact w.exclusive.effect (h := h) (l := L) (L := L)
        (.moved hr hsame hstatus hlt hemployee hresource hsession (.refl _))
    · rcases hsession with ⟨-, -, he⟩ | hno
      · exact he.ge
      · exact absurd ⟨hown, ha⟩ (hno s hs)
  | @changed r status version hr hcd q =>
    refine (w.putReservation (x := { r with status, version }) hr rfl ?_ fun _ _ _ _ => le_rfl).quiet q
    exact w.exclusive.effect (h := h) (l := L) (L := L) (.changed hr hcd (.refl _))

end Windowed

/-! ### The end only moves forward -/

/-- The session `id` exists, and ends at `stop` or later while it is active. -/
def EndsFrom (id : UUID) (stop : Instant) (db : Db) : Prop :=
  (∃ s ∈ db.sessions, s.id = id) ∧ ∀ s ∈ db.sessions, s.id = id → s.status = .active → stop ≤ s.endsAt

namespace EndsFrom

variable {id : UUID} {stop : Instant} {db db' : Db}

theorem congr (he : EndsFrom id stop db) (hs : db'.sessions = db.sessions) : EndsFrom id stop db' := by
  rw [EndsFrom, hs]
  exact he

theorem save (he : EndsFrom id stop db) {s r : GamingSession} (hs : s ∈ db.sessions) (hid : r.id = s.id)
    (hsess : db'.sessions = db.sessions.save r)
    (hle : r.status = .active → s.status = .active ∧ s.endsAt ≤ r.endsAt) : EndsFrom id stop db' := by
  have hmem : ∀ x, x ∈ db'.sessions ↔ x = r ∨ x ∈ db.sessions ∧ x.id ≠ s.id :=
    fun _ => Db.mem_saved hs hid hsess
  obtain ⟨⟨x, hx, rfl⟩, hall⟩ := he
  refine ⟨?_, fun y hy hyid hya => ?_⟩
  · by_cases hxs : x.id = s.id
    · exact ⟨r, (hmem r).2 (.inl rfl), hid.trans hxs.symm⟩
    · exact ⟨x, (hmem x).2 (.inr ⟨hx, hxs⟩), rfl⟩
  · rcases (hmem y).1 hy with rfl | ⟨hy, -⟩
    · exact (hall s hs (hid.symm.trans hyid) (hle hya).1).trans (hle hya).2
    · exact hall y hy hyid hya

theorem effect {h : Hours} {L : ℕ} (he : EndsFrom id stop db) (w : Windowed h db) (e : Effect h L L db db') :
    EndsFrom id stop db' := by
  cases e with
  | quiet q => exact he.congr q.sessions
  | @charged s delta createdAt e hs ha hm hd h0 hlt hent q =>
    exact he.save (r := s.charge delta) hs rfl (q.sessions.trans Db.post_putSession_sessions)
      fun _ => ⟨ha, le_rfl⟩
  | @closed s status reason sequence hs hst q =>
    exact he.save (r := s.closed status reason sequence) hs rfl q.sessions fun ha => absurd ha hst
  | granted hidle hfresh h0 hlt hent q => exact he.congr (q.sessions.trans Db.post_sessions)
  | @toppedUp s actor operation seconds key createdAt now limit sequence e hs ha hfresh h0 hlt hent
      hnow hnow' hl q =>
    exact he.save (r := s.extended (db.balance s.customerId + seconds) limit sequence) hs rfl
      (q.sessions.trans Db.post_putSession_sessions)
      fun _ => ⟨ha, w.endsAt_le_extended hs ha h0 sequence hnow hl⟩
  | @renewed s hs ha q =>
    exact he.save (r := { s with meteredLeaseUntil := min (db.clock.now.plusSeconds L) s.endsAt }) hs rfl
      q.sessions fun _ => ⟨ha, le_rfl⟩
  | @leased s p now hs ha hnow hsigned hbilled hp q =>
    exact he.save (r := { s with meteredLeaseUntil := p.expiresAt }) hs rfl q.sessions fun _ => ⟨ha, le_rfl⟩
  | refused hp hexp q => exact he.congr q.sessions
  | @started s sessions hfresh hmem hcustomer hstation ha hm hmove hb hnow hends hlease hl q =>
    refine congr (?_ : EndsFrom _ _ { db with sessions }) q.sessions
    obtain ⟨⟨x, hx, hid⟩, hall⟩ := he
    refine ⟨⟨x, (hmem x).2 (.inl hx), hid⟩, fun y hy hyid hya => ?_⟩
    rcases (hmem y).1 hy with hy | rfl
    · exact hall y hy hyid hya
    · exact absurd (hid.trans hyid.symm) (hfresh x hx)
  | booked hlt hp hemployee hresource hi q => exact he.congr q.sessions
  | moved hr hsame hstatus hlt hemployee hresource hsession q => exact he.congr q.sessions
  | changed hr hcd q => exact he.congr q.sessions

end EndsFrom

end GManager

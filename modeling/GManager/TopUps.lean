import GManager.Bounds
import GManager.Exclusivity
import GManager.Announcements
import GManager.Succeeds

/-!
# Top-ups during play

A grant to a customer who plays settles his session, books the payment and takes the limit of access anew,
under stricter conditions than those that keep the session alive. Every condition but one follows from what
holds of the session in every run: only the status of the reservation under which it runs can have changed,
and only then is a paid top-up refused.
-/

namespace GManager

open Txn

/-! ### Numbers of commands -/

/-- No command lies beyond the cursor of its station. -/
def Db.Numbered (db : Db) : Prop := ∀ w ∈ db.commands, w.sequence ≤ db.currentCursor w.stationId

section numbers

variable {R : ℕ} {db db' : Db} {news : List StationCommand}

theorem Announces.numbered {r : GamingSession} {w : StationCommand} (ha : Announces R db r w db')
    (h : db.Numbered) : db'.Numbered := by
  intro x hx
  rw [← Table.mem_rows, ha.commands, List.mem_append, List.mem_singleton] at hx
  rw [ha.cursor]
  rcases hx with hx | rfl
  · have hle := h x hx
    split
    · rename_i hst
      rw [hst] at hle
      rw [ha.sequence]
      omega
    · exact hle
  · rw [if_pos ha.stationId]

theorem Mute.numbered (hm : Mute db db') (h : db.Numbered) : db'.Numbered := by
  intro x hx
  rw [hm.commands] at hx
  rw [hm.currentCursor]
  exact h x hx

theorem Told.numbered (ht : Told R db news db') (h : db.Numbered) : db'.Numbered := by
  cases ht with
  | mute hm hsess => exact hm.numbered h
  | rewritten hm hs hr hb hsess => exact hm.numbered h
  | announced hs hid hstation hmove hb he ha hsess => exact ha.numbered h
  | started hfresh hmem hb hmove hs he ha => exact ha.numbered h

theorem Tells.numbered (ht : Tells R db news db') (h : db.Numbered) : db'.Numbered := by
  induction ht with
  | refl => exact h
  | tail _ ht ih => exact ht.numbered ih

/-- Commands are acknowledged or deleted, and the cursors stay. -/
theorem Db.Numbered.of_commands (h : db.Numbered) (hcur : db'.cursors = db.cursors)
    (hw : ∀ w ∈ db'.commands, ∃ v ∈ db.commands, v.stationId = w.stationId ∧ v.sequence = w.sequence) :
    db'.Numbered := by
  intro w hwm
  obtain ⟨v, hv, hst, hseq⟩ := hw w hwm
  rw [Db.currentCursor, hcur, ← hst, ← hseq]
  exact h v hv

theorem step_numbered (h : db.Numbered) (r : Request) : (step db r).Numbered := by
  have hl : (db.listen r.call.readings).Numbered := h
  refine commit_of_wp hl ?_
  by_cases hack : ∃ sequence, r.op = .acknowledge sequence
  · obtain ⟨sequence, hop⟩ := hack
    rw [hop]
    refine wp_acknowledge fun command hc acknowledgedAt db' _ _ hcur hcom =>
      hl.of_commands hcur fun w hw => ?_
    rw [hcom] at hw
    rcases Table.mem_save.1 hw with ⟨hw, -⟩ | ⟨rfl, -⟩
    · exact ⟨w, hw, rfl, rfl⟩
    · exact ⟨command, hc, rfl, rfl⟩
  · by_cases hpurge : r.op = .purge
    · rw [hpurge]
      refine wp_purge fun now db' _ _ _ hcur _ hcom => hl.of_commands hcur fun w hw => ?_
      rw [hcom] at hw
      exact ⟨w, (Table.mem_delete.1 hw).1, rfl, rfl⟩
    · refine wp_mono (tells_perform r.op (fun sequence hop => hack ⟨sequence, hop⟩) hpurge) fun _ db' ht => ?_
      obtain ⟨news, ht⟩ := ht
      exact ht.numbered hl

theorem run_numbered (h : db.Numbered) (rs : List Request) : (run db rs).Numbered := by
  induction rs generalizing db with
  | nil => exact h
  | cons r rs ih => exact ih (step_numbered h r)

end numbers

/-! ### The authority of a session -/

/-- What the limit of access was taken from: the opening hours, and the reservation of the session. -/
structure GamingSession.Authorized (h : Hours) (db : Db) (s : GamingSession) : Prop where
  ends : s.endsAt ≤ s.accessUntil
  hours : ∃ day opening closing, h.availabilityWindow (some s.locationId) day = some (opening, closing) ∧
    opening ≤ db.clock.now ∧ s.accessUntil ≤ closing
  booking : ∀ id, s.reservationId = some id → ∃ b ∈ db.reservations, b.id = id ∧ b.customerId = s.customerId ∧
    b.resourceId = some s.resourceId ∧ b.locationId = some s.locationId ∧ b.startTime ≤ db.clock.now ∧
    s.accessUntil ≤ b.endTime

def Authorized (h : Hours) (db : Db) : Prop := ∀ s ∈ db.sessions, s.status = .active → s.Authorized h db

section authorized

variable {h : Hours} {l L : ℕ} {db db' : Db} {s r : GamingSession}

/-- The reservations change, but not the own one. -/
theorem GamingSession.Authorized.rebook (w : s.Authorized h db) (hc : db.clock.now ≤ db'.clock.now)
    (hk : ∀ b ∈ db.reservations, s.reservationId = some b.id → b.resourceId = some s.resourceId →
      ∃ b' ∈ db'.reservations, b'.id = b.id ∧ b'.customerId = b.customerId ∧ b'.resourceId = b.resourceId ∧
      b'.locationId = b.locationId ∧ b'.startTime = b.startTime ∧ b'.endTime = b.endTime) :
      s.Authorized h db' := by
  refine ⟨w.ends, ?_, fun id hid => ?_⟩
  · obtain ⟨day, opening, closing, hwin, hle, hge⟩ := w.hours
    exact ⟨day, opening, closing, hwin, hle.trans hc, hge⟩
  · obtain ⟨b, hb, rfl, hcust, hres, hloc, hst, hend⟩ := w.booking id hid
    obtain ⟨b', hb', hid', hcust', hres', hloc', hst', hend'⟩ := hk b hb hid hres
    exact ⟨b', hb', hid', hcust'.trans hcust, hres'.trans hres, hloc'.trans hloc,
      hst'.trans_le (hst.trans hc), hend.trans hend'.ge⟩

theorem GamingSession.Authorized.congr (w : s.Authorized h db) (hc : db.clock.now ≤ db'.clock.now)
    (hr : db'.reservations = db.reservations) : s.Authorized h db' :=
  w.rebook hc fun b hb _ _ => ⟨b, hr ▸ hb, rfl, rfl, rfl, rfl, rfl, rfl⟩

/-- The session is billed or renewed, and keeps its limit. -/
theorem GamingSession.Authorized.same (w : s.Authorized h db) (hends : r.endsAt = s.endsAt)
    (hlimit : r.accessUntil = s.accessUntil)
    (hplace : r.customerId = s.customerId ∧ r.resourceId = s.resourceId ∧ r.locationId = s.locationId)
    (hres : r.reservationId = s.reservationId) : r.Authorized h db := by
  refine ⟨?_, ?_, ?_⟩
  · rw [hends, hlimit]
    exact w.ends
  · rw [hplace.2.2, hlimit]
    exact w.hours
  · rw [hres, hplace.1, hplace.2.1, hplace.2.2, hlimit]
    exact w.booking

/-- A limit that was just taken authorizes. -/
theorem Limit.authorized {now : Instant}
    (hl : Limit h db s.resourceId s.locationId s.customerId s.reservationId now s.accessUntil)
    (hnow : now ≤ db'.clock.now) (hr : db'.reservations = db.reservations)
    (hends : s.endsAt ≤ s.accessUntil) : s.Authorized h db' := by
  refine ⟨hends, hl.opened hnow, fun id hid => ?_⟩
  obtain ⟨b, hb, rfl, hcust, hres, -, hst, hle⟩ := hl.booking id hid
  exact ⟨b, hr ▸ hb, rfl, hcust, hres, hl.place b hb hid, hst.trans hnow, hle⟩

theorem Authorized.congr (w : Authorized h db) (hc : db.clock.now ≤ db'.clock.now)
    (hr : db'.reservations = db.reservations)
    (hs : ∀ s ∈ db'.sessions, s.status = .active → s ∈ db.sessions ∨ s.Authorized h db') :
    Authorized h db' := by
  intro s hm ha
  rcases hs s hm ha with hm | hauth
  · exact (w s hm ha).congr hc hr
  · exact hauth

theorem Authorized.quiet (w : Authorized h db) (q : Quiet db db') : Authorized h db' :=
  w.congr q.clock q.reservations fun _ hs _ => .inl (q.sessions ▸ hs)

theorem Authorized.save (w : Authorized h db) (hs : s ∈ db.sessions) (hid : r.id = s.id)
    (hsess : db'.sessions = db.sessions.save r) (hc : db.clock.now ≤ db'.clock.now)
    (hr : db'.reservations = db.reservations) (hauth : r.status = .active → r.Authorized h db') :
    Authorized h db' := by
  refine w.congr hc hr fun x hx ha => ?_
  rcases (Db.mem_saved hs hid hsess).1 hx with rfl | ⟨hx, -⟩
  · exact .inr (hauth ha)
  · exact .inl hx

theorem Authorized.rebook (w : Authorized h db) {t : Table Reservation.id}
    (hk : ∀ s ∈ db.sessions, s.status = .active → ∀ b ∈ db.reservations, s.reservationId = some b.id →
      b.resourceId = some s.resourceId → ∃ b' ∈ t, b'.id = b.id ∧ b'.customerId = b.customerId ∧
      b'.resourceId = b.resourceId ∧ b'.locationId = b.locationId ∧ b'.startTime = b.startTime ∧
      b'.endTime = b.endTime) : Authorized h { db with reservations := t } :=
  fun s hs ha => (w s hs ha).rebook le_rfl (hk s hs ha)

/-- No effect takes the authority of an active session, but for the status of its reservation. -/
theorem Authorized.effect (w : Authorized h db) (e : Effect h l L db db') : Authorized h db' := by
  cases e with
  | quiet q => exact w.quiet q
  | @charged s delta createdAt e hs ha hm hd h0 hlt he q =>
    have hc : db.clock.now ≤ db'.clock.now := (@Db.post_clock db e) ▸ q.clock
    have hr : db'.reservations = db.reservations := q.reservations.trans Db.post_reservations
    exact w.save (r := s.charge delta) hs rfl (q.sessions.trans Db.post_putSession_sessions) hc hr
      fun _ => ((w s hs ha).congr hc hr).same rfl rfl ⟨rfl, rfl, rfl⟩ rfl
  | @closed s status reason sequence hs hst q =>
    exact w.save (r := s.closed status reason sequence) hs rfl q.sessions q.clock q.reservations
      fun ha => absurd ha hst
  | @granted customer actor operation seconds key createdAt e hidle hfresh h0 hlt he q =>
    exact w.congr ((@Db.post_clock db e) ▸ q.clock) (q.reservations.trans Db.post_reservations)
      fun s hs _ => .inl ((q.sessions.trans Db.post_sessions) ▸ hs)
  | @toppedUp s actor operation seconds key createdAt now limit sequence e hs ha hfresh h0 hlt he
      hnow hnow' hl q =>
    have hr : db'.reservations = db.reservations := q.reservations.trans Db.post_reservations
    exact w.save (r := s.extended _ limit sequence) hs rfl (q.sessions.trans Db.post_putSession_sessions)
      (hnow.trans hnow') hr fun _ => Limit.authorized (s := s.extended _ limit sequence) hl hnow' hr
        (min_le_right _ _)
  | @renewed s hs ha q =>
    exact w.save (r := { s with meteredLeaseUntil := min (db.clock.now.plusSeconds l) s.endsAt }) hs rfl
      q.sessions q.clock q.reservations fun _ => ((w s hs ha).congr q.clock q.reservations).same rfl rfl
        ⟨rfl, rfl, rfl⟩ rfl
  | @leased s p now hs ha hnow hsigned hbilled hp q =>
    exact w.save (r := { s with meteredLeaseUntil := p.expiresAt }) hs rfl q.sessions q.clock q.reservations
      fun _ => ((w s hs ha).congr q.clock q.reservations).same rfl rfl ⟨rfl, rfl, rfl⟩ rfl
  | refused hp he q => exact w.congr q.clock q.reservations fun s hs _ => .inl (q.sessions ▸ hs)
  | @started s sessions hfresh hmem hcustomer hstation ha hm hmove hb hnow hends hlease hl q =>
    refine w.congr q.clock q.reservations fun x hx _ => ?_
    rw [q.sessions] at hx
    rcases (hmem x).1 hx with hx | rfl
    · exact .inl hx
    · exact .inr (hl.authorized (hnow.1.trans q.clock) q.reservations (hends ▸ min_le_right _ _))
  | @booked r reservations hlt hp hemployee hresource hi q =>
    refine Authorized.quiet (show Authorized h { db with reservations } from
      w.rebook fun s hs ha b hb _ _ => ?_) q
    exact ⟨b, (Table.mem_insert hi).2 (.inl hb), rfl, rfl, rfl, rfl, rfl, rfl⟩
  | @moved r r' hr hsame hstatus hlt hemployee hresource hsession q =>
    refine Authorized.quiet (show Authorized h (db.putReservation r') from w.rebook
      fun s hs ha b hb hown hst => ?_) q
    by_cases hbr : b.id = r.id
    · -- a reservation without resource is no session's, and others stay while their session is active
      obtain rfl := Table.eq_of_key hb hr hbr
      rcases hsession with ⟨hnone, -⟩ | hno
      · rw [hnone] at hst
        cases hst
      · exact absurd ⟨hown, ha⟩ (hno s hs)
    · exact ⟨b, Table.mem_save.2 (.inl ⟨hb, fun h => hbr (h.trans hsame.1)⟩), rfl, rfl, rfl, rfl, rfl, rfl⟩
  | @changed r status version hr hcd q =>
    refine Authorized.quiet (show Authorized h (db.putReservation { r with status, version }) from w.rebook
      fun s hs ha b hb _ _ => ?_) q
    by_cases hbr : b.id = r.id
    · obtain rfl := Table.eq_of_key hb hr hbr
      exact ⟨_, Table.mem_save_self hb rfl, rfl, rfl, rfl, rfl, rfl, rfl⟩
    · exact ⟨b, Table.mem_save.2 (.inl ⟨hb, hbr⟩), rfl, rfl, rfl, rfl, rfl, rfl⟩

theorem Authorized.empty (t : Instant) : Authorized h (Db.empty t) :=
  fun _ hs => absurd hs Table.not_mem_empty

end authorized

/-! ### Sales that commit -/

/-- All that the clock has still to tell is before `t`. -/
def Clock.Before (k : Clock) (t : Instant) : Prop := k.now < t ∧ ∀ x ∈ k.readings, x < t

theorem Clock.Before.next {k : Clock} {t : Instant} (h : k.Before t) : k.next.Before t := by
  unfold Clock.next
  split
  · exact h
  · rename_i x xs hx
    have hall : ∀ y ∈ x :: xs, y < t := hx ▸ h.2
    exact ⟨max_lt h.1 (hall x List.mem_cons_self), fun y hy => hall y (List.mem_cons_of_mem _ hy)⟩

instance (k : Clock) (t : Instant) : Decidable (k.Before t) := inferInstanceAs (Decidable (_ ∧ _))

/-- Reservations and commands are as they were, and the clock may have gone on. -/
structure Aside (db db' : Db) : Prop where
  reservations : db'.reservations = db.reservations
  commands : db'.commands = db.commands
  cursors : db'.cursors = db.cursors
  now : db.clock.now ≤ db'.clock.now
  before : ∀ t, db.clock.Before t → db'.clock.Before t

theorem Aside.refl (db : Db) : Aside db db := ⟨rfl, rfl, rfl, le_rfl, fun _ => id⟩

theorem Aside.next (db : Db) : Aside db { db with clock := db.clock.next } :=
  ⟨rfl, rfl, rfl, db.clock.le_next, fun _ h => h.next⟩

theorem Aside.trans {db db₁ db' : Db} (h : Aside db db₁) (h' : Aside db₁ db') : Aside db db' :=
  ⟨h'.reservations.trans h.reservations, h'.commands.trans h.commands, h'.cursors.trans h.cursors,
    h.now.trans h'.now, fun t ht => h'.before t (h.before t ht)⟩

section sales

variable {h : Hours} {L : ℕ} {c : Call} {db : Db} {s : GamingSession}

theorem addExact_of_lt {a b : ℤ} (h0 : 0 ≤ a + b) (hlt : a + b < 2 ^ 63) : addExact a b = .ok (a + b) :=
  if_pos ⟨by omega, hlt⟩

/-- An entry under a fresh key is posted, within the bounds of an account. -/
theorem succeeds_append {customer : UUID} {session operation : Option UUID} {actor : UUID} {delta : ℤ}
    {kind : LedgerKind} {reason : Option String} {source : SourceKey} (hfresh : db.hasEntry source = false)
    (h0 : 0 ≤ db.balance customer + delta) (hlt : db.balance customer + delta < 2 ^ 63) :
    Succeeds (append customer session operation actor delta kind reason source) (fun _ db' =>
      db' = { db.post (db.entry customer session operation actor delta kind reason source
        db.clock.next.now) with
        clock := db.clock.next }) c db := by
  obtain ⟨t, ht, hpost⟩ := Db.post_of_fresh
    (e := db.entry customer session operation actor delta kind reason source db.clock.next.now) hfresh
  simp only [append, succeeds_bind, succeeds_get, succeeds_ite, succeeds_pure, succeeds_lift,
    succeeds_require, succeeds_modify, succeeds_instant, succeeds_insertRow]
  refine ⟨fun h => absurd (hfresh.symm.trans h) (by simp), fun _ => ⟨_, addExact_of_lt h0 hlt, h0, t, ht, ?_⟩⟩
  rw [hpost]
  rfl

/-- What the settlement of a session that goes on leaves. -/
structure Billed (delta : ℤ) (s : GamingSession) (db : Db) (s' : GamingSession) (db' : Db) : Prop where
  session : s' = s.charge delta
  mem : s' ∈ db'.sessions
  balance : db'.balance s.customerId = db.balance s.customerId - delta
  aside : Aside db db'
  operations : db'.operations = db.operations
  grants : ∀ actor customer key, db'.hasEntry (.grant actor customer key) = db.hasEntry
    (.grant actor customer key)

theorem succeeds_charge (hc : Conserved db) (hs : s ∈ db.sessions) {delta : ℤ} (h0 : 0 ≤ delta)
    (hle : delta ≤ db.balance s.customerId) (hbal : db.balance s.customerId < 2 ^ 63)
    (hlt : 0 < delta → s.billedSeconds + delta < 2 ^ 63) (hb : 0 ≤ s.billedSeconds) :
    Succeeds (charge s delta) (Billed delta s db) c db := by
  simp only [charge, succeeds_ite, succeeds_bind, succeeds_lift, succeeds_pure, saveSession, succeeds_modify]
  refine ⟨fun hpos => ⟨_, addExact_of_lt (by omega) (hlt hpos), ?_⟩, fun hz => ?_⟩
  · have hfresh := hc.use_fresh hs hpos
    refine (succeeds_append hfresh (by omega) (by omega)).mono ?_
    rintro - db' rfl
    refine ⟨rfl, Table.mem_save_self (show s ∈ _ by rw [Db.post_sessions]; exact hs) rfl, ?_,
      ⟨by simp [Db.putSession], by simp [Db.putSession], by simp [Db.putSession], ?_, ?_⟩, by
        simp [Db.putSession], fun actor customer key => ?_⟩
    · rw [sub_eq_add_neg]
      exact Db.balance_post_entry hfresh
    · exact db.clock.le_next
    · exact fun t ht => ht.next
    · exact Db.hasEntry_post (by simp [Db.entry])
  · obtain rfl : delta = 0 := by omega
    exact ⟨by simp [GamingSession.charge, Instant.plusSeconds_zero], hs, (sub_zero _).symm, .refl db,
      rfl, fun _ _ _ => rfl⟩

/-- A session that goes on is settled: its balance is not used up. -/
theorem succeeds_settle {now : Instant} (hc : Conserved db) (hs : s ∈ db.sessions) (ha : s.status = .active)
    (hm : s.billingMode = .timeBalance) (hb : 0 ≤ s.billedSeconds) (hbilled : s.lastBilledAt ≤ now)
    (hends : s.endsAt ≤ s.lastBilledAt.plusSeconds (db.balance s.customerId)) (hnow : now < s.endsAt)
    (hlease : now < s.meteredLeaseUntil) (hbal : db.balance s.customerId < 2 ^ 63)
    (hspan : secondsBetween s.startedAt s.endsAt < 2 ^ 63) : Succeeds (settle s now) (fun s' db' =>
      ∃ delta, 0 ≤ delta ∧ delta < db.balance s.customerId ∧ Billed delta s db s' db') c db := by
  have hpos : 0 < db.balance s.customerId := Instant.lt_plusSeconds.1 (hbilled.trans_lt (hnow.trans_le hends))
  have h0 := unsettled_nonneg s now hpos.le
  have hlt : unsettled s now (db.balance s.customerId) < db.balance s.customerId := by
    have hsec : ¬ db.balance s.customerId ≤ secondsBetween s.lastBilledAt (s.cutoff now) := fun h =>
      absurd ((hends.trans (le_secondsBetween_iff.1 h)).trans (min_le_left _ _)) (not_le.2 hnow)
    unfold unsettled
    omega
  have hbound : 0 < unsettled s now (db.balance s.customerId) →
      s.billedSeconds + unsettled s now (db.balance s.customerId) < 2 ^ 63 := by
    intro hp
    have hle := (charge_lastBilledAt hp).trans (min_le_left _ _)
    have hat : (s.charge (unsettled s now (db.balance s.customerId))).lastBilledAt =
        s.startedAt.plusSeconds (s.billedSeconds + unsettled s now (db.balance s.customerId)) := by
      rw [GamingSession.charge, hc.billedAt s hs, Instant.plusSeconds_plusSeconds]
    rw [hat] at hle
    exact (le_secondsBetween_iff.2 (hle.trans hnow.le)).trans_lt hspan
  simp only [settle, succeeds_ite, succeeds_bind, succeeds_get, succeeds_pure]
  refine ⟨fun h => absurd h (by simp [ha, hm]), fun _ =>
    (succeeds_charge hc hs h0 hlt.le hbal hbound hb).mono ?_⟩
  rintro s₁ db₁ h₁
  have hgo : ¬ (db₁.balance s₁.customerId = 0 ∨ s₁.endsAt ≤ now ∨ s₁.meteredLeaseUntil ≤ now) := by
    have hcust : s₁.customerId = s.customerId := by rw [h₁.session]; rfl
    have hend : s₁.endsAt = s.endsAt := by rw [h₁.session]; rfl
    have hmet : s₁.meteredLeaseUntil = s.meteredLeaseUntil := by rw [h₁.session]; rfl
    rw [hcust, hend, hmet, h₁.balance]
    rintro (hz | hz | hz)
    · omega
    · exact absurd hz (not_le.2 hnow)
    · exact absurd hz (not_le.2 hlease)
  exact ⟨fun h => absurd h hgo, fun _ => ⟨_, h0, hlt, h₁⟩⟩

/-! ### The limit of access, once more -/

theorem firstStart_commits {now : Instant} {bookings : List Reservation}
    (hall : ∀ b ∈ bookings, now < b.startTime) (stop : Instant) :
    ∃ limit, firstStart now bookings stop = .ok limit := by
  induction bookings generalizing stop with
  | nil => exact ⟨stop, rfl⟩
  | cons b bookings ih =>
    rw [firstStart, if_neg (not_le.2 (hall b List.mem_cons_self))]
    exact ih (fun b hb => hall b (List.mem_cons_of_mem _ hb)) _

/-- While the session runs, the limit can be taken as long as its reservation is confirmed. -/
theorem succeeds_boundary {h : Hours} {db₀ : Db} {now : Instant} (hh : c.hours = h) (hw : s.Authorized h db₀)
    (hclear : s.ClearOf db₀.reservations db₀.clock.now) (ha : s.status = .active)
    (hr : db.reservations = db₀.reservations) (hnow : db₀.clock.now ≤ now) (hlt : now < s.endsAt)
    (hconf : ∀ b ∈ db₀.reservations, s.reservationId = some b.id → b.status = .confirmed) :
    Succeeds (boundary s.resourceId s.locationId s.customerId s.reservationId now)
      (fun _ db' => db' = db) c db := by
  have hclosing : ∃ closing, h.closingTime s.locationId now = some closing := by
    obtain ⟨day, opening, closing, hwin, hop, hle⟩ := hw.hours
    obtain ⟨e, he, -⟩ :=
      Hours.le_closingTime ⟨opening, hwin, hop.trans hnow, hlt.trans_le (hw.ends.trans hle)⟩
    exact ⟨e, he⟩
  obtain ⟨closing, hclosing⟩ := hclosing
  have hstarts : ∀ stop, ∀ b ∈ db.resourceConflicts s.resourceId now stop s.reservationId,
      now < b.startTime := by
    intro stop b hb
    obtain ⟨hb, hst, hbl, ho, hown⟩ := Db.mem_resourceConflicts.1 hb
    rcases (hclear ha).2 b (hr ▸ hb) hst hbl hown with hp | hp
    · exact absurd ho.2 (not_lt.2 (hp.trans hnow))
    · exact hlt.trans_le hp
  cases hown : s.reservationId with
  | none =>
    simp only [boundary, succeeds_bind, succeeds_ask, succeeds_get, succeeds_orThrow,
      succeeds_pure, succeeds_lift]
    rw [hown] at hstarts
    obtain ⟨limit, hlimit⟩ := firstStart_commits (hstarts closing) closing
    exact ⟨closing, hh ▸ hclosing, limit, hlimit, trivial⟩
  | some id =>
    simp only [boundary, succeeds_bind, succeeds_ask, succeeds_get, succeeds_orThrow, succeeds_require,
      succeeds_pure, succeeds_lift]
    rw [hown] at hstarts
    obtain ⟨b, hb, hid, hcust, hst, hloc, hstart, hend⟩ := hw.booking id hown
    obtain ⟨limit, hlimit⟩ := firstStart_commits (hstarts (min closing b.endTime)) (min closing b.endTime)
    refine ⟨closing, hh ▸ hclosing, b, Table.find?_eq_some.2 ⟨hr ▸ hb, hid⟩,
      ⟨hcust, hst, hloc, ?_, hstart.trans hnow, ?_⟩, limit, hlimit, trivial⟩
    · exact hconf b hb (hown.trans (congrArg some hid.symm))
    · exact hlt.trans_le (hw.ends.trans hend)

/-- A session is written, and a command about it is issued. -/
theorem succeeds_announce {r : GamingSession} {type : StationCommandType} {Q : ℕ → Db → Prop}
    (hnum : db.Numbered) (hQ : ∀ sequence db', Quiet (db.putSession (r.announced sequence)) db' →
      Q sequence db') :
    Succeeds (do
      saveSession r
      let sequence ← writeCommand r type
      saveSession (r.announced sequence)
      return sequence) Q c db := by
  refine .of_wp ?_ (wp_announce hQ)
  obtain ⟨sequence, db', hrun⟩ :=
    @writeCommand_commits c (db.putSession r) r type fun w hw hst => hst ▸ hnum w hw
  exact ⟨sequence, _, commits_bind.2 ⟨(), _, commits_modify.2 rfl, commits_bind.2 ⟨_, _, hrun,
    commits_bind.2 ⟨(), _, commits_modify.2 rfl, commits_pure.2 ⟨rfl, rfl⟩⟩⟩⟩⟩

/-- The session after the end of its access was taken anew. -/
theorem succeeds_refreshEnd (hs : s ∈ db.sessions) (hpos : 0 < db.balance s.customerId) (hnum : db.Numbered)
    (hb : Succeeds (boundary s.resourceId s.locationId s.customerId s.reservationId db.clock.next.now)
      (fun _ db' => db' = { db with clock := db.clock.next }) c { db with clock := db.clock.next }) :
    Succeeds (refreshEnd s) (fun s' db' => s' ∈ db'.sessions ∧ s'.id = s.id ∧ s'.status = s.status ∧
      s'.billedSeconds = s.billedSeconds ∧ db'.accounts = db.accounts ∧ db'.ledger = db.ledger) c db := by
  simp only [refreshEnd, succeeds_bind, succeeds_get, succeeds_ite, succeeds_instant]
  refine ⟨fun hz => absurd hz hpos.ne', fun _ => hb.mono ?_⟩
  rintro limit db₁ rfl
  have hann := @succeeds_announce c { db with clock := db.clock.next }
    { s with
      endsAt := min (s.lastBilledAt.plusSeconds (db.balance s.customerId)) limit
      accessUntil := limit
      meteredLeaseUntil :=
        min s.meteredLeaseUntil (min (s.lastBilledAt.plusSeconds (db.balance s.customerId)) limit) }
    .sessionExtended (fun sequence db' => s.extended (db.balance s.customerId) limit sequence ∈ db'.sessions ∧
      db'.accounts = db.accounts ∧ db'.ledger = db.ledger) hnum fun sequence db' q =>
      ⟨?_, q.accounts, q.ledger⟩
  · simp only [succeeds_bind, succeeds_pure] at hann ⊢
    exact hann.mono fun sequence db₁ h₁ => h₁.mono fun _ db₂ h₂ => h₂.mono fun _ db₃ h₃ =>
      ⟨h₃.1, trivial, trivial, trivial, h₃.2⟩
  · rw [q.sessions]
    exact Table.mem_save_self hs rfl

/-! ### The sale -/

/-- What holds in every state while the opening hours stay `h`. -/
structure Ready (h : Hours) (L : ℕ) (db : Db) : Prop where
  orderly : Orderly L db
  bounded : Bounded db
  exclusive : Exclusive db
  authorized : Authorized h db
  numbered : db.Numbered

/-- The session runs, and neither its end nor its metered lease is reached while the request is served. -/
structure Playing (h : Hours) (c : Call) (db : Db) (s : GamingSession) : Prop where
  mem : s ∈ db.sessions
  active : s.status = .active
  hours : c.hours = h
  station : ∃ r, c.catalogue.resources.find? s.resourceId = some r
  ends : db.clock.Before s.endsAt
  lease : db.clock.Before s.meteredLeaseUntil
  range : secondsBetween s.startedAt s.endsAt < 2 ^ 63
  reservation : ∀ b ∈ db.reservations, s.reservationId = some b.id → b.status = .confirmed

/-- What a top-up of `seconds` leaves of a session and its account. -/
structure ToppedUp (seconds : ℤ) (source : SourceKey) (s : GamingSession) (db db' : Db) : Prop where
  session : ∃ s' ∈ db'.sessions, s'.id = s.id ∧ s'.status = .active ∧ s.billedSeconds ≤ s'.billedSeconds ∧
    db'.balance s.customerId + (s'.billedSeconds - s.billedSeconds) = db.balance s.customerId + seconds
  booked : db'.bookedUnder source = seconds

theorem Playing.find (p : Playing h c db s) (o : Orderly L db) :
    db.activeByCustomer s.customerId = some s := by
  cases hf : db.activeByCustomer s.customerId with
  | none => exact absurd p.active (Db.activeByCustomer_eq_none.1 hf s p.mem rfl)
  | some x =>
    obtain ⟨hx, hc, ha⟩ := Db.activeByCustomer_eq_some hf
    rw [o.single x hx s p.mem ha p.active hc]

theorem Playing.settled (p : Playing h c db s) (r : Ready h L db) :
    Succeeds (settle s db.clock.next.now)
      (fun s' db' => ∃ delta, 0 ≤ delta ∧ delta < db.balance s.customerId ∧ Billed delta s db s' db') c
      { db with clock := db.clock.next } := by
  have hq : Quiet db { db with clock := db.clock.next } := .next db
  refine (succeeds_settle (r.bounded.conserved.quiet hq) p.mem p.active (r.bounded.mode s p.mem)
    (r.bounded.billed s p.mem).1 ((r.orderly.billed s p.mem p.active).trans db.clock.le_next)
      (r.bounded.paid s p.mem p.active) p.ends.next.1 p.lease.next.1
    (r.bounded.balance _) p.range).mono ?_
  rintro s' db' ⟨delta, h0, hlt, hb⟩
  exact ⟨delta, h0, hlt, hb.session, hb.mem, hb.balance, (Aside.next db).trans hb.aside,
    hb.operations, hb.grants⟩

/-- The payment is posted to the account of the settled session. -/
theorem succeeds_post {operation : FinancialOperation} {source : SourceKey} {delta : ℤ} {db₁ : Db}
    {s₁ : GamingSession} (hmem : s₁ ∈ db₁.sessions) (haside : Aside db db₁)
    (hbal : db₁.balance s.customerId = db.balance s.customerId - delta) (hfresh : db₁.hasEntry source = false)
    (h0 : 0 < operation.grantedSeconds) (hdelta : 0 ≤ delta) (hle : delta < db.balance s.customerId)
    (hlt : db.balance s.customerId + operation.grantedSeconds < 2 ^ 63) :
    Succeeds (append s.customerId none (some operation.id) operation.actorId operation.grantedSeconds .grant
      none source) (fun _ db₂ => s₁ ∈ db₂.sessions ∧ Aside db db₂ ∧
        db₂.bookedUnder source = operation.grantedSeconds ∧
        db₂.balance s.customerId = db.balance s.customerId - delta + operation.grantedSeconds) c db₁ := by
  refine (succeeds_append hfresh (by omega) (by omega)).mono ?_
  rintro - db₂ rfl
  refine ⟨by simpa using hmem, haside.trans ⟨by simp, by simp, by simp, ?_, fun t ht => ht.next⟩, ?_, ?_⟩
  · simpa using db₁.clock.le_next
  · exact Db.bookedUnder_post (e := db₁.entry s.customerId none (some operation.id) operation.actorId
      operation.grantedSeconds .grant none source db₁.clock.next.now) hfresh
  · rw [← hbal]
    exact Db.balance_post_entry hfresh

theorem Playing.extended {delta : ℤ} {db₂ : Db} (p : Playing h c db s) (r : Ready h L db)
    (hmem : s.charge delta ∈ db₂.sessions) (haside : Aside db db₂) (hpos : 0 < db₂.balance s.customerId) :
    Succeeds (refreshEnd (s.charge delta)) (fun s' db' => s' ∈ db'.sessions ∧ s'.id = s.id ∧
      s'.status = s.status ∧ s'.billedSeconds = s.billedSeconds + delta ∧ db'.accounts = db₂.accounts ∧
      db'.ledger = db₂.ledger) c db₂ := by
  have hnum : db₂.Numbered :=
    r.numbered.of_commands haside.cursors fun w hw => ⟨w, haside.commands ▸ hw, rfl, rfl⟩
  refine succeeds_refreshEnd (s := s.charge delta) hmem hpos hnum ?_
  exact succeeds_boundary (s := s) p.hours (r.authorized s p.mem p.active)
    (r.exclusive.sessions s p.mem) p.active haside.reservations (haside.now.trans db₂.clock.le_next)
    (haside.before _ p.ends).next.1 p.reservation

theorem Playing.sold {operation : FinancialOperation} {key : String} (p : Playing h c db s) (r : Ready h L db)
    (hcust : operation.customerId = s.customerId) (hid : ∀ o ∈ db.operations, o.id ≠ operation.id)
    (h0 : 0 < operation.grantedSeconds)
    (hfresh : db.hasEntry (.grant operation.actorId s.customerId key) = false)
    (hlt : db.balance s.customerId + operation.grantedSeconds < 2 ^ 63) :
    Succeeds (sell operation (.grant operation.actorId s.customerId key))
      (fun _ => ToppedUp operation.grantedSeconds (.grant operation.actorId s.customerId key) s db) c db := by
  obtain ⟨resource, hres⟩ := p.station
  have hlock : c.catalogue.lockResource s.resourceId = .ok resource := orFail_eq_ok.2 hres
  simp only [sell, lockActive, settleActive, refreshActive, hcust, p.find r.orderly, hlock, succeeds_bind,
    succeeds_ask, succeeds_get, succeeds_lift, succeeds_pure, succeeds_instant, succeeds_insertRow,
    succeeds_ite, Except.ok.injEq, exists_eq_left']
  refine (p.settled r).mono ?_
  rintro s₁ db₁ ⟨delta, hd, hdlt, h₁⟩
  obtain ⟨t, ht⟩ := Table.insert_of_fresh (t := db₁.operations)
    (r := { operation with customerId := s.customerId, createdAt := db₁.clock.next.now })
    fun o ho => hid o (h₁.operations ▸ ho)
  have hm₁ : s₁ ∈ Db.sessions { db₁ with clock := db₁.clock.next, operations := t } := h₁.mem
  refine ⟨t, ht, (succeeds_post hm₁ ?_ ?_ ?_ h0 hd hdlt hlt).mono ?_⟩
  · exact h₁.aside.trans ⟨rfl, rfl, rfl, db₁.clock.le_next, fun _ h => h.next⟩
  · exact h₁.balance
  · exact (h₁.grants _ _ _).trans hfresh
  rintro - db₂ ⟨hmem, haside, hbooked, hbal⟩
  obtain rfl := h₁.session
  refine ⟨fun _ => (p.extended r hmem haside (by omega)).mono ?_, fun hna => absurd p.active hna⟩
  rintro s' db' ⟨hmem', hid', hst', hbilled, hacc, hled⟩
  refine ⟨⟨s', hmem', hid', hst'.trans p.active, by omega, ?_⟩, (Db.bookedUnder_congr hled _).trans hbooked⟩
  rw [Db.balance_congr hacc, hbal]
  omega

/-! ### The purchase -/

/-- A valid request of `minutes` minutes at `price` by an actor who may take payments. -/
structure Purchase (c : Call) (db : Db) (customer : UUID) (request : Grant) (key : String)
    (minutes price : ℤ) : Prop where
  staff : c.actor.role.has .gamingPaymentRecord = true
  place : c.actor.role = .employee → ∃ r ∈ c.catalogue.resources, r.type = .gamingPc ∧
    r.id ∈ c.catalogue.assignedResources c.actor
  registered : ∃ u ∈ c.catalogue.users.find? customer, u.deleted = false ∧ u.role = .customer ∧ u.active
  bounded : ¬ blank key ∧ javaLength key ≤ 255
  fresh : db.hasEntry (.grant c.actor.id customer key) = false
  confirmed : request.confirmed = some (minutes, c.price.version)
  priced : c.price.pricePerMinute = some price
  amount : (price * minutes).natAbs < 10 ^ 14
  newId : ∀ o ∈ db.operations, o.id ≠ c.freshId

theorem Role.staff_of_has {r : Role} (h : r.has .gamingPaymentRecord = true) : r ≠ .customer ∧
    r.has .customerRead = true := by
  cases r with
  | customer => cases h
  | employee => exact ⟨by decide, rfl⟩
  | admin => exact ⟨by decide, rfl⟩
  | owner => exact ⟨by decide, rfl⟩

/-- The place of the payment: a gaming PC that the actor may manage. -/
theorem succeeds_financialContext (hstaff : c.actor.role.has .gamingPaymentRecord = true)
    (hplace : c.actor.role = .employee → ∃ r ∈ c.catalogue.resources, r.type = .gamingPc ∧
      r.id ∈ c.catalogue.assignedResources c.actor) :
    Succeeds financialContext
      (fun context db' => db' = db ∧ (∀ id, context = some id → ∃ r ∈ c.catalogue.resources, r.id = id) ∧
      (context.isSome → c.catalogue.requireManageForUpdate c.actor [context] = .ok ())) c db := by
  simp only [financialContext, succeeds_bind, succeeds_ask, succeeds_ite, succeeds_orThrow,
    succeeds_pure, true_and]
  refine ⟨fun he => ?_, fun hne => ⟨fun id hid => ?_, fun _ => ?_⟩⟩
  · obtain ⟨r, hr, ht, ha⟩ := hplace he
    have hsome :
      ((sortById (·.id) (c.catalogue.resources.rows.filter fun r => r.type = .gamingPc)).find? fun r =>
        r.id ∈ c.catalogue.assignedResources c.actor).isSome = true :=
      List.find?_isSome.2 ⟨r, mem_sortById.2 (List.mem_filter.2 ⟨hr, decide_eq_true ht⟩), decide_eq_true ha⟩
    obtain ⟨mine, hmine⟩ := Option.isSome_iff_exists.1 hsome
    have hassigned : mine.id ∈ c.catalogue.assignedResources c.actor := by simpa using List.find?_some hmine
    refine ⟨mine, hmine, fun id hid => ?_, fun _ => ?_⟩
    · exact ⟨mine, (List.mem_filter.1 (mem_sortById.1 (List.mem_of_find?_eq_some hmine))).1,
        Option.some.inj hid⟩
    · simp [Catalogue.requireManageForUpdate, Catalogue.allResources, Catalogue.canManage,
        check, he, hassigned]
      rfl
  · obtain ⟨r, hr, rfl⟩ := Option.map_eq_some_iff.1 hid
    exact ⟨r, (List.mem_filter.1 (mem_sortById.1 (List.mem_of_mem_head? hr))).1, rfl⟩
  · have hall : Catalogue.allResources c.actor = true := by
      cases hrole : c.actor.role with
      | customer => exact absurd hrole (Role.staff_of_has hstaff).1
      | employee => exact absurd hrole hne
      | admin => simp [Catalogue.allResources, hrole]
      | owner => simp [Catalogue.allResources, hrole]
    exact if_pos hall

theorem succeeds_account {customer : UUID} (hstaff : c.actor.role.has .gamingPaymentRecord = true)
    (hplace : c.actor.role = .employee → ∃ r ∈ c.catalogue.resources, r.type = .gamingPc ∧
      r.id ∈ c.catalogue.assignedResources c.actor) :
    Succeeds (account customer) (fun _ db' => Quiet db db') c db := by
  obtain ⟨hne, hread⟩ := Role.staff_of_has hstaff
  simp only [account, requireAccess, succeeds_bind, succeeds_ask, succeeds_require, succeeds_instant,
    succeeds_get, succeeds_pure, if_neg hne]
  refine ⟨⟨hread, fun h => ?_⟩, .next db⟩
  obtain ⟨r, -, -, ha⟩ := hplace h.1
  rw [h.2] at ha
  cases ha

theorem ToppedUp.quiet {seconds : ℤ} {source : SourceKey} {db₁ db' : Db}
    (t : ToppedUp seconds source s db db₁) (q : Quiet db₁ db') :
    ToppedUp seconds source s db db' := by
  obtain ⟨⟨s', hs', hid, hst, hle, hbal⟩, hbooked⟩ := t
  refine ⟨⟨s', q.sessions ▸ hs', hid, hst, hle, ?_⟩, (Db.bookedUnder_congr q.ledger _).trans hbooked⟩
  rwa [q.balance]

theorem Playing.paid {request : Grant} {key : String} {minutes price : ℤ} {context locationId : Option UUID}
    {createdAt : Instant} (p : Playing h c db s) (r : Ready h L db)
    (hp : Purchase c db s.customerId request key minutes price)
    (hlt : db.balance s.customerId + minutes * 60 < 2 ^ 63) : Succeeds (sell ⟨c.freshId, s.customerId,
      context, locationId, c.actor.id, request.method, price * minutes, minutes * 60, price,
        c.price.version, request.reference, createdAt⟩ (.grant c.actor.id s.customerId key))
      (fun _ => Succeeds (account s.customerId)
        (fun _ => ToppedUp (minutes * 60) (.grant c.actor.id s.customerId key) s db) c) c db := by
  have hmin := Grant.le_of_confirmed hp.confirmed
  refine (p.sold r rfl hp.newId (by show (0 : ℤ) < minutes * 60; omega) hp.fresh hlt).mono fun _ db₁ ht => ?_
  exact (succeeds_account hp.staff hp.place).mono fun _ _ q => ht.quiet q

theorem Playing.granted {request : Grant} {key : String} {minutes price : ℤ} (p : Playing h c db s)
    (r : Ready h L db) (hp : Purchase c db s.customerId request key minutes price)
    (hlt : db.balance s.customerId + minutes * 60 < 2 ^ 63) : Succeeds (grant s.customerId request key)
      (fun _ => ToppedUp (minutes * 60) (.grant c.actor.id s.customerId key) s db) c db := by
  simp only [grant, preAuthorize, requireStaff, lockCustomer, succeeds_bind, succeeds_ask, succeeds_require,
    hp.staff, true_and]
  refine ⟨⟨(Role.staff_of_has hp.staff).1, trivial⟩, ?_, ?_⟩
  · obtain ⟨u, hu, hdel, hrole, hact⟩ := hp.registered
    exact ⟨u, hu, hdel, hrole, fun _ => hact⟩
  refine (succeeds_financialContext hp.staff hp.place).mono ?_
  rintro context db₁ ⟨rfl, hfound, hmanage⟩
  simp only [succeeds_lift, succeeds_bind, succeeds_require, succeeds_orThrow, succeeds_get, succeeds_ite,
    hp.fresh, hp.confirmed, hp.priced]
  refine ⟨(), ?_, ?_⟩
  · split
    · exact hmanage ‹_›
    · rfl
  cases context with
  | none => exact ⟨none, rfl, hp.bounded, _, rfl, fun h => absurd h (by decide), fun _ =>
      ⟨_, rfl, rfl, hp.amount, p.paid r hp hlt⟩⟩
  | some id =>
    obtain ⟨resource, hres, rfl⟩ := hfound id rfl
    obtain ⟨area, harea, haid⟩ := c.catalogue.resource_area resource hres
    have hloc : c.catalogue.locationId resource = .ok area.locationId := by
      rw [Catalogue.locationId, Catalogue.area, Table.find?_eq_some.2 ⟨harea, haid⟩]
      rfl
    refine ⟨some area.locationId, ?_, hp.bounded, _, rfl, fun h => absurd h (by decide), fun _ =>
      ⟨_, rfl, rfl, hp.amount, p.paid r hp hlt⟩⟩
    exact bind_eq_ok.2 ⟨resource, orFail_eq_ok.2 (Table.find?_eq_some.2 ⟨hres, rfl⟩),
      bind_eq_ok.2 ⟨area.locationId, hloc, rfl⟩⟩

end sales

/-! ### Top-ups in a run -/

theorem commit_discard_of_ok {ρ σ ε α : Type} {x : Txn ρ σ ε α} {c : ρ} {s s' : σ} {a : α}
    (h : x.run c s = .ok (a, s')) : x.discard.commit c s = s' := by
  rw [commit, show x.discard.run c s = _ from run_bind_of_ok h]
  rfl

theorem commit_discard_of_error {ρ σ ε α : Type} {x : Txn ρ σ ε α} {c : ρ} {s : σ} {e : ε}
    (h : x.run c s = .error e) : x.discard.commit c s = s := by
  rw [commit, show x.discard.run c s = _ from run_bind_of_error h]

theorem ready_run {h : Hours} {t : Instant} {rs : List Request} (hrs : ∀ r ∈ rs, r.call.hours = h) :
    Ready h (longestLease rs) (run (Db.empty t) rs) := by
  have hreach : Reachable (run (Db.empty t) rs) := ⟨t, rs, rfl⟩
  have hboth := run_induct (A := fun h' _ => h' = h) (P := fun db => Exclusive db ∧ Authorized h db)
    (fun hA _ hP e => ⟨hP.1.effect e, (hA ▸ hP.2).effect e |> fun w => hA ▸ w⟩)
      (fun r hr => ⟨hrs r hr, le_longestLease hr⟩) (.empty t)
    ⟨.empty t, .empty t⟩
  exact ⟨hboth.1, hreach.bounded, hboth.2.1, hboth.2.2,
    run_numbered (fun _ hw => absurd hw Table.not_mem_empty) rs⟩

theorem Ready.listen {h : Hours} {L : ℕ} {db : Db} (r : Ready h L db) (readings : List Instant) :
    Ready h L (db.listen readings) := by
  have q : Quiet db (db.listen readings) := .listen readings
  exact ⟨r.orderly.quiet q, r.bounded.congr (r.bounded.conserved.quiet q) rfl rfl, r.exclusive.quiet q,
    r.authorized.quiet q, r.numbered⟩

/-- While the opening hours stay the same, a paid top-up during play is accepted, credits what was bought
and leaves the session active, as long as the reservation of the session, if it has one, is confirmed. A
grant that fails leaves no trace. -/
theorem top_up_accepted {h : Hours} {t : Instant} {rs : List Request} (hrs : ∀ r ∈ rs, r.call.hours = h)
    (c : Call) (request : Grant) (key : String) :
    let db := (run (Db.empty t) rs).listen c.readings
    (∀ s minutes price, Playing h c db s → Purchase c db s.customerId request key minutes price →
      db.balance s.customerId + minutes * 60 < 2 ^ 63 →
      ∃ view db', (grant s.customerId request key).run c db = .ok (view, db') ∧
        ToppedUp (minutes * 60) (.grant c.actor.id s.customerId key) s db db' ∧
        step (run (Db.empty t) rs) ⟨c, .grant s.customerId request key⟩ = db') ∧
    ∀ customer f, (grant customer request key).run c db = .error f →
      let db' := step (run (Db.empty t) rs) ⟨c, .grant customer request key⟩
      db'.accounts = db.accounts ∧ db'.ledger = db.ledger ∧ db'.operations = db.operations ∧
      db'.sessions = db.sessions ∧
        db'.commands = db.commands ∧ db'.cursors = db.cursors := by
  intro db
  refine ⟨fun s minutes price p hp hlt => ?_, fun customer f hf => ?_⟩
  · obtain ⟨view, db', hrun, ht⟩ := p.granted ((ready_run hrs).listen c.readings) hp hlt
    exact ⟨view, db', hrun, ht, commit_discard_of_ok hrun⟩
  · have hstep : step (run (Db.empty t) rs) ⟨c, .grant customer request key⟩ = db :=
      commit_discard_of_error hf
    intro db'
    rw [show db' = db from hstep]
    exact ⟨rfl, rfl, rfl, rfl, rfl, rfl⟩

namespace Arcade

/-- The customer plays under his reservation. -/
def reserved : List Request :=
  [grant 100 10000000 "first",
    request 200 11000000 (.create ⟨some 3, 10, some 40, 3600000000, none, none, some 2, none, none⟩),
    request 201 12000000 (.changeStatus 200 ⟨.confirmed, none, 0⟩),
    request 101 3600000000 (.assign ⟨2, 40, some 200⟩), login 3601000000]

/-- The owner cancels the reservation meanwhile. -/
def cancelled : List Request :=
  reserved ++ [request 202 3602000000 (.changeStatus 200 ⟨.cancelled, some "Closed", 1⟩)]

def topUp : Request := grant 103 3603000000 "second"

theorem cancelled_hours : ∀ r ∈ cancelled, r.call.hours = hours := by
  simp [cancelled, reserved, grant, login, request]

/-- A purchase at the counter, in a state that `decide` can look at. -/
theorem purchase_topUp {db : Db} (hfresh : db.hasEntry (.grant 1 2 "second") = false)
    (hid : ∀ o ∈ db.operations.rows, o.id ≠ 103) :
    Purchase topUp.call db 2 ⟨some ⟨30, 0⟩, some 1, .cash, none⟩ "second" 30 100 where
  staff := rfl
  place := fun h => by cases h
  registered := by decide
  bounded := by decide
  fresh := hfresh
  confirmed := by decide
  priced := rfl
  amount := by decide
  newId := hid

theorem top_up_accepted_reserved :
    let db := (GManager.run (Db.empty 0) reserved).listen topUp.call.readings
    ∃ s ∈ db.sessions.rows, s.reservationId = some 200 ∧
      ∃ view db', (GManager.grant s.customerId ⟨some ⟨30, 0⟩, some 1, .cash, none⟩ "second").run topUp.call
        db = .ok (view, db') ∧ ToppedUp (30 * 60) (.grant 1 s.customerId "second") s db db' := by
  intro db
  have hrs : ∀ r ∈ reserved, r.call.hours = hours := by simp [reserved, grant, login, request]
  obtain ⟨s, hs, hres, hcust, ha, hends, hlease, hrange, hroom⟩ :
    ∃ s ∈ db.sessions.rows, s.reservationId = some 200 ∧ s.customerId = 2 ∧
      (s.status = .active ∧ s.resourceId = 40) ∧ db.clock.Before s.endsAt ∧
      db.clock.Before s.meteredLeaseUntil ∧ secondsBetween s.startedAt s.endsAt < 2 ^ 63 ∧
      db.balance s.customerId + 30 * 60 < 2 ^ 63 := by decide +kernel
  have hconf : ∀ b ∈ db.reservations.rows, b.status = .confirmed := by decide +kernel
  have hp : Purchase topUp.call db s.customerId ⟨some ⟨30, 0⟩, some 1, .cash, none⟩ "second" 30 100 := by
    rw [hcust]
    exact purchase_topUp (by decide +kernel) (by decide +kernel)
  have hplay : Playing hours topUp.call db s :=
    ⟨hs, ha.1, rfl, by rw [ha.2]; exact ⟨_, rfl⟩, hends, hlease, hrange, fun b hb _ => hconf b hb⟩
  obtain ⟨view, db', hrun, ht, -⟩ :=
    (top_up_accepted hrs topUp.call ⟨some ⟨30, 0⟩, some 1, .cash, none⟩ "second").1 s 30 100 hplay hp hroom
  exact ⟨s, hs, hres, view, db', hrun, ht⟩

/-- The payment is refused although the customer plays. -/
theorem top_up_refused : (∀ r ∈ cancelled, r.call.hours = hours) ∧
    let db := (GManager.run (Db.empty 0) cancelled).listen topUp.call.readings
    (∃ s ∈ db.sessions.rows, s.status = .active ∧ s.billingMode = .timeBalance ∧ s.customerId = 2 ∧
      db.clock.Before s.endsAt ∧ db.clock.Before s.meteredLeaseUntil) ∧
    Purchase topUp.call db 2 ⟨some ⟨30, 0⟩, some 1, .cash, none⟩ "second" 30 100 ∧
    ((GManager.grant 2 ⟨some ⟨30, 0⟩, some 1, .cash, none⟩ "second").run topUp.call db).map (fun _ => ()) =
      .error (fail .conflict "Reservation does not authorize access now") := by
  refine ⟨cancelled_hours, ?_, purchase_topUp ?_ ?_, ?_⟩
  · decide +kernel
  · decide +kernel
  · decide +kernel
  · decide +kernel

end Arcade

end GManager

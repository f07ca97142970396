import GManager.Requests
import GManager.Calendar

/-!
# Exclusivity

No employee and no resource is booked twice, and no active session runs into somebody else's reservation
of its station. Reservations that a session has passed do not matter, so the last part speaks about the
time from now on.
-/

namespace GManager

open Txn

/-- Who holds a reservation's employee. -/
def employeeCalendar : Calendar Reservation UUID Instant where
  claims r := if r.status.blocksEmployee then some r.employeeId else none
  start := (·.startTime)
  stop := (·.endTime)

/-- Who holds a reservation's resource. -/
def resourceCalendar : Calendar Reservation UUID Instant where
  claims r := if r.status.blocksResource then r.resourceId else none
  start := (·.startTime)
  stop := (·.endTime)

/-- While it is active, the session has started and ends before every other reservation of its station
that has not passed. -/
def GamingSession.ClearOf (s : GamingSession) (reservations : Table Reservation.id) (now : Instant) : Prop :=
  s.status = .active → s.startedAt ≤ now ∧ ∀ r ∈ reservations, r.resourceId = some s.resourceId →
    r.status.blocksResource → s.reservationId ≠ some r.id → r.endTime ≤ now ∨ s.endsAt ≤ r.startTime

theorem GamingSession.ClearOf.later {s : GamingSession} {reservations : Table Reservation.id}
    {now now' : Instant} (h : s.ClearOf reservations now) (hle : now ≤ now') :
    s.ClearOf reservations now' := fun ha =>
  ⟨(h ha).1.trans hle, fun r hr hrs hb ho => ((h ha).2 r hr hrs hb ho).imp_left fun h => h.trans hle⟩

structure Exclusive (db : Db) : Prop where
  employees : employeeCalendar.Apart db.reservations
  resources : resourceCalendar.Apart db.reservations
  sessions : ∀ s ∈ db.sessions, s.ClearOf db.reservations db.clock.now

theorem EmployeeFree.not_clash {db : Db} {r x : Reservation} {excludeId : Option UUID}
    (hf : EmployeeFree db r.employeeId r.startTime r.endTime excludeId) (hx : x ∈ db.reservations)
    (hid : excludeId ≠ some x.id) : ¬ employeeCalendar.Clash x r := by
  rintro ⟨⟨e, hxe, hre⟩, ho⟩
  simp only [employeeCalendar, Option.ite_none_right_eq_some, Option.some.injEq] at hxe hre
  have hmem : x ∈ db.employeeConflicts r.employeeId r.startTime r.endTime excludeId :=
    Db.mem_employeeConflicts.2 ⟨hx, hxe.2.trans hre.2.symm, hxe.1, ho, hid⟩
  rw [hf] at hmem
  exact absurd hmem List.not_mem_nil

theorem ResourceFree.not_clash {db : Db} {r x : Reservation} {station : UUID} {excludeId : Option UUID}
    (hrs : r.resourceId = some station) (hf : ResourceFree db station r.startTime r.endTime excludeId)
    (hx : x ∈ db.reservations) (hid : excludeId ≠ some x.id) : ¬ resourceCalendar.Clash x r := by
  rintro ⟨⟨e, hxe, hre⟩, ho⟩
  simp only [resourceCalendar, Option.ite_none_right_eq_some] at hxe hre
  have hmem : x ∈ db.resourceConflicts station r.startTime r.endTime excludeId :=
    Db.mem_resourceConflicts.2 ⟨hx, hxe.2.trans (hre.2.symm.trans hrs), hxe.1, ho, hid⟩
  rw [hf.1] at hmem
  exact absurd hmem List.not_mem_nil

/-- A session on a free resource ends before the interval or has started after it. -/
theorem ResourceFree.session {db : Db} {station : UUID} {start stop : Instant} {excludeId : Option UUID}
    (hf : ResourceFree db station start stop excludeId) {s : GamingSession} (hs : s ∈ db.sessions)
    (hst : s.resourceId = station) (ha : s.status = .active) : stop ≤ s.startedAt ∨ s.endsAt ≤ start :=
  not_overlaps_iff.1 (Db.not_overlaps_of_sessionIntervals hf.2 hs (by simp [hst]) ha)

namespace Exclusive

variable {h : Hours} {l L : ℕ} {db db' : Db}

theorem empty (t : Instant) : Exclusive (Db.empty t) :=
  ⟨Calendar.apart_empty, Calendar.apart_empty, fun _ hs => absurd hs Table.not_mem_empty⟩

/-- Sessions change, and are clear afterwards. -/
theorem of_sessions (hx : Exclusive db) (hc : db.clock.now ≤ db'.clock.now)
    (hr : db'.reservations = db.reservations)
    (hs : ∀ s ∈ db'.sessions, s ∈ db.sessions ∨ s.ClearOf db.reservations db'.clock.now) : Exclusive db' := by
  refine ⟨hr ▸ hx.employees, hr ▸ hx.resources, fun s hm => ?_⟩
  rw [hr]
  rcases hs s hm with hm | hclear
  · exact (hx.sessions s hm).later hc
  · exact hclear

theorem quiet (hx : Exclusive db) (q : Quiet db db') : Exclusive db' :=
  hx.of_sessions q.clock q.reservations fun _ hs => .inl (q.sessions ▸ hs)

/-- A session is written that holds no more of its station than before. -/
theorem putSession (hx : Exclusive db) {s r : GamingSession} (hs : s ∈ db.sessions) (hid : r.id = s.id)
    (hclear : s.ClearOf db.reservations db.clock.now → r.ClearOf db.reservations db.clock.now) :
    Exclusive (db.putSession r) := by
  refine Exclusive.of_sessions hx (le_refl db.clock.now) rfl fun x hm => ?_
  rcases (Db.mem_putSession hs hid).1 hm with rfl | ⟨hm, -⟩
  · exact .inr (hclear (hx.sessions s hs))
  · exact .inl hm

end Exclusive

/-- A limit of access keeps clear of the reservations of others. -/
theorem Limit.clearOf {h : Hours} {db : Db} {s : GamingSession} {customer location : UUID}
    {now limit : Instant} (hl : Limit h db s.resourceId location customer s.reservationId now limit)
    (hst : s.startedAt ≤ now) (hends : s.endsAt ≤ limit) : s.ClearOf db.reservations now := by
  refine fun _ => ⟨hst, fun r hr hrs hb ho => ?_⟩
  by_cases hn : now < r.endTime
  · exact .inr (hends.trans (hl.others r hr ⟨hrs, hb, ho, hn⟩))
  · exact .inl (not_lt.1 hn)

/-- A transition of the policy does not start to block. -/
theorem ReservationStatus.blocks_of_candidates {status status' : ReservationStatus}
    (hc : status' ∈ status.candidates) : status.blocksEmployee ∧ status.blocksResource := by
  cases status <;> simp [candidates] at hc ⊢ <;> decide

namespace Exclusive

variable {h : Hours} {l L : ℕ} {db db' : Db}

theorem effect (hx : Exclusive db) (e : Effect h l L db db') : Exclusive db' := by
  cases e with
  | quiet q => exact hx.quiet q
  | @charged s delta createdAt e hs ha hm hd h0 hlt he q =>
    have hp : Exclusive (db.post e) := hx.of_sessions (by simp) (by simp) fun x hm => .inl (by simpa using hm)
    have hs' : s ∈ (db.post e).sessions := by rwa [Db.post_sessions]
    exact (hp.putSession (r := s.charge delta) hs' rfl id).quiet q
  | @closed s status reason sequence hs hst q =>
    exact (hx.putSession (r := s.closed status reason sequence) hs rfl fun _ ha => absurd ha hst).quiet q
  | @granted customer actor operation seconds key createdAt e hidle hfresh h0 hlt he q =>
    have hp : Exclusive (db.post e) := hx.of_sessions (by simp) (by simp) fun x hm => .inl (by simpa using hm)
    exact hp.quiet q
  | @toppedUp s actor operation seconds key createdAt now limit sequence e hs ha hfresh h0 hlt he
      hnow hnow' hl q =>
    have hs' : s ∈ (db.post e).sessions := by rwa [Db.post_sessions]
    have hc : db.clock.now ≤ db'.clock.now := hnow.trans hnow'
    refine hx.of_sessions hc (q.reservations.trans Db.post_reservations) fun x hm => ?_
    rw [q.sessions] at hm
    rcases (Db.mem_putSession (r := s.extended _ limit sequence) hs' rfl).1 hm with rfl | ⟨hm, -⟩
    · refine .inr (GamingSession.ClearOf.later
        (Limit.clearOf (s := s.extended _ limit sequence) hl ?_ ?_) hnow')
      · exact ((hx.sessions s hs) ha).1.trans hnow
      · exact min_le_right _ _
    · exact .inl (by rwa [Db.post_sessions] at hm)
  | @renewed s hs ha q =>
    exact (hx.putSession (r := { s with meteredLeaseUntil := min (db.clock.now.plusSeconds l) s.endsAt })
      hs rfl id).quiet q
  | @leased s p now hs ha hnow hsigned hbilled hp q =>
    have hput := hx.putSession (r := { s with meteredLeaseUntil := p.expiresAt }) hs rfl id
    exact hput.of_sessions q.clock q.reservations fun x hm => .inl (q.sessions ▸ hm)
  | refused hp he q => exact hx.of_sessions q.clock q.reservations fun x hm => .inl (q.sessions ▸ hm)
  | @started s sessions hfresh hmem hcustomer hstation ha hm hmove hb hnow hends hlease hl q =>
    refine hx.of_sessions q.clock q.reservations fun x hm => ?_
    rw [q.sessions] at hm
    rcases (hmem x).1 hm with hm | rfl
    · exact .inl hm
    · refine .inr (GamingSession.ClearOf.later (Limit.clearOf hl le_rfl ?_) (hnow.1.trans q.clock))
      rw [hends]
      exact min_le_right _ _
  | @booked r reservations hlt hp hemployee hresource hi q =>
    refine Exclusive.quiet (show Exclusive { db with reservations } from ⟨?_, ?_, fun s hs ha => ?_⟩) q
    · exact hx.employees.insert hi fun x hm => EmployeeFree.not_clash hemployee hm (by simp)
    · refine hx.resources.insert hi fun x hm hclash => ?_
      obtain ⟨station, -, hrs⟩ := hclash.1
      have hrs : r.resourceId = some station := (Option.ite_none_right_eq_some.1 hrs).2
      exact ResourceFree.not_clash hrs (hresource station hrs) hm (by simp) hclash
    · refine ⟨(hx.sessions s hs ha).1, fun x hm hxs hxb hxo => ?_⟩
      rcases (Table.mem_insert hi).1 hm with hm | rfl
      · exact (hx.sessions s hs ha).2 x hm hxs hxb hxo
      · refine (ResourceFree.session (hresource _ hxs) hs rfl ha).imp_left fun h => ?_
        exact h.trans (hx.sessions s hs ha).1
  | @moved r r' hr hsame hstatus hlt hemployee hresource hsession q =>
    obtain ⟨hid, hemp, hst, -⟩ := hsame
    refine Exclusive.quiet (show Exclusive (db.putReservation r') from ⟨?_, ?_, fun s hs ha => ?_⟩) q
    · rcases hemployee with ⟨h₁, h₂⟩ | hfree
      · refine hx.employees.save_of_clash hr hid ?_
        rintro x ⟨hc, ho⟩
        refine ⟨?_, ?_⟩
        · simpa only [employeeCalendar, hst, hemp] using hc
        · simpa only [employeeCalendar, h₁, h₂] using ho
      · refine hx.employees.save fun x hm hne =>
          EmployeeFree.not_clash (show EmployeeFree _ _ _ _ (some r.id) from ?_) hm ?_
        · rw [hemp]
          exact hfree
        · exact fun h => hne ((Option.some.inj h).symm.trans hid.symm)
    · refine hx.resources.save fun x hm hne hclash => ?_
      obtain ⟨station, -, hrs⟩ := hclash.1
      have hrs : r'.resourceId = some station := (Option.ite_none_right_eq_some.1 hrs).2
      exact ResourceFree.not_clash hrs (hresource station hrs) hm
        (fun h => hne ((Option.some.inj h).symm.trans hid.symm)) hclash
    · refine ⟨(hx.sessions s hs ha).1, fun x hm hxs hxb hxo => ?_⟩
      rcases Table.mem_save.1 hm with ⟨hm, -⟩ | ⟨rfl, -⟩
      · exact (hx.sessions s hs ha).2 x hm hxs hxb hxo
      · refine (ResourceFree.session (hresource _ hxs) hs rfl ha).imp_left fun h => ?_
        exact h.trans (hx.sessions s hs ha).1
  | @changed r status version hr hc q =>
    obtain ⟨hbe, hbr⟩ := ReservationStatus.blocks_of_candidates hc
    refine Exclusive.quiet (show Exclusive (db.putReservation { r with status, version }) from
      ⟨?_, ?_, fun s hs ha => ?_⟩) q
    · refine hx.employees.save_of_clash hr rfl ?_
      rintro x ⟨⟨e, hxe, hre⟩, ho⟩
      refine ⟨⟨e, hxe, ?_⟩, ho⟩
      exact (if_pos hbe).trans (Option.ite_none_right_eq_some.1 hre).2
    · refine hx.resources.save_of_clash hr rfl ?_
      rintro x ⟨⟨e, hxe, hre⟩, ho⟩
      refine ⟨⟨e, hxe, ?_⟩, ho⟩
      exact (if_pos hbr).trans (Option.ite_none_right_eq_some.1 hre).2
    · refine ⟨(hx.sessions s hs ha).1, fun x hm hxs hxb hxo => ?_⟩
      rcases Table.mem_save.1 hm with ⟨hm, -⟩ | ⟨rfl, -⟩
      · exact (hx.sessions s hs ha).2 x hm hxs hxb hxo
      · exact (hx.sessions s hs ha).2 r hr hxs hbr hxo

end Exclusive

theorem Reachable.exclusive {db : Db} (hdb : Reachable db) : Exclusive db :=
  hdb.induct .empty fun _ hx e => hx.effect e

/-- In every reachable state no resource and no employee is booked twice for one time, and from now on no
active session runs into a reservation of its station that is not its own. -/
theorem Reachable.bookings_exclusive {db : Db} (hdb : Reachable db) :
    (∀ r ∈ db.reservations, ∀ r' ∈ db.reservations, r.id ≠ r'.id → ∀ resource, r.resourceId = some resource →
      r'.resourceId = some resource → r.status.blocksResource → r'.status.blocksResource →
      ¬ r.overlaps r'.startTime r'.endTime) ∧
    (∀ r ∈ db.reservations, ∀ r' ∈ db.reservations, r.id ≠ r'.id → r.employeeId = r'.employeeId →
      r.status.blocksEmployee → r'.status.blocksEmployee → ¬ r.overlaps r'.startTime r'.endTime) ∧
    ∀ s ∈ db.sessions, s.status = .active → ∀ now, db.clock.now ≤ now → ∀ r ∈ db.reservations,
      r.resourceId = some s.resourceId → r.status.blocksResource → s.reservationId ≠ some r.id →
      ¬ r.overlaps now s.endsAt := by
  have hx := hdb.exclusive
  refine ⟨fun r hr r' hr' hne resource h h' hb hb' ho => ?_, fun r hr r' hr' hne he hb hb' ho => ?_,
    fun s hs ha now hnow r hr hrs hb hown ho => ?_⟩
  · exact hx.resources r hr r' hr' hne ⟨⟨resource, (if_pos hb).trans h, (if_pos hb').trans h'⟩, ho⟩
  · exact hx.employees r hr r' hr' hne
      ⟨⟨r.employeeId, if_pos hb, (if_pos hb').trans (congrArg some he.symm)⟩, ho⟩
  · rcases (hx.sessions s hs ha).2 r hr hrs hb hown with h | h
    · exact absurd ho.2 (not_lt.2 (h.trans hnow))
    · exact absurd ho.1 (not_lt.2 h)

theorem bookings_exclusive_arcade :
    let db := run Arcade.evening [Arcade.request 105 71000000
      (.create ⟨some 3, 10, some 40, 7200000000, none, none, some 2, none, none⟩)]
    db.reservations.rows.length = 1 ∧ ∀ s ∈ db.sessions, s.status = .active → ∀ r ∈ db.reservations,
      r.resourceId = some s.resourceId → r.status.blocksResource → s.reservationId ≠ some r.id →
      ¬ r.overlaps 71000000 s.endsAt := by
  intro db
  have h := Reachable.bookings_exclusive (show Reachable db from Arcade.reachable_evening.run _)
  exact ⟨by decide +kernel, fun s hs ha => h.2.2 s hs ha 71000000 (by decide +kernel)⟩

end GManager

import GManager.Frames

/-!
# How a station is taken and left

`Turn` lists what a request does to assignments and sessions together: it takes nothing, it sends a customer
to a station, or it turns a waiting assignment into a session. `Apart` is what holds between the two tables,
and every turn keeps it.
-/

namespace GManager

open Txn

/-- Assignments that do not wait stay as they are, and only a `fresh` one is new among those that wait. -/
structure Kept (fresh : StationAssignment → Prop) (db db' : Db) : Prop where
  clock : db.clock.now ≤ db'.clock.now
  kept : ∀ a ∈ db.assignments, a.status ≠ .waitingForLogin → a ∈ db'.assignments
  waiting : ∀ a ∈ db'.assignments, a.status = .waitingForLogin → a ∈ db.assignments ∨ fresh a

inductive Turn (c : Call) (db db' : Db) : Prop
  | held (k : Kept (fun _ => False) db db') (hc : Continued db db') : Turn c db db'
  | assigned {a : StationAssignment} (k : Kept (· = a) db db') (hsame : db'.sessions = db.sessions)
      (ha : a.status = .waitingForLogin ∧ a.sessionId = none)
      (halone : ∀ b ∈ db'.assignments, b.status = .waitingForLogin →
        b.customerId = a.customerId ∨ b.resourceId = a.resourceId → b = a)
      (hidle : ∀ x ∈ db.sessions, x.status = .active → x.customerId ≠ a.customerId ∧
        x.resourceId ≠ a.resourceId)
      (hsigns : (c.signs a.resourceId).installing = false) : Turn c db db'
  | started {a : StationAssignment} {s : GamingSession} (k : Kept (fun _ => False) db db')
      (ha : a ∈ db.assignments ∧ a.status = .waitingForLogin)
      (hs : s.customerId = a.customerId ∧ s.resourceId = a.resourceId)
      (hgone : { a with status := .activated, sessionId := some s.id } ∈ db'.assignments)
      (hmem : ∀ x, x ∈ db'.sessions ↔ x ∈ db.sessions ∨ x = s)
      (hidle : ∀ x ∈ db.sessions, x.status = .active →
        x.customerId ≠ s.customerId ∧ x.resourceId ≠ s.resourceId)
      (hsigns : (c.signs s.resourceId).installing = false) : Turn c db db'

/-- The station that a request sends a customer to, or lets one play at. -/
def Op.occupies (c : Call) : Op → Option UUID
  | .assign request => some request.resourceId
  | .activate _ stationId => some stationId
  | .sessionLogin _ => c.machineStation
  | _ => none

/-! ### The requests -/

section requests

variable {c : Call} {db db' : Db} {h : Hours} {l L : ℕ}

theorem Turn.of_held (hh : Held db db') (e : Effects h l L db db') : Turn c db db' := by
  refine .held ⟨hh.clock, fun a ha _ => ?_, fun a ha _ => .inl ?_⟩ (e.continued.2 hh.sessions)
  · rw [hh.assignments]
    exact ha
  · rwa [hh.assignments] at ha

/-- The clock and other tables may have changed before a turn. -/
theorem Turn.after {db₁ : Db} (hturn : Turn c db₁ db') (hle : db.clock.now ≤ db₁.clock.now)
    (ha : db₁.assignments = db.assignments) (hs : db₁.sessions = db.sessions) : Turn c db db' := by
  have kept : ∀ {fresh}, Kept fresh db₁ db' → Kept fresh db db' := fun k =>
    ⟨hle.trans k.clock, fun a => ha ▸ k.kept a, fun a => ha ▸ k.waiting a⟩
  cases hturn with
  | held k hc => exact .held (kept k) fun x hx => hs ▸ hc x hx
  | assigned k hsame hw halone hidle hsigns =>
    exact .assigned (kept k) (hs ▸ hsame) hw halone (hs ▸ hidle) hsigns
  | started k hw hst hgone hmem hidle hsigns =>
    exact .started (kept k) (ha ▸ hw) hst hgone (hs ▸ hmem) (hs ▸ hidle) hsigns

/-- A station is ready only if no installation is running there. -/
theorem wp_requireReadyForSession {station : UUID} {Q : Unit → Db → Prop}
    (hQ : ∀ db', (c.signs station).installing = false → Held db db' → Quiet db db' → Q () db') :
    wp (requireReadyForSession station) Q c db := by
  have hsigns : wp (requireReadyForSession station)
      (fun _ _ => (c.signs station).installing = false) c db := by
    simp only [requireReadyForSession, wp_bind, wp_ask, wp_require, wp_orThrow, wp_instant]
    intro hi _ _ _ _ _ _ _ _ _ _ _ _
    simpa using hi
  refine wp_mono (wp_and hsigns (wp_and (Bystander.requireReadyForSession (R := Held) station c db)
    (QuietTx.requireReadyForSession station c db))) ?_
  rintro _ db' ⟨hi, hh, hq⟩
  exact hQ db' hi hh hq

theorem StationAssignment.expire_of_waiting {now : Instant} {a : StationAssignment}
    (h : (a.expire now).status = .waitingForLogin) : a.expire now = a := by
  unfold expire at h ⊢
  split at h
  · cases h
  · rw [if_neg ‹_›]

theorem StationAssignment.expire_of_not_waiting {now : Instant} {a : StationAssignment}
    (h : a.status ≠ .waitingForLogin) : a.expire now = a := by
  unfold expire
  rw [if_neg fun hc => h hc.1]

/-- The table of assignments after an expiry. -/
theorem mem_expire {now : Instant} {t : Table StationAssignment.id} {a : StationAssignment} :
    a ∈ t.edit (·.expire now) (StationAssignment.expire_id now) ↔ ∃ b ∈ t, b.expire now = a := Table.mem_edit

theorem kept_expire (now : Instant) :
    Kept (fun _ => False) db { db with
      assignments := db.assignments.edit (·.expire now) (StationAssignment.expire_id now) } := by
  refine ⟨le_rfl, fun a ha hw => mem_expire.2 ⟨a, ha, StationAssignment.expire_of_not_waiting hw⟩,
    fun a ha hw => .inl ?_⟩
  obtain ⟨b, hb, rfl⟩ := mem_expire.1 ha
  rwa [StationAssignment.expire_of_waiting hw]

theorem wp_cancel {id : UUID} : wp (cancel id) (fun _ => Turn c db) c db := by
  simp only [cancel, preAuthorize, lockCustomer, wp_bind, wp_ask, wp_require, wp_get, wp_orThrow, wp_lift,
    saveAssignment, wp_modify]
  intro _ a ha _ _ _ _ _
  obtain ⟨hm, -⟩ := Table.find?_eq_some.1 ha
  refine .held ⟨le_rfl, fun b hb hw => ?_, fun b hb hw => .inl ?_⟩ (.of_eq rfl)
  · by_cases hid : b.id = a.id
    · obtain rfl := Table.eq_of_key hb hm hid
      rw [if_neg hw]
      exact Table.mem_save_self hm rfl
    · refine Table.mem_save.2 (.inl ⟨hb, ?_⟩)
      split
      · exact hid
      · exact hid
  · rcases Table.mem_save.1 hb with ⟨hb, -⟩ | ⟨rfl, -⟩
    · exact hb
    · split at hw
      · cases hw
      · rw [if_neg ‹_›]
        exact hm

/-- A new assignment, after those that have expired are flagged. -/
theorem Turn.of_insert {now : Instant} {a : StationAssignment} {db₁ : Db} {t : Table StationAssignment.id}
    (hi : db₁.assignments.insert a = some t) (hle : db.clock.now ≤ db₁.clock.now)
    (hdb : db₁.assignments = db.assignments.edit (·.expire now) (StationAssignment.expire_id now))
    (hsame : db₁.sessions = db.sessions) (ha : a.status = .waitingForLogin ∧ a.sessionId = none)
    (halone : ∀ b ∈ db₁.assignments, b.status = .waitingForLogin →
      b.customerId ≠ a.customerId ∧ b.resourceId ≠ a.resourceId)
    (hidle : ∀ x ∈ db.sessions, x.status = .active → x.customerId ≠ a.customerId ∧
      x.resourceId ≠ a.resourceId)
    (hsigns : (c.signs a.resourceId).installing = false) : Turn c db { db₁ with assignments := t } := by
  have k := @kept_expire db now
  have hmem : ∀ x, x ∈ t ↔ x ∈ db₁.assignments ∨ x = a := fun x => Table.mem_insert hi
  refine .assigned (a := a) ⟨hle, fun x hx hw => ?_, fun x hx hw => ?_⟩ hsame ha
    (fun b hb hw hshare => ?_) hidle hsigns
  · refine (hmem x).2 (.inl ?_)
    rw [hdb]
    exact k.kept x hx hw
  · rcases (hmem x).1 hx with hx | rfl
    · rw [hdb] at hx
      exact k.waiting x hx hw |>.imp_right False.elim
    · exact .inr rfl
  · rcases (hmem b).1 hb with hb | rfl
    · obtain ⟨hc, hr⟩ := halone b hb hw
      exact absurd hshare (not_or.2 ⟨hc, hr⟩)
    · rfl

theorem wp_assign {request : AssignmentRequest} : wp (assign request) (fun _ => Turn c db) c db := by
  refine wp_mono (wp_and (Q := fun _ db' => db'.sessions = db.sessions → Turn c db db') ?_
    (QuietTx.assign request c db)) fun _ _ hboth => hboth.1 hboth.2.sessions
  simp only [assign, preAuthorize, requireStaff, lockCustomer, wp_bind, wp_ask, wp_require, wp_lift,
    wp_instant, expireWaiting, wp_modify, wp_get]
  intro _ _ _ _ _ resource _ _ hidle halone _ _
  refine wp_requireReadyForSession fun db₁ hsigns h₁ _ location _ => ?_
  refine wp_mono (Bystander.boundary (R := Held) _ _ _ _ _ c db₁) fun limit db₂ h₂ => ?_
  refine wp_mono (Bystander.requireResourceReservationAvailableForUpdate (R := Held) _ _ _ _ c db₂)
    fun _ db₃ h₃ => ?_
  simp only [insertAssignment, wp_insertRow, wp_pure]
  intro t hi hsame
  have hh : Held _ db₃ := IsTrans.trans _ _ _ (IsTrans.trans _ _ _ h₁ h₂) h₃
  refine .of_insert hi (db.clock.le_next.trans hh.clock) hh.assignments hsame ⟨rfl, rfl⟩ ?_ ?_ hsigns
  · intro b hb hw
    rw [hh.assignments] at hb
    exact halone b hb hw
  · exact fun x hx hxa => ⟨fun hc => Db.activeByCustomer_eq_none.1 hidle.1 x hx hc hxa,
      fun hr => Db.activeByResource_eq_none.1 hidle.2.1 x hx hr hxa⟩

/-- The new session is announced, and its assignment is used up. -/
theorem Turn.of_start {a : StationAssignment} {s : GamingSession} {db₁ : Db}
    (ha : a ∈ db.assignments ∧ a.status = .waitingForLogin) (hle : db.clock.now ≤ db₁.clock.now)
    (hs : s.customerId = a.customerId ∧ s.resourceId = a.resourceId)
    (hdb : db₁.assignments = db.assignments.save { a with status := .activated, sessionId := some s.id })
    (hmem : ∀ x, x ∈ db₁.sessions ↔ x ∈ db.sessions ∨ x = s)
    (hidle : ∀ x ∈ db.sessions, x.status = .active → x.customerId ≠ s.customerId ∧
      x.resourceId ≠ s.resourceId)
    (hsigns : (c.signs s.resourceId).installing = false) : Turn c db db₁ := by
  have hsaved : ∀ x, x ∈ db₁.assignments ↔ x ∈ db.assignments ∧ x.id ≠ a.id ∨
      x = { a with status := .activated, sessionId := some s.id } := by
    intro x
    rw [hdb, Table.mem_save]
    exact ⟨fun h => h.imp_right And.left, fun h => h.imp_right fun he => ⟨he, a, ha.1, rfl⟩⟩
  refine .started ⟨hle, fun x hx hw => (hsaved x).2 (.inl ⟨hx, fun hid => ?_⟩), fun x hx hw => .inl ?_⟩ ha hs
    ((hsaved _).2 (.inr rfl)) hmem hidle hsigns
  · exact hw (Table.eq_of_key hx ha.1 hid ▸ ha.2)
  · rcases (hsaved x).1 hx with ⟨hx, -⟩ | rfl
    · exact hx
    · cases hw

theorem wp_open_turn {s : GamingSession} {a : StationAssignment} {d : Db}
    (h : ∀ sequence db', d.clock.now ≤ db'.clock.now → db'.assignments = d.assignments.save a →
      (∀ x, x ∈ db'.sessions ↔ x ∈ d.sessions ∨ x = s.announced sequence) → Turn c db db') :
    wp (do
      insertSession s
      saveAssignment a
      let sequence ← writeCommand s .sessionStarted
      saveSession (s.announced sequence)
      return sequence) (fun _ => Turn c db) c d := by
  have hassign : wp (do
      insertSession s
      saveAssignment a
      let sequence ← writeCommand s .sessionStarted
      saveSession (s.announced sequence)
      return sequence) (fun _ db' => db'.assignments = d.assignments.save a) c d := by
    simp only [insertSession, saveSession, saveAssignment, wp_bind, wp_insertRow, wp_modify, wp_pure]
    exact fun _ _ => wp_mono (HeldTx.writeCommand _ _ c _) fun _ _ hh => hh.assignments
  refine wp_mono (wp_and hassign (wp_open (Q := fun sequence db' => d.clock.now ≤ db'.clock.now ∧
    ∀ x, x ∈ db'.sessions ↔ x ∈ d.sessions ∨ x = s.announced sequence) ?_))
    fun sequence db' hboth => h sequence db' hboth.2.1 hboth.1 hboth.2.2
  intro sequence sessions db' _ hmem q
  refine ⟨q.clock, fun x => ?_⟩
  rw [q.sessions]
  exact hmem x

theorem wp_start_turn {customer station : UUID} {now : Instant}
    (hidle : ∀ s ∈ db.sessions, s.customerId = customer → s.status ≠ .active) :
    wp (start customer station now) (fun _ => Turn c db) c db := by
  simp only [start, wp_bind, wp_ask, wp_get, wp_orThrow, wp_require, wp_lift]
  intro a ha hfree _ _
  have hm : a ∈ db.assignments := List.mem_of_find?_eq_some ha
  obtain ⟨hac, har, haw, -⟩ : a.customerId = customer ∧ a.resourceId = station ∧ a.status = .waitingForLogin ∧
      now < a.expiresAt := by simpa using List.find?_some ha
  refine wp_requireReadyForSession fun db₁ hsigns h₁ q₁ _ resource _ location _ => ?_
  refine wp_mono (wp_and (Bystander.boundary (R := Held) _ _ _ _ _ c db₁)
    (QuietTx.boundary _ _ _ _ _ c db₁)) fun limit db₂ h₂ => ?_
  refine wp_mono (wp_and (Bystander.requireResourceReservationAvailableForUpdate (R := Held) _ _ _ _ c db₂)
    (QuietTx.requireResourceReservationAvailableForUpdate _ _ _ _ c db₂)) fun _ db₃ h₃ => ?_
  have hh : Held db db₃ := IsTrans.trans _ _ _ (IsTrans.trans _ _ _ h₁ h₂.1) h₃.1
  have q : Quiet db db₃ := (q₁.trans h₂.2).trans h₃.2
  have hopen := @wp_open_turn c db
    { id := c.freshId
      customerId := customer
      resourceId := station
      locationId := location
      reservationId := a.reservationId
      startedBy := a.assignedBy
      billingMode := .timeBalance
      billedSeconds := 0
      lastBilledAt := now
      meteredLeaseUntil :=
        min (now.plusSeconds c.settings.leaseSeconds) (min (now.plusSeconds (db.balance customer)) limit)
      accessUntil := limit
      moveTargetId := none
      startedAt := now
      endsAt := min (now.plusSeconds (db.balance customer)) limit
      endedAt := none
      status := .active
      terminationReason := none
      lastCommandSequence := none }
    { a with status := .activated, sessionId := some c.freshId } db₃ fun sequence db' hle hassign hmem => ?_
  · simp only [wp_bind, wp_pure] at hopen ⊢
    exact wp_mono hopen fun _ _ h₁ => wp_mono h₁ fun _ _ h₂ => wp_mono h₂ fun _ _ h₃ =>
      wp_mono h₃ fun _ _ h₄ _ _ => h₄
  · rw [hh.assignments] at hassign
    rw [q.sessions] at hmem
    refine .of_start ⟨hm, haw⟩ (hh.clock.trans hle) ⟨hac.symm, har.symm⟩ hassign hmem
      (fun x hx hxa => ⟨fun hc => ?_, fun hr => ?_⟩) hsigns
    · exact hidle x hx hc hxa
    · exact Db.activeByResource_eq_none.1 hfree.1 x hx hr hxa

theorem wp_activate_turn {customer station : UUID} :
    wp (activate customer station) (fun _ => Turn c db) c db := by
  refine wp_mono (wp_and (Q := fun _ db' => Effects c.hours c.settings.leaseSeconds c.settings.leaseSeconds
    db db' → Turn c db db') ?_ (wp_activate (L := c.settings.leaseSeconds))) fun _ _ hboth => hboth.1 hboth.2
  simp only [activate, lockCustomer, wp_bind, wp_ask, wp_require, wp_lift, wp_instant, wp_get]
  intro _ _ _ _
  have hnext : Held db { db with clock := db.clock.next } := ⟨db.clock.le_next, rfl, rfl⟩
  split
  · simp only [wp_bind, wp_require, wp_pure]
    exact fun _ => wp_mono (HeldTx.settle _ _ c _) fun _ _ hh _ e => .of_held (IsTrans.trans _ _ _ hnext hh) e
  · rename_i hs
    exact wp_mono (wp_start_turn (Db.activeByCustomer_eq_none.1 hs)) fun _ db' hturn _ =>
      hturn.after db.clock.le_next rfl rfl

theorem wp_sessionLogin_turn {credentials : UUID → Bool} :
    wp (sessionLogin credentials) (fun _ => Turn c db) c db := by
  simp only [sessionLogin, requireMachine, wp_bind, wp_ask, wp_orThrow, wp_instant, wp_get, wp_require]
  exact fun _ _ _ _ _ => wp_mono wp_activate_turn fun _ _ hturn => hturn.after db.clock.le_next rfl rfl

theorem wp_turn (op : Op) (hl : c.settings.leaseSeconds ≤ L) (o : Orderly L db) :
    wp op.perform (fun _ => Turn c db) c db := by
  have held : ∀ {x : Tx Unit}, HeldTx x → x = op.perform → wp op.perform (fun _ => Turn c db) c db := by
    rintro x hx rfl
    exact wp_mono (wp_and (hx c db) (wp_perform op hl o)) fun _ _ hboth => .of_held hboth.1 hboth.2
  cases op with
  | grant customerId request key => exact held (HeldTx.grant _ _ _).discard rfl
  | account customerId => exact held (Bystander.account _).discard rfl
  | assign request => exact wp_discard wp_assign
  | cancel id => exact wp_cancel
  | activate customerId stationId => exact wp_discard wp_activate_turn
  | tick id renew finish => exact held (HeldTx.tick _ _ _) rfl
  | finishByOperator id => exact held (HeldTx.finishByOperator _) rfl
  | recover id => exact held (HeldTx.recover _) rfl
  | lease => exact held HeldTx.lease.discard rfl
  | sessionLogin credentials => exact wp_discard wp_sessionLogin_turn
  | sessionLogout sessionId recovery => exact held (HeldTx.sessionLogout _ _) rfl
  | heartbeat request => exact held (HeldTx.heartbeat _) rfl
  | poll afterSequence => exact held (Bystander.poll _).discard rfl
  | acknowledge sequence => exact held (HeldTx.acknowledge _) rfl
  | purge => exact held HeldTx.purge rfl
  | create request => exact held (Bystander.create _).discard rfl
  | createSeries customer skip occurrences => exact held (Bystander.createSeries _ _ _).discard rfl
  | changeStatus id request => exact held (Bystander.changeStatus _ _) rfl
  | assignResource id request => exact held (Bystander.assignResource _ _) rfl
  | update id request => exact held (Bystander.update _ _) rfl

theorem wp_assign_signs {request : AssignmentRequest} :
    wp (assign request) (fun _ _ => (c.signs request.resourceId).installing = false) c db := by
  simp only [assign, preAuthorize, requireStaff, lockCustomer, wp_bind, wp_ask, wp_require, wp_lift,
    wp_instant, expireWaiting, wp_modify, wp_get]
  intro _ _ _ _ _ _ _ _ _ _ _ _
  refine wp_requireReadyForSession fun _ hsigns _ _ _ _ => ?_
  exact fun _ _ _ => fun _ _ _ => fun _ _ _ => fun _ _ _ => hsigns

theorem wp_activate_signs {customer station : UUID} :
    wp (activate customer station) (fun _ _ => (c.signs station).installing = false ∨
      ∃ x ∈ db.sessions, x.status = .active ∧ x.resourceId = station) c db := by
  simp only [activate, lockCustomer, wp_bind, wp_ask, wp_require, wp_lift, wp_instant, wp_get]
  intro _ _ _ _
  split
  · rename_i x hx
    obtain ⟨hm, -, hxa⟩ := Db.activeByCustomer_eq_some hx
    simp only [wp_bind, wp_require, wp_pure]
    exact fun hst => wp_mono (HeldTx.settle _ _ c _) fun _ _ _ _ => .inr ⟨x, hm, hxa, hst.1⟩
  · simp only [start, wp_bind, wp_ask, wp_get, wp_orThrow, wp_require, wp_lift]
    intro _ _ _ _ _
    refine wp_requireReadyForSession fun _ hsigns _ _ => ?_
    intro _ _ _ _ _
    exact fun _ _ _ => fun _ _ _ => fun _ _ _ => fun _ _ _ => fun _ _ _ => fun _ _ _ =>
      fun _ _ => fun _ _ _ =>
      .inl hsigns

theorem wp_sessionLogin_signs {credentials : UUID → Bool} {station : UUID}
    (hst : c.machineStation = some station) :
    wp (sessionLogin credentials) (fun _ _ => (c.signs station).installing = false ∨
      ∃ x ∈ db.sessions, x.status = .active ∧ x.resourceId = station) c db := by
  simp only [sessionLogin, requireMachine, wp_bind, wp_ask, wp_orThrow, wp_instant, wp_get, wp_require]
  intro station' hst' _ _ _
  obtain rfl := Option.some.inj (hst.symm.trans hst')
  exact wp_activate_signs

/-- Who takes a station has been told that no installation is running there, or plays there already. -/
theorem wp_occupies {op : Op} {station : UUID} (ho : op.occupies c = some station) :
    wp op.perform (fun _ _ => (c.signs station).installing = false ∨
      ∃ x ∈ db.sessions, x.status = .active ∧ x.resourceId = station) c db := by
  cases op with
  | assign request =>
    obtain rfl := Option.some.inj ho
    exact wp_discard (wp_mono wp_assign_signs fun _ _ hsigns => .inl hsigns)
  | activate customerId stationId =>
    obtain rfl := Option.some.inj ho
    exact wp_discard wp_activate_signs
  | sessionLogin credentials => exact wp_discard (wp_sessionLogin_signs ho)
  | _ => cases ho

end requests

/-! ### The invariant -/

/-- What holds between assignments and sessions. Assignments that have expired count as waiting
until they are flagged. -/
structure Apart (db : Db) : Prop where
  waiting : ∀ a ∈ db.assignments, ∀ b ∈ db.assignments, a.status = .waitingForLogin →
    b.status = .waitingForLogin → a.customerId = b.customerId ∨ a.resourceId = b.resourceId → a = b
  unused : ∀ a ∈ db.assignments, a.status = .waitingForLogin → a.sessionId = none
  stations : ∀ x ∈ db.sessions, ∀ y ∈ db.sessions, x.status = .active → y.status = .active →
    x.resourceId = y.resourceId → x = y
  apart : ∀ a ∈ db.assignments, a.status = .waitingForLogin → ∀ x ∈ db.sessions, x.status = .active →
    a.customerId ≠ x.customerId ∧ a.resourceId ≠ x.resourceId
  activated : ∀ x ∈ db.sessions, ∃ a ∈ db.assignments, a.status = .activated ∧ a.sessionId = some x.id ∧
    a.customerId = x.customerId ∧ a.resourceId = x.resourceId

namespace Apart

variable {c : Call} {db db' : Db}

theorem empty (t : Instant) : Apart (Db.empty t) :=
  ⟨fun _ h => absurd h Table.not_mem_empty, fun _ h => absurd h Table.not_mem_empty,
    fun _ h => absurd h Table.not_mem_empty, fun _ h => absurd h Table.not_mem_empty,
    fun _ h => absurd h Table.not_mem_empty⟩

/-- The assignment of a session stays where it is. -/
theorem kept_activated {fresh : StationAssignment → Prop} (h : Apart db) (k : Kept fresh db db')
    {x : GamingSession} (hx : x ∈ db.sessions) : ∃ a ∈ db'.assignments, a.status = .activated ∧
    a.sessionId = some x.id ∧
      a.customerId = x.customerId ∧ a.resourceId = x.resourceId := by
  obtain ⟨a, ha, hst, hrest⟩ := h.activated x hx
  exact ⟨a, k.kept a ha (by rw [hst]; decide), hst, hrest⟩

theorem turn (h : Apart db) (hturn : Turn c db db') : Apart db' := by
  cases hturn with
  | held k hc =>
    have old : ∀ a ∈ db'.assignments, a.status = .waitingForLogin → a ∈ db.assignments :=
      fun a ha hw => (k.waiting a ha hw).resolve_right id
    refine ⟨fun a ha b hb hwa hwb => h.waiting a (old a ha hwa) b (old b hb hwb) hwa hwb,
      fun a ha hw => h.unused a (old a ha hw) hw, ?_, ?_, ?_⟩
    · intro x hx y hy hxa hya hr
      obtain ⟨x₀, hx₀, hcx⟩ := hc x hx
      obtain ⟨y₀, hy₀, hcy⟩ := hc y hy
      have he : x₀ = y₀ := h.stations x₀ hx₀ y₀ hy₀ (hcx.active hxa) (hcy.active hya)
        (hcx.resourceId.symm.trans (hr.trans hcy.resourceId))
      exact Table.eq_of_key hx hy (hcx.id.trans (he ▸ hcy.id.symm))
    · intro a ha hw x hx hxa
      obtain ⟨x₀, hx₀, hcx⟩ := hc x hx
      rw [hcx.customerId, hcx.resourceId]
      exact h.apart a (old a ha hw) hw x₀ hx₀ (hcx.active hxa)
    · intro x hx
      obtain ⟨x₀, hx₀, hcx⟩ := hc x hx
      rw [hcx.customerId, hcx.resourceId, hcx.id]
      exact h.kept_activated k hx₀
  | @assigned a k hsame ha halone hidle hsigns =>
    refine ⟨fun b hb b' hb' hw hw' hshare => ?_, fun b hb hw => ?_, ?_,
      fun b hb hw x hx hxa => ?_, fun x hx => ?_⟩
    · rcases k.waiting b hb hw with hold | rfl
      · rcases k.waiting b' hb' hw' with hold' | rfl
        · exact h.waiting b hold b' hold' hw hw' hshare
        · exact halone b hb hw hshare
      · exact (halone b' hb' hw' (hshare.imp Eq.symm Eq.symm)).symm
    · rcases k.waiting b hb hw with hold | rfl
      · exact h.unused b hold hw
      · exact ha.2
    · rw [hsame]
      exact h.stations
    · rw [hsame] at hx
      rcases k.waiting b hb hw with hold | rfl
      · exact h.apart b hold hw x hx hxa
      · exact ⟨(hidle x hx hxa).1.symm, (hidle x hx hxa).2.symm⟩
    · rw [hsame] at hx
      exact h.kept_activated k hx
  | @started a s k ha hs hgone hmem hidle hsigns =>
    have old : ∀ b ∈ db'.assignments, b.status = .waitingForLogin → b ∈ db.assignments :=
      fun b hb hw => (k.waiting b hb hw).resolve_right id
    refine ⟨fun b hb b' hb' hw hw' => h.waiting b (old b hb hw) b' (old b' hb' hw') hw hw',
      fun b hb hw => h.unused b (old b hb hw) hw, fun x hx y hy hxa hya hr => ?_, fun b hb hw x hx hxa => ?_,
      fun x hx => ?_⟩
    · rcases (hmem x).1 hx with hx | rfl
      · rcases (hmem y).1 hy with hy | rfl
        · exact h.stations x hx y hy hxa hya hr
        · exact absurd hr (hidle x hx hxa).2
      · rcases (hmem y).1 hy with hy | rfl
        · exact absurd hr.symm (hidle y hy hya).2
        · rfl
    · rcases (hmem x).1 hx with hx | rfl
      · exact h.apart b (old b hb hw) hw x hx hxa
      · -- the assignment that became the session shared its customer and its station with no other
        have hne : ¬ (b.customerId = a.customerId ∨ b.resourceId = a.resourceId) := fun hshare => by
          have he := h.waiting b (old b hb hw) a ha.1 hw ha.2 hshare
          have hb' := Table.eq_of_key hb hgone (congrArg (·.id) he)
          rw [hb'] at hw
          cases hw
        rw [hs.1, hs.2]
        exact not_or.1 hne
    · rcases (hmem x).1 hx with hx | rfl
      · exact h.kept_activated k hx
      · exact ⟨_, hgone, rfl, rfl, hs.1.symm, hs.2.symm⟩

end Apart

end GManager

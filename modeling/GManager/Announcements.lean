import GManager.Bystanders
import GManager.Reconciliation

/-!
# What the transactions tell the stations

Four kinds of writes touch the sessions and their commands: writes elsewhere, a session rewritten without
changing what its command said, a session announced, and a session started. `Tells R db news db'` is a
sequence of such writes with the commands they issue at a retention of `R` seconds; every transaction of the
services is one (`wp_tells`).
-/

namespace GManager

open Txn

/-! ### Single writes -/

/-- The commands and their numbers are the same. -/
structure Mute (db db' : Db) : Prop where
  clock : db.clock.now ≤ db'.clock.now
  commands : db'.commands = db.commands
  cursors : db'.cursors = db.cursors

/-- The parts of a session that its command repeats or refers to. -/
structure GamingSession.SameProjection (r s : GamingSession) : Prop where
  id : r.id = s.id
  resourceId : r.resourceId = s.resourceId
  status : r.status = s.status
  endsAt : r.endsAt = s.endsAt
  endedAt : r.endedAt = s.endedAt
  moveTargetId : r.moveTargetId = s.moveTargetId
  lastCommandSequence : r.lastCommandSequence = s.lastCommandSequence

/-- The command `w` is issued for the session `r`, which points to it. -/
structure Announces (R : ℕ) (db : Db) (r : GamingSession) (w : StationCommand) (db' : Db) : Prop where
  stationId : w.stationId = r.resourceId
  sessionId : w.sessionId = r.id
  sequence : w.sequence = db.currentCursor r.resourceId + 1
  pointer : r.lastCommandSequence = some w.sequence
  projects : r.moveTargetId = none → w.projects r
  unacknowledged : w.acknowledgedAt = none
  available : db.clock.now ≤ w.availableAt ∧ w.availableAt ≤ db'.clock.now
  expires : w.expiresAt = w.availableAt.plusSeconds R
  commands : db'.commands.rows = db.commands.rows ++ [w]
  cursor : ∀ station, db'.currentCursor station = if station = r.resourceId then w.sequence
    else db.currentCursor station

/-- The session ends where it was billed last, or its end is as it was. -/
def GamingSession.EndsBilled (r s : GamingSession) : Prop :=
  r.endedAt = some s.lastBilledAt ∨ r.status = s.status ∧ r.endedAt = s.endedAt

/-- One write, with the commands that it issues. -/
inductive Told (R : ℕ) (db : Db) : List StationCommand → Db → Prop
  | mute {db' : Db} (h : Mute db db') (hsess : db'.sessions = db.sessions) : Told R db [] db'
  | rewritten {db' : Db} {s r : GamingSession} (h : Mute db db') (hs : s ∈ db.sessions)
      (hr : r.SameProjection s) (hb : r.lastBilledAt = s.lastBilledAt ∨ r.lastBilledAt ≤ db.clock.now)
      (hsess : db'.sessions = db.sessions.save r) : Told R db [] db'
  | announced {db' : Db} {s r : GamingSession} {w : StationCommand} (hs : s ∈ db.sessions) (hid : r.id = s.id)
      (hstation : r.resourceId = s.resourceId) (hmove : r.moveTargetId = s.moveTargetId)
      (hb : r.lastBilledAt = s.lastBilledAt) (he : r.EndsBilled s) (ha : Announces R db r w db')
      (hsess : db'.sessions = db.sessions.save r) : Told R db [w] db'
  | started {db' : Db} {s : GamingSession} {w : StationCommand} (hfresh : ∀ x ∈ db.sessions, x.id ≠ s.id)
      (hmem : ∀ x, x ∈ db'.sessions ↔ x ∈ db.sessions ∨ x = s) (hb : s.lastBilledAt ≤ db.clock.now)
      (hmove : s.moveTargetId = none) (hs : s.status = .active) (he : s.endedAt = none)
        (ha : Announces R db s w db') :
      Told R db [w] db'

/-- A sequence of writes, and the commands in the order in which they are issued. -/
inductive Tells (R : ℕ) (db : Db) : List StationCommand → Db → Prop
  | refl : Tells R db [] db
  | tail {news news' : List StationCommand} {db₁ db' : Db} (h : Tells R db news db₁)
      (h' : Told R db₁ news' db') : Tells R db (news ++ news') db'

namespace Mute

variable {db db₁ db' : Db}

theorem next (db : Db) : Mute db { db with clock := db.clock.next } := ⟨db.clock.le_next, rfl, rfl⟩

theorem currentCursor (h : Mute db db') (station : UUID) :
    db'.currentCursor station = db.currentCursor station := by
  rw [Db.currentCursor, h.cursors, Db.currentCursor]

end Mute

section relations

variable {R : ℕ} {db db₁ db' : Db} {news news' : List StationCommand}

theorem Announces.of_mute {r : GamingSession} {w : StationCommand} (h : Announces R db₁ r w db')
    (hm : Mute db db₁) :
    Announces R db r w db' := by
  refine ⟨h.stationId, h.sessionId, ?_, h.pointer, h.projects, h.unacknowledged,
    ⟨hm.clock.trans h.available.1, h.available.2⟩, h.expires, ?_, fun station => ?_⟩
  · rw [h.sequence, hm.currentCursor]
  · rw [h.commands, hm.commands]
  · rw [h.cursor, hm.currentCursor]

theorem Told.clock (h : Told R db news db') : db.clock.now ≤ db'.clock.now := by
  cases h with
  | mute h hsess => exact h.clock
  | rewritten h hs hr hb hsess => exact h.clock
  | announced hs hid hstation hmove hb he ha hsess => exact ha.available.1.trans ha.available.2
  | started hfresh hmem hb hmove hs he ha => exact ha.available.1.trans ha.available.2

theorem Told.commands (h : Told R db news db') : db'.commands.rows = db.commands.rows ++ news := by
  cases h with
  | mute h hsess => rw [h.commands, List.append_nil]
  | rewritten h hs hr hb hsess => rw [h.commands, List.append_nil]
  | announced hs hid hstation hmove hb he ha hsess => exact ha.commands
  | started hfresh hmem hb hmove hs he ha => exact ha.commands

theorem Tells.trans (h : Tells R db news db₁) (h' : Tells R db₁ news' db') :
    Tells R db (news ++ news') db' := by
  induction h' with
  | refl =>
    rw [List.append_nil]
    exact h
  | tail _ h' ih =>
    rw [← List.append_assoc]
    exact ih.tail h'

theorem Tells.clock (h : Tells R db news db') : db.clock.now ≤ db'.clock.now := by
  induction h with
  | refl => exact le_rfl
  | tail _ h' ih => exact ih.trans h'.clock

theorem Tells.commands (h : Tells R db news db') : db'.commands.rows = db.commands.rows ++ news := by
  induction h with
  | refl => rw [List.append_nil]
  | tail _ h' ih => rw [h'.commands, ih, List.append_assoc]

/-- Some commands are told on the way. -/
def Telling (R : ℕ) (db db' : Db) : Prop := ∃ news, Tells R db news db'

theorem Told.telling (h : Told R db news db') : Telling R db db' := ⟨[] ++ news, Tells.refl.tail h⟩

theorem Telling.refl (db : Db) : Telling R db db := ⟨[], .refl⟩

theorem Telling.trans (h : Telling R db db₁) (h' : Telling R db₁ db') : Telling R db db' := by
  obtain ⟨news, h⟩ := h
  obtain ⟨news', h'⟩ := h'
  exact ⟨news ++ news', h.trans h'⟩

theorem Telling.clock (h : Telling R db db') : db.clock.now ≤ db'.clock.now := by
  obtain ⟨news, h⟩ := h
  exact h.clock

theorem Telling.mute (h : Mute db db') (hs : db'.sessions = db.sessions) : Telling R db db' :=
  (Told.mute h hs).telling

theorem Telling.next (db : Db) : Telling R db { db with clock := db.clock.next } := .mute (.next db) rfl

/-- A session is rewritten without changing what its command said. -/
theorem Telling.put {s r : GamingSession} (hs : s ∈ db.sessions) (hr : r.SameProjection s)
    (hb : r.lastBilledAt = s.lastBilledAt ∨ r.lastBilledAt ≤ db.clock.now) : Telling R db (db.putSession r) :=
  (@Told.rewritten R db (db.putSession r) s r ⟨le_rfl, rfl, rfl⟩ hs hr hb rfl).telling

/-- A session is inserted and announced. -/
theorem Telling.start {s : GamingSession} {w : StationCommand} {sessions : Table GamingSession.id}
    (hi : db.sessions.insert s = some sessions) (hb : s.lastBilledAt ≤ db.clock.now)
    (hmove : s.moveTargetId = none) (hs : s.status = .active) (he : s.endedAt = none)
    (ha : Announces R db (s.announced w.sequence) w (db'.putSession (s.announced w.sequence)))
    (hsess : db'.sessions = sessions) : Telling R db (db'.putSession (s.announced w.sequence)) := by
  refine (Told.started (s := s.announced w.sequence) (Table.insert_eq_some.1 hi).1 (fun x => ?_) hb
    hmove hs he ha).telling
  rw [Db.putSession, hsess]
  exact Table.mem_insert_save hi rfl

end relations

instance Telling.bystander (R : ℕ) : Bystander (Telling R) where
  refl := Telling.refl
  trans _ _ _ := Telling.trans
  clock _ _ h := .mute ⟨h, rfl, rfl⟩ rfl
  reservations _ _ := .mute ⟨le_rfl, rfl, rfl⟩ rfl

/-! ### The transactions about one session -/

section sessions

variable {c : Call} {db : Db} {s : GamingSession}

theorem Db.currentCursor_upsert {station : UUID} {sequence : ℕ} {cursors : Table CommandCursor.stationId}
    (h : cursors = db.cursors.upsert ⟨station, sequence⟩) (x : UUID) :
    ((cursors.find? x).map (·.lastSequence)).getD 0 = if x = station then sequence
    else db.currentCursor x := by
  rw [h, Table.find?_upsert]
  split
  · rfl
  · rfl

/-- The command that `writeCommand` inserts. -/
def GamingSession.command (s : GamingSession) (type : StationCommandType) (sequence : ℕ) (now : Instant)
    (retentionSeconds : ℕ) : StationCommand where
  stationId := s.resourceId
  sessionId := s.id
  sequence
  commandType := type
  payload := ⟨s.id, s.resourceId, s.customerId, s.status, s.startedAt, s.endsAt, s.endedAt⟩
  availableAt := now
  acknowledgedAt := none
  expiresAt := now.plusSeconds retentionSeconds

/-- A command is issued for a session, whose row is written over with its number. -/
theorem wp_writeCommand {type : StationCommandType} (htype : s.moveTargetId = none → s.announcedBy type)
    {Q : ℕ → Db → Prop} (hQ : ∀ w db', Announces c.settings.retentionSeconds db (s.announced w.sequence) w
      (db'.putSession (s.announced w.sequence)) → db'.sessions = db.sessions → db'.accounts = db.accounts →
      Q w.sequence db') :
    wp (writeCommand s type) Q c db := by
  simp only [writeCommand, wp_bind, wp_instant, wp_ask, wp_get, wp_modify, wp_insertRow, wp_pure]
  intro t ht
  refine hQ (s.command type (db.currentCursor s.resourceId + 1) db.clock.next.now
    c.settings.retentionSeconds) _ ?_ rfl rfl
  refine ⟨rfl, rfl, rfl, rfl, fun hm => ?_, rfl, ⟨db.clock.le_next, le_rfl⟩, rfl,
    (Table.insert_eq_some.1 ht).2, fun station => Db.currentCursor_upsert rfl station⟩
  have h : (s.announced (db.currentCursor s.resourceId + 1)).announcedBy type = true := htype hm
  simp [StationCommand.projects, GamingSession.command, h]
  simp [GamingSession.announced]

/-- A command is issued unless the station's numbers are ahead of its cursor. -/
theorem writeCommand_commits {type : StationCommandType}
    (hfresh : ∀ w ∈ db.commands, w.stationId = s.resourceId → w.sequence ≤ db.currentCursor s.resourceId) :
    ∃ sequence db', (writeCommand s type).run c db = .ok (sequence, db') := by
  have hinsert : ∃ t, db.commands.insert
      (s.command type (db.currentCursor s.resourceId + 1) db.clock.next.now c.settings.retentionSeconds) =
      some t := by
    refine ⟨_, dif_neg fun hm => ?_⟩
    obtain ⟨w, hw, hk⟩ := List.mem_map.1 hm
    obtain ⟨hst, hseq⟩ := Prod.mk.inj hk
    have hle := hfresh w hw hst
    rw [hseq] at hle
    exact absurd hle (Nat.not_succ_le_self _)
  obtain ⟨t, ht⟩ := hinsert
  refine ⟨db.currentCursor s.resourceId + 1, { db with
    clock := db.clock.next, cursors := db.cursors.upsert ⟨s.resourceId, db.currentCursor s.resourceId + 1⟩,
    commands := t }, ?_⟩
  refine commits_bind.2 ⟨_, _, commits_instant.2 ⟨rfl, rfl⟩,
    commits_bind.2 ⟨_, _, commits_ask.2 ⟨rfl, rfl⟩, ?_⟩⟩
  refine commits_bind.2 ⟨_, _, commits_get.2 ⟨rfl, rfl⟩, commits_bind.2 ⟨(), _, commits_modify.2 rfl, ?_⟩⟩
  refine commits_bind.2 ⟨(), _, ?_, commits_pure.2 ⟨rfl, rfl⟩⟩
  exact commits_bind.2 ⟨_, _, commits_get.2 ⟨rfl, rfl⟩,
    commits_bind.2 ⟨t, _, commits_orThrow.2 ⟨ht, rfl⟩, commits_modify.2 rfl⟩⟩

/-- A session is rewritten, announced, and its pointer noted. -/
theorem tells_announce {r : GamingSession} {type : StationCommandType} (hs : s ∈ db.sessions)
    (hid : r.id = s.id) (hstation : r.resourceId = s.resourceId) (hmove : r.moveTargetId = s.moveTargetId)
    (hb : r.lastBilledAt = s.lastBilledAt) (he : r.EndsBilled s)
    (htype : r.moveTargetId = none → r.announcedBy type) : wp (writeCommand r type)
      (fun sequence db' => Telling c.settings.retentionSeconds db (db'.putSession (r.announced sequence)))
      c (db.putSession r) := by
  refine wp_writeCommand htype fun w db' ha hsess _ =>
    (Told.announced (r := r.announced w.sequence) hs hid hstation hmove hb he
      (ha.of_mute ⟨le_rfl, rfl, rfl⟩) ?_).telling
  show db'.sessions.save _ = _
  rw [hsess]
  exact Table.save_save rfl

theorem tells_close {status : GamingSessionStatus} {reason : String} (hs : s ∈ db.sessions)
    (hne : status ≠ .active) :
    wp (close s status reason) (fun _ => Telling c.settings.retentionSeconds db) c db := by
  simp only [close, saveSession, wp_bind, wp_modify, wp_ask, wp_orThrow, wp_pure]
  refine wp_mono (tells_announce (s := s) (r := { s with
    status, endedAt := some s.lastBilledAt, terminationReason :=
    some reason }) hs rfl rfl rfl rfl (.inl rfl) fun _ => ?_) fun _ _ h _ _ => h
  simp [GamingSession.announcedBy, hne]

theorem tells_append {customer : UUID} {session operation : Option UUID} {actor : UUID} {delta : ℤ}
    {kind : LedgerKind} {reason : Option String} {source : SourceKey} {R : ℕ} :
    Within (Telling R) (append customer session operation actor delta kind reason source) := by
  refine .bind .get fun _ => .ite (.pure _) (.bind (.lift _) fun _ => .bind (.require _ _) fun _ => ?_)
  refine .bind (.modify fun _ => .mute ⟨le_rfl, rfl, rfl⟩ rfl) fun _ => .bind Bystander.instant fun _ => ?_
  exact Bystander.insertRow fun _ _ => .mute ⟨le_rfl, rfl, rfl⟩ rfl

/-- An entry is posted, and the sessions are the same. -/
theorem wp_append_sessions {customer : UUID} {session operation : Option UUID} {actor : UUID} {delta : ℤ}
    {kind : LedgerKind} {reason : Option String} {source : SourceKey} {R : ℕ} {Q : Unit → Db → Prop}
    (hQ : ∀ db', Telling R db db' → db'.sessions = db.sessions → Q () db') :
    wp (append customer session operation actor delta kind reason source) Q c db := by
  have hsess : wp (append customer session operation actor delta kind reason source)
      (fun _ db' => db'.sessions = db.sessions) c db :=
    wp_append fun _ _ _ q => q.sessions.trans Db.post_sessions
  exact wp_mono (wp_and (tells_append c db) hsess) fun _ db' h => hQ db' h.1 h.2

theorem tells_charge {now : Instant} (hs : s ∈ db.sessions) (hnow : now ≤ db.clock.now) :
    wp (charge s (unsettled s now (db.balance s.customerId)))
      (fun s' db' => Telling c.settings.retentionSeconds db db' ∧ s' ∈ db'.sessions) c db := by
  simp only [charge, wp_bind, wp_ite, wp_lift, wp_pure, saveSession, wp_modify]
  refine ⟨fun h0 total ht => ?_, fun _ => ⟨.refl db, hs⟩⟩
  obtain ⟨rfl, -⟩ := addExact_eq_ok ht
  refine wp_append_sessions (R := c.settings.retentionSeconds) fun db₁ h₁ hsess => ?_
  have hs₁ : s ∈ db₁.sessions := by rwa [hsess]
  refine ⟨h₁.trans (.put (s := s) (r := s.charge _) hs₁ ⟨rfl, rfl, rfl, rfl, rfl, rfl, rfl⟩ (.inr ?_)),
    Table.mem_save_self hs₁ rfl⟩
  exact ((charge_lastBilledAt h0).trans (min_le_left _ _)).trans (hnow.trans h₁.clock)

theorem tells_settle (hs : s ∈ db.sessions) {now : Instant} (hnow : now ≤ db.clock.now) :
    wp (settle s now) (fun _ => Telling c.settings.retentionSeconds db) c db := by
  simp only [settle, wp_ite, wp_pure, wp_bind, wp_get]
  refine ⟨fun _ => .refl db, fun _ => wp_mono (tells_charge hs hnow) fun s₁ db₁ h₁ => ?_⟩
  obtain ⟨h₁, hs₁⟩ := h₁
  refine ⟨fun _ => ⟨fun _ => ?_, fun _ => ?_⟩, fun _ => h₁⟩
  · exact wp_mono (tells_close hs₁ (by decide)) fun _ _ h₂ => h₁.trans h₂
  · exact wp_mono (tells_close hs₁ (by decide)) fun _ _ h₂ => h₁.trans h₂

/-- The clock is read and the session settled; it is still in its table. -/
theorem tells_settle_now (hs : s ∈ db.sessions) :
    wp (settle s db.clock.next.now) (fun s' db' => Telling c.settings.retentionSeconds db db' ∧
      s' ∈ db'.sessions) c { db with clock := db.clock.next } := by
  have hmem := @wp_settle c { db with clock := db.clock.next } c.hours c.settings.leaseSeconds 0 s hs
  have htell := @tells_settle c { db with clock := db.clock.next } s hs _ le_rfl
  exact wp_mono (wp_and htell hmem) fun s' db' h => ⟨(Telling.next db).trans h.1, h.2.mem⟩

theorem tells_finishOrRenew {renew finish : Bool} (hs : s ∈ db.sessions) :
    wp (finishOrRenew s renew finish) (fun _ => Telling c.settings.retentionSeconds db) c db := by
  simp only [finishOrRenew, wp_bind, wp_ask, wp_ite, wp_pure, wp_instant, saveSession, wp_modify]
  refine ⟨fun _ => tells_close hs (by decide), fun _ => ⟨fun _ => ?_, fun _ => .refl db⟩⟩
  exact (Telling.next db).trans (@Telling.put _ { db with clock := db.clock.next } s
    { s with meteredLeaseUntil := min (db.clock.next.now.plusSeconds c.settings.leaseSeconds) s.endsAt } hs
    ⟨rfl, rfl, rfl, rfl, rfl, rfl, rfl⟩ (.inl rfl))

theorem tells_tick {id : UUID} {renew finish : Bool} :
    wp (tick id renew finish) (fun _ => Telling c.settings.retentionSeconds db) c db := by
  unfold tick
  simp only [wp_bind, wp_ask, wp_get]
  split
  · exact wp_pure.2 (.refl db)
  · rename_i s hf
    have hs := (Table.find?_eq_some.1 hf).1
    simp only [wp_bind, wp_ite, wp_pure, lockCustomer, wp_ask, wp_require, wp_lift, wp_instant]
    refine ⟨fun _ _ _ _ => ⟨fun _ => ?_, fun _ => .refl db⟩, fun _ => .refl db⟩
    refine wp_mono (tells_settle_now hs) fun s₁ db₁ h₁ => ?_
    exact wp_mono (tells_finishOrRenew h₁.2) fun _ _ h₂ => h₁.1.trans h₂

theorem tells_finishByOperator {id : UUID} :
    wp (finishByOperator id) (fun _ => Telling c.settings.retentionSeconds db) c db := by
  simp only [finishByOperator, wp_bind, wp_get, wp_orThrow, wp_pure]
  exact wp_mono tells_tick fun _ _ h _ _ => h

theorem tells_recover {id : UUID} :
    wp (recover id) (fun _ => Telling c.settings.retentionSeconds db) c db := by
  simp only [recover, wp_bind, wp_get]
  refine wp_mono tells_tick fun _ db₁ h₁ => ?_
  split
  · exact wp_pure.2 h₁
  · rename_i s hs
    simp only [wp_bind, wp_ite, wp_pure]
    refine ⟨fun _ => ?_, fun _ => h₁⟩
    exact wp_mono (tells_close (Table.find?_eq_some.1 hs).1 (by decide)) fun _ _ h₂ => h₁.trans h₂

theorem tells_refreshEnd (hs : s ∈ db.sessions) (ha : s.status = .active) :
    wp (refreshEnd s) (fun _ => Telling c.settings.retentionSeconds db) c db := by
  simp only [refreshEnd, wp_bind, wp_get, wp_ite, wp_instant]
  refine ⟨fun _ => tells_close hs (by decide), fun _ => wp_boundary fun limit _ => ?_⟩
  simp only [saveSession, wp_modify, wp_pure]
  refine wp_mono (@tells_announce c { db with clock := db.clock.next } s
    { s with
      endsAt := min (s.lastBilledAt.plusSeconds (db.balance s.customerId)) limit
      accessUntil := limit
      meteredLeaseUntil :=
        min s.meteredLeaseUntil (min (s.lastBilledAt.plusSeconds (db.balance s.customerId)) limit) }
    .sessionExtended hs rfl rfl rfl rfl (.inr ⟨rfl, rfl⟩) fun hm => ?_) fun _ _ h => (Telling.next db).trans h
  have hm : s.moveTargetId = none := hm
  simp [GamingSession.announcedBy, ha, hm]

end sessions

/-! ### Grants, logins and leases -/

section requests

variable {c : Call} {db : Db}

theorem tells_settleActive {customer : UUID} :
    wp (settleActive (db.activeByCustomer customer))
      (fun active db' => Telling c.settings.retentionSeconds db db' ∧
        ∀ s ∈ active, s ∈ db'.sessions) c db := by
  cases hs : db.activeByCustomer customer with
  | none =>
    simp only [settleActive, wp_pure]
    exact ⟨.refl db, fun _ hx => absurd hx (Option.not_mem_none _)⟩
  | some s =>
    simp only [settleActive, wp_bind, wp_instant, wp_pure]
    refine wp_mono (tells_settle_now (Db.activeByCustomer_eq_some hs).1) fun s₁ db₁ h₁ =>
      ⟨h₁.1, fun x hx => ?_⟩
    rw [← Option.mem_some_iff.1 hx]
    exact h₁.2

theorem tells_sell {operation : FinancialOperation} {source : SourceKey} :
    wp (sell operation source) (fun _ => Telling c.settings.retentionSeconds db) c db := by
  simp only [sell, wp_bind, wp_instant, wp_insertRow]
  refine wp_mono wp_lockActive fun active db₀ hactive => ?_
  rw [hactive.1, hactive.2]
  refine wp_mono tells_settleActive fun active db₁ h₁ operations _ => ?_
  obtain ⟨h₁, hactive⟩ := h₁
  have hsold : Telling c.settings.retentionSeconds db₁ { db₁ with clock := db₁.clock.next, operations } :=
    .mute ⟨db₁.clock.le_next, rfl, rfl⟩ rfl
  refine wp_append_sessions (R := c.settings.retentionSeconds) fun db₂ h₂ hsess => ?_
  have h := (h₁.trans hsold).trans h₂
  cases active with
  | none => exact wp_pure.2 h
  | some s =>
    simp only [refreshActive, wp_ite, wp_bind, wp_pure]
    refine ⟨fun ha => wp_mono (tells_refreshEnd ?_ ha) fun _ _ h₃ => h.trans h₃, fun _ => h⟩
    rw [hsess]
    exact hactive s rfl

theorem tells_grant {customer : UUID} {request : Grant} {key : String} :
    wp (grant customer request key) (fun _ => Telling c.settings.retentionSeconds db) c db := by
  refine (Bystander.preAuthorize (R := Telling c.settings.retentionSeconds) _).bind_wp fun _ db₁ h₁ => ?_
  refine wp_bind.2 (wp_ask.2 ?_)
  refine (Bystander.requireStaff (R := Telling c.settings.retentionSeconds) _).bind_wp fun _ db₂ h₂ => ?_
  refine (Bystander.lockCustomer (R := Telling c.settings.retentionSeconds) _ _).bind_wp fun _ db₃ h₃ => ?_
  refine (Bystander.financialContext (R := Telling c.settings.retentionSeconds)).bind_wp fun _ db₄ h₄ => ?_
  have h := ((h₁.trans h₂).trans h₃).trans h₄
  simp only [wp_bind, wp_lift, wp_require, wp_orThrow, wp_get, wp_ite]
  intro _ _ _ _ _ confirmed _
  have account : ∀ db₅, Telling c.settings.retentionSeconds db db₅ →
      wp (account customer) (fun _ => Telling c.settings.retentionSeconds db) c db₅ := fun db₅ h₅ =>
    wp_mono (Bystander.account (R := Telling c.settings.retentionSeconds) _ c db₅) fun _ _ h' => h₅.trans h'
  refine ⟨fun _ _ _ _ => account _ h, fun _ _ _ _ _ => ?_⟩
  exact wp_mono tells_sell fun _ db₅ h₅ => account db₅ (h.trans h₅)

theorem tells_start {customer station : UUID} {now : Instant} (hnow : now ≤ db.clock.now) :
    wp (start customer station now) (fun _ => Telling c.settings.retentionSeconds db) c db := by
  simp only [start, wp_bind, wp_ask, wp_get, wp_orThrow, wp_require, wp_lift]
  intro a _ _ _ _
  refine wp_mono (Bystander.requireReadyForSession (R := Telling c.settings.retentionSeconds) station c db)
    fun _ db₁ h₁ => ?_
  intro _ _ _ location _
  refine wp_boundary fun limit _ => ?_
  refine wp_mono (Bystander.requireResourceReservationAvailableForUpdate
    (R := Telling c.settings.retentionSeconds) _ _ _ _ c db₁) fun _ db₂ h₂ => ?_
  simp only [insertSession, saveSession, saveAssignment, wp_insertRow, wp_modify, wp_pure]
  intro sessions hi
  refine wp_writeCommand (fun hm => by simp [GamingSession.announcedBy]) fun w db₃ ha hsess _ _ _ =>
    (h₁.trans h₂).trans ?_
  exact .start hi (hnow.trans (h₁.trans h₂).clock) rfl rfl rfl (ha.of_mute ⟨le_rfl, rfl, rfl⟩) hsess

theorem tells_activate {customer station : UUID} :
    wp (activate customer station) (fun _ => Telling c.settings.retentionSeconds db) c db := by
  simp only [activate, lockCustomer, wp_bind, wp_ask, wp_require, wp_lift, wp_instant, wp_get]
  intro _ _ _ _
  split
  · rename_i s hs
    simp only [wp_bind, wp_require, wp_pure]
    exact fun _ => wp_mono (tells_settle_now (Db.activeByCustomer_eq_some hs).1) fun _ _ h _ => h.1
  · exact wp_mono (tells_start le_rfl) fun _ _ h => (Telling.next db).trans h

theorem tells_renewedSession {station : UUID} {now : Instant} :
    wp (renewedSession station) (fun session db' => Telling c.settings.retentionSeconds db db' ∧
      ∀ s ∈ session, s.leasable now → s ∈ db'.sessions) c db := by
  simp only [renewedSession, wp_bind, wp_get]
  split
  · exact wp_pure.2 ⟨.refl db, fun _ hs => absurd hs (Option.not_mem_none _)⟩
  · rename_i s _
    simp only [wp_ite, wp_bind, wp_get, wp_pure]
    refine ⟨fun _ => wp_mono tells_tick fun _ db₁ h₁ => ⟨h₁, fun x hx _ => (Table.find?_eq_some.1 hx).1⟩,
      fun hb => ⟨.refl db, fun x hx hl => ?_⟩⟩
    rw [← Option.mem_some_iff.1 hx] at hl
    exact absurd hl.1 hb

theorem tells_lease : wp lease (fun _ => Telling c.settings.retentionSeconds db) c db := by
  simp only [lease, requireMachine, wp_bind, wp_ask, wp_orThrow, wp_instant]
  intro station _
  have config : Within (Telling c.settings.retentionSeconds) (configurationVersion station) := by
    refine .bind .ask fun _ => .bind (.orThrow _ _) fun _ => .bind (.require _ _) fun _ =>
      .bind (.orThrow _ _) fun _ => ?_
    exact .bind (.orThrow _ _) fun _ => .bind (.require _ _) fun _ => .pure _
  refine wp_mono (config c _) fun version db₁ h₁ => ?_
  refine wp_mono (@tells_renewedSession c db₁ station db.clock.next.now) fun session db₂ h₂ => ?_
  have h : Telling c.settings.retentionSeconds db db₂ := ((Telling.next db).trans h₁).trans h₂.1
  have sign : ∀ p db₃, Telling c.settings.retentionSeconds db db₃ →
      wp (sign p) (fun _ => Telling c.settings.retentionSeconds db) c db₃ := fun p db₃ h₃ => by
    simp only [GManager.sign, wp_modify]
    exact h₃.trans (.mute ⟨le_rfl, rfl, rfl⟩ rfl)
  simp only [wp_get]
  split
  · rename_i s hs
    obtain ⟨hs, hleasable⟩ := Option.filter_eq_some_iff.1 hs
    have hmem := h₂.2 s hs (of_decide_eq_true hleasable)
    simp only [wp_bind, saveSession, wp_modify, wp_pure]
    exact sign _ _ (h.trans (.put hmem ⟨rfl, rfl, rfl, rfl, rfl, rfl, rfl⟩ (.inl rfl)))
  · simp only [wp_bind, wp_instant, wp_pure]
    exact sign _ _ (h.trans (.next db₂))

theorem tells_sessionLogin {credentials : UUID → Bool} :
    wp (sessionLogin credentials) (fun _ => Telling c.settings.retentionSeconds db) c db := by
  simp only [sessionLogin, requireMachine, wp_bind, wp_ask, wp_orThrow, wp_instant, wp_get, wp_require]
  exact fun _ _ _ _ _ => wp_mono tells_activate fun _ _ h => (Telling.next db).trans h

theorem tells_sessionLogout {id : UUID} {recovery : Bool} :
    wp (sessionLogout id recovery) (fun _ => Telling c.settings.retentionSeconds db) c db := by
  simp only [sessionLogout, requireMachine, wp_bind, wp_ask, wp_orThrow, wp_get, wp_require, wp_ite]
  exact fun _ _ _ => ⟨fun _ => tells_recover, fun _ => tells_tick⟩

theorem tells_heartbeat {request : HeartbeatRequest} :
    wp (heartbeat request) (fun _ => Telling c.settings.retentionSeconds db) c db := by
  have hend : ∀ station confirmed db, wp (endConfirmed station confirmed)
      (fun _ => Telling c.settings.retentionSeconds db) c db := by
    intro station confirmed db
    simp only [endConfirmed, wp_bind, wp_get, wp_ite, wp_pure]
    refine ⟨fun _ => ?_, fun _ => .refl db⟩
    split
    · exact tells_tick
    · exact wp_pure.2 (.refl db)
  simp only [heartbeat, requireMachine, wp_bind, wp_ask, wp_orThrow, wp_instant, wp_get, wp_modify]
  intro station _ _ _
  refine wp_mono (hend station _ _) fun _ db₁ h₁ => ?_
  exact ((Telling.next db).trans h₁).trans (.mute ⟨le_rfl, rfl, rfl⟩ rfl)

theorem tells_assign (request : AssignmentRequest) (R : ℕ) : Within (Telling R) (assign request) := by
  refine .bind (Bystander.preAuthorize _) fun _ => .bind .ask fun _ =>
    .bind (Bystander.requireStaff _) fun _ => ?_
  refine .bind (Bystander.lockCustomer _ _) fun _ => .bind (.lift _) fun _ => .bind (.lift _) fun _ => ?_
  refine .bind Bystander.instant fun _ => .bind (.modify fun _ => .mute ⟨le_rfl, rfl, rfl⟩ rfl) fun _ => ?_
  refine .bind .get fun _ => .bind (.require _ _) fun _ => .bind (.require _ _) fun _ =>
    .bind (.require _ _) fun _ => ?_
  refine .bind (.lift _) fun _ => .bind (Bystander.requireReadyForSession _) fun _ =>
    .bind (.lift _) fun _ => ?_
  refine .bind (Bystander.boundary _ _ _ _ _) fun _ =>
    .bind (Bystander.requireResourceReservationAvailableForUpdate _ _ _ _) fun _ => ?_
  exact .bind (Bystander.insertRow fun _ _ => .mute ⟨le_rfl, rfl, rfl⟩ rfl) fun _ => .pure _

theorem tells_cancel (id : UUID) (R : ℕ) : Within (Telling R) (cancel id) := by
  refine .bind (Bystander.preAuthorize _) fun _ => .bind .ask fun _ => .bind .get fun _ =>
    .bind (.orThrow _ _) fun _ => ?_
  refine .bind (Bystander.lockCustomer _ _) fun _ => .bind (.lift _) fun _ => .bind (.lift _) fun _ => ?_
  exact .modify fun _ => .mute ⟨le_rfl, rfl, rfl⟩ rfl

theorem tells_forceLock {stationId : UUID} :
    wp (GamingOperationsBoard.forceLock stationId)
      (fun _ => Telling c.settings.retentionSeconds db) c db := by
  simp only [GamingOperationsBoard.forceLock, saveSession, wp_bind, wp_get, wp_orThrow, wp_modify]
  intro s hs
  obtain ⟨hs, hne⟩ := Option.filter_eq_some_iff.1 hs
  have hmem : s ∈ db.sessions := List.mem_of_find?_eq_some hs
  refine wp_writeCommand (fun _ => ?_) fun w db' ha hsess _ =>
    (Told.announced (r := s.announced w.sequence) hmem rfl rfl rfl rfl (.inr ⟨rfl, rfl⟩) ha
      (congrArg (fun t => t.save (s.announced w.sequence)) hsess)).telling
  simp only [decide_not, Bool.not_eq_eq_eq_not, Bool.not_true, decide_eq_false_iff_not] at hne
  simp [GamingSession.announcedBy, hne]

/-- Whether the session ended before the cutoff. -/
def GamingSession.pastRetention (s : GamingSession) (cutoff : Instant) : Prop :=
  s.status ≠ .active ∧ ∃ endedAt ∈ s.endedAt, endedAt < cutoff

/-- What a repair of the session with this identifier does. -/
inductive Repair (R : ℕ) (id : UUID) (db : Db) : Db → Prop
  | skipped {db' : Db} (h : Mute db db') (hsess : db'.sessions = db.sessions)
      (hacc : db'.accounts = db.accounts) (hs : ∀ s ∈ db.sessions, s.id = id →
        db.matchesCurrentProjection s = true ∨ s.pastRetention (db'.clock.now.plusSeconds (-R))) :
      Repair R id db db'
  | written {db' : Db} {s : GamingSession} {w : StationCommand} (hs : s ∈ db.sessions) (hid : s.id = id)
      (hm : db.matchesCurrentProjection s = false) (hp : ¬ s.pastRetention (db.clock.now.plusSeconds (-R)))
      (ha : Announces R db (s.announced w.sequence) w db')
        (hsess : db'.sessions = db.sessions.save (s.announced w.sequence))
      (hacc : db'.accounts = db.accounts) : Repair R id db db'

theorem Repair.told {R : ℕ} {id : UUID} {db' : Db} (h : Repair R id db db') : ∃ news, Told R db news db' := by
  cases h with
  | skipped h hsess hacc hs => exact ⟨[], .mute h hsess⟩
  | @written s w hs hid hm hp ha hsess hacc =>
    exact ⟨[w], .announced (r := s.announced w.sequence) hs rfl rfl rfl rfl (.inr ⟨rfl, rfl⟩) ha hsess⟩

/-- Whether the session is past retention, by a reading of the clock if one is taken. -/
theorem wp_outsideRetention {s : GamingSession} {Q : Bool → Db → Prop}
    (hyes : ∀ db', Mute db db' → db'.sessions = db.sessions → db'.accounts = db.accounts →
      s.pastRetention (db'.clock.now.plusSeconds (-c.settings.retentionSeconds)) → Q true db')
    (hno : ∀ db', Mute db db' → db'.sessions = db.sessions → db'.accounts = db.accounts →
      ¬ s.pastRetention (db.clock.now.plusSeconds (-c.settings.retentionSeconds)) → Q false db') :
    wp (outsideRetention s) Q c db := by
  have hmono : db.clock.now.plusSeconds (-c.settings.retentionSeconds) ≤
      db.clock.next.now.plusSeconds (-c.settings.retentionSeconds) :=
    Instant.plusSeconds_mono db.clock.le_next _
  simp only [outsideRetention, wp_bind, wp_ask]
  split
  · rename_i he
    refine wp_pure.2 (hno db ⟨le_rfl, rfl, rfl⟩ rfl rfl ?_)
    rintro ⟨-, e, h, -⟩
    rw [he] at h
    cases h
  · rename_i e he
    simp only [wp_ite, wp_pure, wp_bind, wp_instant]
    refine ⟨fun ha => hno db ⟨le_rfl, rfl, rfl⟩ rfl rfl fun h => h.1 ha, fun ha => ?_⟩
    by_cases hlt : e < db.clock.next.now.plusSeconds (-c.settings.retentionSeconds)
    · rw [decide_eq_true hlt]
      exact hyes _ (.next db) rfl rfl ⟨ha, e, he, hlt⟩
    · rw [decide_eq_false hlt]
      refine hno _ (.next db) rfl rfl ?_
      rintro ⟨-, x, hx, hxlt⟩
      obtain rfl : e = x := Option.some.inj (he.symm.trans hx)
      exact hlt (hxlt.trans_le hmono)

theorem wp_repair {id : UUID} : wp (repair id) (fun _ => Repair c.settings.retentionSeconds id db) c db := by
  simp only [repair, wp_bind, wp_get]
  split
  · rename_i hf
    exact wp_pure.2 (.skipped ⟨le_rfl, rfl, rfl⟩ rfl rfl fun s hs hid =>
      absurd hid (Table.find?_eq_none.1 hf s hs))
  · rename_i s hf
    obtain ⟨hs, hid⟩ := Table.find?_eq_some.1 hf
    have honly : ∀ x ∈ db.sessions, x.id = id → x = s :=
      fun x hx hxid => Table.eq_of_key hx hs (hxid.trans hid.symm)
    simp only [wp_bind]
    refine wp_outsideRetention (fun db₁ hm hsess hacc hp => ?_) fun db₁ hm hsess hacc hp => ?_
    · simp only [true_or, if_true, wp_pure]
      refine .skipped hm hsess hacc fun x hx hxid => .inr ?_
      rw [honly x hx hxid]
      exact hp
    · simp only [wp_ite, wp_pure, saveSession, wp_bind, wp_modify]
      refine ⟨fun h => ?_, fun h => ?_⟩
      · refine .skipped hm hsess hacc fun x hx hxid => .inl ?_
        rw [honly x hx hxid]
        simpa using h
      · refine wp_writeCommand (fun hmove => ?_) fun w db₂ ha hsess₂ hacc₂ => ?_
        · unfold GamingSession.announcedBy GamingSession.repairType
          rw [hmove]
          by_cases hact : s.status = .active <;> by_cases hl :
            s.lastCommandSequence = none <;> simp [hact, hl]
        · have hno : db.matchesCurrentProjection s = false := by simpa using h
          refine .written hs hid hno hp (ha.of_mute hm) ?_ (hacc₂.trans hacc)
          exact congrArg (fun t => t.save (s.announced w.sequence)) (hsess₂.trans hsess)

theorem outsideRetention_commits (s : GamingSession) :
    ∃ b db', (outsideRetention s).run c db = .ok (b, db') ∧ Mute db db' := by
  unfold outsideRetention
  cases he : s.endedAt with
  | none => exact ⟨false, db, commits_bind.2 ⟨c, db, commits_ask.2 ⟨rfl, rfl⟩, commits_pure.2 ⟨rfl, rfl⟩⟩,
      le_rfl, rfl, rfl⟩
  | some e =>
    by_cases ha : s.status = .active
    · refine ⟨false, db, commits_bind.2 ⟨c, db, commits_ask.2 ⟨rfl, rfl⟩, ?_⟩, le_rfl, rfl, rfl⟩
      simp only [ha, if_true]
      exact commits_pure.2 ⟨rfl, rfl⟩
    · refine ⟨decide (e < db.clock.next.now.plusSeconds (-c.settings.retentionSeconds)),
        { db with clock := db.clock.next }, commits_bind.2 ⟨c, db, commits_ask.2 ⟨rfl, rfl⟩, ?_⟩, .next db⟩
      simp only [ha, if_false]
      exact commits_bind.2 ⟨_, _, commits_instant.2 ⟨rfl, rfl⟩, commits_pure.2 ⟨rfl, rfl⟩⟩

/-- A repair commits. -/
theorem repair_commits (hfresh : ∀ w ∈ db.commands, w.sequence ≤ db.currentCursor w.stationId) (id : UUID) :
    ∃ b db', (repair id).run c db = .ok (b, db') := by
  simp only [repair, commits_bind, commits_get]
  cases hf : db.sessions.find? id with
  | none => exact ⟨false, db, db, db, ⟨rfl, rfl⟩, by rw [hf]; exact commits_pure.2 ⟨rfl, rfl⟩⟩
  | some s =>
    obtain ⟨b, db₁, hb, hm⟩ := @outsideRetention_commits c db s
    by_cases hskip : b = true ∨ db.matchesCurrentProjection s = true
    · refine ⟨false, db₁, db, db, ⟨rfl, rfl⟩, ?_⟩
      rw [hf]
      refine commits_bind.2 ⟨b, db₁, hb, ?_⟩
      simp only [hskip, if_true]
      exact commits_pure.2 ⟨rfl, rfl⟩
    · have hfresh₁ : ∀ w ∈ db₁.commands, w.stationId = s.resourceId →
          w.sequence ≤ db₁.currentCursor s.resourceId := by
        intro w hw hst
        rw [hm.commands] at hw
        rw [hm.currentCursor, ← hst]
        exact hfresh w hw
      obtain ⟨sequence, db₂, hw⟩ := @writeCommand_commits c db₁ s s.repairType hfresh₁
      refine ⟨true, db₂.putSession (s.announced sequence), db, db, ⟨rfl, rfl⟩, ?_⟩
      rw [hf]
      refine commits_bind.2 ⟨b, db₁, hb, ?_⟩
      simp only [hskip, if_false]
      exact commits_bind.2 ⟨_, _, hw, commits_bind.2 ⟨(), _, commits_modify.2 rfl, commits_pure.2 ⟨rfl, rfl⟩⟩⟩

/-- Every request but an acknowledgement and a purge only tells commands. -/
theorem tells_perform (op : Op) (hack : ∀ sequence, op ≠ .acknowledge sequence) (hpurge : op ≠ .purge) :
    wp op.perform (fun _ => Telling c.settings.retentionSeconds db) c db := by
  cases op with
  | grant customerId request key => exact wp_discard tells_grant
  | account customerId => exact wp_discard (Bystander.account _ c db)
  | assign request => exact wp_discard (tells_assign request _ c db)
  | cancel id => exact tells_cancel id _ c db
  | activate customerId stationId => exact wp_discard tells_activate
  | tick id renew finish => exact tells_tick
  | finishByOperator id => exact tells_finishByOperator
  | recover id => exact tells_recover
  | lease => exact wp_discard tells_lease
  | sessionLogin credentials => exact wp_discard tells_sessionLogin
  | sessionLogout sessionId recovery => exact tells_sessionLogout
  | heartbeat request => exact tells_heartbeat
  | poll afterSequence => exact wp_discard (Bystander.poll _ c db)
  | acknowledge sequence => exact absurd rfl (hack sequence)
  | purge => exact absurd rfl hpurge
  | create request => exact wp_discard (Bystander.create _ c db)
  | createSeries customer skip occurrences => exact wp_discard (Bystander.createSeries _ _ _ c db)
  | changeStatus id request => exact Bystander.changeStatus _ _ c db
  | assignResource id request => exact Bystander.assignResource _ _ c db
  | update id request => exact Bystander.update _ _ c db

/-! ### Acknowledgements and purges -/

theorem wp_acknowledge {sequence : ℕ} {Q : Unit → Db → Prop}
    (hQ : ∀ command ∈ db.commands, ∀ acknowledgedAt db', db.clock.now ≤ db'.clock.now →
      db'.sessions = db.sessions → db'.cursors = db.cursors →
      db'.commands = db.commands.save { command with acknowledgedAt } → Q () db') :
    wp (acknowledge sequence) Q c db := by
  simp only [acknowledge, requireMachine, wp_bind, wp_ask, wp_orThrow, wp_get, wp_instant, wp_modify]
  exact fun _ _ command hc => hQ command (Table.find?_eq_some.1 hc).1 _ _ db.clock.le_next rfl rfl rfl

theorem wp_purge {Q : Unit → Db → Prop}
    (hQ : ∀ now db', db.clock.now ≤ now → db'.clock.now = now → db'.sessions = db.sessions →
      db'.cursors = db.cursors → db'.accounts = db.accounts →
      db'.commands = db.commands.delete (fun w => w.expiresAt < now ∧ w.acknowledgedAt.isSome) → Q () db') :
    wp purge Q c db := by
  simp only [purge, wp_bind, wp_instant, wp_modify]
  exact hQ _ _ db.clock.le_next rfl rfl rfl rfl rfl

end requests

end GManager

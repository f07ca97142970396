import GManager.Enforcement

/-!
# A locked status is earned

A client cannot lock its row by a report once a command was issued to the station: from then on the status
becomes `LOCKED` only by the acknowledgement of the last command issued, which must be a lock command of the
session, or by the confirmation of an operator. A report does it before the first command; the cursor that
later reports bring along is the client's own.
-/

namespace GManager

open Txn

/-- The last command issued to the station: its session, number and type. -/
def lastIssued (stationId : UUID) : List EnforcementNote → Option (UUID × ℕ × StationCommandType)
  | [] => none
  | .issued k sessionId sequence type :: log => if k = stationId then some (sessionId, sequence, type)
      else lastIssued stationId log
  | .locked _ _ :: log => lastIssued stationId log

/-- What has set the status to `LOCKED` last, if no command was issued since. -/
def standing (stationId : UUID) : List EnforcementNote → Option LockCause
  | [] => none
  | .issued k _ _ _ :: log => if k = stationId then none else standing stationId log
  | .locked k cause :: log => if k = stationId then some cause else standing stationId log

/-- An acknowledgement is of the last command issued, a lock command; a report stands
before the first command. -/
def LockCause.Justified (issued : Option (UUID × ℕ × StationCommandType)) : LockCause → Prop
  | .ack sessionId sequence lastCommandSequence =>
    sequence = lastCommandSequence ∧ ∃ type, issued = some (sessionId, sequence, type) ∧ type.locks
  | .confirmed _ => True
  | .reported => issued = none

/-- What every run keeps. -/
structure Earned (d : DevelopmentStations) (db : EnforcementDb) : Prop where
  sequence : ∀ c ∈ db.commands, 0 < c.sequence ∧ c.sequence ≤ db.cursor c.stationId
  ahead : ∀ k, db.cursor k ≤ (db.state k).lastCommandSequence
  issued : ∀ k s n t, lastIssued k db.log = some (s, n, t) → n = db.cursor k ∧ 0 < n ∧
    ∀ c ∈ db.commands, c.stationId = k → c.sequence = n → c.sessionId = s ∧ c.commandType = t
  fresh : ∀ k, lastIssued k db.log = none → db.cursor k = 0
  locked : ∀ e ∈ db.states, d.enabled e.stationId = false → e.enforcementStatus = .locked →
    ∃ cause, standing e.stationId db.log = some cause ∧ cause.Justified (lastIssued e.stationId db.log)

section earned

variable {d : DevelopmentStations} {db : EnforcementDb} {e : StationClientEnforcement}

theorem EnforcementDb.state_stationId (db : EnforcementDb) (k : UUID) : (db.state k).stationId = k := by
  unfold state
  cases hf : db.states.find? k with
  | none => rfl
  | some e => exact (Table.find?_eq_some.1 hf).2

/-- A new row is not locked, so a locked one is in the table. -/
theorem EnforcementDb.state_mem {k : UUID} (h : (db.state k).enforcementStatus = .locked) :
    db.state k ∈ db.states := by
  unfold state at h ⊢
  cases hf : db.states.find? k with
  | none =>
    rw [hf] at h
    cases h
  | some e => exact (Table.find?_eq_some.1 hf).1

theorem EnforcementDb.state_upsert {db' : EnforcementDb} (h : db'.states = db.states.upsert e) (k : UUID) :
    db'.state k = if k = e.stationId then e else db.state k := by
  unfold state
  rw [h, Table.find?_upsert]
  split
  · rfl
  · rfl

/-- The row of one station is saved; the notes say if it is locked now. -/
theorem Earned.saved (h : Earned d db) {notes : List EnforcementNote}
    (hseq : (db.state e.stationId).lastCommandSequence ≤ e.lastCommandSequence)
    (hissued : ∀ k, lastIssued k (notes ++ db.log) = lastIssued k db.log)
    (hother : ∀ k, k ≠ e.stationId → standing k (notes ++ db.log) = standing k db.log)
    (hlocked : d.enabled e.stationId = false → e.enforcementStatus = .locked →
      ∃ cause, standing e.stationId (notes ++ db.log) = some cause ∧
      cause.Justified (lastIssued e.stationId db.log)) :
    Earned d { db with states := db.states.upsert e, log := notes ++ db.log } := by
  refine ⟨h.sequence, fun k => ?_, fun k s n t hk => ?_, fun k hk => ?_, fun x hx hd hs => ?_⟩
  · rw [EnforcementDb.state_upsert rfl]
    split
    · rename_i hk
      rw [hk]
      exact (h.ahead e.stationId).trans hseq
    · exact h.ahead k
  · exact h.issued k s n t ((hissued k).symm.trans hk)
  · exact h.fresh k ((hissued k).symm.trans hk)
  · show ∃ cause, standing x.stationId (notes ++ db.log) = some cause ∧
      cause.Justified (lastIssued x.stationId (notes ++ db.log))
    rw [hissued]
    rcases Table.mem_upsert.1 hx with rfl | ⟨hk, hx⟩
    · exact hlocked hd hs
    · rw [hother _ hk]
      exact h.locked x hx hd hs

/-- A row that keeps its status, or gets another than `LOCKED`. -/
theorem Earned.touched (h : Earned d db)
    (hseq : (db.state e.stationId).lastCommandSequence ≤ e.lastCommandSequence)
    (hstatus : e.enforcementStatus = .locked → (db.state e.stationId).enforcementStatus = .locked) :
    Earned d { db with states := db.states.upsert e, log := [] ++ db.log } := by
  refine h.saved hseq (fun _ => rfl) (fun _ _ => rfl) fun hd hs => ?_
  have hmem := EnforcementDb.state_mem (hstatus hs)
  have hold := h.locked _ hmem (by rw [EnforcementDb.state_stationId]; exact hd) (hstatus hs)
  rw [EnforcementDb.state_stationId] at hold
  exact hold

/-- A row that becomes `LOCKED` for a reason. -/
theorem Earned.lockedBy (h : Earned d db) {cause : LockCause} {k : UUID} (hk : e.stationId = k)
    (hseq : (db.state k).lastCommandSequence ≤ e.lastCommandSequence)
    (hcause : d.enabled k = false → cause.Justified (lastIssued k db.log)) :
    Earned d { db with states := db.states.upsert e, log := [.locked k cause] ++ db.log } := by
  subst hk
  exact h.saved hseq (fun _ => rfl) (fun k hk => if_neg (Ne.symm hk)) fun hd _ =>
    ⟨cause, if_pos rfl, hcause hd⟩

theorem EnforcementDb.le_max_state (db : EnforcementDb) (k : UUID) (n : ℕ) :
    (db.state (db.state k).stationId).lastCommandSequence ≤ max (db.state k).lastCommandSequence n := by
  rw [EnforcementDb.state_stationId]
  exact le_max_left _ _

theorem Earned.leaseIssued (h : Earned d db) {machine : MachinePrincipal} {leaseId : UUID}
    {sessionId : Option UUID} {expiresAt : Instant} {configVersion : ℤ} {cursor : ℕ} {now : Instant} :
    wp (StationEnforcement.leaseIssued machine leaseId sessionId expiresAt configVersion cursor now)
      (fun _ => Earned d) d db := by
  simp only [StationEnforcement.leaseIssued, saveState, wp_bind, wp_get, wp_modify]
  refine h.touched (db.le_max_state _ _) fun hs => ?_
  simp only [EnforcementDb.state_stationId]
  exact hs

/-- The last command issued is the one that the cursor counts, so a station without a sequence has none. -/
theorem Earned.lastIssued_eq_none (h : Earned d db) {k : UUID} (h0 : (db.state k).lastCommandSequence = 0) :
    lastIssued k db.log = none := by
  cases hl : lastIssued k db.log with
  | none => rfl
  | some x =>
    obtain ⟨s, n, t⟩ := x
    obtain ⟨rfl, hpos, -⟩ := h.issued k s n t hl
    have hle := h.ahead k
    omega

theorem Earned.heartbeat (h : Earned d db) {machine : MachinePrincipal}
    {reported : Option StationEnforcementStatus} {sessionId leaseId : Option UUID} {configVersion : ℤ}
    {cursor : ℕ} {active : Option GamingSession} {now : Instant} : wp (StationEnforcement.heartbeat machine
      reported sessionId leaseId configVersion cursor active now) (fun _ => Earned d) d db := by
  simp only [StationEnforcement.heartbeat, StationEnforcement.requireSimulated, Txn.when, saveState,
    wp_bind, wp_ask, wp_get, wp_require, wp_ite, wp_modify, wp_pure]
  have hsaved : ∀ accepted : Option StationEnforcementStatus,
      (accepted = some .locked → max (db.state machine.stationId).lastCommandSequence cursor = 0) →
      ∀ e : StationClientEnforcement, e.stationId = (db.state machine.stationId).stationId →
      e.lastCommandSequence = max (db.state machine.stationId).lastCommandSequence cursor →
      e.enforcementStatus = accepted.getD (db.state machine.stationId).enforcementStatus →
      Earned d { db with
        states := db.states.upsert e
        log :=
          (if accepted = some .locked then [.locked machine.stationId .reported] else []) ++ db.log } := by
    intro accepted hfresh e hid hseq hstatus
    rw [EnforcementDb.state_stationId] at hid
    have hle : (db.state e.stationId).lastCommandSequence ≤ e.lastCommandSequence := by
      rw [hid, hseq]
      exact le_max_left _ _
    by_cases ha : accepted = some .locked
    · rw [if_pos ha]
      rw [hid] at hle
      refine h.lockedBy hid hle fun _ => h.lastIssued_eq_none ?_
      have hzero := hfresh ha
      omega
    · rw [if_neg ha]
      refine h.touched hle fun hs => ?_
      rw [hstatus] at hs
      cases accepted with
      | none =>
        rw [hid]
        exact hs
      | some r => exact absurd (congrArg some hs) ha
  have haccepted : ∀ s : Option UUID, (reported.filter fun r =>
      r ≠ .locked ∨ s = none ∧ max (db.state machine.stationId).lastCommandSequence cursor = 0) =
        some .locked →
      max (db.state machine.stationId).lastCommandSequence cursor = 0 := by
    intro s hs
    obtain ⟨-, hp⟩ := Option.filter_eq_some_iff.1 hs
    simp only [ne_eq, not_true_eq_false, false_or, decide_eq_true_eq] at hp
    exact hp.2
  refine fun _ _ => ⟨fun _ _ _ _ _ _ => ?_, fun _ => ?_⟩
  · exact hsaved _ (haccepted _) _ rfl rfl rfl
  · exact hsaved _ (haccepted _) _ rfl rfl rfl

/-- The command that is acknowledged is the last one issued: no command has a higher sequence than the row. -/
theorem Earned.ack_justified (h : Earned d db) {c : StationCommand} {k : UUID} (hc : c ∈ db.commands)
    (hk : c.stationId = k) (hlocks : c.commandType.locks)
    (hseq : c.sequence = (db.state k).lastCommandSequence) : (LockCause.ack c.sessionId c.sequence
      (db.state k).lastCommandSequence).Justified (lastIssued k db.log) := by
  obtain ⟨hpos, hle⟩ := h.sequence c hc
  have hge := h.ahead k
  have hcursor : c.sequence = db.cursor k := by
    rw [hk] at hle
    omega
  refine ⟨hseq, ?_⟩
  cases hl : lastIssued k db.log with
  | none =>
    have h0 := h.fresh k hl
    omega
  | some x =>
    obtain ⟨s, n, t⟩ := x
    obtain ⟨rfl, -, hcommand⟩ := h.issued k s n t hl
    obtain ⟨rfl, rfl⟩ := hcommand c hc hk hcursor
    exact ⟨_, by rw [hcursor], hlocks⟩

/-- Commands may go, or be marked acknowledged. -/
theorem Earned.commands (h : Earned d db) {t : Table fun c : StationCommand => (c.stationId, c.sequence)}
    (ht : ∀ c ∈ t, ∃ c' ∈ db.commands, c'.stationId = c.stationId ∧ c'.sequence = c.sequence ∧
      c'.sessionId = c.sessionId ∧ c'.commandType = c.commandType) : Earned d { db with commands := t } := by
  refine ⟨fun c hc => ?_, h.ahead, fun k s n ty hl => ?_, h.fresh, h.locked⟩
  · obtain ⟨c', hc', hk, hs, -⟩ := ht c hc
    have hseq := h.sequence c' hc'
    rw [hk, hs] at hseq
    exact hseq
  · obtain ⟨hn, hpos, hcommand⟩ := h.issued k s n ty hl
    refine ⟨hn, hpos, fun c hc hck hcs => ?_⟩
    obtain ⟨c', hc', hk, hs, hsession, htype⟩ := ht c hc
    rw [← hsession, ← htype]
    exact hcommand c' hc' (hk.trans hck) (hs.trans hcs)

theorem Earned.lockAck (h : Earned d db) {machine : MachinePrincipal} {sessionId : UUID} {sequence : ℕ}
    {leaseId : Option UUID} {now : Instant} :
    wp (GManager.lockAck machine sessionId sequence leaseId now) (fun _ => Earned d) d db := by
  simp only [GManager.lockAck, StationEnforcement.lockAck, Txn.when, saveState, wp_bind, wp_ask, wp_get,
    wp_require, wp_orThrow, wp_modify, wp_ite, wp_pure]
  intro c hc _ hseq _
  obtain ⟨hfind, hp⟩ := Option.filter_eq_some_iff.1 hc
  obtain ⟨hmem, hkey⟩ := Table.find?_eq_some.1 hfind
  obtain ⟨hk, rfl⟩ := Prod.mk.inj hkey
  obtain ⟨rfl, hlocks⟩ := of_decide_eq_true hp
  have hsaved : ∀ t : Table fun c : StationCommand => (c.stationId, c.sequence),
      (∀ x ∈ t, ∃ x' ∈ db.commands, x'.stationId = x.stationId ∧ x'.sequence = x.sequence ∧
        x'.sessionId = x.sessionId ∧ x'.commandType = x.commandType) →
      ∀ e : StationClientEnforcement, e.stationId = (db.state machine.stationId).stationId →
      e.lastCommandSequence = max (db.state machine.stationId).lastCommandSequence c.sequence →
      Earned d { db with
        states := db.states.upsert e
        commands := t
        log := [.locked machine.stationId
          (.ack c.sessionId c.sequence (db.state machine.stationId).lastCommandSequence)] ++ db.log } := by
    intro t ht e hid hmax
    rw [EnforcementDb.state_stationId] at hid
    refine (h.commands ht).lockedBy hid ?_ fun _ => h.ack_justified hmem hk hlocks hseq
    rw [hmax]
    exact le_max_left _ _
  refine ⟨fun _ => hsaved _ (fun x hx => ?_) _ rfl rfl, fun _ =>
    hsaved _ (fun x hx => ⟨x, hx, rfl, rfl, rfl, rfl⟩) _ rfl rfl⟩
  rcases Table.mem_save.1 hx with ⟨hx, -⟩ | ⟨rfl, -⟩
  · exact ⟨x, hx, rfl, rfl, rfl, rfl⟩
  · exact ⟨c, hmem, rfl, rfl, rfl, rfl⟩

theorem Earned.operatorRecovery (h : Earned d db) {stationId sessionId actorId : UUID} {action : String}
    {sequence : ℕ} {now : Instant} : wp (StationEnforcement.operatorRecovery stationId sessionId actorId
      action sequence now) (fun _ => Earned d) d db := by
  simp only [StationEnforcement.operatorRecovery, saveState, wp_bind, wp_ask, wp_get, wp_require, wp_modify]
  intro _
  by_cases ha : action = "OPERATOR_RECOVERY"
  · simp only [if_pos ha]
    exact h.lockedBy (db.state_stationId stationId) (le_max_left _ _) fun _ => trivial
  · simp only [if_neg ha]
    exact h.touched (db.le_max_state _ _) fun hs => by cases hs

/-- The next command of a station: the row follows the cursor, and is not locked. -/
theorem Earned.write (h : Earned d db) {s : GamingSession} {type : StationCommandType}
    {retentionSeconds : ℤ} {now : Instant} :
    wp (writeStationCommand s type retentionSeconds now) (fun _ => Earned d) d db := by
  simp only [writeStationCommand, StationEnforcement.commandIssued, saveState, wp_bind, wp_get, wp_orThrow,
    wp_modify, wp_pure]
  intro t ht
  have hsaved : ∀ e : StationClientEnforcement, e.stationId = (db.state s.resourceId).stationId →
      e.lastCommandSequence = max (db.state s.resourceId).lastCommandSequence (db.cursor s.resourceId + 1) →
      e.enforcementStatus ≠ .locked →
      Earned d ⟨db.states.upsert e, t, db.cursors.upsert ⟨s.resourceId, db.cursor s.resourceId + 1⟩,
        [.issued s.resourceId s.id (db.cursor s.resourceId + 1) type] ++ db.log⟩ := by
    intro e hid hseq hstatus
    rw [EnforcementDb.state_stationId] at hid
    have hcursor : ∀ k, (EnforcementDb.mk (db.states.upsert e) t
      (db.cursors.upsert ⟨s.resourceId, db.cursor s.resourceId + 1⟩)
        ([.issued s.resourceId s.id (db.cursor s.resourceId + 1) type] ++ db.log)).cursor k =
        if k = s.resourceId then db.cursor s.resourceId + 1 else db.cursor k := by
      intro k
      unfold EnforcementDb.cursor
      rw [Table.find?_upsert]
      split <;> rfl
    have hlast : ∀ k, lastIssued k ([.issued s.resourceId s.id (db.cursor s.resourceId + 1) type] ++ db.log) =
        if s.resourceId = k then
          some (s.id, db.cursor s.resourceId + 1, type)
        else lastIssued k db.log := fun _ => rfl
    refine ⟨fun c hc => ?_, fun k => ?_, fun k x n ty hl => ?_, fun k hl => ?_, fun x hx hd hs => ?_⟩
    · rw [hcursor]
      rcases (Table.mem_insert ht).1 hc with hc | rfl
      · obtain ⟨hpos, hle⟩ := h.sequence c hc
        refine ⟨hpos, hle.trans ?_⟩
        split
        · rename_i hk
          rw [hk]
          exact Nat.le_succ _
        · exact le_rfl
      · exact ⟨Nat.succ_pos _, by rw [if_pos rfl]⟩
    · rw [hcursor, EnforcementDb.state_upsert rfl, hid]
      split
      · rw [hseq]
        exact le_max_right _ _
      · exact h.ahead k
    · rw [hcursor]
      rw [hlast] at hl
      by_cases hk : s.resourceId = k
      · rw [if_pos hk] at hl
        obtain ⟨rfl, rfl, rfl⟩ := hl
        refine ⟨by rw [if_pos hk.symm], Nat.succ_pos _, fun c hc hck hcs => ?_⟩
        rcases (Table.mem_insert ht).1 hc with hc | rfl
        · have hle := (h.sequence c hc).2
          rw [hck, hcs, ← hk] at hle
          omega
        · exact ⟨rfl, rfl⟩
      · rw [if_neg hk] at hl
        rw [if_neg (Ne.symm hk)]
        obtain ⟨hn, hpos, hcommand⟩ := h.issued k x n ty hl
        refine ⟨hn, hpos, fun c hc hck hcs => ?_⟩
        rcases (Table.mem_insert ht).1 hc with hc | rfl
        · exact hcommand c hc hck hcs
        · exact absurd hck hk
    · rw [hlast] at hl
      rw [hcursor]
      split at hl
      · cases hl
      · rw [if_neg (Ne.symm ‹_›)]
        exact h.fresh k hl
    · rcases Table.mem_upsert.1 hx with rfl | ⟨hk, hx⟩
      · exact absurd hs hstatus
      · obtain ⟨cause, hstand, hjust⟩ := h.locked x hx hd hs
        rw [hid] at hk
        refine ⟨cause, (if_neg (Ne.symm hk)).trans hstand, ?_⟩
        rw [hlast, if_neg (Ne.symm hk)]
        exact hjust
  refine hsaved _ rfl rfl ?_
  show (if type.locks then _ else _) ≠ _
  split <;> simp

theorem Earned.markStale (h : Earned d db) {offlineGrace : UUID → Option ℤ}
    {lastSeen : UUID → Option Instant} {now : Instant} :
    wp (GManager.markStale offlineGrace lastSeen now) (fun _ => Earned d) d db := by
  refine wp_modify.2 ?_
  have hrow : ∀ e : StationClientEnforcement, (e.markStale offlineGrace lastSeen now).lastCommandSequence =
    e.lastCommandSequence ∧
      ((e.markStale offlineGrace lastSeen now).enforcementStatus = .locked →
        e.enforcementStatus = .locked) := by
    intro e
    unfold StationClientEnforcement.markStale
    split
    · exact ⟨rfl, id⟩
    · split
      · exact ⟨rfl, id⟩
      · split
        · exact ⟨rfl, fun h => by cases h⟩
        · exact ⟨rfl, id⟩
  refine ⟨h.sequence, fun k => ?_, h.issued, h.fresh, fun x hx hd hs => ?_⟩
  · refine (h.ahead k).trans (le_of_eq ?_)
    unfold EnforcementDb.state
    rw [Table.find?_edit]
    cases db.states.find? k with
    | none => rfl
    | some e => exact (hrow e).1.symm
  · obtain ⟨e, he, rfl⟩ := List.mem_map.1 hx
    rw [StationClientEnforcement.markStale_stationId] at hd ⊢
    exact h.locked e he hd ((hrow e).2 hs)

theorem Earned.perform (h : Earned d db) (op : EnforcementOp) : wp op.perform (fun _ => Earned d) d db := by
  cases op with
  | write => exact wp_discard h.write
  | leaseIssued => exact h.leaseIssued
  | heartbeat => exact h.heartbeat
  | lockAck => exact h.lockAck
  | operatorRecovery => exact h.operatorRecovery
  | forceLock stationId actorId sessions retentionSeconds now =>
    simp only [EnforcementOp.perform, forceLock, wp_bind, wp_orThrow]
    exact fun s _ => wp_mono h.write fun _ _ h => h.operatorRecovery
  | confirmLocked stationId actorId sessions now =>
    simp only [EnforcementOp.perform, confirmLocked, wp_bind, wp_orThrow]
    exact fun s _ => h.operatorRecovery
  | markStale => exact h.markStale
  | purge => exact wp_modify.2 (h.commands fun c hc => ⟨c, (Table.mem_delete.1 hc).1, rfl, rfl, rfl, rfl⟩)

theorem Earned.empty : Earned d .empty :=
  ⟨fun _ h => absurd h Table.not_mem_empty, fun _ => Nat.zero_le _, fun _ _ _ _ h => (by cases h),
    fun _ _ => rfl, fun _ h => absurd h Table.not_mem_empty⟩

theorem Earned.run (h : Earned d db) (ops : List EnforcementOp) : Earned d (db.run d ops) := by
  induction ops generalizing db with
  | nil => exact h
  | cons op ops ih => exact ih (commit_of_wp h (h.perform op))

end earned

/-! ### Runs -/

/-- The status `LOCKED` of a station that is not a development station stands since it was set last: no
command was issued after that, and if one was issued at all, it was set by the acknowledgement of the last
one, a lock command of its session, or by an operator. So a station to which a command was issued is safe
for a new session only after such a confirmation. -/
theorem locked_is_earned (d : DevelopmentStations) (ops : List EnforcementOp) :
    (∀ e ∈ (EnforcementDb.empty.run d ops).states, d.enabled e.stationId = false →
      e.enforcementStatus = .locked →
      ∃ cause, standing e.stationId (EnforcementDb.empty.run d ops).log = some cause ∧
        cause.Justified (lastIssued e.stationId (EnforcementDb.empty.run d ops).log)) ∧
    ∀ k active now, d.enabled k = false →
      StationEnforcement.safeForNewSession d (EnforcementDb.empty.run d ops) k active now = true →
      lastIssued k (EnforcementDb.empty.run d ops).log ≠ none →
      ∃ cause, standing k (EnforcementDb.empty.run d ops).log = some cause ∧ cause ≠ .reported := by
  have h : Earned d (EnforcementDb.empty.run d ops) := Earned.empty.run ops
  refine ⟨h.locked, fun k active now hd hsafe hissued => ?_⟩
  unfold StationEnforcement.safeForNewSession at hsafe
  split at hsafe
  · cases hsafe
  · rename_i e he
    obtain ⟨hmem, rfl⟩ := Table.find?_eq_some.1 he
    have hs : e.enforcementStatus = .locked := by simpa [hd] using hsafe
    obtain ⟨cause, hstand, hjust⟩ := h.locked e hmem hd hs
    refine ⟨cause, hstand, ?_⟩
    rintro rfl
    exact hissued hjust

/-! A station `7` whose client has the identity `3`. -/

def Station.machine : MachinePrincipal := ⟨3, 7⟩

def Station.session : GamingSession :=
  { id := 5, customerId := 2, resourceId := 7, locationId := 1, reservationId := none, startedBy := 9,
    billingMode := .timeBalance,
    billedSeconds := 0, lastBilledAt := 0, meteredLeaseUntil := 0, accessUntil := 0,
    moveTargetId := none, startedAt := 0,
    endsAt := 10, endedAt := some 10, status := .expired, terminationReason := none,
    lastCommandSequence := none }

/-- A session was played and terminated, and the client has acknowledged the lock. -/
def Station.played : List EnforcementOp :=
  [.write Station.session .sessionStarted 100 0, .write Station.session .sessionTerminated 100 10,
    .lockAck Station.machine 5 2 none 11]

theorem locked_is_earned_acknowledged :
    StationEnforcement.safeForNewSession ⟨false, []⟩ (EnforcementDb.empty.run ⟨false, []⟩ Station.played) 7
      none 12 = true ∧ ∃ cause, standing 7 (EnforcementDb.empty.run ⟨false, []⟩ Station.played).log = some
        cause ∧ cause ≠ .reported :=
  ⟨by decide +kernel, (locked_is_earned ⟨false, []⟩ Station.played).2 7 none 12 rfl (by decide +kernel)
    (by decide +kernel)⟩

/-- A client that reports its lock before the first command, and then a cursor of its own: the status is
`LOCKED`, the sequence is not zero, and nobody has acknowledged or confirmed a lock. -/
theorem locked_by_report :
    (EnforcementDb.empty.run ⟨false, []⟩ [.heartbeat Station.machine (some .locked) none none 1 0 none 1,
        .heartbeat Station.machine (some .locked) none none 1 5 none 2]).states.rows.map
          (fun e => (e.stationId, e.enforcementStatus, e.lastCommandSequence)) = [(7, .locked, 5)] ∧
      standing 7 (EnforcementDb.empty.run ⟨false, []⟩
        [.heartbeat Station.machine (some .locked) none none 1 0 none 1,
          .heartbeat Station.machine (some .locked) none none 1 5 none 2]).log = some .reported ∧
      ¬ ∀ (d : DevelopmentStations) (ops : List EnforcementOp), ∀ e ∈ (EnforcementDb.empty.run d ops).states,
        d.enabled e.stationId = false → 0 < e.lastCommandSequence → e.enforcementStatus = .locked →
        standing e.stationId (EnforcementDb.empty.run d ops).log ≠ some .reported := by
  refine ⟨by decide +kernel, by decide +kernel, fun h => ?_⟩
  have hall := h ⟨false, []⟩ [.heartbeat Station.machine (some .locked) none none 1 0 none 1,
    .heartbeat Station.machine (some .locked) none none 1 5 none 2]
  have hrows : ∀ e ∈ (EnforcementDb.empty.run ⟨false, []⟩
      [.heartbeat Station.machine (some .locked) none none 1 0 none 1,
        .heartbeat Station.machine (some .locked) none none 1 5 none 2]).states.rows,
      0 < e.lastCommandSequence → e.enforcementStatus = .locked →
      standing e.stationId (EnforcementDb.empty.run ⟨false, []⟩
        [.heartbeat Station.machine (some .locked) none none 1 0 none 1,
          .heartbeat Station.machine (some .locked) none none 1 5 none 2]).log ≠ some .reported :=
    fun e he => hall e he rfl
  revert hrows
  decide +kernel

end GManager

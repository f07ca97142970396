import GManager.Announcements
import Mathlib.Data.List.Perm.Basic

/-!
# The log of the station commands

`Logged` is what the commands written so far say about the sessions: each station numbers its commands from
one, and every session points to the newest command written for it, which says what the session is now.
Every write keeps it (`Logged.told`), so a session is out of date only where its newest command has been
purged (`Sound.matches_iff`), and a repair writes only there.
-/

namespace GManager

open Txn

/-- The command that the session points to: it says what the session is, and stays for
the retention of its end. -/
structure StationCommand.Points (R : ℕ) (w : StationCommand) (s : GamingSession) : Prop where
  stationId : w.stationId = s.resourceId
  pointer : s.lastCommandSequence = some w.sequence
  projects : w.projects s
  expires : ∀ endedAt ∈ s.endedAt, Instant.plusSeconds endedAt R ≤ w.expiresAt

/-- The newest command written for a session. -/
def newestCommand (written : List StationCommand) (id : UUID) : Option StationCommand :=
  (written.filter fun w => w.sessionId = id).getLast?

/-- What the written commands say about the database. -/
structure Logged (R : ℕ) (written : List StationCommand) (db : Db) : Prop where
  numbered : ∀ station, (written.filter fun w => w.stationId = station).map (·.sequence) =
    List.range' 1 (db.currentCursor station)
  newest : ∀ s ∈ db.sessions, ∃ w, newestCommand written s.id = some w ∧ w.Points R s
  known : ∀ w ∈ written, ∃ s ∈ db.sessions, s.id = w.sessionId
  unacknowledged : ∀ w ∈ written, w.acknowledgedAt = none
  billed : ∀ s ∈ db.sessions, s.lastBilledAt ≤ db.clock.now
  ended : ∀ s ∈ db.sessions, ∀ endedAt ∈ s.endedAt, endedAt ≤ db.clock.now
  closed : ∀ s ∈ db.sessions, s.status ≠ .active → s.endedAt.isSome
  unmoved : ∀ s ∈ db.sessions, s.moveTargetId = none

theorem newestCommand_append {written : List StationCommand} {w : StationCommand} {id : UUID} :
    newestCommand (written ++ [w]) id = if w.sessionId = id then some w else newestCommand written id := by
  unfold newestCommand
  rw [List.filter_append]
  split
  · rename_i h
    simp [h]
  · rename_i h
    simp [h]

theorem StationCommand.projects_congr {w : StationCommand} {r s : GamingSession} (h : r.SameProjection s) :
    w.projects r = w.projects s := by
  unfold projects GamingSession.announcedBy
  rw [h.status, h.moveTargetId, h.endsAt, h.endedAt]

theorem StationCommand.Points.congr {R : ℕ} {w : StationCommand} {r s : GamingSession} (hw : w.Points R s)
    (h : r.SameProjection s) : w.Points R r := by
  refine ⟨hw.stationId.trans h.resourceId.symm, h.lastCommandSequence.trans hw.pointer, ?_, ?_⟩
  · rw [projects_congr h]
    exact hw.projects
  · rw [h.endedAt]
    exact hw.expires

namespace Logged

variable {R : ℕ} {written news : List StationCommand} {db db' : Db}

theorem empty (t : Instant) : Logged R [] (.empty t) :=
  ⟨fun _ => rfl, fun _ hs => absurd hs Table.not_mem_empty, fun _ hw => absurd hw List.not_mem_nil,
    fun _ hw => absurd hw List.not_mem_nil, fun _ hs => absurd hs Table.not_mem_empty,
    fun _ hs => absurd hs Table.not_mem_empty, fun _ hs => absurd hs Table.not_mem_empty,
    fun _ hs => absurd hs Table.not_mem_empty⟩

/-- The sessions and the numbers are the same. -/
theorem congr (h : Logged R written db) (hclock : db.clock.now ≤ db'.clock.now)
    (hsess : db'.sessions = db.sessions) (hcur : db'.cursors = db.cursors) : Logged R written db' := by
  refine ⟨fun station => ?_, ?_, ?_, h.unacknowledged, ?_, ?_, ?_, ?_⟩
  · rw [h.numbered, Db.currentCursor, Db.currentCursor, hcur]
  · rw [hsess]
    exact h.newest
  · rw [hsess]
    exact h.known
  · rw [hsess]
    exact fun s hs => (h.billed s hs).trans hclock
  · rw [hsess]
    exact fun s hs e he => (h.ended s hs e he).trans hclock
  · rw [hsess]
    exact h.closed
  · rw [hsess]
    exact h.unmoved

/-- A session is rewritten that says the same. -/
theorem put (h : Logged R written db) (hm : Mute db db') {s r : GamingSession} (hs : s ∈ db.sessions)
    (hr : r.SameProjection s) (hb : r.lastBilledAt = s.lastBilledAt ∨ r.lastBilledAt ≤ db.clock.now)
    (hsess : db'.sessions = db.sessions.save r) :
    Logged R written db' := by
  have hmem : ∀ x, x ∈ db'.sessions ↔ x = r ∨ x ∈ db.sessions ∧ x.id ≠ s.id :=
    fun x => Db.mem_saved hs hr.id hsess
  refine ⟨fun station => ?_, fun x hx => ?_, fun w hw => ?_, h.unacknowledged, fun x hx => ?_,
    fun x hx => ?_, fun x hx => ?_, fun x hx => ?_⟩
  · rw [h.numbered, hm.currentCursor]
  · rcases (hmem x).1 hx with rfl | ⟨hx, -⟩
    · obtain ⟨w, hw, hp⟩ := h.newest s hs
      exact ⟨w, by rwa [hr.id], hp.congr hr⟩
    · exact h.newest x hx
  · obtain ⟨x, hx, hid⟩ := h.known w hw
    rcases eq_or_ne x.id s.id with he | hne
    · exact ⟨r, (hmem r).2 (.inl rfl), hr.id.trans (he.symm.trans hid)⟩
    · exact ⟨x, (hmem x).2 (.inr ⟨hx, hne⟩), hid⟩
  · rcases (hmem x).1 hx with rfl | ⟨hx, -⟩
    · exact (hb.elim (fun he => he.trans_le (h.billed s hs)) id).trans hm.clock
    · exact (h.billed x hx).trans hm.clock
  · rcases (hmem x).1 hx with rfl | ⟨hx, -⟩
    · rw [hr.endedAt]
      exact fun e he => (h.ended s hs e he).trans hm.clock
    · exact fun e he => (h.ended x hx e he).trans hm.clock
  · rcases (hmem x).1 hx with rfl | ⟨hx, -⟩
    · rw [hr.status, hr.endedAt]
      exact h.closed s hs
    · exact h.closed x hx
  · rcases (hmem x).1 hx with rfl | ⟨hx, -⟩
    · exact hr.moveTargetId.trans (h.unmoved s hs)
    · exact h.unmoved x hx

/-- A command is issued: the numbers go on, and the session points to it. -/
theorem numbered_append (h : Logged R written db) {r : GamingSession} {w : StationCommand}
    (ha : Announces R db r w db') (station : UUID) :
    ((written ++ [w]).filter fun w => w.stationId = station).map (·.sequence) =
      List.range' 1 (db'.currentCursor station) := by
  rw [List.filter_append, List.map_append, h.numbered, ha.cursor]
  by_cases hst : r.resourceId = station
  · rw [List.filter_singleton, ha.stationId, if_pos hst.symm, ha.sequence, ← hst, List.range'_1_concat]
    simp [ha.sequence, Nat.add_comm]
  · rw [List.filter_singleton, ha.stationId, if_neg (Ne.symm hst)]
    simp [hst]

/-- What a session points to after its announcement, and that the others point where they did. -/
theorem announced (h : Logged R written db) {r : GamingSession} {w : StationCommand}
    (ha : Announces R db r w db') (hmem : ∀ x, x ∈ db'.sessions ↔ x = r ∨ x ∈ db.sessions ∧ x.id ≠ r.id)
    (hmove : r.moveTargetId = none) (hb : r.lastBilledAt ≤ db.clock.now)
    (he : ∀ e ∈ r.endedAt, e ≤ db.clock.now) (hcl : r.status ≠ .active → r.endedAt.isSome)
    (hkept : ∀ x ∈ db.sessions, x.id = r.id ∨ x ∈ db'.sessions) : Logged R (written ++ [w]) db' := by
  have hclock : db.clock.now ≤ db'.clock.now := ha.available.1.trans ha.available.2
  refine ⟨h.numbered_append ha, fun x hx => ?_, fun v hv => ?_, fun v hv => ?_, fun x hx => ?_,
    fun x hx => ?_, fun x hx => ?_, fun x hx => ?_⟩
  · rw [newestCommand_append, ha.sessionId]
    rcases (hmem x).1 hx with rfl | ⟨hx, hne⟩
    · refine ⟨w, if_pos rfl, ha.stationId, ha.pointer, ha.projects hmove, fun e hend => ?_⟩
      rw [ha.expires]
      exact Instant.plusSeconds_mono ((he e hend).trans ha.available.1) R
    · rw [if_neg hne.symm]
      exact h.newest x hx
  · rcases List.mem_append.1 hv with hv | hv
    · obtain ⟨x, hx, hid⟩ := h.known v hv
      rcases hkept x hx with he | hx'
      · exact ⟨r, (hmem r).2 (.inl rfl), he.symm.trans hid⟩
      · exact ⟨x, hx', hid⟩
    · rw [List.mem_singleton.1 hv]
      exact ⟨r, (hmem r).2 (.inl rfl), ha.sessionId.symm⟩
  · rcases List.mem_append.1 hv with hv | hv
    · exact h.unacknowledged v hv
    · rw [List.mem_singleton.1 hv]
      exact ha.unacknowledged
  · rcases (hmem x).1 hx with rfl | ⟨hx, -⟩
    · exact hb.trans hclock
    · exact (h.billed x hx).trans hclock
  · rcases (hmem x).1 hx with rfl | ⟨hx, -⟩
    · exact fun e hend => (he e hend).trans hclock
    · exact fun e hend => (h.ended x hx e hend).trans hclock
  · rcases (hmem x).1 hx with rfl | ⟨hx, -⟩
    · exact hcl
    · exact h.closed x hx
  · rcases (hmem x).1 hx with rfl | ⟨hx, -⟩
    · exact hmove
    · exact h.unmoved x hx

theorem told (h : Logged R written db) (ht : Told R db news db') : Logged R (written ++ news) db' := by
  cases ht with
  | mute hm hsess =>
    rw [List.append_nil]
    exact h.congr hm.clock hsess hm.cursors
  | rewritten hm hs hr hb hsess =>
    rw [List.append_nil]
    exact h.put hm hs hr hb hsess
  | @announced _ s r w hs hid hstation hmove hb he ha hsess =>
    have hmem : ∀ x, x ∈ db'.sessions ↔ x = r ∨ x ∈ db.sessions ∧ x.id ≠ r.id := fun x => by
      rw [hid]
      exact Db.mem_saved hs hid hsess
    refine h.announced ha hmem (hmove.trans (h.unmoved s hs)) (hb.trans_le (h.billed s hs))
      (fun e hend => ?_) (fun hne => ?_) fun x hx => ?_
    · rcases he with he | ⟨-, he⟩
      · obtain rfl : s.lastBilledAt = e := Option.some.inj (he.symm.trans hend)
        exact h.billed s hs
      · exact h.ended s hs e (he ▸ hend)
    · rcases he with he | ⟨hstatus, he⟩
      · rw [he]
        rfl
      · rw [he]
        exact h.closed s hs (hstatus ▸ hne)
    · rcases eq_or_ne x.id r.id with he | hne
      · exact .inl he
      · exact .inr ((hmem x).2 (.inr ⟨hx, hne⟩))
  | @started _ s w hfresh hmem hb hmove hs he ha =>
    refine h.announced ha (fun x => (hmem x).trans ⟨?_, ?_⟩) hmove hb (fun e hend => ?_)
      (fun hne => absurd hs hne) fun x hx => .inr ((hmem x).2 (.inl hx))
    · rintro (hx | rfl)
      · exact .inr ⟨hx, hfresh x hx⟩
      · exact .inl rfl
    · rintro (rfl | ⟨hx, -⟩)
      · exact .inr rfl
      · exact .inl hx
    · rw [he] at hend
      cases hend

theorem tells (h : Logged R written db) (ht : Tells R db news db') : Logged R (written ++ news) db' := by
  induction ht with
  | refl =>
    rw [List.append_nil]
    exact h
  | tail _ ht ih =>
    rw [← List.append_assoc]
    exact ih.told ht

/-- Two commands of a station with one number are the same. -/
theorem eq_of_sequence (h : Logged R written db) {v w : StationCommand} (hv : v ∈ written) (hw : w ∈ written)
    (hst : v.stationId = w.stationId) (hseq : v.sequence = w.sequence) : v = w := by
  have hnd : ((written.filter fun c => c.stationId = w.stationId).map (·.sequence)).Nodup := by
    rw [h.numbered]
    exact List.nodup_range'
  refine List.inj_on_of_nodup_map hnd ?_ ?_ hseq
  · exact List.mem_filter.2 ⟨hv, decide_eq_true hst⟩
  · exact List.mem_filter.2 ⟨hw, decide_eq_true rfl⟩

end Logged

/-! ### The history -/

/-- The newest command of a session has not been purged. -/
def NewestKept (db : Db) (s : GamingSession) : Prop :=
  ∃ w ∈ db.commands, w.stationId = s.resourceId ∧ s.lastCommandSequence = some w.sequence

/-- The command as it was written. -/
def StationCommand.issued (w : StationCommand) : StationCommand := { w with acknowledgedAt := none }

namespace CommandLog

variable {R : ℕ} {l : CommandLog} {c : Call} {news : List StationCommand} {db : Db}

/-- The history fits the database: each command written is there or purged, as it was written but
for its acknowledgement. -/
structure Sound (R : ℕ) (l : CommandLog) : Prop where
  logged : Logged R l.written l.db
  kept : ((l.db.commands.rows ++ l.purged).map StationCommand.issued).Perm l.written

theorem Sound.empty (t : Instant) : Sound R (.empty t) := ⟨.empty t, .refl _⟩

theorem filter_missing {t t' : Table fun c : StationCommand => (c.stationId, c.sequence)}
    (h : ∀ w ∈ t, ∃ v ∈ t', (v.stationId, v.sequence) = (w.stationId, w.sequence)) :
    (t.rows.filter fun w => t'.find? (w.stationId, w.sequence) = none) = [] := by
  refine List.filter_eq_nil_iff.2 fun w hw => ?_
  obtain ⟨v, hv, hk⟩ := h w hw
  rw [decide_eq_true_eq, Table.find?_eq_none]
  exact fun hn => hn v hv hk

/-- The commands of the database keep their keys. -/
theorem become_of_keys
    (h : ∀ w ∈ db.commands, ∃ v ∈ l.db.commands, (v.stationId, v.sequence) = (w.stationId, w.sequence))
    (h' : ∀ w ∈ l.db.commands, ∃ v ∈ db.commands, (v.stationId, v.sequence) = (w.stationId, w.sequence)) :
    l.become db = { l with db } := by
  rw [become, filter_missing h, filter_missing h', List.append_nil, List.append_nil]

theorem become_of_tells (ht : Tells R l.db news db) :
    l.become db = { l with db, written := l.written ++ news } := by
  have hrows := ht.commands
  have hold : ∀ w ∈ l.db.commands, w ∈ db.commands := fun w hw => by
    rw [← Table.mem_rows, hrows]
    exact List.mem_append_left _ hw
  have hkeys : ((l.db.commands.rows ++ news).map fun w => (w.stationId, w.sequence)).Nodup :=
    hrows ▸ db.commands.nodup
  rw [List.map_append] at hkeys
  have hnew :
      (db.commands.rows.filter fun w => l.db.commands.find? (w.stationId, w.sequence) = none) = news := by
    rw [hrows, List.filter_append, filter_missing fun w hw => ⟨w, hw, rfl⟩, List.nil_append]
    refine List.filter_eq_self.2 fun w hw => ?_
    rw [decide_eq_true_eq, Table.find?_eq_none]
    intro v hv hk
    exact (List.nodup_append.1 hkeys).2.2 _ (List.mem_map_of_mem hv) _ (List.mem_map_of_mem hw) hk
  rw [become, hnew, filter_missing fun w hw => ⟨w, hold w hw, rfl⟩, List.append_nil]

theorem Sound.tells (h : Sound R l) (ht : Tells R l.db news db) : Sound R (l.become db) := by
  have hlog := h.logged.tells ht
  rw [become_of_tells ht]
  refine ⟨hlog, ?_⟩
  have hissued : news.map StationCommand.issued = news := by
    refine (List.map_congr_left fun w hw => ?_).trans (List.map_id _)
    have hw := hlog.unacknowledged w (List.mem_append_right _ hw)
    cases w
    cases hw
    rfl
  have hperm : (l.db.commands.rows ++ news ++ l.purged).Perm (l.db.commands.rows ++ l.purged ++ news) := by
    rw [List.append_assoc, List.append_assoc]
    exact List.perm_append_comm.append_left _
  show ((db.commands.rows ++ l.purged).map StationCommand.issued).Perm (l.written ++ news)
  rw [ht.commands]
  refine (hperm.map _).trans ?_
  rw [List.map_append, hissued]
  exact h.kept.append_right _

theorem Sound.telling (h : Sound R l) (ht : Telling R l.db db) : Sound R (l.become db) := by
  obtain ⟨news, ht⟩ := ht
  exact h.tells ht

theorem Sound.acknowledged (h : Sound R l) {w : StationCommand} {acknowledgedAt : Option Instant}
    (hw : w ∈ l.db.commands) (hclock : l.db.clock.now ≤ db.clock.now) (hsess : db.sessions = l.db.sessions)
    (hcur : db.cursors = l.db.cursors)
    (hcomm : db.commands = l.db.commands.save { w with acknowledgedAt }) : Sound R (l.become db) := by
  rw [become_of_keys]
  · refine ⟨h.logged.congr hclock hsess hcur, ?_⟩
    have hrows : db.commands.rows.map StationCommand.issued =
        l.db.commands.rows.map StationCommand.issued := by
      rw [hcomm]
      show List.map _ (List.map _ l.db.commands.rows) = _
      rw [List.map_map]
      refine List.map_congr_left fun v hv => ?_
      simp only [Function.comp_apply]
      split
      · rename_i hk
        rw [Table.eq_of_key hv hw hk]
        rfl
      · rfl
    show ((db.commands.rows ++ l.purged).map StationCommand.issued).Perm l.written
    rw [List.map_append, hrows, ← List.map_append]
    exact h.kept
  · intro v hv
    rw [hcomm] at hv
    rcases Table.mem_save.1 hv with ⟨hv, -⟩ | ⟨rfl, -⟩
    · exact ⟨v, hv, rfl⟩
    · exact ⟨w, hw, rfl⟩
  · intro v hv
    rw [hcomm]
    by_cases hk : (v.stationId, v.sequence) = (w.stationId, w.sequence)
    · exact ⟨{ w with acknowledgedAt }, Table.mem_save_self hw rfl, hk.symm⟩
    · exact ⟨v, Table.mem_save.2 (.inl ⟨hv, hk⟩), rfl⟩

theorem Sound.deleted (h : Sound R l) {p : StationCommand → Bool}
    (hclock : l.db.clock.now ≤ db.clock.now) (hsess : db.sessions = l.db.sessions)
    (hcur : db.cursors = l.db.cursors) (hcomm : db.commands = l.db.commands.delete p) :
    Sound R (l.become db) := by
  have hsub : ∀ w ∈ db.commands, w ∈ l.db.commands ∧ p w = false := fun w hw => by
    rw [hcomm] at hw
    exact Table.mem_delete.1 hw
  have hnone : (db.commands.rows.filter fun w => l.db.commands.find? (w.stationId, w.sequence) = none) = [] :=
    filter_missing fun w hw => ⟨w, (hsub w hw).1, rfl⟩
  have hgone : (l.db.commands.rows.filter fun w => db.commands.find? (w.stationId, w.sequence) = none) =
      l.db.commands.rows.filter p := by
    refine List.filter_congr fun w hw => ?_
    rw [eq_comm, Bool.eq_iff_iff, decide_eq_true_eq, Table.find?_eq_none]
    constructor
    · intro hp v hv hk
      obtain ⟨hv, hpv⟩ := hsub v hv
      rw [Table.eq_of_key hv hw hk, hp] at hpv
      cases hpv
    · intro hn
      by_contra hp
      refine hn w ?_ rfl
      rw [hcomm]
      exact Table.mem_delete.2 ⟨hw, by simpa using hp⟩
  rw [become, hnone, hgone, List.append_nil]
  refine ⟨h.logged.congr hclock hsess hcur, List.Perm.trans (List.Perm.map _ ?_) h.kept⟩
  show (db.commands.rows ++ (l.purged ++ l.db.commands.rows.filter p)).Perm _
  rw [hcomm]
  show (l.db.commands.rows.filter (fun r => !p r) ++ (l.purged ++ l.db.commands.rows.filter p)).Perm _
  have hsplit : (l.db.commands.rows.filter p ++ l.db.commands.rows.filter (fun r => !p r)).Perm
      l.db.commands.rows :=
    List.filter_append_perm p l.db.commands.rows
  refine List.Perm.trans ?_ (hsplit.append_right l.purged)
  rw [← List.append_assoc, List.append_assoc (l.db.commands.rows.filter p)]
  exact List.perm_append_comm

theorem Sound.commit {α : Type} {x : Tx α} (h : Sound R l) (hx : wp x (fun _ => Telling R l.db) c l.db) :
    Sound R (l.commit c x) :=
  h.telling (commit_of_wp (P := Telling R l.db) (.refl l.db) hx)

theorem Sound.listen (h : Sound R l) (readings : List Instant) : Sound R (l.listen readings) :=
  ⟨h.logged.congr le_rfl rfl rfl, h.kept⟩

theorem Sound.acknowledge (h : Sound R l) (sequence : ℕ) :
    Sound R (l.commit c (GManager.acknowledge sequence)) := by
  refine commit_of_wp (P := fun db => Sound R (l.become db)) (h.telling (.refl l.db)) (wp_acknowledge ?_)
  exact fun _ hw _ _ hclock hsess hcur hcomm => h.acknowledged hw hclock hsess hcur hcomm

theorem Sound.purge (h : Sound R l) : Sound R (l.commit c GManager.purge) := by
  refine commit_of_wp (P := fun db => Sound R (l.become db)) (h.telling (.refl l.db)) (wp_purge ?_)
  exact fun _ _ hle hnow hsess hcur _ hcomm => h.deleted (hle.trans_eq hnow.symm) hsess hcur hcomm

theorem Sound.repair (h : Sound R l) (hc : c.settings.retentionSeconds = R) (id : UUID) :
    Sound R (l.commit c (GManager.repair id)) := by
  refine h.commit (wp_mono wp_repair fun _ _ hr => ?_)
  obtain ⟨news, ht⟩ := hr.told
  exact hc ▸ ht.telling

theorem Sound.instant (h : Sound R l) : Sound R (l.commit c GManager.instant) :=
  h.commit (wp_instant.2 (.next l.db))

theorem Sound.step (h : Sound R l) (hc : c.settings.retentionSeconds = R) (op : CommandOp) :
    Sound R (l.step c op) := by
  have hl := h.listen c.readings
  cases op with
  | request op =>
    by_cases hack : ∃ sequence, op = .acknowledge sequence
    · obtain ⟨sequence, rfl⟩ := hack
      exact hl.acknowledge sequence
    · rcases eq_or_ne op .purge with rfl | hpurge
      · exact hl.purge
      · exact hl.commit (hc ▸ tells_perform op (not_exists.1 hack) hpurge)
  | forceLock stationId => exact hl.commit (hc ▸ tells_forceLock)
  | repair id =>
    refine hl.commit (wp_discard (wp_mono wp_repair fun _ _ hr => ?_))
    obtain ⟨news, ht⟩ := hr.told
    exact hc ▸ ht.telling

/-! ### What is out of date -/

theorem newestCommand_eq_some {written : List StationCommand} {w : StationCommand} {id : UUID}
    (h : newestCommand written id = some w) : w ∈ written ∧ w.sessionId = id := by
  obtain ⟨hw, hid⟩ := List.mem_filter.1 (List.mem_of_getLast? h)
  exact ⟨hw, of_decide_eq_true hid⟩

theorem Sound.issued_mem (h : Sound R l) {w : StationCommand} (hw : w ∈ l.db.commands) :
    w.issued ∈ l.written :=
  h.kept.mem_iff.1 (List.mem_map_of_mem (List.mem_append_left _ hw))

theorem Sound.sequence_le (h : Sound R l) {w : StationCommand} (hw : w ∈ l.db.commands) :
    w.sequence ≤ l.db.currentCursor w.stationId := by
  have hmem : w.sequence ∈ (l.written.filter fun v => v.stationId = w.stationId).map (·.sequence) :=
    List.mem_map.2 ⟨w.issued, List.mem_filter.2 ⟨h.issued_mem hw, decide_eq_true rfl⟩, rfl⟩
  rw [h.logged.numbered, List.mem_range'_1] at hmem
  omega

/-- A session matches its projection unless its newest command has been purged. -/
theorem Sound.matches_iff (h : Sound R l) {s : GamingSession} (hs : s ∈ l.db.sessions) :
    l.db.matchesCurrentProjection s = true ↔ NewestKept l.db s := by
  obtain ⟨w₀, hnew, hp⟩ := h.logged.newest s hs
  obtain ⟨hw₀, hid₀⟩ := newestCommand_eq_some hnew
  simp only [Db.matchesCurrentProjection, hp.pointer, NewestKept]
  constructor
  · intro hm
    obtain ⟨w, hw, -⟩ := (Option.any_eq_true _ _).1 hm
    obtain ⟨hf, -⟩ := Option.filter_eq_some_iff.1 hw
    obtain ⟨hw, hk⟩ := Table.find?_eq_some.1 hf
    obtain ⟨hst, hseq⟩ := Prod.mk.inj hk
    exact ⟨w, hw, hst, congrArg some hseq.symm⟩
  · rintro ⟨w, hw, hst, hseq⟩
    have hissued : w.issued = w₀ := by
      refine h.logged.eq_of_sequence (h.issued_mem hw) hw₀ ?_ (Option.some.inj hseq).symm
      exact hst.trans hp.stationId.symm
    have hf : l.db.commands.find? (s.resourceId, w₀.sequence) = some w := by
      refine Table.find?_eq_some.2 ⟨hw, ?_⟩
      rw [← hst, Option.some.inj hseq]
    have hid : w.sessionId = s.id := by rw [← hid₀, ← hissued]; rfl
    have hproj : w.projects s = true := by
      rw [← hp.projects, ← hissued]
      rfl
    rw [hf, Option.filter_some, if_pos (decide_eq_true hid)]
    exact hproj

end CommandLog

end GManager

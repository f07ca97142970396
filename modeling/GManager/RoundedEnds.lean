import GManager.Nanoseconds
import GManager.Announcements

/-!
# Sessions whose ends are whole microseconds

A session that is loaded from its row has instants of whole microseconds, and every operation on it computes
its ends from them and from other columns. So the row and the payload agree (`Fits`), whatever the clock
reads. Only the start of a session takes its end from the clock itself: it agrees exactly when the reading
is a whole microsecond, or the session is bounded by a column.
-/

namespace GManager.Nanos

open Txn

/-! ### Storing and loading -/

theorem dvd_plusSeconds {t n : ℤ} : 1000 ∣ plusSeconds t n ↔ 1000 ∣ t := by
  unfold plusSeconds
  omega

theorem stored_loaded (r : GamingSession) : stored (loaded r) = r := by
  cases r with
  | mk =>
    simp only [stored, loaded, mapInstants, timestamp6_fromColumn, Option.map_map]
    congr 1
    exact (congrArg (fun f => Option.map f _) (funext timestamp6_fromColumn)).trans Option.map_id'

/-- The instants that a command repeats, and the one that they are computed from, are whole microseconds. -/
structure Whole (s : GamingSession) : Prop where
  endsAt : 1000 ∣ s.endsAt
  endedAt : ∀ e ∈ s.endedAt, (1000 : ℤ) ∣ e
  lastBilledAt : 1000 ∣ s.lastBilledAt

theorem whole_loaded (r : GamingSession) : Whole (loaded r) := by
  refine ⟨dvd_fromColumn _, fun e he => ?_, dvd_fromColumn _⟩
  obtain ⟨t, -, rfl⟩ := Option.map_eq_some_iff.1 (Option.mem_def.1 he)
  exact dvd_fromColumn t

theorem loaded_stored_endedAt {s : GamingSession} (he : ∀ e ∈ s.endedAt, (1000 : ℤ) ∣ e) :
    (loaded (stored s)).endedAt = s.endedAt := by
  show (s.endedAt.map timestamp6).map fromColumn = s.endedAt
  cases hs : s.endedAt with
  | none => rfl
  | some e => exact congrArg some (fromColumn_timestamp6.2 (he e hs))

/-- The entity that is loaded again says the same if its ends are whole. -/
theorem projects_loaded_stored {w : StationCommand} {s : GamingSession} (hends : 1000 ∣ s.endsAt)
    (hended : ∀ e ∈ s.endedAt, (1000 : ℤ) ∣ e) : w.projects (loaded (stored s)) = w.projects s := by
  have hends' : (loaded (stored s)).endsAt = s.endsAt := fromColumn_timestamp6.2 hends
  unfold StationCommand.projects
  rw [hends', loaded_stored_endedAt hended]
  rfl

/-! ### Rows that agree with their commands -/

namespace Store

/-- The newest command of the session is there and says what its row is read as. -/
def Projects (db : Store) (r : GamingSession) : Prop :=
  ∃ w ∈ db.commands, w.stationId = r.resourceId ∧ r.lastCommandSequence = some w.sequence ∧
    w.sessionId = r.id ∧ w.projects (loaded r) = true

theorem matches_iff {db : Store} {r : GamingSession} : db.matchesCurrentProjection (loaded r) = true ↔
    db.Projects r := by
  have hseq : (loaded r).lastCommandSequence = r.lastCommandSequence := rfl
  unfold matchesCurrentProjection Projects
  rw [hseq]
  cases hl : r.lastCommandSequence with
  | none => simp
  | some sequence =>
    simp only [Option.any_eq_true, Option.filter_eq_some_iff, Table.find?_eq_some,
      decide_eq_true_eq, Prod.mk.injEq]
    constructor
    · rintro ⟨w, ⟨⟨hw, hst, hs⟩, hid⟩, hp⟩
      exact ⟨w, hw, hst, congrArg some hs.symm, hid, hp⟩
    · rintro ⟨w, hw, hst, hs, hid, hp⟩
      exact ⟨w, ⟨⟨hw, hst, (Option.some.inj hs).symm⟩, hid⟩, hp⟩

end Store

/-- Every row agrees with its command. -/
structure Fits (db : Store) : Prop where
  projects : ∀ r ∈ db.sessions, db.Projects r
  unmoved : ∀ r ∈ db.sessions, r.moveTargetId = none

/-- An entity in memory of which the row is the store's, with whole instants. -/
structure Tracks (db : Store) (s : GamingSession) : Prop where
  mem : stored s ∈ db.sessions
  whole : Whole s

def Store.put (db : Store) (s : GamingSession) : Store := { db with sessions := db.sessions.save (stored s) }

theorem Store.put_self {db : Store} {s : GamingSession} (hs : stored s ∈ db.sessions) : db.put s = db := by
  unfold put
  rw [Table.save_self hs]

theorem Store.mem_put {db : Store} {s r x : GamingSession} (hs : stored s ∈ db.sessions) (hid : r.id = s.id) :
    x ∈ (db.put r).sessions ↔ x = stored r ∨ x ∈ db.sessions ∧ x.id ≠ s.id :=
  Table.mem_save_of_mem (r := stored s) hs hid

theorem tracks_loaded {db : Store} {r : GamingSession} (hr : r ∈ db.sessions) : Tracks db (loaded r) :=
  ⟨by rwa [stored_loaded], whole_loaded r⟩

section fits

variable {c : Environment} {db db' : Store} {s : GamingSession}

theorem Fits.congr (h : Fits db) (hs : db'.sessions = db.sessions)
    (hc : db'.commands = db.commands) : Fits db' := by
  refine ⟨fun r hr => ?_, fun r hr => ?_⟩
  · rw [hs] at hr
    rw [Store.Projects, hc]
    exact h.projects r hr
  · rw [hs] at hr
    exact h.unmoved r hr

/-- A session is rewritten without changing what its command said. -/
theorem Fits.put (h : Fits db) (ht : Tracks db s) {r : GamingSession} (hr : r.SameProjection s)
    (hb : 1000 ∣ r.lastBilledAt) : Fits (db.put r) ∧ Tracks (db.put r) r := by
  have hended : ∀ e ∈ r.endedAt, (1000 : ℤ) ∣ e := by
    rw [hr.endedAt]
    exact ht.whole.endedAt
  have hends : 1000 ∣ r.endsAt := by
    rw [hr.endsAt]
    exact ht.whole.endsAt
  refine ⟨⟨fun x hx => ?_, fun x hx => ?_⟩, (Store.mem_put ht.mem hr.id).2 (.inl rfl), hends, hended, hb⟩
  · rcases (Store.mem_put ht.mem hr.id).1 hx with rfl | ⟨hx, -⟩
    · obtain ⟨w, hw, hst, hseq, hid, hp⟩ := h.projects _ ht.mem
      refine ⟨w, hw, hst.trans hr.resourceId.symm, hr.lastCommandSequence.trans hseq,
        hid.trans hr.id.symm, ?_⟩
      rw [projects_loaded_stored ht.whole.endsAt ht.whole.endedAt] at hp
      rw [projects_loaded_stored hends hended, ← hp]
      unfold StationCommand.projects GamingSession.announcedBy
      rw [hr.status, hr.moveTargetId, hr.endsAt, hr.endedAt]
    · exact h.projects x hx
  · rcases (Store.mem_put ht.mem hr.id).1 hx with rfl | ⟨hx, -⟩
    · exact hr.moveTargetId.trans (h.unmoved (stored s) ht.mem)
    · exact h.unmoved x hx

/-- A command is issued for an entity, whose row then agrees with it exactly when the end is whole. -/
theorem wp_writeCommand {type : StationCommandType} (hended : ∀ e ∈ s.endedAt, (1000 : ℤ) ∣ e)
    (htype : s.announcedBy type = true) {Q : ℕ → Store → Prop}
    (hQ : ∀ sequence db', db'.sessions = db.sessions → (∀ r, db.Projects r → db'.Projects r) →
      (db'.Projects (stored (s.announced sequence)) ↔ 1000 ∣ s.endsAt) → Q sequence db') :
    wp (writeCommand s type) Q c db := by
  simp only [writeCommand, instant, wp_bind, wp_ask, wp_get, wp_modify, wp_orThrow, wp_pure]
  intro commands hi
  have hmem := fun w => Table.mem_insert (x := w) hi
  have hann : ∀ n, (loaded (stored (s.announced n))).announcedBy type = true := fun _ => htype
  refine hQ _ _ rfl (fun r hr => ?_) ⟨fun hp => ?_, fun hends => ?_⟩
  · obtain ⟨w, hw, hp⟩ := hr
    exact ⟨w, (hmem w).2 (.inl hw), hp⟩
  · obtain ⟨w, hw, hst, hseq, -, hp⟩ := hp
    rcases (hmem w).1 hw with hold | rfl
    · exact absurd (Prod.ext hst (Option.some.inj hseq).symm) ((Table.insert_eq_some.1 hi).1 w hold)
    · simp only [StationCommand.projects, hann] at hp
      have hends : s.endsAt = fromColumn (timestamp6 s.endsAt) := (of_decide_eq_true hp).2.1
      exact fromColumn_timestamp6.1 hends.symm
  · refine ⟨_, (hmem _).2 (.inr rfl), rfl, rfl, rfl, ?_⟩
    rw [projects_loaded_stored (s := s.announced _) hends hended]
    simp only [StationCommand.projects, show ∀ n, (s.announced n).announcedBy type = true from fun _ => htype]
    simp [GamingSession.announced]

/-- An entity is rewritten with whole ends, announced, and its pointer noted. -/
theorem fits_announce (h : Fits db) (ht : Tracks db s) {r : GamingSession} {type : StationCommandType}
    (hid : r.id = s.id) (hmove : r.moveTargetId = s.moveTargetId) (hw : Whole r)
    (htype : r.announcedBy type = true) :
    wp (writeCommand r type) (fun sequence db' => Fits (db'.put (r.announced sequence)) ∧
      Tracks (db'.put (r.announced sequence)) (r.announced sequence)) c (db.put r) := by
  refine wp_writeCommand hw.endedAt htype fun sequence db' hsess hkeep hnew => ?_
  have hput : ∀ x, x ∈ (db'.put (r.announced sequence)).sessions ↔
      x = stored (r.announced sequence) ∨ x ∈ db.sessions ∧ x.id ≠ s.id := by
    intro x
    rw [← Store.mem_put (r := r.announced sequence) ht.mem hid]
    have hsaved : (db.sessions.save (stored r)).save (stored (r.announced sequence)) =
        db.sessions.save (stored (r.announced sequence)) := Table.save_save rfl
    rw [Store.put, Store.put, hsess, ← hsaved]
    rfl
  have hmove' : s.moveTargetId = none := h.unmoved (stored s) ht.mem
  refine ⟨⟨fun x hx => ?_, fun x hx => ?_⟩, (hput _).2 (.inl rfl), hw.endsAt, hw.endedAt, hw.lastBilledAt⟩
  · rcases (hput x).1 hx with rfl | ⟨hx, -⟩
    · exact hnew.2 hw.endsAt
    · exact hkeep x (h.projects x hx)
  · rcases (hput x).1 hx with rfl | ⟨hx, -⟩
    · exact hmove.trans hmove'
    · exact h.unmoved x hx

/-! ### The operations -/

/-- What a step on an entity in memory leaves. -/
abbrev Left (s : GamingSession) (db : Store) : Prop := Fits db ∧ Tracks db s

theorem fits_append {customer : UUID} {session operation : Option UUID} {actor : UUID} {delta : ℤ}
    {kind : LedgerKind} {reason : Option String} {source : SourceKey} {Q : Unit → Store → Prop}
    (hQ : ∀ db', db'.sessions = db.sessions → db'.commands = db.commands → Q () db') :
    wp (append customer session operation actor delta kind reason source) Q c db := by
  simp only [append, instant, wp_bind, wp_ask, wp_get, wp_ite, wp_modify, wp_orThrow, wp_pure,
    wp_lift, wp_require]
  exact ⟨fun _ => hQ _ rfl rfl, fun _ _ _ _ _ _ => hQ _ rfl rfl⟩

theorem left_close {status : GamingSessionStatus} {reason : String} (h : Left s db) (hne : status ≠ .active) :
    wp (close s status reason) Left c db := by
  simp only [close, saveSession, wp_bind, wp_modify, wp_pure]
  refine fits_announce
    (r := { s with status, endedAt := some s.lastBilledAt, terminationReason := some reason })
    h.1 h.2 rfl rfl ⟨h.2.whole.endsAt, fun e he => ?_, h.2.whole.lastBilledAt⟩
    (by simp [GamingSession.announcedBy, hne])
  rw [← Option.mem_some_iff.1 he]
  exact h.2.whole.lastBilledAt

theorem left_charge {delta : ℤ} (h : Left s db) : wp (charge s delta) Left c db := by
  simp only [charge, wp_bind, wp_ite, wp_lift, wp_pure, saveSession, wp_modify]
  refine ⟨fun _ total _ => fits_append fun db' hsess hcomm => ?_, fun _ => h⟩
  refine Fits.put (s := s) (h.1.congr hsess hcomm) ⟨?_, h.2.whole⟩ ⟨rfl, rfl, rfl, rfl, rfl, rfl, rfl⟩
    (dvd_plusSeconds.2 h.2.whole.lastBilledAt)
  rw [hsess]
  exact h.2.mem

theorem left_settle {now : ℤ} (h : Left s db) : wp (settle s now) Left c db := by
  simp only [settle, wp_ite, wp_pure, wp_bind, wp_get]
  refine ⟨fun _ => h, fun _ => wp_mono (left_charge h) fun s₁ db₁ h₁ => ?_⟩
  exact ⟨fun _ => ⟨fun _ => left_close h₁ (by decide), fun _ => left_close h₁ (by decide)⟩, fun _ => h₁⟩

theorem Left.read (h : Left s db) : Left s { db with reads := db.reads + 1 } :=
  ⟨h.1.congr rfl rfl, h.2.mem, h.2.whole⟩

theorem left_finishOrRenew {renew finish : Bool} (h : Left s db) :
    wp (finishOrRenew s renew finish) Left c db := by
  simp only [finishOrRenew, instant, wp_bind, wp_ask, wp_get, wp_ite, wp_pure, saveSession, wp_modify]
  refine ⟨fun _ => left_close h (by decide), fun _ => ⟨fun _ => ?_, fun _ => h⟩⟩
  exact Fits.put (s := s) h.read.1 h.read.2 ⟨rfl, rfl, rfl, rfl, rfl, rfl, rfl⟩ h.2.whole.lastBilledAt

theorem left_tick {id : UUID} {renew finish : Bool} (h : Fits db) :
    wp (tick id renew finish) (fun s db' => Fits db' ∧ ∀ x ∈ s, Tracks db' x) c db := by
  simp only [tick, wp_bind, wp_ask, wp_get]
  split
  · exact wp_pure.2 ⟨h, fun _ hx => absurd hx (Option.not_mem_none _)⟩
  · rename_i r hf
    have ht := tracks_loaded (Table.find?_eq_some.1 hf).1
    have hloaded : ∀ x ∈ some (loaded r), Tracks db x := fun x hx => Option.mem_some_iff.1 hx ▸ ht
    simp only [instant, wp_bind, wp_ite, wp_pure, wp_lift, wp_ask, wp_get, wp_modify]
    refine ⟨fun _ _ _ => ⟨fun _ => ?_, fun _ => ⟨h, hloaded⟩⟩, fun _ => ⟨h, hloaded⟩⟩
    refine wp_mono (left_settle (Left.read ⟨h, ht⟩)) fun s₁ db₁ h₁ => ?_
    refine wp_mono (left_finishOrRenew h₁) fun s₂ db₂ h₂ => ⟨h₂.1, fun x hx => ?_⟩
    rw [← Option.mem_some_iff.1 hx]
    exact h₂.2

theorem fits_recover {id : UUID} (h : Fits db) : wp (recover id) (fun _ => Fits) c db := by
  simp only [recover, wp_bind]
  refine wp_mono (left_tick h) fun s db₁ h₁ => ?_
  cases s with
  | none => exact wp_pure.2 h₁.1
  | some s =>
    simp only [wp_ite, wp_bind, wp_pure]
    exact ⟨fun _ => wp_mono (left_close ⟨h₁.1, h₁.2 s rfl⟩ (by decide)) fun _ _ h₂ => h₂.1, fun _ => h₁.1⟩

theorem fits_refreshEnd (h : Left s db) (ha : s.status = .active) :
    wp (refreshEnd s) (fun _ => Fits) c db := by
  simp only [refreshEnd, instant, boundary, saveSession, wp_bind, wp_ask, wp_get, wp_ite,
    wp_modify, wp_lift, wp_pure]
  refine ⟨fun _ => wp_mono (left_close h (by decide)) fun _ _ h₁ => h₁.1, fun _ limit _ => ?_⟩
  have hmove : s.moveTargetId = none := h.1.unmoved (stored s) h.2.mem
  have hend : 1000 ∣ min (plusSeconds s.lastBilledAt (db.balance s.customerId)) (fromColumn limit) := by
    rcases min_choice (plusSeconds s.lastBilledAt (db.balance s.customerId)) (fromColumn limit) with he | he
    · rw [he]
      exact dvd_plusSeconds.2 h.2.whole.lastBilledAt
    · rw [he]
      exact dvd_fromColumn limit
  refine wp_mono (fits_announce (s := s) h.read.1 h.read.2 (r := { s with
      endsAt := min (plusSeconds s.lastBilledAt (db.balance s.customerId)) (fromColumn limit)
      accessUntil := fromColumn limit
      meteredLeaseUntil := min s.meteredLeaseUntil
        (min (plusSeconds s.lastBilledAt (db.balance s.customerId)) (fromColumn limit)) })
    rfl rfl ⟨hend, h.2.whole.endedAt, h.2.whole.lastBilledAt⟩ ?_) fun _ _ h₁ => h₁.1
  simp [GamingSession.announcedBy, ha, hmove]

theorem fits_grant {customerId actorId operationId : UUID} {seconds : ℤ} {key : String} (h : Fits db) :
    wp (grant customerId actorId operationId seconds key) (fun _ => Fits) c db := by
  simp only [grant, lockActive, instant, wp_bind, wp_ask, wp_get, wp_ite, wp_lift, wp_pure]
  refine fun _ _ => ⟨fun _ => h, fun _ => ?_⟩
  split
  · simp only [wp_pure, wp_bind, wp_ask, wp_get, wp_modify]
    exact fits_append fun _ hsess hcomm => h.congr hsess hcomm
  · rename_i r hf
    have hr : r ∈ db.sessions := List.mem_of_find?_eq_some hf
    simp only [wp_bind, wp_lift, wp_pure, wp_ask, wp_get, wp_modify]
    refine fun _ _ => wp_mono (left_settle (Left.read ⟨h, tracks_loaded hr⟩)) fun s₁ db₁ h₁ => ?_
    refine fits_append fun db₂ hsess hcomm => ?_
    have h₂ : Left s₁ db₂ := by
      refine ⟨h₁.1.congr hsess hcomm, ?_, h₁.2.whole⟩
      rw [hsess]
      exact h₁.2.mem
    simp only [wp_ite, wp_bind, wp_pure]
    exact ⟨fun ha => fits_refreshEnd h₂ ha, fun _ => h₂.1⟩

theorem fits_forceLock {stationId : UUID} (h : Fits db) : wp (forceLock stationId) (fun _ => Fits) c db := by
  simp only [forceLock, saveSession, wp_bind, wp_get, wp_orThrow, wp_modify]
  intro r hr
  obtain ⟨hr, hne⟩ := Option.filter_eq_some_iff.1 hr
  have hmem : r ∈ db.sessions := List.mem_of_find?_eq_some hr
  have ht := tracks_loaded hmem
  have hne' : (loaded r).status ≠ .active := of_decide_eq_true hne
  have hby : (loaded r).announcedBy .forceLock = true := by simp [GamingSession.announcedBy, hne']
  have hann := fits_announce (c := c) h ht (r := loaded r) rfl rfl (whole_loaded r) hby
  rw [Store.put_self ht.mem] at hann
  exact wp_mono hann fun _ _ h₁ => h₁.1

/-- Where the end of a session that starts now lies: in whole microseconds, or at its boundary. -/
def EndsWhole (now seconds limit : ℤ) : Prop := 1000 ∣ now ∨ fromColumn limit ≤ plusSeconds now seconds

theorem endsWhole_iff {now seconds limit : ℤ} :
    EndsWhole now seconds limit ↔ 1000 ∣ min (plusSeconds now seconds) (fromColumn limit) := by
  unfold EndsWhole
  rcases le_or_gt (fromColumn limit) (plusSeconds now seconds) with hle | hlt
  · rw [min_eq_right hle]
    exact ⟨fun _ => dvd_fromColumn limit, fun _ => .inr hle⟩
  · rw [min_eq_left hlt.le, dvd_plusSeconds]
    exact ⟨fun h => h.resolve_right (not_le.2 hlt), .inl⟩

/-- A started session agrees with its command exactly when its end is whole. -/
theorem wp_start {customerId stationId : UUID} {now : ℤ} {Q : GamingSession → Store → Prop}
    (hQ : ∀ a limit s db', c.assignment customerId stationId now = some a →
      c.boundary stationId c.location customerId a.reservationId now = .ok limit →
      (∀ x, x ∈ db'.sessions ↔ x ∈ db.sessions ∨ x = stored s) → s.moveTargetId = none →
      (∀ r, db.Projects r → db'.Projects r) →
      (db'.Projects (stored s) ↔ EndsWhole now (db.balance customerId) limit) → Q s db') :
    wp (start customerId stationId now) Q c db := by
  simp only [start, boundary, saveSession, wp_bind, wp_ask, wp_get, wp_orThrow, wp_require, wp_lift,
    wp_modify, wp_pure]
  intro a ha _ _ limit hl sessions hi
  refine wp_writeCommand (fun _ he => absurd he (Option.not_mem_none _)) (by simp [GamingSession.announcedBy])
    fun sequence db₁ hsess hkeep hnew => ?_
  refine hQ a limit _ _ ha hl (fun x => ?_) rfl hkeep ?_
  · have hput : ∀ r, x ∈ (db₁.put r).sessions ↔ x ∈ sessions.save (stored r) := fun r => by
      rw [Store.put, hsess]
    exact (hput _).trans (Table.mem_insert_save hi rfl)
  · rw [endsWhole_iff]
    exact hnew

theorem fits_activate {customerId stationId : UUID} (h : Fits db)
    (hw : db.activeByCustomer customerId = none →
      ∀ a limit, c.assignment customerId stationId (c.clock db.reads) = some a →
      c.boundary stationId c.location customerId a.reservationId (c.clock db.reads) = .ok limit →
      EndsWhole (c.clock db.reads) (db.balance customerId) limit) :
    wp (activate customerId stationId) (fun _ => Fits) c db := by
  simp only [activate, instant, wp_bind, wp_ask, wp_get, wp_lift, wp_modify, wp_pure]
  intro _ _
  split
  · rename_i r hf
    have hr : r ∈ db.sessions := List.mem_of_find?_eq_some hf
    simp only [wp_bind, wp_require, wp_pure]
    exact fun _ => wp_mono (left_settle (Left.read ⟨h, tracks_loaded hr⟩)) fun _ _ h₁ _ => h₁.1
  · rename_i hf
    refine wp_start fun a limit s db' ha hl hmem hmove hkeep hnew => ⟨fun x hx => ?_, fun x hx => ?_⟩
    · rcases (hmem x).1 hx with hx | rfl
      · exact hkeep x (h.projects x hx)
      · exact hnew.2 (hw hf a limit ha hl)
    · rcases (hmem x).1 hx with hx | rfl
      · exact h.unmoved x hx
      · exact hmove

/-- A session that agrees with its command is not repaired. -/
theorem wp_repair_silent {id : UUID} (h : Fits db) :
    wp (repair id) (fun _ db' => db'.commands = db.commands) c db := by
  simp only [repair, wp_bind, wp_get]
  split
  · exact wp_pure.2 rfl
  · rename_i r hf
    have hm := Store.matches_iff.2 (h.projects r (Table.find?_eq_some.1 hf).1)
    have houtside : ∀ db, wp (outsideRetention (loaded r))
        (fun _ db' => db'.commands = db.commands) c db := by
      intro db
      simp only [outsideRetention, wp_bind, wp_ask]
      split
      · exact wp_pure.2 rfl
      · simp only [instant, wp_ite, wp_pure, wp_bind, wp_ask, wp_get, wp_modify]
        exact ⟨fun _ => trivial, fun _ => trivial⟩
    simp only [wp_bind]
    refine wp_mono (houtside db) fun outside db₁ h₁ => ?_
    rw [if_pos (.inr hm)]
    exact wp_pure.2 h₁

end fits

/-! ### Runs -/

/-- If the request starts a session, its end is whole: the clock reads a whole microsecond, or the boundary
comes before the balance is used up. -/
def NanoRequest.endsWhole (r : NanoRequest) (db : Store) : Prop :=
  ∀ customerId stationId a limit, r.op = .activate customerId stationId →
    db.activeByCustomer customerId = none →
    r.environment.assignment customerId stationId (r.environment.clock 0) = some a → r.environment.boundary
      stationId r.environment.location customerId a.reservationId (r.environment.clock 0) = .ok limit →
    EndsWhole (r.environment.clock 0) (db.balance customerId) limit

/-- What runs can reach in which every session started with a whole end. -/
inductive WholeRun : Store → Prop
  | empty : WholeRun .empty
  | step {db : Store} (h : WholeRun db) (r : NanoRequest) (hr : r.endsWhole db) : WholeRun (step db r)

theorem fits_step {db : Store} {r : NanoRequest} (h : Fits db) (hr : r.endsWhole db) : Fits (step db r) := by
  obtain ⟨c, op⟩ := r
  have h₀ : Fits db.rewind := h.congr rfl rfl
  refine commit_of_wp (P := Fits) h₀ ?_
  cases op with
  | activate customerId stationId =>
    exact wp_discard (fits_activate h₀ fun hf a limit ha hl => hr customerId stationId a limit rfl hf ha hl)
  | tick id renew finish => exact wp_discard (wp_mono (left_tick h₀) fun _ _ h₁ => h₁.1)
  | grant customerId actorId operationId seconds key => exact fits_grant h₀
  | finishByOperator id => exact wp_discard (wp_mono (left_tick h₀) fun _ _ h₁ => h₁.1)
  | recover id => exact fits_recover h₀
  | forceLock stationId => exact fits_forceLock h₀

theorem WholeRun.fits {db : Store} (h : WholeRun db) : Fits db := by
  induction h with
  | empty => exact ⟨fun _ hr => absurd hr Table.not_mem_empty, fun _ hr => absurd hr Table.not_mem_empty⟩
  | step _ r hr ih => exact fits_step ih hr

/-- Reconciliation is silent where every session started with a whole end: each reloaded session matches
its projection, and a repair writes no command. And a start that commits leaves a session that matches
exactly when its end is whole. -/
theorem reconciliation_silent {db : Store} (h : WholeRun db) :
    (∀ r ∈ db.sessions, db.matchesCurrentProjection (loaded r) = true) ∧
    (∀ c id, ((repair id).commit c db.rewind).commands = db.commands) ∧
    ∀ (c : Environment) (db db' : Store) (customerId stationId : UUID) (now : ℤ) (s : GamingSession),
      (start customerId stationId now).run c db = .ok (s, db') →
      ∃ a limit, c.assignment customerId stationId now = some a ∧
        c.boundary stationId c.location customerId a.reservationId now = .ok limit ∧
        (db'.matchesCurrentProjection (loaded (stored s)) = true ↔
          EndsWhole now (db.balance customerId) limit) := by
  have hf := h.fits
  refine ⟨fun r hr => Store.matches_iff.2 (hf.projects r hr), fun c id => ?_,
    fun c db db' customerId stationId now s hrun => ?_⟩
  · have hrewind : Fits db.rewind := hf.congr rfl rfl
    exact commit_of_wp (P := fun db' : Store => db'.commands = db.commands) rfl (wp_repair_silent hrewind)
  · refine wp_start (c := c) (Q := fun s db' => ∃ a limit, c.assignment customerId stationId now = some a ∧
      c.boundary stationId c.location customerId a.reservationId now = .ok limit ∧
      (db'.matchesCurrentProjection (loaded (stored s)) = true ↔
        EndsWhole now (db.balance customerId) limit)) ?_ s db' hrun
    exact fun a limit s db' ha hl _ _ _ hnew => ⟨a, limit, ha, hl, Store.matches_iff.trans hnew⟩

/-! ### A login between two microseconds -/

namespace Arcade

/-- A call whose clock reads one instant; the customer is expected at the station,
which closes at midnight. -/
def environment (freshId : UUID) (t : ℤ) : Environment where
  freshId
  clock := fun _ => t
  settings := ⟨60, 120, 0, 86400, 30, 480, 60⟩
  checks := .ok ()
  assignment := fun customer station _ => some ⟨101, customer, station, none, 1, .waitingForLogin, 11000000,
    131000000, 86399999999, none⟩
  location := 20
  boundary := fun _ _ _ _ _ => .ok 86399999999

/-- Thirty minutes are sold. -/
def paid : Store := step .empty ⟨environment 100 10000000000, .grant 2 1 100 1800 "first"⟩

def login (t : ℤ) : Store := step paid ⟨environment 102 t, .activate 2 40⟩

/-- The session of a login at a broken microsecond does not match its own command, and is announced twice. -/
theorem announced_twice : (∃ r ∈ (login 12000000345).sessions.rows, r.status = .active ∧
      (login 12000000345).matchesCurrentProjection (loaded r) = false) ∧
    (login 12000000345).commands.rows.map (fun w => (w.sequence, w.commandType)) = [(1, .sessionStarted)] ∧
    ((repair 102).commit (environment 103 13000000000) (login 12000000345)).commands.rows.map
      (fun w => (w.sequence, w.commandType)) = [(1, .sessionStarted), (2, .sessionExtended)] := by
  decide +kernel

theorem wholeRun_login : WholeRun (login 12000000000) := by
  refine (WholeRun.empty.step _ fun _ _ _ _ hop => ?_).step _ fun _ _ _ _ _ _ _ _ => .inl ⟨12000000, rfl⟩
  cases hop

theorem reconciliation_silent_login : (∃ r ∈ (login 12000000000).sessions.rows, r.status = .active) ∧
    (∀ r ∈ (login 12000000000).sessions, (login 12000000000).matchesCurrentProjection (loaded r) = true) ∧
    ∀ c id, ((repair id).commit c (login 12000000000).rewind).commands = (login 12000000000).commands :=
  ⟨by decide +kernel, (reconciliation_silent wholeRun_login).1, (reconciliation_silent wholeRun_login).2.1⟩

end Arcade

end GManager.Nanos

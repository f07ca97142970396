import GManager.Effects

/-!
# Settlement as effects

What `append`, `close`, `charge`, `settle` and `refreshEnd` do, in terms of `Effect`. The descriptions say
all that the callers need, so no later proof unfolds these functions.
-/

namespace GManager

open Txn

variable {c : Call} {db : Db}

/-! ### Posting and closing -/

theorem Db.post_of_hasEntry {e : LedgerEntry} (h : db.hasEntry e.sourceKey = true) : db.post e = db := by
  unfold post
  cases hi : db.ledger.insert e with
  | none => rfl
  | some t =>
    obtain ⟨x, hx⟩ := Option.isSome_iff_exists.1 h
    obtain ⟨hx, hk⟩ := Table.find?_eq_some.1 hx
    exact absurd hk ((Table.insert_eq_some.1 hi).1 x hx)

theorem Db.post_of_insert {e : LedgerEntry} {t : Table LedgerEntry.sourceKey}
    (h : db.ledger.insert e = some t) :
    db.post e = { db with accounts := db.accounts.upsert ⟨e.customerId, e.balanceAfter⟩, ledger := t } := by
  rw [post, h]

/-- A fresh entry is inserted. -/
theorem Db.post_of_fresh {e : LedgerEntry} (h : db.hasEntry e.sourceKey = false) :
    ∃ t, db.ledger.insert e = some t ∧
      db.post e = { db with accounts := db.accounts.upsert ⟨e.customerId, e.balanceAfter⟩, ledger := t } := by
  cases hi : db.ledger.insert e with
  | some t => exact ⟨t, rfl, Db.post_of_insert hi⟩
  | none =>
    unfold Table.insert at hi
    split at hi
    · rename_i hk
      obtain ⟨x, hx, hk⟩ := List.mem_map.1 hk
      exact absurd hk (Db.hasEntry_eq_false.1 h x hx)
    · cases hi

namespace Db

variable {e : LedgerEntry}

theorem entry_balanceAfter {customer actor : UUID} {session operation : Option UUID} {delta : ℤ}
    {kind : LedgerKind} {reason : Option String} {source : SourceKey} {createdAt : Instant} :
    (db.entry customer session operation actor delta kind reason source createdAt).balanceAfter =
      db.balance customer + delta := rfl

@[simp] theorem post_clock : (db.post e).clock = db.clock := by unfold post; split <;> rfl
@[simp] theorem post_sessions : (db.post e).sessions = db.sessions := by unfold post; split <;> rfl
@[simp] theorem post_reservations : (db.post e).reservations = db.reservations := by
  unfold post; split <;> rfl
@[simp] theorem post_operations : (db.post e).operations = db.operations := by unfold post; split <;> rfl
@[simp] theorem post_commands : (db.post e).commands = db.commands := by unfold post; split <;> rfl
@[simp] theorem post_cursors : (db.post e).cursors = db.cursors := by unfold post; split <;> rfl
@[simp] theorem post_signed : (db.post e).signed = db.signed := by unfold post; split <;> rfl

theorem post_putSession_sessions {s : GamingSession} :
    ((db.post e).putSession s).sessions = db.sessions.save s := by
  rw [putSession, post_sessions]

theorem hasEntry_post {source : SourceKey} (h : source ≠ e.sourceKey) :
    (db.post e).hasEntry source = db.hasEntry source := by
  unfold post
  split
  · rename_i t hi
    have ht : ∀ x, x ∈ t ↔ x ∈ db.ledger ∨ x = e := fun x => Table.mem_insert hi
    cases hb : db.hasEntry source with
    | false =>
      rw [hasEntry_eq_false] at hb ⊢
      intro x hx
      rcases (ht x).1 hx with hx | rfl
      · exact hb x hx
      · exact Ne.symm h
    | true =>
      obtain ⟨x, hx⟩ := Option.isSome_iff_exists.1 hb
      obtain ⟨hx, hk⟩ := Table.find?_eq_some.1 hx
      exact Option.isSome_iff_exists.2 ⟨x, Table.find?_eq_some.2 ⟨(ht x).2 (.inl hx), hk⟩⟩
  · rfl

end Db

theorem wp_append {customer : UUID} {session operation : Option UUID} {actor : UUID} {delta : ℤ}
    {kind : LedgerKind} {reason : Option String} {source : SourceKey} {Q : Unit → Db → Prop}
    (hQ : ∀ createdAt db',
      (db.hasEntry source = false → 0 ≤ db.balance customer + delta ∧ db.balance customer + delta < 2 ^ 63) →
      Quiet (db.post (db.entry customer session operation actor delta kind reason source createdAt)) db' →
      Q () db') :
    wp (append customer session operation actor delta kind reason source) Q c db := by
  simp only [append, wp_bind, wp_get, wp_ite, wp_pure, wp_lift, wp_require, wp_modify,
    wp_instant, wp_insertRow]
  refine ⟨fun hh => ?_, fun hh after ha h0 t ht => ?_⟩
  · refine hQ db.clock.now db (fun hf => absurd hh (by simp [hf])) ?_
    rw [Db.post_of_hasEntry (e := db.entry customer session operation actor delta kind reason source _) hh]
    exact .refl db
  · obtain ⟨rfl, hlt⟩ := addExact_eq_ok ha
    refine hQ db.clock.next.now _ (fun _ => ⟨h0, hlt⟩) ?_
    rw [Db.post_of_insert (e := db.entry customer session operation actor delta kind reason source _) ht]
    exact ⟨db.clock.le_next, rfl, rfl, rfl, rfl, rfl⟩

theorem Quiet.put {db₁ : Db} (q : Quiet db db₁) (s : GamingSession) :
    Quiet (db.putSession s) (db₁.putSession s) :=
  ⟨q.clock, q.accounts, q.ledger, congrArg (·.save s) q.sessions, q.reservations, q.signed⟩

/-- Of two writes to one session the second remains. -/
theorem Quiet.putSession {db₁ : Db} {s s' : GamingSession} (hid : s.id = s'.id)
    (q : Quiet (db.putSession s) db₁) : Quiet (db.putSession s') (db₁.putSession s') := by
  refine ⟨q.clock, q.accounts, q.ledger, ?_, q.reservations, q.signed⟩
  show db₁.sessions.save s' = db.sessions.save s'
  rw [q.sessions]
  exact Table.save_save hid

/-- A session is written, a command about it is issued, and its number is noted. -/
theorem wp_announce {s : GamingSession} {type : StationCommandType} {Q : ℕ → Db → Prop}
    (hQ : ∀ sequence db', Quiet (db.putSession (s.announced sequence)) db' → Q sequence db') :
    wp (do
      saveSession s
      let sequence ← writeCommand s type
      saveSession (s.announced sequence)
      return sequence) Q c db := by
  simp only [wp_bind, saveSession, wp_modify, wp_pure]
  refine wp_mono (QuietTx.writeCommand s type c _) fun sequence db' q => hQ sequence _ ?_
  exact Quiet.putSession (s := s) rfl q

theorem wp_close {s : GamingSession} {status : GamingSessionStatus} {reason : String}
    {Q : GamingSession → Db → Prop}
    (hQ : ∀ sequence db', Quiet (db.putSession (s.closed status reason sequence)) db' →
      Q (s.closed status reason sequence) db') :
    wp (close s status reason) Q c db := by
  have h :=
    @wp_announce c db { s with status, endedAt := some s.lastBilledAt, terminationReason := some reason }
    .sessionTerminated (fun sequence db' => Q (s.closed status reason sequence) db') hQ
  simp only [wp_bind, wp_pure] at h
  simp only [close, wp_bind, wp_ask, wp_orThrow, wp_pure]
  exact wp_mono h fun _ _ h₁ => wp_mono h₁ fun _ _ h₂ => wp_mono h₂ fun _ _ h₃ _ _ => h₃

/-! ### Settlement -/

theorem wp_charge {s : GamingSession} {delta : ℤ} {Q : GamingSession → Db → Prop} (hno : ¬ 0 < delta → Q s db)
    (hQ : ∀ createdAt db', 0 < delta → s.billedSeconds + delta < 2 ^ 63 →
      (db.hasEntry (.use s.id (s.billedSeconds + delta)) = false →
        delta ≤ db.balance s.customerId) →
      Quiet ((db.post (db.entry s.customerId (some s.id) none s.startedBy (-delta) .consumption none
        (.use s.id (s.billedSeconds + delta)) createdAt)).putSession (s.charge delta)) db' →
      Q (s.charge delta) db') :
    wp (charge s delta) Q c db := by
  simp only [charge, wp_bind, wp_ite, wp_lift, wp_pure, saveSession, wp_modify]
  refine ⟨fun h0 total ht => ?_, hno⟩
  obtain ⟨rfl, hlt⟩ := addExact_eq_ok ht
  refine wp_append fun createdAt db' hle q => hQ createdAt _ h0 hlt (fun hf => ?_) ?_
  · have := (hle hf).1
    omega
  · exact ⟨q.clock, q.accounts, q.ledger, congrArg (·.save (s.charge delta)) q.sessions,
      q.reservations, q.signed⟩

/-- What a settlement leaves as it was. -/
structure Settled (h : Hours) (l L : ℕ) (s : GamingSession) (db : Db) (s' : GamingSession)
    (db' : Db) : Prop where
  effects : Effects h l L db db'
  mem : s' ∈ db'.sessions
  others : ∀ x, x.id ≠ s.id → (x ∈ db'.sessions ↔ x ∈ db.sessions)
  grants : ∀ actor customer key, db'.hasEntry (.grant actor customer key) = db.hasEntry
    (.grant actor customer key)
  reservations : db'.reservations = db.reservations
  signed : db'.signed = db.signed
  clock : db.clock.now ≤ db'.clock.now
  id : s'.id = s.id
  customerId : s'.customerId = s.customerId
  resourceId : s'.resourceId = s.resourceId
  reservationId : s'.reservationId = s.reservationId
  locationId : s'.locationId = s.locationId
  billingMode : s'.billingMode = s.billingMode
  moveTargetId : s'.moveTargetId = s.moveTargetId
  endsAt : s'.endsAt = s.endsAt
  meteredLeaseUntil : s'.meteredLeaseUntil = s.meteredLeaseUntil
  lastBilledAt : s'.lastBilledAt ≤ max s.lastBilledAt s.meteredLeaseUntil

namespace Settled

variable {h : Hours} {l L : ℕ} {s s₁ s' : GamingSession} {db₁ db' : Db}

theorem refl (hs : s ∈ db.sessions) : Settled h l L s db s db :=
  ⟨.refl, hs, fun _ _ => Iff.rfl, fun _ _ _ => rfl, rfl, rfl, le_rfl, rfl, rfl, rfl, rfl, rfl, rfl, rfl,
    rfl, rfl, le_max_left _ _⟩

/-- A settlement that ends by closing the session. -/
theorem close (hst : Settled h l L s db s₁ db₁) {status : GamingSessionStatus} (hne : status ≠ .active)
    {reason : String} {sequence : ℕ} (q : Quiet (db₁.putSession (s₁.closed status reason sequence)) db') :
    Settled h l L s db (s₁.closed status reason sequence) db' := by
  refine ⟨hst.effects.tail (.closed hst.mem hne q), ?_, fun x hx => ?_, fun a k y => ?_, ?_, ?_, ?_, hst.id,
    hst.customerId, hst.resourceId, hst.reservationId, hst.locationId, hst.billingMode, hst.moveTargetId,
    hst.endsAt, hst.meteredLeaseUntil, hst.lastBilledAt⟩
  · rw [q.sessions]
    exact Table.mem_save_self hst.mem rfl
  · rw [q.sessions, ← hst.others x hx]
    refine Table.mem_save.trans ⟨fun h => h.elim And.left fun h => absurd (h.1 ▸ hst.id) hx,
      fun h => .inl ⟨h, ?_⟩⟩
    exact fun he => hx (he.trans hst.id)
  · rw [q.hasEntry]
    exact hst.grants a k y
  · rw [q.reservations]
    exact hst.reservations
  · rw [q.signed]
    exact hst.signed
  · exact hst.clock.trans q.clock

end Settled

/-- The seconds of a settlement end before the metered lease does. -/
theorem charge_lastBilledAt {s : GamingSession} {now : Instant} {balance : ℤ}
    (h0 : 0 < unsettled s now balance) :
    (s.charge (unsettled s now balance)).lastBilledAt ≤ s.cutoff now := by
  refine le_secondsBetween_iff.1 ?_
  unfold unsettled at h0 ⊢
  omega

theorem wp_settle {h : Hours} {l L : ℕ} {s : GamingSession} (hs : s ∈ db.sessions) :
    wp (settle s db.clock.now) (Settled h l L s db) c db := by
  simp only [settle, wp_ite, wp_pure, wp_bind, wp_get]
  refine ⟨fun _ => .refl hs, fun hm => ?_⟩
  rw [not_or, not_not, not_not] at hm
  refine wp_mono (R := _) (Q := Settled h l L s db) ?_ fun s₁ db₁ h₁ => ?_
  · refine wp_charge (fun _ => .refl hs) fun createdAt db' h0 hlt _ q => ?_
    refine ⟨.single (.charged hs hm.2 hm.1 rfl h0 hlt rfl q), ?_, fun x hx => ?_, fun a k y => ?_, ?_, ?_,
      ?_, rfl, rfl, rfl, rfl, rfl, rfl, rfl, rfl, rfl, ?_⟩
    · rw [q.sessions]
      exact Table.mem_save_self (show s ∈ _ by rw [Db.post_sessions]; exact hs) rfl
    · rw [q.sessions]
      refine Table.mem_save.trans ?_
      rw [Db.post_sessions]
      exact ⟨fun h => h.elim And.left fun h => absurd (h.1 ▸ rfl) hx, fun h => .inl ⟨h, hx⟩⟩
    · rw [q.hasEntry]
      exact Db.hasEntry_post (by simp [Db.entry])
    · rw [q.reservations]
      exact Db.post_reservations
    · rw [q.signed]
      exact Db.post_signed
    · have := q.clock
      rwa [Db.putSession, Db.post_clock] at this
    · refine (charge_lastBilledAt h0).trans (le_trans ?_ (le_max_right _ _))
      exact (min_le_right _ _).trans (min_le_right _ _)
  · refine ⟨fun _ => ⟨fun _ => ?_, fun _ => ?_⟩, fun _ => h₁⟩
    · exact wp_close fun sequence db' q => h₁.close (by decide) q
    · exact wp_close fun sequence db' q => h₁.close (by decide) q

/-! ### The steps around a settlement -/

/-- What follows the settlement of a tick: the session is ended, renewed, or left as it is. -/
structure Followed (h : Hours) (l L : ℕ) (renew finish : Bool) (s : GamingSession) (db : Db)
    (s' : GamingSession) (db' : Db) : Prop where
  effects : Effects h l L db db'
  mem : s' ∈ db'.sessions
  id : s'.id = s.id
  lastBilledAt : s'.lastBilledAt = s.lastBilledAt
  endsAt : s'.endsAt = s.endsAt
  renewed : renew = true → finish = false → s'.status = .active →
    min (db.clock.now.plusSeconds l) s'.endsAt ≤ s'.meteredLeaseUntil
  signed : db'.signed = db.signed
  clock : db.clock.now ≤ db'.clock.now

theorem wp_finishOrRenew {h : Hours} {L : ℕ} {s : GamingSession} {renew finish : Bool}
    (hs : s ∈ db.sessions) : wp (finishOrRenew s renew finish)
      (Followed h c.settings.leaseSeconds L renew finish s db) c db := by
  simp only [finishOrRenew, wp_bind, wp_ask, wp_ite, wp_pure, wp_instant, saveSession, wp_modify]
  refine ⟨fun hf => ?_, fun _ => ⟨fun hr => ?_, fun hr => ?_⟩⟩
  · refine wp_close fun sequence db' q =>
      ⟨.single (.closed hs (by decide) q), ?_, rfl, rfl, rfl, fun _ hf' _ => ?_, q.signed, q.clock⟩
    · rw [q.sessions]
      exact Table.mem_save_self hs rfl
    · exact absurd hf.1 (by simp [hf'])
  · have hmono := Instant.plusSeconds_mono db.clock.le_next c.settings.leaseSeconds
    refine ⟨?_, Table.mem_save_self hs rfl, rfl, rfl, rfl, fun _ _ _ => min_le_min_right _ hmono, rfl,
      db.clock.le_next⟩
    exact (Relation.ReflTransGen.single (.quiet (.next db))).tail
      (@Effect.renewed h c.settings.leaseSeconds L { db with clock := db.clock.next } _ s hs hr.2 (.refl _))
  · exact ⟨.refl, hs, rfl, rfl, rfl, fun hr' _ ha => absurd ⟨hr', ha⟩ hr, rfl, le_rfl⟩

/-- What a tick does to the session that it names, if it is running. -/
structure Ticked (h : Hours) (l L : ℕ) (renew finish : Bool) (id : UUID) (db db' : Db) : Prop where
  effects : Effects h l L db db'
  signed : db'.signed = db.signed
  clock : db.clock.now ≤ db'.clock.now
  session : ∀ s ∈ db'.sessions, s.id = id → ∃ s₀ ∈ db.sessions, s₀.id = id ∧
    (s = s₀ ∨ s₀.status = .active ∧ s.lastBilledAt ≤ max s₀.lastBilledAt s₀.meteredLeaseUntil ∧
      s.endsAt = s₀.endsAt)
  renewed : renew = true → finish = false → ∀ s ∈ db'.sessions, s.id = id → s.billingMode = .timeBalance →
    s.status = .active → min (db.clock.now.plusSeconds l) s.endsAt ≤ s.meteredLeaseUntil

/-- A tick that finds no session to settle. -/
theorem Ticked.refl {h : Hours} {l L : ℕ} {renew finish : Bool} {id : UUID}
    (hno : ∀ s ∈ db.sessions, s.id = id → s.billingMode = .timeBalance → s.status ≠ .active) :
    Ticked h l L renew finish id db db :=
  ⟨.refl, rfl, le_rfl, fun s hs hid => ⟨s, hs, hid, .inl rfl⟩,
    fun _ _ s hs hid hb ha => absurd ha (hno s hs hid hb)⟩

theorem wp_tick {h : Hours} {L : ℕ} {id : UUID} {renew finish : Bool} :
    wp (tick id renew finish) (fun _ => Ticked h c.settings.leaseSeconds L renew finish id db) c db := by
  unfold tick
  simp only [wp_bind, wp_ask, wp_get]
  split
  · rename_i hf
    exact wp_pure.2 (.refl fun s hs hid _ => absurd hid (Table.find?_eq_none.1 hf s hs))
  · rename_i s hf
    obtain ⟨hs, hid⟩ := Table.find?_eq_some.1 hf
    simp only [wp_bind, wp_ite, wp_pure, lockCustomer, wp_ask, wp_require, wp_lift, wp_instant]
    have hown : ∀ x ∈ db.sessions, x.id = id → x = s :=
      fun x hx hxid => Table.eq_of_key hx hs (hxid.trans hid.symm)
    refine ⟨fun _ _ _ _ => ⟨fun ha => ?_, fun ha => .refl fun x hx hxid _ => hown x hx hxid ▸ ha⟩,
      fun hb => .refl fun x hx hxid hb' => absurd (hown x hx hxid ▸ hb') hb⟩
    refine wp_mono (@wp_settle c { db with clock := db.clock.next } h c.settings.leaseSeconds L s hs)
      fun s₁ db₁ h₁ => ?_
    refine wp_mono (wp_finishOrRenew (h := h) (L := L) h₁.mem) fun s₂ db₂ h₂ => ?_
    refine ⟨((Relation.ReflTransGen.single (.quiet (.next db))).trans h₁.effects).trans h₂.effects,
      h₂.signed.trans h₁.signed, db.clock.le_next.trans (h₁.clock.trans h₂.clock),
      fun x hx hxid => ⟨s, hs, hid, .inr ⟨ha, ?_⟩⟩, fun hr hf x hx hxid _ ha' => ?_⟩
    all_goals
      obtain rfl : x = s₂ :=
        Table.eq_of_key hx h₂.mem (hxid.trans (hid.symm.trans (h₁.id.symm.trans h₂.id.symm)))
    · rw [h₂.lastBilledAt, h₂.endsAt]
      exact ⟨h₁.lastBilledAt, h₁.endsAt⟩
    · have hmono := Instant.plusSeconds_mono (db.clock.le_next.trans h₁.clock) c.settings.leaseSeconds
      exact (min_le_min_right _ hmono).trans (h₂.renewed hr hf ha')

end GManager

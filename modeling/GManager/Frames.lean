import GManager.Bystanders
import GManager.Requests

/-!
# What leaves the assignments alone

Only an assignment, its cancellation, its expiry and the start of a session write the table of assignments,
and only the start of a session adds a session. Every other request is within `Held`. With the effects of
the request this says how each session goes on: it keeps its customer and its station, and never becomes
active again.
-/

namespace GManager

open Txn

/-- The assignments are the same, and there are as many sessions. -/
structure Held (db db' : Db) : Prop where
  clock : db.clock.now ≤ db'.clock.now
  assignments : db'.assignments = db.assignments
  sessions : db'.sessions.rows.length = db.sessions.rows.length

instance Held.isPreorder : IsPreorder Db Held where
  refl _ := ⟨le_rfl, rfl, rfl⟩
  trans _ _ _ h h' :=
    ⟨h.clock.trans h'.clock, h'.assignments.trans h.assignments, h'.sessions.trans h.sessions⟩

instance Held.bystander : Bystander Held where
  clock _ _ h := ⟨h, rfl, rfl⟩
  reservations _ _ := ⟨le_rfl, rfl, rfl⟩

abbrev HeldTx {α : Type} (x : Tx α) : Prop := Within Held x

namespace HeldTx

open Within

/-! ### Single writes -/

theorem saveSession (s : GamingSession) : HeldTx (GManager.saveSession s) :=
  .modify fun _ => ⟨le_rfl, rfl, List.length_map _⟩

theorem writeCommand (s : GamingSession) (type : StationCommandType) :
    HeldTx (GManager.writeCommand s type) := by
  refine .bind Bystander.instant fun _ => .bind .ask fun _ => .bind .get fun _ =>
    .bind (.modify fun _ => ⟨le_rfl, rfl, rfl⟩) fun _ => ?_
  exact .bind (Bystander.insertRow fun _ _ => ⟨le_rfl, rfl, rfl⟩) fun _ => .pure _

/-! ### Gaming time -/

theorem append {customer : UUID} {session operation : Option UUID} {actor : UUID} {delta : ℤ}
    {kind : LedgerKind} {reason : Option String} {source : SourceKey} :
    HeldTx (GManager.append customer session operation actor delta kind reason source) := by
  refine .bind .get fun _ => .ite (.pure _) (.bind (.lift _) fun _ => .bind (.require _ _) fun _ => ?_)
  exact .bind (.modify fun _ => ⟨le_rfl, rfl, rfl⟩) fun _ => .bind Bystander.instant fun _ =>
    Bystander.insertRow fun _ _ => ⟨le_rfl, rfl, rfl⟩

theorem close (s : GamingSession) (status : GamingSessionStatus) (reason : String) :
    HeldTx (GManager.close s status reason) := by
  refine .bind (saveSession _) fun _ => .bind (writeCommand _ _) fun _ => .bind (saveSession _) fun _ => ?_
  exact .bind .ask fun _ => .bind (.orThrow _ _) fun _ => .pure _

theorem settle (s : GamingSession) (now : Instant) : HeldTx (GManager.settle s now) := by
  have charge : ∀ delta, HeldTx (GManager.charge s delta) := fun delta =>
    .ite (.bind (.lift _) fun _ => .bind append fun _ => .bind (saveSession _) fun _ => .pure _) (.pure _)
  refine .ite (.pure _) (.bind .get fun _ => .bind (charge _) fun _ => .bind .get fun _ => ?_)
  exact .ite (.ite (close _ _ _) (close _ _ _)) (.pure _)

theorem refreshEnd (s : GamingSession) : HeldTx (GManager.refreshEnd s) := by
  refine .bind .get fun _ =>
    .ite (close _ _ _) (.bind Bystander.instant fun _ => .bind (Bystander.boundary _ _ _ _ _) fun _ => ?_)
  exact .bind (saveSession _) fun _ => .bind (writeCommand _ _) fun _ =>
    .bind (saveSession _) fun _ => .pure _

theorem sell (operation : FinancialOperation) (source : SourceKey) :
    HeldTx (GManager.sell operation source) := by
  have lockActive : HeldTx (GManager.lockActive operation.customerId) := by
    refine .bind .ask fun _ => .bind .get fun _ => ?_
    split
    · exact .pure _
    · exact .bind (.lift _) fun _ => .pure _
  have settleActive : ∀ active, HeldTx (GManager.settleActive active) := by
    intro active
    cases active with
    | none => exact .pure _
    | some s => exact .bind Bystander.instant fun _ => .bind (settle _ _) fun _ => .pure _
  have refreshActive : ∀ active, HeldTx (GManager.refreshActive active) := by
    intro active
    cases active with
    | none => exact .pure _
    | some s => exact .ite (.bind (refreshEnd _) fun _ => .pure _) (.pure _)
  refine .bind lockActive fun _ => .bind (settleActive _) fun _ => .bind Bystander.instant fun _ => ?_
  exact .bind (Bystander.insertRow fun _ _ => ⟨le_rfl, rfl, rfl⟩) fun _ =>
    .bind append fun _ => refreshActive _

theorem grant (customerId : UUID) (request : Grant) (key : String) :
    HeldTx (GManager.grant customerId request key) := by
  refine .bind (Bystander.preAuthorize _) fun _ => .bind .ask fun _ =>
    .bind (Bystander.requireStaff _) fun _ => ?_
  refine .bind (Bystander.lockCustomer _ _) fun _ => .bind Bystander.financialContext fun _ =>
    .bind (.lift _) fun _ => .bind (.lift _) fun _ => ?_
  refine .bind (.require _ _) fun _ => .bind (.orThrow _ _) fun confirmed => .bind .get fun _ => .ite ?_ ?_
  · exact .bind (.orThrow _ _) fun _ => .bind (.require _ _) fun _ => Bystander.account _
  · refine .bind (.orThrow _ _) fun _ => .bind (.require _ _) fun _ => .bind (.require _ _) fun _ => ?_
    exact .bind (sell _ _) fun _ => Bystander.account _

theorem tick (id : UUID) (renew finish : Bool) : HeldTx (GManager.tick id renew finish) := by
  have finishOrRenew : ∀ s, HeldTx (GManager.finishOrRenew s renew finish) := fun s =>
    .bind .ask fun _ =>
      .ite (close _ _ _) (.ite (.bind Bystander.instant fun _ => .bind (saveSession _) fun _ =>
        .pure _) (.pure _))
  refine .bind .ask fun _ => .bind .get fun _ => ?_
  split
  · exact .pure _
  · refine .ite (.bind (Bystander.lockCustomer _ _) fun _ => .bind (.lift _) fun _ =>
      .ite ?_ (.pure _)) (.pure _)
    exact .bind Bystander.instant fun _ => .bind (settle _ _) fun _ =>
      .bind (finishOrRenew _) fun _ => .pure _

theorem finishByOperator (id : UUID) : HeldTx (GManager.finishByOperator id) :=
  .bind (tick _ _ _) fun _ => .bind .get fun _ => .bind (.orThrow _ _) fun _ => .pure _

theorem recover (id : UUID) : HeldTx (GManager.recover id) := by
  refine .bind (tick _ _ _) fun _ => .bind .get fun _ => ?_
  split
  · exact .pure _
  · exact .ite (.bind (close _ _ _) fun _ => .pure _) (.pure _)

/-! ### The requests of the stations -/

theorem lease : HeldTx GManager.lease := by
  have configurationVersion : ∀ id, HeldTx (GManager.configurationVersion id) := fun id => by
    refine .bind .ask fun _ => .bind (.orThrow _ _) fun _ => .bind (.require _ _) fun _ =>
      .bind (.orThrow _ _) fun _ => ?_
    exact .bind (.orThrow _ _) fun _ => .bind (.require _ _) fun _ => .pure _
  have renewedSession : ∀ id, HeldTx (GManager.renewedSession id) := fun id => by
    refine .bind .get fun _ => ?_
    split
    · exact .pure _
    · exact .ite (.bind (tick _ _ _) fun _ => .bind .get fun _ => .pure _) (.pure _)
  have sign : ∀ p, HeldTx (GManager.sign p) := fun p => .modify fun _ => ⟨le_rfl, rfl, rfl⟩
  refine .bind Bystander.requireMachine fun _ => .bind .ask fun _ => .bind Bystander.instant fun _ =>
    .bind (configurationVersion _) fun _ => ?_
  refine .bind (renewedSession _) fun _ => .bind .get fun _ => ?_
  split
  · exact .bind (saveSession _) fun _ => .bind (sign _) fun _ => .pure _
  · exact .bind Bystander.instant fun _ => .bind (sign _) fun _ => .pure _

theorem sessionLogout (id : UUID) (recovery : Bool) : HeldTx (GManager.sessionLogout id recovery) :=
  .bind Bystander.requireMachine fun _ => .bind .get fun _ => .bind (.require _ _) fun _ =>
    .ite (recover _) (tick _ _ _)

theorem heartbeat (request : HeartbeatRequest) : HeldTx (GManager.heartbeat request) := by
  have endConfirmed : ∀ id confirmed, HeldTx (GManager.endConfirmed id confirmed) := fun id confirmed => by
    refine .bind .get fun _ => .ite ?_ (.pure _)
    split
    · exact tick _ _ _
    · exact .pure _
  refine .bind Bystander.requireMachine fun _ => .bind .ask fun _ => .bind Bystander.instant fun _ =>
    .bind (.orThrow _ _) fun _ => ?_
  exact .bind .get fun _ => .bind (endConfirmed _ _) fun _ => .modify fun _ => ⟨le_rfl, rfl, rfl⟩

theorem acknowledge (sequence : ℕ) : HeldTx (GManager.acknowledge sequence) := by
  refine .bind Bystander.requireMachine fun _ => .bind .get fun _ => .bind (.orThrow _ _) fun _ =>
    .bind Bystander.instant fun _ => ?_
  exact .bind (.modify fun _ => ⟨le_rfl, rfl, rfl⟩) fun _ => .modify fun _ => ⟨le_rfl, rfl, rfl⟩

theorem purge : HeldTx GManager.purge := .bind Bystander.instant fun _ => .modify fun _ => ⟨le_rfl, rfl, rfl⟩

end HeldTx

/-! ### How sessions go on -/

/-- What becomes of a session: it keeps its customer and its station, and is active only if it was. -/
structure GamingSession.Continues (s s' : GamingSession) : Prop where
  id : s'.id = s.id
  customerId : s'.customerId = s.customerId
  resourceId : s'.resourceId = s.resourceId
  active : s'.status = .active → s.status = .active

theorem GamingSession.Continues.trans {s s' s'' : GamingSession} (h : s.Continues s')
    (h' : s'.Continues s'') : s.Continues s'' :=
  ⟨h'.id.trans h.id, h'.customerId.trans h.customerId, h'.resourceId.trans h.resourceId, fun ha =>
    h.active (h'.active ha)⟩

/-- No session is new. -/
def Continued (db db' : Db) : Prop := ∀ x ∈ db'.sessions, ∃ y ∈ db.sessions, y.Continues x

theorem Continued.of_eq {db db' : Db} (h : db'.sessions = db.sessions) : Continued db db' := by
  intro x hx
  rw [h] at hx
  exact ⟨x, hx, rfl, rfl, rfl, id⟩

theorem Continued.of_save {db db' : Db} {s r : GamingSession} (hs : s ∈ db.sessions) (hr : s.Continues r)
    (h : db'.sessions = db.sessions.save r) : Continued db db' := by
  intro x hx
  rcases (Db.mem_saved hs hr.id h).1 hx with rfl | ⟨hx, -⟩
  · exact ⟨s, hs, hr⟩
  · exact ⟨x, hx, rfl, rfl, rfl, id⟩

section continued

variable {h : Hours} {l L : ℕ} {db db' : Db}

/-- An effect that adds a session makes the table longer; every other continues the sessions there are. -/
theorem Effect.continued (e : Effect h l L db db') :
    db'.sessions.rows.length = db.sessions.rows.length ∧ Continued db db' ∨
      db.sessions.rows.length < db'.sessions.rows.length := by
  have same : db'.sessions = db.sessions → db'.sessions.rows.length = db.sessions.rows.length ∧
      Continued db db' :=
    fun he => ⟨by rw [he], .of_eq he⟩
  have saved : ∀ s r, s ∈ db.sessions → s.Continues r → db'.sessions = db.sessions.save r →
      db'.sessions.rows.length = db.sessions.rows.length ∧ Continued db db' :=
    fun s r hs hr he => ⟨by rw [he]; exact List.length_map _, .of_save hs hr he⟩
  cases e with
  | quiet q => exact .inl (same q.sessions)
  | @charged s delta createdAt e hs ha hm hd h0 hlt he q =>
    exact .inl (saved s (s.charge delta) hs ⟨rfl, rfl, rfl, id⟩
      (q.sessions.trans Db.post_putSession_sessions))
  | @closed s status reason sequence hs hst q =>
    exact .inl (saved s (s.closed status reason sequence) hs
      ⟨rfl, rfl, rfl, fun ha => absurd ha hst⟩ q.sessions)
  | granted hidle hfresh h0 hlt he q => exact .inl (same (q.sessions.trans Db.post_sessions))
  | @toppedUp s actor operation seconds key createdAt now limit sequence e hs ha hfresh h0 hlt he
      hnow hnow' hl q =>
    exact .inl (saved s (s.extended _ limit sequence) hs ⟨rfl, rfl, rfl, id⟩
      (q.sessions.trans Db.post_putSession_sessions))
  | @renewed s hs ha q =>
    exact .inl (saved s { s with meteredLeaseUntil := min (db.clock.now.plusSeconds l) s.endsAt } hs
      ⟨rfl, rfl, rfl, id⟩ q.sessions)
  | @leased s p now hs ha hnow hsigned hbilled hp q =>
    exact .inl (saved s { s with meteredLeaseUntil := p.expiresAt } hs ⟨rfl, rfl, rfl, id⟩ q.sessions)
  | refused hp he q => exact .inl (same q.sessions)
  | @started s sessions hfresh hmem hcustomer hstation ha hm hmove hb hnow hends hlease hl q =>
    refine .inr ?_
    have hnew : s ∉ db.sessions.rows := fun hs => hfresh s hs rfl
    have hperm : sessions.rows.Perm (s :: db.sessions.rows) := by
      refine (List.perm_ext_iff_of_nodup (List.Nodup.of_map _ sessions.nodup)
        (List.nodup_cons.2 ⟨hnew, List.Nodup.of_map _ db.sessions.nodup⟩)).2 fun x => ?_
      rw [List.mem_cons, or_comm]
      exact hmem x
    rw [q.sessions]
    show db.sessions.rows.length < sessions.rows.length
    rw [hperm.length_eq]
    exact Nat.lt_succ_self _
  | booked hr hp he hres hi q => exact .inl (same q.sessions)
  | moved hr hsame hstatus hlt he hres hses q => exact .inl (same q.sessions)
  | changed hr hc q => exact .inl (same q.sessions)

/-- Where there are as many sessions as before, they are the same ones. -/
theorem Effects.continued (e : Effects h l L db db') :
    db.sessions.rows.length ≤ db'.sessions.rows.length ∧
      (db'.sessions.rows.length = db.sessions.rows.length → Continued db db') := by
  induction e with
  | refl => exact ⟨le_rfl, fun _ => .of_eq rfl⟩
  | tail _ e ih =>
    rcases e.continued with ⟨hlen, hc⟩ | hlt
    · refine ⟨ih.1.trans hlen.ge, fun heq x hx => ?_⟩
      obtain ⟨y, hy, hyx⟩ := hc x hx
      obtain ⟨z, hz, hzy⟩ := ih.2 (hlen.symm.trans heq) y hy
      exact ⟨z, hz, hzy.trans hyx⟩
    · exact ⟨ih.1.trans hlt.le, fun heq => absurd (ih.1.trans_lt hlt) (by omega)⟩

end continued

end GManager

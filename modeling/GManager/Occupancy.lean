import GManager.Turns
import GManager.ClientUpdates

/-!
# Who holds a station

A station is held by a waiting assignment, by a running session or by an installation. The three are kept in
three tables that different services write; each checks the other two before it writes its own. `Occupancy`
is what the checks add up to in every state of a run.
-/

namespace GManager

open Txn

namespace StationSystem

def now (s : StationSystem) : Instant := s.db.clock.now

/-- Neither an assignment that may still be used nor a session holds the station. -/
structure Free (s : StationSystem) (stationId : UUID) : Prop where
  waiting : ∀ a ∈ s.db.assignments, a.status = .waitingForLogin → s.now < a.expiresAt →
    a.resourceId ≠ stationId
  sessions : ∀ x ∈ s.db.sessions, x.status = .active → x.resourceId ≠ stationId

/-- An installation that has been claimed and has not run out is alone at its station. -/
def Clear (s : StationSystem) : Prop := ∀ u ∈ s.updates, u.installingAt s.now s.now → s.Free u.stationId

end StationSystem

theorem StationClientUpdate.installingAt.mono {u : StationClientUpdate} {t t' k k' : Instant}
    (h : u.installingAt t t') (hk : k ≤ t) (hk' : k' ≤ t') : u.installingAt k k' := by
  obtain ⟨hst, ⟨until_, hu, hlt⟩, he⟩ := h
  exact ⟨hst, ⟨until_, hu, hk.trans_lt hlt⟩, hk'.trans_lt he⟩

theorem StationSystem.installingAt_iff {s : StationSystem} {stationId : UUID} {t t' : Instant} :
    s.installingAt stationId t t' = true ↔ ∃ u ∈ s.updates, u.stationId = stationId ∧
    u.installingAt t t' := by
  simp [installingAt, Table.mem_rows]

/-! ### The requests of the updates -/

/-- Sessions and assignments are the same, and only at a free station has an installation begun. -/
structure Tended (s s' : StationSystem) : Prop where
  quiet : Quiet s.db s'.db
  assignments : s'.db.assignments = s.db.assignments
  installing : ∀ u ∈ s'.updates, u.status = .installing → u ∈ s.updates ∨ s'.Free u.stationId

namespace StationSystem.Free

variable {s s' : StationSystem} {stationId : UUID}

theorem later (h : s.Free stationId) (hle : s.now ≤ s'.now) (ha : s'.db.assignments = s.db.assignments)
    (hs : s'.db.sessions = s.db.sessions) : s'.Free stationId := by
  refine ⟨fun a hm hw hlt => ?_, ?_⟩
  · rw [ha] at hm
    exact h.waiting a hm hw (hle.trans_lt hlt)
  · rw [hs]
    exact h.sessions

theorem tended (h : s.Free stationId) (ht : Tended s s') : s'.Free stationId :=
  h.later ht.quiet.clock ht.assignments ht.quiet.sessions

end StationSystem.Free

instance Tended.isPreorder : IsPreorder StationSystem Tended where
  refl _ := ⟨.refl _, rfl, fun _ hu _ => .inl hu⟩
  trans _ _ _ h h' := by
    refine ⟨h.quiet.trans h'.quiet, h'.assignments.trans h.assignments, fun u hu hi => ?_⟩
    rcases h'.installing u hu hi with hu | hf
    · exact (h.installing u hu hi).imp_right fun hf => hf.tended h'
    · exact .inr hf

theorem Tended.of_db {s : StationSystem} {db : Db} (q : Quiet s.db db)
    (ha : db.assignments = s.db.assignments) : Tended s { s with db } := ⟨q, ha, fun _ hu _ => .inl hu⟩

section tending

open Within

theorem tended_instant : Within Tended (onDb instant) := fun c s => by
  simp only [wp_onDb, wp_instant]
  exact .of_db (.next s.db) rfl

theorem tended_effectiveStatus (u : StationClientUpdate) : Within Tended (effectiveStatus u) :=
  .ite (.bind tended_instant fun _ => .ite (.pure _) (.ite (.bind tended_instant fun _ => .pure _) (.pure _)))
    (.pure _)

theorem tended_latest (stationId : UUID) : Within Tended (latestUpdate stationId) := by
  refine .bind .get fun _ => ?_
  split
  · exact .pure _
  · exact .bind (tended_effectiveStatus _) fun _ => .pure _

theorem tended_installing (stationId : UUID) : Within Tended (installing stationId) :=
  .bind tended_instant fun _ => .bind tended_instant fun _ => .bind .get fun _ => .pure _

theorem tended_mark {p : StationClientUpdate → Prop} [DecidablePred p] {status : UpdateStatus} {now : Instant}
    (hne : status ≠ .installing) : Within Tended (markUpdates p status now) := by
  refine .modify fun s => ⟨.refl _, rfl, fun u hu hi => .inl ?_⟩
  obtain ⟨x, hx, rfl⟩ := List.mem_map.1 hu
  split at hi
  · exact absurd hi hne
  · rw [if_neg ‹_›]
    exact hx

theorem tended_supersede (stationId : UUID) (now : Instant) : Within Tended (supersede stationId now) :=
  tended_mark (by decide)

theorem tended_insertUpdate {u : StationClientUpdate} (hne : u.status ≠ .installing) :
    Within Tended (insertUpdate u) := by
  intro c s
  simp only [insertUpdate, wp_bind, wp_get, wp_orThrow, wp_modify]
  intro updates hi
  refine ⟨.refl _, rfl, fun x hx hst => .inl ?_⟩
  rcases (Table.mem_insert hi).1 hx with hx | rfl
  · exact hx
  · exact absurd hst hne

theorem tended_requestUpdate (release : ClientRelease) (stationId : UUID) (requestedTime : Option Instant)
    (reason : Option String) : Within Tended (requestUpdate release stationId requestedTime reason) := by
  refine .bind .ask fun _ => .bind (.require _ _) fun _ => .bind (.require _ _) fun _ =>
    .bind tended_instant fun _ => ?_
  refine .bind (.require _ _) fun _ => .bind (.orThrow _ _) fun _ => .bind (.orThrow _ _) fun _ => ?_
  refine .bind (tended_latest _) fun _ =>
    .ite (.pure _) (.bind (tended_installing _) fun _ => .bind (.require _ _) fun _ => ?_)
  exact .bind (tended_supersede _ _) fun _ => .bind (tended_insertUpdate UpdateStatus.noConfusion)
    fun _ => tended_latest _

theorem reportedStatus_ne (updateStatus : Option String) :
    reportedStatus updateStatus ≠ some .installing := by
  unfold reportedStatus
  split <;> decide

theorem tended_observe (stationId : UUID) (installedVersion updateStatus : Option String)
    (requestId : Option UUID) :
    Within Tended (observeUpdate stationId installedVersion updateStatus requestId) := by
  refine .bind (tended_latest _) fun current => ?_
  cases current with
  | none => exact .pure _
  | some value =>
    refine .ite (.bind tended_instant fun _ => tended_mark (by decide)) (.ite (.ite (.pure _) ?_) (.pure _))
    split
    · exact .pure _
    · rename_i next hnext
      refine .when (.bind tended_instant fun _ => tended_mark ?_)
      rintro rfl
      split at hnext
      · cases hnext
      · split at hnext
        · exact reportedStatus_ne _ hnext
        · cases hnext

/-- The latest update is a row of its station. -/
theorem wp_latestUpdate {stationId : UUID} {c : Call} {s : StationSystem} :
    wp (latestUpdate stationId) (fun current s' => s'.updates = s.updates ∧
      ∀ v ∈ current, ∃ u ∈ s.updates, u.id = v.id ∧ u.stationId = stationId) c s := by
  have hstatus : ∀ u, wp (effectiveStatus u) (fun _ s' => s'.updates = s.updates) c s := by
    intro u
    simp [effectiveStatus]
  simp only [latestUpdate, wp_bind, wp_get]
  split
  · exact wp_pure.2 ⟨rfl, fun _ hv => absurd hv (Option.not_mem_none _)⟩
  · rename_i u hu
    have hm : u ∈ s.updates ∧ u.stationId = stationId := by
      have := (List.mem_insertionSort _).1 (List.mem_of_mem_head? hu)
      simpa [Table.mem_rows] using this
    simp only [wp_bind, wp_pure]
    refine wp_mono (hstatus u) fun _ s' hs' => ⟨hs', fun v hv => ?_⟩
    rw [← Option.mem_some_iff.1 hv]
    exact ⟨u, hm.1, rfl, hm.2⟩

/-- The update that a claim installs is one of its station. -/
theorem wp_claimedUpdate {release : ClientRelease} {stationId : UUID} {requestId : Option UUID}
    {now : Instant} {c : Call} {s : StationSystem}
    (hid : ∀ id ∈ requestId, ∀ u ∈ s.updates, u.id = id → u.stationId = stationId) :
    wp (claimedUpdate release stationId requestId now) (fun id s' => Tended s s' ∧
      ∀ u ∈ s'.updates, u.id = id → u.stationId = stationId) c s := by
  cases requestId with
  | some id => exact wp_pure.2 ⟨Std.Refl.refl s, hid id rfl⟩
  | none =>
    refine wp_bind.2 (wp_ask.2 (wp_bind.2 (wp_mono (tended_supersede _ _ c s) fun _ s₁ h₁ => ?_)))
    refine wp_bind.2 (wp_mono (wp_and (tended_insertUpdate UpdateStatus.noConfusion c s₁) ?_) fun _ s₂ h₂ =>
      wp_pure.2 ⟨IsTrans.trans _ _ _ h₁ h₂.1, h₂.2⟩)
    simp only [insertUpdate, wp_bind, wp_get, wp_orThrow, wp_modify]
    intro updates hi u hu hfresh
    rcases (Table.mem_insert hi).1 hu with hold | rfl
    · exact absurd hfresh ((Table.insert_eq_some.1 hi).1 u hold)
    · rfl

theorem tended_claimUpdate (release : ClientRelease) (identityId : UUID) (requestId : Option UUID) :
    Within Tended (claimUpdate release identityId requestId) := by
  intro c s
  simp only [claimUpdate, requireMachine, wp_bind, wp_ask, wp_onDb, wp_orThrow, wp_require, wp_instant,
    wp_get, wp_modify]
  intro stationId _ _ _ _ hwaiting hidle
  have h₁ : Tended s { s with db := { s.db with clock := s.db.clock.next } } := .of_db (.next s.db) rfl
  have hfree : StationSystem.Free { s with db := { s.db with clock := s.db.clock.next } } stationId :=
    ⟨fun a ha hw hlt hr => hwaiting a ha ⟨hr, hw, hlt⟩,
      fun x hx hxa hr => Db.activeByResource_eq_none.1 hidle.1 x hx hr hxa⟩
  refine wp_mono (tended_installing stationId c _) fun running s₂ h₂ _ => ?_
  refine wp_mono (wp_and (tended_latest stationId c s₂) wp_latestUpdate) ?_
  rintro intent s₃ ⟨h₃, hupdates, hintent⟩ heligible
  have h₄ : Tended s₃ { s₃ with db := { s₃.db with clock := s₃.db.clock.next } } := .of_db (.next s₃.db) rfl
  refine wp_mono (wp_claimedUpdate fun id hid u hu huid => ?_) fun id s₅ h₅ => ?_
  · obtain ⟨v, hv, hvid, -⟩ := heligible id hid
    obtain ⟨w, hw, hwid, hwst⟩ := hintent v hv
    rw [← hupdates] at hw
    rw [Table.eq_of_key hu hw (huid.trans (hvid.symm.trans hwid.symm))]
    exact hwst
  · have hall : Tended { s with db := { s.db with clock := s.db.clock.next } } s₅ :=
      IsTrans.trans _ _ _ h₂ (IsTrans.trans _ _ _ h₃ (IsTrans.trans _ _ _ h₄ h₅.1))
    refine IsTrans.trans _ _ _ (IsTrans.trans _ _ _ h₁ hall) ⟨.refl _, rfl, fun u hu _ => ?_⟩
    obtain ⟨v, hv, rfl⟩ := List.mem_map.1 hu
    by_cases hvid : v.id = id
    · rw [if_pos hvid]
      refine .inr ?_
      show StationSystem.Free _ v.stationId
      rw [h₅.2 v hv hvid]
      exact (hfree.tended hall).later le_rfl rfl rfl
    · rw [if_neg hvid]
      exact .inl hv

end tending

/-! ### Every step -/

/-- What holds in every state of a run. -/
structure Occupancy (s : StationSystem) : Prop where
  orderly : ∃ L, Orderly L s.db
  apart : Apart s.db
  clear : s.Clear

namespace Occupancy

variable {s s' : StationSystem}

theorem empty (t : Instant) : Occupancy (.empty t) :=
  ⟨⟨0, .empty t⟩, .empty t, fun _ h => absurd h Table.not_mem_empty⟩

/-- Whoever takes a station does so when no installation is running there that is still running afterwards. -/
theorem no_install {c : Call} {db : Db} {u : StationClientUpdate} (ha : s.Answers c db) (hu : u ∈ s.updates)
    (hlive : u.installingAt db.clock.now db.clock.now) : (c.signs u.stationId).installing = true := by
  obtain ⟨t, t', -, hle, hle', hsigns⟩ := ha
  rw [hsigns]
  exact StationSystem.installingAt_iff.2 ⟨u, hu, rfl, hlive.mono (hle.trans hle') hle'⟩

/-- A free station stays free while nobody is sent to a station and no session starts. -/
theorem free_held {db : Db} {stationId : UUID} (hf : s.Free stationId) (k : Kept (fun _ => False) s.db db)
    (hc : Continued s.db db) : StationSystem.Free { s with db } stationId := by
  refine ⟨fun a hm hw hlt => hf.waiting a ((k.waiting a hm hw).resolve_right id) hw (k.clock.trans_lt hlt),
    fun x hx hxa => ?_⟩
  obtain ⟨x₀, hx₀, hcx⟩ := hc x hx
  rw [hcx.resourceId]
  exact hf.sessions x₀ hx₀ (hcx.active hxa)

theorem clear_turn (h : s.Clear) {c : Call} {db : Db} (hturn : Turn c s.db db) (ha : s.Answers c db) :
    StationSystem.Clear { s with db } := by
  intro u hu hlive
  have hbusy := no_install ha hu hlive
  have before : s.db.clock.now ≤ db.clock.now → s.Free u.stationId := fun hle => h u hu (hlive.mono hle hle)
  cases hturn with
  | held k hc => exact free_held (before k.clock) k hc
  | @assigned a k hsame hwa halone hidle hsigns =>
    have hf := before k.clock
    refine ⟨fun b hm hw hlt => ?_, fun x hx hxa => hf.sessions x (hsame ▸ hx) hxa⟩
    rcases k.waiting b hm hw with hm | rfl
    · exact hf.waiting b hm hw (k.clock.trans_lt hlt)
    · intro hr
      rw [hr, hbusy] at hsigns
      cases hsigns
  | @started a x k ha hx hgone hmem hidle hsigns =>
    have hf := before k.clock
    refine ⟨fun b hm hw hlt => hf.waiting b ((k.waiting b hm hw).resolve_right id) hw (k.clock.trans_lt hlt),
      fun y hy hya => ?_⟩
    rcases (hmem y).1 hy with hy | rfl
    · exact hf.sessions y hy hya
    · intro hr
      rw [hr, hbusy] at hsigns
      cases hsigns

theorem clear_tended (h : s.Clear) (ht : Tended s s') : s'.Clear := by
  intro u hu hlive
  rcases ht.installing u hu hlive.1 with hold | hfree
  · exact (h u hold (hlive.mono ht.quiet.clock ht.quiet.clock)).tended ht
  · exact hfree

/-- One step: the invariant holds again, and an assignment that waits no longer is as it was. -/
theorem step (h : Occupancy s) (hs : StationStep s s') :
    Occupancy s' ∧ ∀ a ∈ s.db.assignments, a.status ≠ .waitingForLogin → a ∈ s'.db.assignments := by
  obtain ⟨L, o⟩ := h.orderly
  cases hs with
  | @served r ha =>
    have o' := o.mono (le_max_left L r.call.settings.leaseSeconds)
    have hturn : Turn r.call s.db (GManager.step s.db r) := by
      have q : Quiet s.db (s.db.listen r.call.readings) := .listen _
      have held : Turn r.call s.db (s.db.listen r.call.readings) :=
        .held ⟨le_rfl, fun _ hm _ => hm, fun _ hm _ => .inl hm⟩ (.of_eq rfl)
      exact commit_of_wp (P := Turn r.call s.db) held
        (wp_mono (wp_turn r.op (le_max_right _ _) (o'.quiet q)) fun _ _ hturn => hturn.after le_rfl rfl rfl)
    refine ⟨⟨⟨_, o'.effects (le_max_right _ _) (step_effects (le_max_right _ _) o')⟩, h.apart.turn hturn,
      clear_turn h.clear hturn ha⟩, ?_⟩
    cases hturn with
    | held k hc => exact k.kept
    | assigned k => exact k.kept
    | started k => exact k.kept
  | performed c op =>
    have tended : Within Tended op.perform → Occupancy (op.perform.commit c (s.listen c.readings)) ∧
        ∀ a ∈ s.db.assignments, a.status ≠ .waitingForLogin →
          a ∈ (op.perform.commit c (s.listen c.readings)).db.assignments := by
      intro hw
      have hl : Tended s (s.listen c.readings) := .of_db (.listen _) rfl
      have ht : Tended s (op.perform.commit c (s.listen c.readings)) := IsTrans.trans _ _ _ hl (hw.commit c _)
      refine ⟨⟨⟨L, o.quiet ht.quiet⟩, h.apart.turn (c := c) ?_, clear_tended h.clear ht⟩, fun a hm _ => ?_⟩
      · refine .held ⟨ht.quiet.clock, fun a hm _ => ?_, fun a hm _ => .inl ?_⟩ (.of_eq ht.quiet.sessions)
        · rw [ht.assignments]
          exact hm
        · rwa [ht.assignments] at hm
      · rw [ht.assignments]
        exact hm
    cases op with
    | request release stationId requestedTime reason =>
      exact tended (tended_requestUpdate release stationId requestedTime reason).discard
    | observe stationId installedVersion updateStatus requestId =>
      exact tended (tended_observe stationId installedVersion updateStatus requestId)
    | claim release identityId requestId => exact tended (tended_claimUpdate release identityId requestId)
    | expireWaiting =>
      have k := @kept_expire { s.db with clock := (s.db.listen c.readings).clock.next }
        (s.db.listen c.readings).clock.next.now
      have hk : Kept (fun _ => False) s.db _ :=
        ⟨(s.db.listen c.readings).clock.le_next.trans k.clock, k.kept, k.waiting⟩
      refine ⟨⟨⟨L, o.quiet ?_⟩, h.apart.turn (c := c) (.held hk (.of_eq rfl)), fun u hu hlive => ?_⟩, hk.kept⟩
      · exact ⟨(s.db.listen c.readings).clock.le_next, rfl, rfl, rfl, rfl, rfl⟩
      · exact free_held (s := s) (h.clear u hu (hlive.mono hk.clock hk.clock)) hk (.of_eq rfl)

theorem run (h : Occupancy s) (hr : StationRun s s') :
    Occupancy s' ∧ ∀ a ∈ s.db.assignments, a.status ≠ .waitingForLogin → a ∈ s'.db.assignments := by
  induction hr with
  | refl => exact ⟨h, fun a ha _ => ha⟩
  | tail _ hs ih =>
    obtain ⟨h', hkept⟩ := ih.1.step hs
    exact ⟨h', fun a ha hw => hkept a (ih.2 a ha hw) hw⟩

end Occupancy

/-- Nobody is sent to a station, and nobody starts to play there, while an installation is live. -/
theorem Occupancy.not_occupied {s : StationSystem} (h : Occupancy s) {r : Request} {db : Db}
    (hrun : r.op.perform.run r.call (s.db.listen r.call.readings) = .ok ((), db)) (ha : s.Answers r.call db)
    {u : StationClientUpdate} (hu : u ∈ s.updates) (ho : r.op.occupies r.call = some u.stationId) :
    ¬ u.installingAt db.clock.now db.clock.now := by
  intro hlive
  have hbusy := Occupancy.no_install ha hu hlive
  obtain ⟨t, t', hle₀, hle, hle', -⟩ := ha
  have hfree := h.clear u hu (hlive.mono ((hle₀.trans hle).trans hle') ((hle₀.trans hle).trans hle'))
  have htaken : wp r.op.perform (fun _ _ => (r.call.signs u.stationId).installing = false ∨
      ∃ x ∈ s.db.sessions, x.status = .active ∧
      x.resourceId = u.stationId) r.call (s.db.listen r.call.readings) :=
    wp_occupies ho
  rcases htaken _ _ hrun with hno | ⟨x, hx, hxa, hr⟩
  · rw [hbusy] at hno
    cases hno
  · exact hfree.sessions x hx hxa hr

/-- An assignment that may still be used. -/
def StationAssignment.waits (a : StationAssignment) (now : Instant) : Prop :=
  a.status = .waitingForLogin ∧ now < a.expiresAt

/-- In every state of a run a station is held once: sessions are alone with their customer and at their
station, an assignment that may be used is, too, every assignment becomes one session at most, and a live
installation keeps both away. -/
theorem station_exclusion {t : Instant} {s : StationSystem} (h : StationRun (.empty t) s) :
    (∀ x ∈ s.db.sessions, ∀ y ∈ s.db.sessions, x.status = .active → y.status = .active →
      x.customerId = y.customerId ∨ x.resourceId = y.resourceId → x = y) ∧
    (∀ a ∈ s.db.assignments, a.waits s.now → ∀ x ∈ s.db.sessions, x.status = .active →
      a.customerId ≠ x.customerId ∧ a.resourceId ≠ x.resourceId) ∧
    (∀ a ∈ s.db.assignments, ∀ b ∈ s.db.assignments, a.waits s.now → b.waits s.now →
      a.customerId = b.customerId ∨ a.resourceId = b.resourceId → a = b) ∧
    (∀ x ∈ s.db.sessions, ∃ a ∈ s.db.assignments, a.sessionId = some x.id ∧ a.customerId = x.customerId ∧
      a.resourceId = x.resourceId) ∧
    (∀ s', StationRun s s' → ∀ a ∈ s.db.assignments, ∀ b ∈ s'.db.assignments, a.id = b.id →
      ∀ x y, a.sessionId = some x → b.sessionId = some y → x = y) ∧
    (∀ u ∈ s.updates, u.installingAt s.now s.now →
      (∀ a ∈ s.db.assignments, a.waits s.now → a.resourceId ≠ u.stationId) ∧
      ∀ x ∈ s.db.sessions, x.status = .active → x.resourceId ≠ u.stationId) ∧
    ∀ (r : Request) (db : Db), r.op.perform.run r.call (s.db.listen r.call.readings) = .ok ((), db) →
      s.Answers r.call db → ∀ u ∈ s.updates, r.op.occupies r.call = some u.stationId →
      ¬ u.installingAt db.clock.now db.clock.now := by
  obtain ⟨hocc, -⟩ := (Occupancy.empty t).run h
  obtain ⟨L, o⟩ := hocc.orderly
  refine ⟨fun x hx y hy hxa hya hshare => ?_, fun a ha hw => hocc.apart.apart a ha hw.1,
    fun a ha b hb hwa hwb => hocc.apart.waiting a ha b hb hwa.1 hwb.1, fun x hx => ?_,
    fun s' hrun a ha b hb hid x y hax hby => ?_, fun u hu hlive => ?_, fun r db hrun ha u hu ho =>
    hocc.not_occupied hrun ha hu ho⟩
  · rcases hshare with hc | hr
    · exact o.single x hx y hy hxa hya hc
    · exact hocc.apart.stations x hx y hy hxa hya hr
  · obtain ⟨a, ha, -, hrest⟩ := hocc.apart.activated x hx
    exact ⟨a, ha, hrest⟩
  · have hw : a.status ≠ .waitingForLogin := fun hw => by
      rw [hocc.apart.unused a ha hw] at hax
      cases hax
    rw [← Table.eq_of_key ((hocc.run hrun).2 a ha hw) hb hid, hax] at hby
    exact Option.some.inj hby
  · have hfree := hocc.clear u hu hlive
    exact ⟨fun a ha hw => hfree.waiting a ha hw.1 hw.2, hfree.sessions⟩

namespace Upgrade

/-- While no update is known, a request is told that no installation is running. -/
theorem served {db : Db} (r : Request) (hsigns : ∀ k, (r.call.signs k).installing = false)
    (hle : db.clock.now ≤ (step db r).clock.now) (h : StationRun (.empty 0) ⟨db, .empty⟩) :
    StationRun (.empty 0) ⟨step db r, .empty⟩ :=
  h.tail (.served ⟨db.clock.now, db.clock.now, le_rfl, le_rfl, hle, hsigns⟩)

def logout : Request := Arcade.request 103 20500000 (.sessionLogout 102 false)

/-- The customer has played. -/
def played : Db := GManager.run (Db.empty 0)
  [Arcade.grant 100 10000000 "first", Arcade.request 101 11000000 (.assign ⟨2, 40, none⟩),
    Arcade.login 12000000, logout]

/-- The client claims the station for an installation. -/
def claimed : StationSystem :=
  (UpdateOp.claim ⟨"1.2.0", true⟩ 60 none).perform.commit (Arcade.request 104 30000000 .purge).call
    (StationSystem.listen ⟨played, .empty⟩ [30000000])

theorem reachable_claimed : StationRun (.empty 0) claimed := by
  have granted := served (Arcade.grant 100 10000000 "first") (fun _ => rfl) (by decide +kernel) .refl
  have assigned :=
    served (Arcade.request 101 11000000 (.assign ⟨2, 40, none⟩)) (fun _ => rfl) (by decide +kernel) granted
  have started := served (Arcade.login 12000000) (fun _ => rfl) (by decide +kernel) assigned
  have finished := served logout (fun _ => rfl) (by decide +kernel) started
  exact finished.tail (.performed _ _)

end Upgrade

theorem station_exclusion_claimed : (∃ u ∈ Upgrade.claimed.updates.rows, u.stationId = 40 ∧
    u.installingAt Upgrade.claimed.now Upgrade.claimed.now) ∧
    (∃ a ∈ Upgrade.claimed.db.assignments.rows, a.sessionId = some 102) ∧
    ∀ a ∈ Upgrade.claimed.db.assignments, a.waits Upgrade.claimed.now → a.resourceId ≠ 40 := by
  have hlive : ∃ u ∈ Upgrade.claimed.updates.rows, u.stationId = 40 ∧
      u.installingAt Upgrade.claimed.now Upgrade.claimed.now := by decide +kernel
  refine ⟨hlive, by decide +kernel, ?_⟩
  obtain ⟨u, hu, hst, hi⟩ := hlive
  rw [← hst]
  exact ((station_exclusion Upgrade.reachable_claimed).2.2.2.2.2.1 u hu hi).1

end GManager

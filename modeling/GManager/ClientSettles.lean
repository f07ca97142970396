import GManager.ClientSystem

/-!
# What locking, showing and ticking may change

`Settles`: the relation in which `LockLocal`, `ShowAssignment`, `ApplyLease`, `Tick` and the small writes
around them leave the runtime. No session becomes active, one that stops being active stays blocked, and of
the recovery state only the two lock fields change. All that happens beside a job settles.
-/

namespace GManager.Client

/-- The lock fields may change: the session that was active in `v` is blocked once `v'` is not. -/
structure ClientRecoveryState.LockedTo (v v' : ClientViewState) (r r' : ClientRecoveryState) : Prop where
  same : r' = { r with blockedSessionId := r'.blockedSessionId, locallyLocked := r'.locallyLocked }
  locked : r.locallyLocked = true → r'.locallyLocked = true
  blocked : r'.blockedSessionId = r.blockedSessionId ∨
    v.mode = .active ∧ v'.mode ≠ .active ∧ r'.blockedSessionId = v.sessionId ∧ v.sessionId.isSome

namespace ClientRecoveryState.LockedTo

variable {v v' : ClientViewState} {r r' : ClientRecoveryState}

theorem rfl : LockedTo v v' r r := ⟨.refl _, id, .inl (.refl _)⟩

theorem envelope (h : LockedTo v v' r r') : r'.envelope = r.envelope := by rw [h.same]

theorem lease (h : LockedTo v v' r r') : r'.lease = r.lease := by rw [h.same]

theorem appliedSequence (h : LockedTo v v' r r') : r'.appliedSequence = r.appliedSequence := by rw [h.same]

theorem pendingLockSequence (h : LockedTo v v' r r') : r'.pendingLockSequence = r.pendingLockSequence := by
  rw [h.same]

theorem pendingLockSessionId (h : LockedTo v v' r r') : r'.pendingLockSessionId = r.pendingLockSessionId := by
  rw [h.same]

theorem pendingCommandAckSequence (h : LockedTo v v' r r') :
    r'.pendingCommandAckSequence = r.pendingCommandAckSequence := by rw [h.same]

theorem blocked_of_ne (h : LockedTo v v' r r') (hv : v.mode ≠ .active) :
    r'.blockedSessionId = r.blockedSessionId :=
  h.blocked.resolve_right fun hb => hv hb.1

end ClientRecoveryState.LockedTo

namespace Runtime

/-- A session that is still active goes on undisturbed. -/
structure Undisturbed (c c' : Runtime) : Prop where
  view : c'.view = c.view
  recovery : c'.recovery = c.recovery
  locallyLocked : c'.locallyLocked = c.locallyLocked
  maintenance : c'.maintenance = true → c.maintenance = true
  commandGap : c'.commandGap = true → c.commandGap = true

structure Settles (c c' : Runtime) : Prop where
  active : c'.view.mode = .active → c.Undisturbed c'
  recovery : Option.Rel (ClientRecoveryState.LockedTo c.view c'.view) c.recovery c'.recovery
  snapshots : c'.snapshots = c.snapshots
  trusted : c.trusted ≤ c'.trusted

variable {env : ClientEnvironment} {c c' c'' : Runtime} {l : SessionLease}

namespace Settles

theorem of_eq (hview : c'.view = c.view) (hrec : c'.recovery = c.recovery)
    (hlocked : c'.locallyLocked = c.locallyLocked) (hm : c'.maintenance = true → c.maintenance = true)
    (hg : c'.commandGap = true → c.commandGap = true) (hs : c'.snapshots = c.snapshots)
    (ht : c.trusted ≤ c'.trusted) : c.Settles c' := by
  refine ⟨fun _ => ⟨hview, hrec, hlocked, hm, hg⟩, ?_, hs, ht⟩
  rw [hrec]
  cases c.recovery with
  | none => exact .none
  | some r => exact .some .rfl

/-- The session, if one is shown, stops being active. -/
theorem of_not_active (hview : c'.view.mode ≠ .active) (hrec : c'.recovery = c.recovery)
    (hs : c'.snapshots = c.snapshots) (ht : c.trusted ≤ c'.trusted) : c.Settles c' := by
  refine ⟨fun ha => absurd ha hview, ?_, hs, ht⟩
  rw [hrec]
  cases c.recovery with
  | none => exact .none
  | some r => exact .some .rfl

theorem rfl : c.Settles c := of_eq (.refl _) (.refl _) (.refl _) id id (.refl _) le_rfl

theorem trans (h : c.Settles c') (h' : c'.Settles c'') : c.Settles c'' := by
  refine ⟨fun ha => ?_, ?_, h'.snapshots.trans h.snapshots, h.trusted.trans h'.trusted⟩
  · have u' := h'.active ha
    have u := h.active (u'.view ▸ ha)
    exact ⟨u'.view.trans u.view, u'.recovery.trans u.recovery, u'.locallyLocked.trans u.locallyLocked,
      u.maintenance ∘ u'.maintenance, u.commandGap ∘ u'.commandGap⟩
  · have hr := h.recovery
    have hr' := h'.recovery
    generalize c.recovery = o, c'.recovery = o', c''.recovery = o'' at hr hr' ⊢
    cases hr with
    | none => cases hr'; exact .none
    | some hl =>
      cases hr' with
      | some hl' =>
        refine .some ⟨?_, hl'.locked ∘ hl.locked, ?_⟩
        · rw [hl'.same, hl.same]
        · rcases hl'.blocked with hb' | ⟨ha', hn, hb', hs'⟩
          · rcases hl.blocked with hb | ⟨ha, hn, hb, hs⟩
            · exact .inl (hb'.trans hb)
            · exact .inr ⟨ha, fun ha'' => hn ((h'.active ha'').view ▸ ha''), hb'.trans hb, hs⟩
          · have hv := (h.active ha').view
            exact .inr ⟨hv ▸ ha', hn, hb'.trans (hv ▸ .refl _), hv ▸ hs'⟩

/-- The recovery state after settling was there before. -/
theorem exists_of_mem (h : c.Settles c') {r' : ClientRecoveryState} (hr : c'.recovery = some r') :
    ∃ r, c.recovery = some r ∧ r.LockedTo c.view c'.view r' := by
  have h := h.recovery
  rw [hr] at h
  cases ho : c.recovery with
  | none => rw [ho] at h; cases h
  | some r =>
    rw [ho] at h
    cases h with
    | some hl => exact ⟨r, .refl _, hl⟩

theorem exists_mem (h : c.Settles c') {r : ClientRecoveryState} (hr : c.recovery = some r) :
    ∃ r', c'.recovery = some r' ∧ r.LockedTo c.view c'.view r' := by
  have h := h.recovery
  rw [hr] at h
  cases ho : c'.recovery with
  | none => rw [ho] at h; cases h
  | some r' =>
    rw [ho] at h
    cases h with
    | some hl => exact ⟨r', .refl _, hl⟩

theorem not_active (h : c.Settles c') (hn : c.view.mode ≠ .active) : c'.view.mode ≠ .active :=
  fun ha => hn ((h.active ha).view ▸ ha)

end Settles

/-! ### The synchronous methods -/

theorem setSessionActive_settles (value : Bool) : c.Settles (c.setSessionActive value) := by
  unfold setSessionActive
  split
  · exact .rfl
  · exact .of_eq rfl rfl rfl id id rfl le_rfl

@[simp] theorem setSessionActive_view (value : Bool) : (c.setSessionActive value).view = c.view := by
  unfold setSessionActive
  split <;> rfl

@[simp] theorem setSessionActive_recovery (value : Bool) :
    (c.setSessionActive value).recovery = c.recovery := by
  unfold setSessionActive
  split <;> rfl

@[simp] theorem setSessionActive_snapshots (value : Bool) :
    (c.setSessionActive value).snapshots = c.snapshots := by
  unfold setSessionActive
  split <;> rfl

@[simp] theorem setSessionActive_trusted (value : Bool) : (c.setSessionActive value).trusted = c.trusted := by
  unfold setSessionActive
  split <;> rfl

@[simp] theorem setSessionActive_commandGap (value : Bool) :
    (c.setSessionActive value).commandGap = c.commandGap := by
  unfold setSessionActive
  split <;> rfl

@[simp] theorem setSessionActive_maintenance (value : Bool) :
    (c.setSessionActive value).maintenance = c.maintenance := by
  unfold setSessionActive
  split <;> rfl

theorem lockLocal_view : c.lockLocal.view.mode ≠ .active := by
  unfold lockLocal
  split
  · rename_i h
    rw [setSessionActive_view, h.2]
    exact ClientMode.noConfusion
  · exact ClientMode.noConfusion

theorem lockLocal_settles : c.Settles c.lockLocal := by
  have hview : c.lockLocal.view.mode ≠ .active := lockLocal_view
  refine ⟨fun ha => absurd ha hview, ?_, ?_, ?_⟩
  · unfold lockLocal at hview ⊢
    split
    · exact setSessionActive_settles _ |>.recovery
    · simp only [updateRecovery, setSessionActive_recovery]
      cases c.recovery with
      | none => exact .none
      | some r =>
        refine .some ⟨rfl, fun _ => rfl, ?_⟩
        by_cases ha : c.view.mode = .active
        · cases hs : c.view.sessionId with
          | none => exact .inl (by simp [ha])
          | some s => exact .inr ⟨ha, ClientMode.noConfusion, by simp [ha], rfl⟩
        · exact .inl (by simp [ha])
  · unfold lockLocal
    split <;> simp [updateRecovery]
  · unfold lockLocal
    split <;> simp [updateRecovery]

theorem showAssignment_settles : c.Settles (c.showAssignment l) := by
  unfold showAssignment
  split
  · exact .rfl
  · exact (setSessionActive_settles false).trans (.of_not_active ClientMode.noConfusion rfl rfl le_rfl)

theorem applyLease_settles : c.Settles (c.applyLease l) := by
  unfold applyLease
  split_ifs
  · exact .rfl
  · exact lockLocal_settles
  · exact lockLocal_settles
  · exact showAssignment_settles
  · exact lockLocal_settles.trans showAssignment_settles
  · exact lockLocal_settles
  · refine .of_not_active ?_ rfl rfl le_rfl
    simp only [ClientViewState.apply]
    split <;> exact ClientMode.noConfusion
  · exact .rfl

theorem readMaintenance_settles : c.Settles (c.readMaintenance env) := by
  unfold readMaintenance
  split
  · exact .rfl
  · split <;> exact .of_eq rfl rfl rfl id id rfl le_rfl

theorem checkApplicationIdentity_settles (c : Runtime) (env : ClientEnvironment) :
    c.Settles (c.checkApplicationIdentity env).2 := by
  unfold checkApplicationIdentity
  split
  · exact .rfl
  · exact .of_eq rfl rfl rfl id id rfl le_rfl

theorem reapplyLocked_settles : c.Settles c.reapplyLocked := by
  have h : c.Settles { c with policy := { c.policy with appliedActive := none } } :=
    .of_eq rfl rfl rfl id id rfl le_rfl
  exact h.trans (setSessionActive_settles false)

theorem errorCode_settles (e : Option String) : c.Settles { c with errorCode := e } :=
  .of_eq rfl rfl rfl id id rfl le_rfl

theorem requireEnforcement_settles : c.Settles (c.requireEnforcement env) := by
  have h := c.checkApplicationIdentity_settles env
  unfold requireEnforcement
  generalize c.checkApplicationIdentity env = p at h ⊢
  refine h.trans ?_
  dsimp only
  split
  · exact .rfl
  · exact (errorCode_settles _).trans lockLocal_settles

theorem enterMaintenance_settles : c.Settles (c.enterMaintenance env) := by
  have h := c.checkApplicationIdentity_settles env
  unfold enterMaintenance
  generalize c.checkApplicationIdentity env = p at h ⊢
  obtain ⟨_ | _, c'⟩ := p
  · refine h.trans ((errorCode_settles (some "WINDOWS_ENFORCEMENT_UNAVAILABLE")).trans ?_)
    exact reapplyLocked_settles.trans (.of_not_active ClientMode.noConfusion rfl rfl le_rfl)
  · exact h.trans (.of_not_active ClientMode.noConfusion rfl rfl le_rfl)

theorem leaveMaintenance_settles : c.Settles c.leaveMaintenance := by
  unfold leaveMaintenance
  split
  · have h : c.Settles { c with maintenance := false, maintenanceFile := .expiresAt minValue } :=
      .of_eq rfl rfl rfl (fun h => Bool.noConfusion h) id rfl le_rfl
    exact h.trans reapplyLocked_settles
  · exact .rfl

theorem checkDeadline_settles : c.Settles c.checkDeadline := by
  unfold checkDeadline
  split
  · exact lockLocal_settles
  · split_ifs
    · exact showAssignment_settles
    · exact lockLocal_settles.trans showAssignment_settles
    · exact .rfl

theorem tick_settles : c.Settles (c.tick env) := by
  unfold tick
  split
  · exact readMaintenance_settles.trans enterMaintenance_settles
  · exact (readMaintenance_settles.trans requireEnforcement_settles).trans
      (leaveMaintenance_settles.trans checkDeadline_settles)

theorem observe_settles (t : Instant) : c.Settles (c.observe t) :=
  .of_eq rfl rfl rfl id id rfl (le_max_left _ _)

theorem applyPolicy_settles (stationId : UUID) (signed : SignedStationPolicy) :
    c.Settles (c.applyPolicy stationId signed).2 := by
  unfold applyPolicy
  repeat' split
  all_goals exact .of_eq rfl rfl rfl id id rfl le_rfl

theorem openGap_settles : c.Settles c.openGap := by
  have h : ({ c with commandGap := true } : Runtime).Settles c.openGap := lockLocal_settles
  refine ⟨fun ha => absurd ha lockLocal_view, h.recovery, h.snapshots, h.trusted⟩

theorem prepare_settles : c.Settles c.prepare := .of_eq rfl rfl rfl id id rfl le_rfl

theorem reconciliationError_settles : c.Settles c.reconciliationError := errorCode_settles _

theorem move_settles (i : Move) : c.Settles (c.move env i) := by
  cases i with
  | pass d => exact .of_eq rfl rfl rfl id id rfl (le_add_of_nonneg_right (Int.natCast_nonneg d))
  | tick => exact tick_settles
  | tokenExpires => exact .of_eq rfl rfl rfl id id rfl le_rfl
  | maintenanceFile f => exact .of_eq rfl rfl rfl id id rfl le_rfl
  | appIdentity running => exact .of_eq rfl rfl rfl id id rfl le_rfl
  | policyTakes d => exact .of_eq rfl rfl rfl id id rfl le_rfl

end Runtime

end GManager.Client

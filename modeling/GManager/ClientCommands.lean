import GManager.ClientEntitlement

/-!
# Commands are applied in order and survive crashes

`Applies` bounds what an event may do to the cursors and the acknowledgements, `Resumes` what a restart takes
up. The saved cursor moves by one, past a command that was delivered and whose lock is in place; only what is
saved is acknowledged; a pending lock is let go for one of the reasons of `Obsolete`, or with a crash before
the cursor moved past its command, which is then delivered again.
-/

namespace GManager.Client

variable {env : ClientEnvironment} {offered : MachineCommand → Bool} {k : Job} {s : UUID} {n : ℤ}

/-- The cursor in memory. -/
def Runtime.applied (c : Runtime) : ℤ := (c.recovery.map (·.appliedSequence)).getD 0

def ClientRecoveryState.PendingLock (s : UUID) (n : ℤ) (r : ClientRecoveryState) : Prop :=
  r.pendingLockSequence = some n ∧ r.pendingLockSessionId = some s

/-- The lock is to be acknowledged. -/
def Runtime.LockPending (s : UUID) (n : ℤ) (c : Runtime) : Prop :=
  ∃ r, c.recovery = some r ∧ r.PendingLock s n

def Runtime.SavedPending (s : UUID) (n : ℤ) (c : Runtime) : Prop :=
  ∃ r, c.snapshots.head? = some r ∧ r.PendingLock s n

/-- Why a pending lock need not be acknowledged any more. -/
inductive Obsolete (env : ClientEnvironment) (s : UUID) (n : ℤ) (w w' : Runtime × Exchanges) : Prop
  | accepted (h : (s, n) ∈ w.2.lockAcknowledged)
  | lease {r} (hr : w.1.recovery = some r) (hv : r.Verified env) (ha : r.lease.directive = .active)
      (hs : r.lease.sessionId ≠ some s)
  | started {command started} (hd : Delivered env w.2 command started) (ht : command.type = .sessionStarted)
      (he : command.expired = false) (hn : n < command.sequence)
  | overtaken {command other} (hd : Delivered env w.2 command other) (hl : command.Locks)
      (hn : n < command.sequence) (hp : w'.1.LockPending other command.sequence)

structure Applies (env : ClientEnvironment) (w w' : Runtime × Exchanges) : Prop where
  persisted : w'.1.persisted = w.1.persisted ∨
    w'.1.persisted = w.1.persisted + 1 ∧ InPlace env w' w'.1.persisted ∧ w'.1.snapshots.head? = w'.1.recovery
  applied : w'.1.applied = w.1.applied ∨ w'.1.applied = w.1.applied + 1 ∧ InPlace env w w'.1.applied
  recorded : ∀ s n, w'.1.LockPending s n → w.1.LockPending s n ∨ n = w.1.applied + 1
  acknowledged : ∀ n ∈ w'.2.acknowledged, n ∈ w.2.acknowledged ∨ n ≤ w.1.persisted
  lockAcknowledged : ∀ p ∈ w'.2.lockAcknowledged, p ∈ w.2.lockAcknowledged ∨
    w.1.LockPending p.1 p.2 ∧ p.2 ≤ w.1.persisted ∧ ∃ r ∈ w.1.recovery, r.locallyLocked = true
  dropped : ∀ s n, w.1.LockPending s n → w'.1.LockPending s n ∨ Obsolete env s n w w'
  saved : ∀ s n, w.1.SavedPending s n → w'.1.SavedPending s n ∨ ¬ w.1.LockPending s n

structure Resumes (w w' : Runtime × Exchanges) : Prop where
  rest : w'.2 = w.2
  persisted : w'.1.persisted = w.1.persisted
  applied : w'.1.applied = w.1.persisted
  pending : ∀ s n, w'.1.LockPending s n ↔ w.1.SavedPending s n
  dropped : ∀ s n, w.1.LockPending s n → w'.1.LockPending s n ∨ w.1.persisted < n

/-! ### Changes of the recovery state -/

namespace Runtime

variable {c c' : Runtime} {r : ClientRecoveryState} {f : ClientRecoveryState → ClientRecoveryState}

theorem applied_of_eq (hr : c.recovery = some r) : c.applied = r.appliedSequence := by
  rw [applied, hr]
  rfl

theorem applied_updateRecovery (hf : ∀ r, (f r).appliedSequence = r.appliedSequence) :
    (c.updateRecovery f).applied = c.applied := by
  unfold applied updateRecovery
  cases c.recovery with
  | none => rfl
  | some r => exact hf r

theorem lockPending_iff (hr : c.recovery = some r) : c.LockPending s n ↔ r.PendingLock s n := by
  refine ⟨fun h => ?_, fun h => ⟨r, hr, h⟩⟩
  obtain ⟨r', hr', h⟩ := h
  cases hr.symm.trans hr'
  exact h

theorem not_lockPending (hn : c.recovery = none) : ¬ c.LockPending s n := fun h => by
  obtain ⟨r, hr, -⟩ := h
  cases hn.symm.trans hr

theorem lockPending_updateRecovery (hf : ∀ r, (f r).PendingLock s n ↔ r.PendingLock s n) :
    (c.updateRecovery f).LockPending s n ↔ c.LockPending s n := by
  cases hr : c.recovery with
  | none =>
    have hn : (c.updateRecovery f).recovery = none := by rw [updateRecovery, hr]; rfl
    exact iff_of_false (not_lockPending hn) (not_lockPending hr)
  | some r => rw [lockPending_iff (updateRecovery_of_eq hr f), lockPending_iff hr, hf]

theorem saveRecovery_applied : c.saveRecovery.applied = c.applied := by
  unfold saveRecovery
  split
  · rfl
  · rename_i r hr
    rw [applied_of_eq hr]
    rfl

theorem saveRecovery_lockPending : c.saveRecovery.LockPending s n ↔ c.LockPending s n := by
  unfold saveRecovery
  split
  · rfl
  · rename_i r hr
    rw [lockPending_iff hr, lockPending_iff (c := { c with recovery := _, snapshots := _ }) rfl]
    rfl

theorem saveRecovery_persisted (hr : c.recovery = some r) : c.saveRecovery.persisted = r.appliedSequence := by
  rw [saveRecovery_of_eq hr]
  rfl

theorem saveRecovery_savedPending (hr : c.recovery = some r) : c.saveRecovery.SavedPending s n ↔
    c.LockPending s n := by
  rw [saveRecovery_of_eq hr, lockPending_iff hr]
  refine ⟨fun h => ?_, fun h => ⟨_, rfl, h⟩⟩
  obtain ⟨r', hr', h⟩ := h
  cases hr'
  exact h

theorem adopt_lockPending {envelope : SignedSessionLease} {lease : SessionLease} {b : Bool} :
    (c.adopt envelope lease b).LockPending s n ↔ c.LockPending s n := by
  rw [lockPending_iff (c := c.adopt envelope lease b) rfl]
  cases hr : c.recovery with
  | none =>
    refine iff_of_false (fun h => ?_) (not_lockPending hr)
    cases h.1
  | some r => exact (lockPending_iff hr).symm

theorem Settles.applied (h : c.Settles c') : c'.applied = c.applied := by
  have h := h.recovery
  unfold Runtime.applied
  generalize c.recovery = o, c'.recovery = o' at h ⊢
  cases h with
  | none => rfl
  | some hl => exact hl.appliedSequence

theorem Settles.lockPending (h : c.Settles c') : c'.LockPending s n ↔ c.LockPending s n := by
  have h := h.recovery
  unfold LockPending ClientRecoveryState.PendingLock
  generalize c.recovery = o, c'.recovery = o' at h ⊢
  cases h with
  | none => rfl
  | some hl => simp [hl.pendingLockSequence, hl.pendingLockSessionId]

theorem LockInPlace.saveRecovery (h : c.LockInPlace s n) : c.saveRecovery.LockInPlace s n := by
  obtain ⟨hv, r, hr, hp⟩ := h
  rw [saveRecovery_of_eq hr]
  exact ⟨hv, _, rfl, hp⟩

end Runtime

/-! ### The acts -/

namespace Applies

variable {c c' : Runtime} {x : Exchanges} {w w' : Runtime × Exchanges}

/-- The cursors and what is pending stay. -/
theorem of_same (hs : c'.snapshots = c.snapshots) (ha : c'.applied = c.applied)
    (hp : ∀ s n, c'.LockPending s n ↔ c.LockPending s n) : Applies env (c, x) (c', x) where
  persisted := .inl (by rw [Runtime.persisted, hs, Runtime.persisted])
  applied := .inl ha
  recorded s n h := .inl ((hp s n).1 h)
  acknowledged _ h := .inl h
  lockAcknowledged _ h := .inl h
  dropped s n h := .inl ((hp s n).2 h)
  saved s n h := .inl (by rw [Runtime.SavedPending, hs]; exact h)

theorem of_settles (h : c.Settles c') : Applies env (c, x) (c', x) :=
  of_same h.snapshots h.applied fun _ _ => h.lockPending

theorem updateRecovery {f : ClientRecoveryState → ClientRecoveryState}
    (hf : ∀ r, (f r).appliedSequence = r.appliedSequence)
    (hp : ∀ r s n, (f r).PendingLock s n ↔ r.PendingLock s n) : Applies env (c, x) (c.updateRecovery f, x) :=
  of_same rfl (Runtime.applied_updateRecovery hf) fun s n =>
    Runtime.lockPending_updateRecovery fun r => hp r s n

theorem carry {x' : Exchanges} (h : Carries c x x') : Applies env (c, x) (c, x') where
  persisted := .inl rfl
  applied := .inl rfl
  recorded _ _ h := .inl h
  acknowledged m hm := by
    cases h with
    | acknowledge x hr hp hn =>
      rcases List.mem_cons.1 hm with rfl | hm
      · exact .inr hn
      · exact .inl hm
    | _ => exact .inl hm
  lockAcknowledged p hp := by
    cases h with
    | acknowledgeLock x hr hn hs hl hle =>
      rcases List.mem_cons.1 hp with rfl | hp
      · exact .inr ⟨⟨_, hr, hn, hs⟩, hle, _, hr, hl⟩
      · exact .inl hp
    | _ => exact .inl hp
  dropped _ _ h := .inl h
  saved _ _ h := .inl h

/-- Saving, when the cursor in memory is that saved before or one further. -/
theorem save (h : ∀ r, c.recovery = some r → r.appliedSequence = c.persisted ∨
    r.appliedSequence = c.persisted + 1 ∧ InPlace env (c, x) r.appliedSequence) :
    Applies env (c, x) (c.saveRecovery, x) := by
  cases hr : c.recovery with
  | none =>
    rw [Runtime.saveRecovery, hr]
    exact of_settles .rfl
  | some r =>
    refine ⟨?_, .inl Runtime.saveRecovery_applied, fun s n hp => .inl (Runtime.saveRecovery_lockPending.1 hp),
      fun _ => .inl, fun _ => .inl, fun s n hp =>
      .inl (Runtime.saveRecovery_lockPending.2 hp), fun s n _ => ?_⟩
    · have hp := Runtime.saveRecovery_persisted hr
      rcases h r hr with he | ⟨he, hi⟩
      · exact .inl (hp.trans he)
      · refine .inr ⟨hp.trans he, ?_, ?_⟩
        · rw [hp]
          obtain ⟨command, s, hd, hn, hl⟩ := hi
          exact ⟨command, s, hd, hn, fun hk => (hl hk).saveRecovery⟩
        · rw [Runtime.saveRecovery_of_eq hr]
          rfl
    · rw [or_iff_not_imp_right, not_not]
      exact (Runtime.saveRecovery_savedPending hr).2

/-- A lock command takes the place of what was pending before it. -/
theorem lock {r : ClientRecoveryState} {command : MachineCommand} (hr : c.recovery = some r)
    (hd : Delivered env x command s) (hl : command.Locks) (hn : command.sequence = r.appliedSequence + 1)
    (hp : ∀ m ∈ r.pendingLockSequence, m ≤ r.appliedSequence) :
    Applies env (c, x) (c.recordLock s command.sequence, x) := by
  have hr' : (c.recordLock s command.sequence).recovery = some _ := Runtime.updateRecovery_of_eq hr _
  have happ : (c.recordLock s command.sequence).applied = c.applied :=
    Runtime.applied_updateRecovery fun _ => rfl
  refine ⟨.inl rfl, .inl happ, fun s' n h => .inr ?_, fun _ => .inl, fun _ => .inl, fun s' n h =>
    .inr ?_, fun _ _ => .inl⟩
  · have hn' := ((Runtime.lockPending_iff hr').1 h).1
    rw [Runtime.applied_of_eq hr, ← hn]
    exact (Option.some.inj hn').symm
  · have hle := hp n ((Runtime.lockPending_iff hr).1 h).1
    exact .overtaken hd hl (by omega) ⟨_, hr', rfl, rfl⟩

/-- A start that the lease admits lifts a lock with a lower sequence. -/
theorem start {r : ClientRecoveryState} {command : MachineCommand} (hr : c.recovery = some r)
    (hd : Delivered env x command s) (ht : command.type = .sessionStarted) (he : command.expired = false) :
    Applies env (c, x) (c.recordStart s command.sequence, x) := by
  by_cases ha : r.admitsStart s command.sequence
  · have hr' : (c.recordStart s command.sequence).recovery = some _ := Runtime.updateRecovery_of_eq hr _
    rw [ClientRecoveryState.acceptStarted, if_pos ha] at hr'
    have happ : (c.recordStart s command.sequence).applied = c.applied := by
      rw [Runtime.applied_of_eq hr', Runtime.applied_of_eq hr]
    refine ⟨.inl rfl, .inl happ, fun s' n h => ?_, fun _ => .inl, fun _ => .inl, fun s' n h =>
      .inr ?_, fun _ _ => .inl⟩
    · cases ((Runtime.lockPending_iff hr').1 h).1
    · exact .started hd ht he (ha.2.2.2.2 n ((Runtime.lockPending_iff hr).1 h).1)
  · have hsame : (c.recordStart s command.sequence).recovery = c.recovery := by
      rw [Runtime.recordStart, Runtime.updateRecovery_of_eq hr,
        ClientRecoveryState.acceptStarted, if_neg ha, hr]
    refine of_same rfl ?_ fun s' n => ?_
    · rw [Runtime.applied, hsame, Runtime.applied]
    · rw [Runtime.LockPending, hsame, Runtime.LockPending]

theorem advance {r : ClientRecoveryState} (hr : c.recovery = some r) (hn : n = r.appliedSequence + 1)
    (h : InPlace env (c, x) n) : Applies env (c, x) (c.updateRecovery fun r =>
      { r with appliedSequence := n, pendingCommandAckSequence := some n }, x) := by
  have happ : (c.updateRecovery fun r =>
      { r with appliedSequence := n, pendingCommandAckSequence := some n }).applied = n :=
    Runtime.applied_of_eq (Runtime.updateRecovery_of_eq hr _)
  refine ⟨.inl rfl, .inr ⟨?_, ?_⟩, fun s m hm => .inl ?_, fun _ => .inl, fun _ => .inl, fun s m hm =>
    .inl ?_, fun _ _ => .inl⟩
  · exact happ.trans (by rw [Runtime.applied_of_eq hr, hn])
  · exact happ.symm ▸ h
  · refine (Runtime.lockPending_updateRecovery fun r => ?_).1 hm
    exact .rfl
  · refine (Runtime.lockPending_updateRecovery fun r => ?_).2 hm
    exact .rfl

theorem dropLock {r : ClientRecoveryState} (hv : r.Verified env) (hr : c.recovery = some r)
    (hp : r.PendingLock s n) (h : (s, n) ∈ x.lockAcknowledged ∨ r.lease.directive = .active ∧
      r.lease.sessionId ≠ some s) :
    Applies env (c, x) (c.dropPendingLock, x) := by
  have hr' : c.dropPendingLock.recovery = some _ := Runtime.updateRecovery_of_eq hr _
  have happ : c.dropPendingLock.applied = c.applied := Runtime.applied_updateRecovery fun _ => rfl
  refine ⟨.inl rfl, .inl happ, fun s' m hm => ?_, fun _ => .inl, fun _ => .inl, fun s' m hm =>
    .inr ?_, fun _ _ => .inl⟩
  · cases ((Runtime.lockPending_iff hr').1 hm).1
  · obtain ⟨hm, hs⟩ := (Runtime.lockPending_iff hr).1 hm
    cases hp.1.symm.trans hm
    cases hp.2.symm.trans hs
    rcases h with h | ⟨ha, hs⟩
    · exact .accepted h
    · exact .lease hr hv ha hs

theorem acts (hg : Guarded env w) (h : Acts env w w') : Applies env w w' := by
  cases h with
  | settle h => exact of_settles h
  | carry h => exact carry h
  | dropAck | block => exact updateRecovery (fun _ => rfl) fun _ _ _ => .rfl
  | start hr hd ht he => exact start hr hd ht he
  | lock hr hd hl hn _ hp => exact lock hr hd hl hn hp
  | advance hr hn _ h => exact advance hr hn h
  | save h => exact save h
  | dropLock hr hp hs h => exact dropLock (hg.verified _ hr) hr ⟨hp, hs⟩ h

theorem adopt {envelope : SignedSessionLease} {lease : SessionLease} (b : Bool) :
    Applies env (c, x) (c.adopt envelope lease b, x) := of_same rfl rfl fun _ _ => Runtime.adopt_lockPending

theorem enter {r : ClientRecoveryState} (result : CustomerSession) (hr : c.recovery = some r)
    (hc : c.Current) : Applies env (c, x) ((c.enter result r.lease).2, x) := by
  rcases c.enter_cases result r.lease with h | ⟨-, -, h⟩
  · exact of_settles h
  · have hu : c.unlock.recovery = some r := c.unlock_recovery.trans hr
    have hw : (c.unlock.welcome result).recovery = some { r with locallyLocked := false } :=
      Runtime.updateRecovery_of_eq hu _
    have hpers : (c.unlock.welcome result).persisted = c.persisted := by
      show c.unlock.persisted = c.persisted
      rw [Runtime.persisted, c.unlock_snapshots, Runtime.persisted]
    have hsave : Applies env (c.unlock.welcome result, x) ((c.unlock.welcome result).saveRecovery, x) := by
      refine save fun r' hr' => .inl ?_
      cases hw.symm.trans hr'
      exact (hc.saved r hr).trans hpers.symm
    have happ : (c.unlock.welcome result).applied = c.applied := by
      rw [Runtime.applied_of_eq hw, Runtime.applied_of_eq hr]
    have hpend : ∀ s n, (c.unlock.welcome result).LockPending s n ↔ c.LockPending s n := fun s n => by
      rw [Runtime.lockPending_iff hw, Runtime.lockPending_iff hr]
      rfl
    rw [h]
    refine ⟨.inl ?_, .inl (Runtime.saveRecovery_applied.trans happ), fun s n hp => .inl ?_, fun _ => .inl,
      fun _ => .inl, fun s n hp =>
      .inl (Runtime.saveRecovery_lockPending.2 ((hpend s n).2 hp)), fun s n _ => ?_⟩
    · exact (Runtime.saveRecovery_persisted hw).trans (hc.saved r hr)
    · exact (hpend s n).1 (Runtime.saveRecovery_lockPending.1 hp)
    · rw [or_iff_not_imp_right, not_not]
      exact fun hp => (Runtime.saveRecovery_savedPending hw).2 ((hpend s n).2 hp)

theorem does (hg : Guarded env w) (h : Does env k w w') : Applies env w w' := by
  cases h with
  | act h => exact acts hg h
  | adopt b => exact adopt b
  | enter _ hr hc => exact enter _ hr hc

end Applies

/-! ### Restarts -/

/-- A lock that is pending is saved, or the cursor saved is still the one before its command. -/
def Recorded (w : Runtime × Exchanges) : Prop :=
  ∀ s n, w.1.LockPending s n → w.1.SavedPending s n ∨ n = w.1.persisted + 1

theorem Recorded.settles {c c' : Runtime} {x : Exchanges} (hw : Recorded (c, x)) (h : c.Settles c') :
    Recorded (c', x) := by
  intro s n hp
  rw [Runtime.SavedPending, h.snapshots, h.persisted]
  exact hw s n (h.lockPending.1 hp)

/-- Nothing new is pending and nothing is saved. -/
theorem Recorded.of_imp {c c' : Runtime} {x x' : Exchanges} (hw : Recorded (c, x))
    (hs : c'.snapshots = c.snapshots) (hp : ∀ s n, c'.LockPending s n → c.LockPending s n) :
    Recorded (c', x') := by
  intro s n h
  have hpers : c'.persisted = c.persisted := by rw [Runtime.persisted, hs, Runtime.persisted]
  rw [Runtime.SavedPending, hs, hpers]
  exact hw s n (hp s n h)

theorem Recorded.save {c : Runtime} {x : Exchanges} : Recorded (c.saveRecovery, x) := by
  intro s n h
  obtain ⟨r, hr, -⟩ := Runtime.saveRecovery_lockPending.1 h
  exact .inl ((Runtime.saveRecovery_savedPending hr).2 (Runtime.saveRecovery_lockPending.1 h))

theorem Recorded.acts {w w' : Runtime × Exchanges} (hw : Recorded w) (h : Acts env w w') :
    Recorded w' := by
  cases h with
  | settle h => exact hw.settles h
  | carry => exact hw.of_imp rfl fun _ _ => id
  | save => exact .save
  | @lock c x r command s hr _ _ hn ha =>
    intro s' n hp
    have hr' : (c.recordLock s command.sequence).recovery = some _ := Runtime.updateRecovery_of_eq hr _
    have hn' := ((Runtime.lockPending_iff hr').1 hp).1
    refine .inr ?_
    show n = c.persisted + 1
    rw [← ha, ← hn]
    exact (Option.some.inj hn').symm
  | start =>
    refine hw.of_imp rfl fun s n hp => ?_
    obtain ⟨r', hr', hp⟩ := hp
    obtain ⟨r, hr, rfl⟩ := Option.map_eq_some_iff.1 hr'
    refine ⟨r, hr, ?_⟩
    unfold ClientRecoveryState.acceptStarted at hp
    split at hp
    · cases hp.1
    · exact hp
  | dropAck | advance | block =>
    refine hw.of_imp rfl fun s n hp => ?_
    refine (Runtime.lockPending_updateRecovery fun r => ?_).1 hp
    exact .rfl
  | dropLock hr =>
    refine hw.of_imp rfl fun s n hp => ?_
    cases ((Runtime.lockPending_iff (Runtime.updateRecovery_of_eq hr _)).1 hp).1

theorem Recorded.does {w w' : Runtime × Exchanges} (hw : Recorded w) (h : Does env k w w') : Recorded w' := by
  cases h with
  | act h => exact hw.acts h
  | adopt => exact hw.of_imp rfl fun _ _ => Runtime.adopt_lockPending.1
  | @enter c x r result _ hr hc =>
    rcases c.enter_cases result r.lease with h | ⟨-, -, h⟩
    · exact hw.settles h
    · rw [h]
      exact .save

theorem Guarded.resumes {c : Runtime} {x : Exchanges} (h : Guarded env (c, x)) (hw : Recorded (c, x))
    (utcNow : Instant) : Resumes (c, x) (c.restart env utcNow, x) := by
  have hr : c.Restarted env (c.restart env utcNow) := c.restart_restarted utcNow
  have hcur : (c.restart env utcNow).Current := (h.restart hr).2
  have hpers : (c.restart env utcNow).persisted = c.persisted := by
    rw [Runtime.persisted, hr.snapshots, Runtime.persisted]
  have hpend : ∀ s n, (c.restart env utcNow).LockPending s n ↔ c.SavedPending s n := fun s n => by
    rcases hr.recovery with ⟨r, r', st, hhead, hr', ht, -⟩ | ⟨hn, hs⟩
    · rw [Runtime.lockPending_iff hr', Runtime.SavedPending, hhead]
      simp [ClientRecoveryState.PendingLock, ht.pendingLockSequence, ht.pendingLockSessionId]
    · refine iff_of_false (Runtime.not_lockPending hn) fun hp => ?_
      obtain ⟨r, hhead, -⟩ := hp
      have hmem := List.mem_of_mem_head? hhead
      rcases hs with hs | hst
      · rw [hs] at hmem
        cases hmem
      · obtain ⟨⟨st, hst', -⟩, -⟩ := h.saved r hmem
        cases hst.symm.trans hst'
  refine ⟨rfl, hpers, ?_, hpend, fun s n hp => ?_⟩
  · show (c.restart env utcNow).applied = c.persisted
    rw [← hpers]
    cases hrec : (c.restart env utcNow).recovery with
    | none =>
      rw [Runtime.applied, hrec, hcur.fresh hrec]
      rfl
    | some r => exact (Runtime.applied_of_eq hrec).trans (hcur.saved r hrec)
  · rcases hw s n hp with h | h
    · exact .inl ((hpend s n).2 h)
    · exact .inr (by show c.persisted < n; have h : n = c.persisted + 1 := h; omega)

/-! ### Runs -/

section

variable {c : ClientConfig} {e : ClientEvent} {w' : Runtime × Exchanges}

theorem Recorded.step (hw : Recorded c.world) (hg : Guarded env c.world)
    (h : (client env offered).Step (Does env) c e w') :
    Recorded w' := by
  cases h with
  | still => exact hw
  | move i => exact hw.settles (c.own.move_settles i)
  | go _ h | answer _ _ h => exact hw.does h
  | restart n =>
    have hr := hg.resumes hw n
    intro s m hp
    refine .inl ?_
    show (c.own.restart env n).SavedPending s m
    rw [Runtime.SavedPending, (c.own.restart_restarted n).snapshots]
    exact (hr.pending s m).1 hp

theorem Guarded.step_applies (hg : Guarded env c.world) (h : (client env offered).Step (Does env) c e w')
    (he : ∀ n, e ≠ .restart n) : Applies env c.world w' := by
  cases h with
  | still => exact .of_settles .rfl
  | move i => exact .of_settles (c.own.move_settles i)
  | go _ h | answer _ _ h => exact .does hg h
  | restart n => exact absurd rfl (he n)

end

theorem run_recorded (env : ClientEnvironment) (offered : MachineCommand → Bool) (utcNow : Instant)
    (es : List ClientEvent) : Recorded ((client env offered).run (firstStart env utcNow) es).world := by
  refine (client_verified env offered).always (fun c e w hc hw h => hw.step hc.inv h)
    (firstStart_sound env offered utcNow) (fun s n hp => .inl ?_) es
  have hr : Runtime.installed.Restarted env (firstStart env utcNow).own :=
    Runtime.installed.restart_restarted utcNow
  obtain ⟨r, hrec, -⟩ := hp
  rcases hr.recovery with ⟨r', -, -, hhead, -⟩ | ⟨hn, -⟩
  · cases hhead
  · cases hn.symm.trans hrec

/-- The polls hand out commands of the stream, which may expire on the way. -/
def offers (stream : ℤ → MachineCommand) (command : MachineCommand) : Bool :=
  command = { stream command.sequence with expired := command.expired }

theorem answer_delivered {r : MachineRequest} {a : Answer} {x : Exchanges} {command : MachineCommand}
    (h : command ∈ (Exchanges.answer offered r a x).2.delivered) : command ∈ x.delivered ∨
    offered command = true := by
  cases r with
  | commands =>
    cases a with
    | commands cs =>
      rcases List.mem_append.1 h with h | h
      · exact .inr (List.mem_filter.1 h).2
      · exact .inl h
    | _ => exact .inl h
  | ack | lockAck =>
    refine .inl ?_
    simp only [Exchanges.answer] at h
    split at h <;> exact h
  | _ => cases a <;> exact .inl h

/-- What was delivered had been offered. -/
theorem run_delivered (c : ClientConfig) (es : List ClientEvent)
    (hc : ∀ command ∈ c.rest.delivered, offered command = true) :
    ∀ command ∈ ((client env offered).run c es).rest.delivered, offered command = true := by
  induction es generalizing c with
  | nil => exact hc
  | cons e es ih =>
    refine ih _ fun command h => ?_
    obtain ⟨own, rest, running⟩ := c
    cases e with
    | move | restart => exact hc command h
    | go =>
      match running with
      | none | some (_, .pure _) | some (_, .throw _) | some (_, .call ..) | some (_, .act ..) =>
        exact hc command h
    | start k =>
      match running with
      | none | some (_, .pure _) | some (_, .throw _) | some (_, .call ..) | some (_, .act ..) =>
        exact hc command h
    | answer a =>
      match running with
      | none | some (_, .pure _) | some (_, .throw _) | some (_, .act ..) => exact hc command h
      | some (_, .call ..) => exact (answer_delivered h).elim (hc command) id

/-- The saved cursor has just moved past the command `n` of the stream: it was delivered, and if it locks
and was never seen expired, its lock is in place and saved. -/
structure Applied (env : ClientEnvironment) (stream : ℤ → MachineCommand) (n : ℤ)
    (w : Runtime × Exchanges) : Prop where
  persisted : w.1.persisted = n
  delivered : ∃ command ∈ w.2.delivered, command.sequence = n
  locks : (stream n).type = .sessionTerminated ∨ (stream n).type = .forceLock →
    (∀ command ∈ w.2.delivered, command.sequence = n → command.expired = false) →
    ∃ st s, env.stationId = some st ∧ (stream n).validate st = .ok s ∧ w.1.LockInPlace s n
  saved : w.1.snapshots.head? = w.1.recovery

theorem InPlace.applied {stream : ℤ → MachineCommand} {w : Runtime × Exchanges} (h : InPlace env w n)
    (hp : w.1.persisted = n) (hs : w.1.snapshots.head? = w.1.recovery)
    (ho : ∀ command ∈ w.2.delivered, offers stream command = true) :
    Applied env stream n w := by
  obtain ⟨command, s, hd, rfl, hl⟩ := h
  have hsame : command = { stream command.sequence with expired := command.expired } :=
    of_decide_eq_true (ho command hd.mem)
  refine ⟨hp, ⟨command, hd.mem, rfl⟩, fun ht he => ?_, hs⟩
  obtain ⟨st, hst, hv⟩ := hd.valid
  have htype := congrArg MachineCommand.type hsame
  have hvalid := congrArg (fun command : MachineCommand => command.validate st) hsame
  exact ⟨st, s, hst, hvalid.symm.trans hv, hl ⟨he command hd.mem rfl, htype ▸ ht⟩⟩

/-- Over every run, whatever the network, the polls and the crashes: an event other than a restart
moves each cursor by at most one command, in order and after its effect, and acknowledges only what
is saved; a restart takes up what is saved; and every command up to the saved cursor was delivered
and, if it locks, locked. -/
theorem commands_applied (env : ClientEnvironment) (stream : ℤ → MachineCommand) (utcNow : Instant)
    (es : List ClientEvent) :
    let M := client env (offers stream)
    let c := M.run (firstStart env utcNow) es
    (∀ e, (∀ n, e ≠ .restart n) → Applies env c.world (M.next c e).world) ∧
    (∀ n, Resumes c.world (M.next c (.restart n)).world) ∧
    ∀ n, 0 < n → n ≤ c.own.persisted → ∃ xs e ys, es = xs ++ e :: ys ∧
      (M.run (firstStart env utcNow) xs).own.persisted = n - 1 ∧
      Applied env stream n (M.run (firstStart env utcNow) (xs ++ [e])).world := by
  have v := client_verified env (offers stream)
  have h₀ := firstStart_sound env (offers stream) utcNow
  have hc := v.run h₀ es
  refine ⟨fun e he => hc.inv.step_applies (v.step h₀ es e) he, fun n =>
    hc.inv.resumes (run_recorded env _ utcNow es) n, fun n hn hle => ?_⟩
  have hstart : ¬ n ≤ (firstStart env utcNow).own.persisted := by
    have hr : Runtime.installed.Restarted env (firstStart env utcNow).own :=
      Runtime.installed.restart_restarted utcNow
    have hzero : (firstStart env utcNow).own.persisted = 0 := by
      rw [Runtime.persisted, hr.snapshots]
      rfl
    omega
  obtain ⟨xs, e, ys, rfl, hb, ha⟩ :=
    System.exists_event (M := client env (offers stream)) (P := fun c => n ≤ c.own.persisted) hstart hle
  have hx := v.run h₀ xs
  have hstep := v.step h₀ xs e
  have hdel :
    ∀ command ∈ ((client env (offers stream)).run (firstStart env utcNow) (xs ++ [e])).rest.delivered,
      offers stream command = true := run_delivered _ _ fun _ h => absurd h List.not_mem_nil
  rw [System.run_concat] at hdel
  refine ⟨xs, e, ys, rfl, ?_⟩
  rw [System.run_concat]
  by_cases he : ∃ t, e = .restart t
  · obtain ⟨t, rfl⟩ := he
    have hp := (hx.inv.resumes (run_recorded env _ utcNow xs) t).persisted
    exact absurd (hp ▸ ha) hb
  · rcases (hx.inv.step_applies hstep fun t ht => he ⟨t, ht⟩).persisted with hp | ⟨hp, hi, hs⟩
    · exact absurd (hp ▸ ha) hb
    · have hn' : n = ((client env (offers stream)).next
          ((client env (offers stream)).run (firstStart env utcNow) xs) e).own.persisted := by
        have hp := hp
        simp only [Config.world] at hp
        omega
      refine ⟨?_, (hn' ▸ hi).applied hn'.symm hs hdel⟩
      simp only [Config.world] at hp
      omega

namespace Handover

/-- One poll brings a lock of session 1 and one of session 2. -/
def twoLocks : List ClientEvent :=
  job .refresh [.done, .policy policy, signed none 2,
    .commands [command 1 .forceLock 1, command 2 .forceLock 2]]

def twoLocksDone : List ClientEvent := twoLocks ++ resume [.done, .done, .done, .done]

/-- The pending lock of session 1 is gone, though only that of session 2 was accepted and no
lease or start came between. -/
theorem lock_unacknowledged :
    (run twoLocks).own.snapshots.head?.map (fun r => (r.pendingLockSequence, r.pendingLockSessionId)) =
        some (some 1, some 1) ∧
      (run twoLocksDone).own.snapshots.head?.map (fun r => (r.pendingLockSequence, r.pendingLockSessionId)) =
        some (none, none) ∧
      (run twoLocksDone).rest.lockAcknowledged = [(2, 2)] ∧
      (run twoLocksDone).rest.leases = [⟨.lease (lease none 2), true, true⟩] ∧
      (run twoLocksDone).rest.delivered = [command 1 .forceLock 1, command 2 .forceLock 2] := by
  decide +kernel

end Handover

end GManager.Client

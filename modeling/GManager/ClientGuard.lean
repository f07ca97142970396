import GManager.ClientJobs

/-!
# The guard of the station client

`Guarded` holds at every moment of every run: the lease in memory and every saved one bears the server's
signature, what is pending belongs to applied commands, and while a session is active nothing is locked, no
command gap is open and the session is not the blocked one.
-/

namespace GManager.Client

variable {env : ClientEnvironment} {offered : MachineCommand → Bool} {k : Job}

/-- The lease of the recovery state is the verified content of its envelope. -/
def ClientRecoveryState.Verified (env : ClientEnvironment) (r : ClientRecoveryState) : Prop :=
  ∃ st, env.stationId = some st ∧ r.envelope.verify st = .ok r.lease

/-- The client shows the session as active. -/
structure Runtime.Shows (c : Runtime) (s : UUID) : Prop where
  active : c.view.mode = .active
  session : c.view.sessionId = some s

/-- The session that is locally blocked. -/
def Runtime.blocked (c : Runtime) : Option UUID := c.recovery.bind (·.blockedSessionId)

/-- What an active session requires at every moment. -/
structure Runtime.Open (c : Runtime) : Prop where
  locallyLocked : c.locallyLocked = false
  maintenance : c.maintenance = false
  commandGap : c.commandGap = false
  shown : ∃ r s, c.recovery = some r ∧ c.view.sessionId = some s ∧ r.blockedSessionId ≠ some s

structure Guarded (env : ClientEnvironment) (w : Runtime × Exchanges) : Prop where
  verified : ∀ r, w.1.recovery = some r → r.Verified env
  saved : ∀ r ∈ w.1.snapshots, r.Verified env ∧ r.PendingApplied
  active : w.1.view.mode = .active → w.1.Open

theorem closed_guarded : Closed (Guarded env) := by
  rintro c c' x ⟨hv, hs, ha⟩ h
  refine ⟨fun r' hr' => ?_, fun r hr => hs r (h.snapshots ▸ hr), fun hact => ?_⟩
  · obtain ⟨r, hr, hl⟩ := h.exists_of_mem hr'
    obtain ⟨st, hst, hverify⟩ := hv r hr
    exact ⟨st, hst, by rw [hl.envelope, hl.lease]; exact hverify⟩
  · have u := h.active hact
    obtain ⟨hl, hm, hg, r, s, hr, hsh, hb⟩ := ha (u.view ▸ hact)
    refine ⟨u.locallyLocked.trans hl, ?_, ?_, r, s, u.recovery.trans hr, by rw [u.view]; exact hsh, hb⟩
    · exact Bool.eq_false_iff.2 fun h => Bool.false_ne_true (hm.symm.trans (u.maintenance h))
    · exact Bool.eq_false_iff.2 fun h => Bool.false_ne_true (hg.symm.trans (u.commandGap h))

namespace Guarded

variable {c : Runtime} {x x' : Exchanges}

theorem rest (h : Guarded env (c, x)) : Guarded env (c, x') := ⟨h.verified, h.saved, h.active⟩

/-- Changes of the recovery state outside its lease, while no session is active or the block stays. -/
theorem updateRecovery (h : Guarded env (c, x)) {f : ClientRecoveryState → ClientRecoveryState}
    (he : ∀ r, (f r).envelope = r.envelope ∧ (f r).lease = r.lease)
    (hb : c.view.mode = .active → ∀ r s, (f r).blockedSessionId = some s → r.blockedSessionId = some s) :
    Guarded env (c.updateRecovery f, x) := by
  refine ⟨fun r' hr' => ?_, h.saved, fun ha => ?_⟩
  · obtain ⟨r, hr, rfl⟩ := Option.map_eq_some_iff.1 hr'
    obtain ⟨st, hst, hv⟩ := h.verified r hr
    exact ⟨st, hst, by rw [(he r).1, (he r).2]; exact hv⟩
  · obtain ⟨hl, hm, hg, r, s, hr, hs, hn⟩ := h.active ha
    exact ⟨hl, hm, hg, f r, s, Runtime.updateRecovery_of_eq hr f, hs, fun hb' => hn (hb ha r s hb')⟩

theorem saveRecovery (h : Guarded env (c, x)) (hp : ∀ r, c.recovery = some r → r.PendingApplied) :
    Guarded env (c.saveRecovery, x) := by
  cases hr : c.recovery with
  | none =>
    rw [Runtime.saveRecovery, hr]
    exact h
  | some r =>
    rw [Runtime.saveRecovery_of_eq hr]
    refine ⟨fun r' hr' => ?_, fun r' hr' => ?_, fun ha => ?_⟩
    · cases hr'
      exact h.verified r hr
    · rcases List.mem_cons.1 hr' with rfl | hr'
      · exact ⟨h.verified r hr, (hp r hr).lock, (hp r hr).ack⟩
      · exact h.saved r' hr'
    · obtain ⟨hl, hm, hg, r', s, hr', hs, hn⟩ := h.active ha
      cases hr.symm.trans hr'
      exact ⟨hl, hm, hg, _, s, rfl, hs, hn⟩

theorem acceptStarted_blocked (r : ClientRecoveryState) (s' : UUID) (n : ℤ) {s : UUID}
    (h : (r.acceptStarted s' n).blockedSessionId = some s) : r.blockedSessionId = some s := by
  unfold ClientRecoveryState.acceptStarted at h
  split at h
  · cases h
  · exact h

theorem acts {w w' : Runtime × Exchanges} (h : Guarded env w) (hd : Acts env w w') : Guarded env w' := by
  cases hd with
  | settle hs => exact closed_guarded _ _ _ h hs
  | carry => exact h.rest
  | save _ hp => exact h.saveRecovery hp
  | start => exact h.updateRecovery (fun r => ⟨by unfold ClientRecoveryState.acceptStarted; split <;> rfl,
      r.acceptStarted_lease _ _⟩) fun _ r s => acceptStarted_blocked r _ _
  | lock _ _ _ _ _ _ hv => exact h.updateRecovery (fun _ => ⟨rfl, rfl⟩) fun ha => absurd ha hv
  | block _ _ hv => exact h.updateRecovery (fun _ => ⟨rfl, rfl⟩) fun ha => absurd ha hv
  | dropAck | advance | dropLock => exact h.updateRecovery (fun _ => ⟨rfl, rfl⟩) fun _ _ _ => id

theorem adopt {st : UUID} {envelope : SignedSessionLease} {lease : SessionLease} {b : Bool}
    (h : Guarded env (c, x)) (hst : env.stationId = some st) (hv : envelope.verify st = .ok lease) :
    Guarded env (c.adopt envelope lease b, x) := by
  refine ⟨fun r hr => ?_, h.saved, fun ha => ?_⟩
  · cases hr
    exact ⟨st, hst, hv⟩
  · obtain ⟨hl, hm, hg, r, s, hr, hs, hn⟩ := h.active ha
    refine ⟨hl, hm, hg, _, s, rfl, hs, fun hb => hn ?_⟩
    obtain ⟨r', hr', hb⟩ := Option.bind_eq_some_iff.1 hb
    cases hr.symm.trans hr'
    exact hb

theorem enter {r : ClientRecoveryState} {result : CustomerSession} (h : Guarded env (c, x))
    (hr : c.recovery = some r) (hc : c.Current) : Guarded env ((c.enter result r.lease).2, x) := by
  rcases c.enter_cases result r.lease with hs | ⟨hm, -, he⟩
  · exact closed_guarded _ _ _ h hs
  · rw [he]
    obtain ⟨hsession, hgap, -, hblocked, -, -, hmaint⟩ := hm
    have hu : c.unlock.recovery = some r := (c.unlock_recovery).trans hr
    have hw : (c.unlock.welcome result).recovery = some { r with locallyLocked := false } :=
      Runtime.updateRecovery_of_eq hu _
    have hg : Guarded env (c.unlock.welcome result, x) := by
      refine ⟨fun r' hr' => ?_, ?_, fun _ =>
        ⟨rfl, c.unlock_maintenance.trans hmaint, c.unlock_commandGap.trans hgap, _,
          result.sessionId, hw, rfl, ?_⟩⟩
      · cases hw.symm.trans hr'
        exact h.verified r hr
      · intro r' hr'
        exact h.saved r' (c.unlock_snapshots ▸ hr')
      · rw [hsession]
        exact hblocked r hr
    refine hg.saveRecovery fun r' hr' => ?_
    cases hw.symm.trans hr'
    exact ⟨(hc.pending r hr).lock, (hc.pending r hr).ack⟩

theorem does {w w' : Runtime × Exchanges} (h : Guarded env w) (hd : Does env k w w') : Guarded env w' := by
  cases hd with
  | act hd => exact h.acts hd
  | adopt b hst hv => exact h.adopt hst hv
  | enter _ hr hc => exact h.enter hr hc

/-- A new process takes up what is saved. -/
theorem restart {c' : Runtime} (h : Guarded env (c, x)) (hr : c.Restarted env c') :
    Guarded env (c', x) ∧ Current (c', x) := by
  have hpers : c'.persisted = c.persisted := by rw [Runtime.persisted, hr.snapshots, Runtime.persisted]
  rcases hr.recovery with ⟨r, r', st, hhead, hr', ht, hst, hl⟩ | ⟨hn, hs⟩
  · obtain ⟨hv, hp⟩ := h.saved r (List.mem_of_mem_head? hhead)
    have hp' : r'.PendingApplied :=
      ⟨fun n hn => ht.appliedSequence ▸ hp.lock n (ht.pendingLockSequence ▸ hn),
        fun n hn => ht.appliedSequence ▸ hp.ack n (ht.pendingCommandAckSequence ▸ hn)⟩
    have happ : r'.appliedSequence = c'.persisted := by
      rw [hpers, Runtime.persisted, hhead]
      exact ht.appliedSequence
    refine ⟨⟨fun r₁ hr₁ => ?_, fun r₁ hr₁ => h.saved r₁ (hr.snapshots ▸ hr₁), fun ha => absurd ha hr.view⟩,
      fun hn => ?_, fun r₁ hr₁ => ?_, fun r₁ hr₁ => ?_⟩
    · cases hr'.symm.trans hr₁
      obtain ⟨st', hst', hverify⟩ := hv
      cases hst.symm.trans hst'
      exact ⟨st, hst, by rw [ht.envelope, hl _ hverify]; exact hverify⟩
    · cases hr'.symm.trans hn
    · cases hr'.symm.trans hr₁
      exact happ
    · cases hr'.symm.trans hr₁
      exact hp'
  · have hsnap : c.snapshots = [] := by
      refine hs.elim id fun hst => List.eq_nil_iff_forall_not_mem.2 fun r hmem => ?_
      obtain ⟨⟨st, hst', -⟩, -⟩ := h.saved r hmem
      cases hst.symm.trans hst'
    refine ⟨⟨fun r hr' => ?_, fun r hmem => h.saved r (hr.snapshots ▸ hmem), fun ha => absurd ha hr.view⟩,
      .of_none hn (hpers.trans ?_)⟩
    · cases hn.symm.trans hr'
    · rw [Runtime.persisted, hsnap]
      rfl

end Guarded

/-- The whole client: every event of every run is a move, a restart or a step of `Does`. -/
theorem client_verified (env : ClientEnvironment) (offered : MachineCommand → Bool) :
    (client env offered).Verified (Does env) (Guarded env) Current where
  move := closed_guarded.stable
  rest := closed_current.stable
  restart t w h := h.restart (w.1.restart_restarted t)
  keeps _ _ _ := Guarded.does
  job := process_does

theorem firstStart_sound (env : ClientEnvironment) (offered : MachineCommand → Bool) (utcNow : Instant) :
    (client env offered).Sound (Does env) (Guarded env) Current (firstStart env utcNow) := by
  have h : Guarded env (Runtime.installed, (⟨[], [], [], []⟩ : Exchanges)) :=
    ⟨(fun _ hr => nomatch hr), (fun _ hr => absurd hr List.not_mem_nil), (fun ha => nomatch ha)⟩
  obtain ⟨hg, hc⟩ := h.restart (Runtime.installed.restart_restarted utcNow)
  exact ⟨hg, fun _ => hc, (fun _ _ hp => nomatch hp)⟩

end GManager.Client

import GManager.ClientSteps

/-!
# What every job does

`process_does`: each job, under any interference, makes only the steps of `Does` and leaves the saved cursor
current; and a restart takes up what was saved last. `client_verified` puts this together for whole runs.
-/

namespace GManager.Client

open Proc (get modify stateful lift when failIf ifPresent)

variable {env : ClientEnvironment} {offered : MachineCommand → Bool} {k : Job} {α : Type} {st : UUID}
  {P : Runtime × Exchanges → Prop} {E : Exn → Runtime × Exchanges → Prop} {envelope : SignedSessionLease}
  {lease : SessionLease}

theorem holds_act {p : ClientProc α} {Q : α → Runtime × Exchanges → Prop}
    (h : (client env offered).toSurroundings.Holds (Acts env) P p Q E) :
    (client env offered).toSurroundings.Holds (Does env k) P p Q E := h.guarantee fun _ _ => .act

/-! ### Taking a lease -/

/-- The lease was handed out and bears the signature of the server. -/
structure Fetched (st : UUID) (envelope : SignedSessionLease) (lease : SessionLease)
    (x : Exchanges) : Prop where
  mem : envelope ∈ x.leases
  verified : envelope.verify st = .ok lease

/-- The lease may replace the one that recovery holds. -/
structure Vetted (st : UUID) (envelope : SignedSessionLease) (lease : SessionLease)
    (w : Runtime × Exchanges) : Prop where
  current : Current w
  fetched : Fetched st envelope lease w.2
  valid : validateRecovery w.1.recovery lease = .ok ()

/-- And the trusted clock has seen it. -/
def Observed (st : UUID) (envelope : SignedSessionLease) (lease : SessionLease)
    (w : Runtime × Exchanges) : Prop :=
  Vetted st envelope lease w ∧ lease.issuedAt ≤ w.1.trusted

/-- Recovery holds the lease. -/
def Holding (lease : SessionLease) (w : Runtime × Exchanges) : Prop :=
  ∃ r, w.1.recovery = some r ∧ r.lease = lease

theorem Runtime.Settles.validateRecovery {c c' : Runtime} (h : c.Settles c') :
    validateRecovery c'.recovery lease = validateRecovery c.recovery lease := by
  have h := h.recovery
  generalize c.recovery = o, c'.recovery = o' at h
  cases h with
  | none => rfl
  | some hl =>
    simp only [Client.validateRecovery]
    rw [hl.appliedSequence, hl.lease]

theorem closed_fetched : Closed fun w => Current w ∧ Fetched st envelope lease w.2 :=
  closed_current.and fun _ _ _ h _ => h

theorem closed_vetted : Closed (Vetted st envelope lease) := fun _ _ _ h hs =>
  ⟨closed_current _ _ _ h.current hs, h.fetched, hs.validateRecovery.trans h.valid⟩

theorem closed_observed : Closed (Observed st envelope lease) := fun _ _ _ h hs =>
  ⟨closed_vetted _ _ _ h.1 hs, h.2.trans hs.trusted⟩

theorem closed_holding : Closed (Holding lease) := by
  rintro c c' x ⟨r, hr, hl⟩ hs
  obtain ⟨r', hr', hlk⟩ := hs.exists_mem hr
  exact ⟨r', hr', hlk.lease.trans hl⟩

theorem Holding.updateRecovery {c : Runtime} {x : Exchanges} (h : Holding lease (c, x))
    {f : ClientRecoveryState → ClientRecoveryState} (hf : ∀ r, (f r).lease = r.lease) :
    Holding lease (c.updateRecovery f, x) := by
  obtain ⟨r, hr, hl⟩ := h
  exact ⟨f r, Runtime.updateRecovery_of_eq hr f, (hf r).trans hl⟩

theorem ClientRecoveryState.acceptStarted_lease (r : ClientRecoveryState) (s : UUID) (n : ℤ) :
    (r.acceptStarted s n).lease = r.lease := by
  unfold acceptStarted
  split <;> rfl

/-- Only a new lease replaces the one that recovery holds. -/
theorem Holding.acts {w w' : Runtime × Exchanges} (hw : Holding lease w) (h : Acts env w w') :
    Holding lease w' := by
  cases h with
  | settle h => exact closed_holding _ _ _ hw h
  | carry => exact hw
  | dropAck | lock | advance | dropLock | block => exact hw.updateRecovery fun _ => rfl
  | start => exact hw.updateRecovery fun r => r.acceptStarted_lease _ _
  | save =>
    obtain ⟨r, hr, hl⟩ := hw
    exact ⟨_, congrArg Runtime.recovery (Runtime.saveRecovery_of_eq hr), hl⟩

theorem fetchLease_holds : (client env offered).toSurroundings.Holds (Acts env) Current (fetchLease st)
    (fun p w => Current w ∧ Fetched st p.1 p.2 w.2) fun _ => Current := by
  have hclosed : ∀ l : SignedSessionLease, Closed fun w => Current w ∧ l ∈ w.2.leases := fun l =>
    closed_current.and fun _ _ _ h _ => h
  refine .bind (Q := fun l w => Current w ∧ l ∈ w.2.leases) ?_ fun envelope => .bind
    ((Surroundings.Holds.lift (hclosed envelope).stable).mono (fun _ => id) (fun _ _ => id) fun _ _ h =>
      h.2.1) fun lease => ?_
  · refine .request closed_current.stable (fun l => (hclosed l).stable)
      (fun _ => closed_current.stable) fun w a hw => ?_
    cases a with
    | lease l =>
      refine ⟨.carry (.handOut l _), fun l' hl => ?_, fun _ _ => hw⟩
      cases hl
      exact ⟨hw, List.mem_cons_self⟩
    | _ => exact ⟨.carry (.nothing _), (fun _ h => nomatch h), fun _ _ => hw⟩
  · exact .pure closed_fetched.stable fun w h => ⟨h.2.1, h.2.2, h.1⟩

theorem recoverSession_holds {s : UUID} : (client env offered).toSurroundings.Holds (Acts env) Current
    (send (.recoverSession s)) (fun _ => Current) fun _ => Current :=
  holds_send closed_current fun a _ => by cases a <;> rfl

theorem failIf_holds {p : Prop} [Decidable p] {e : Exn} (hP : Closed P) (h : ∀ w, P w → Current w) :
    (client env offered).toSurroundings.Holds (Acts env) P (failIf p e) (fun _ => P) fun _ => Current :=
  .ite (fun _ => .throw closed_current.stable h) fun _ => .pure hP.stable fun _ => id

theorem settledLease_holds : (client env offered).toSurroundings.Holds (Acts env) Current (settledLease st)
    (fun p w => Current w ∧ Fetched st p.1 p.2 w.2) fun _ => Current := by
  refine .bind (holds_get closed_current) fun c => .bind (Q := fun _ => Current) ?_ fun _ =>
    .bind fetchLease_holds fun p => ?_
  · unfold ifPresent
    split
    · exact holds_pure closed_current fun _ h => h.1
    · exact recoverSession_holds.weaken fun _ h => h.1
  · obtain ⟨envelope, lease⟩ := p
    refine .bind (holds_get closed_fetched) fun c => ?_
    split
    · exact .pure closed_fetched.stable fun w h => h.1
    · refine .bind (recoverSession_holds.weaken fun _ h => h.1.1) fun _ => .bind fetchLease_holds fun p => ?_
      obtain ⟨envelope, lease⟩ := p
      refine .bind (failIf_holds closed_fetched ?_) fun _ => .pure closed_fetched.stable fun w h => h
      exact fun _ h => h.1

/-- The check of a fetched lease against the recovery state. -/
theorem validate_holds {c : Runtime} : (client env offered).toSurroundings.Holds (Acts env)
    (Since (fun w => Current w ∧ Fetched st envelope lease w.2) c) (lift (validateRecovery c.recovery lease))
    (fun _ => Vetted st envelope lease) fun _ => Current := by
  refine (Surroundings.Holds.lift (closed_fetched.since c).stable).mono (fun _ => id) (fun _ w h => ?_)
    fun _ _ h => h.2.1.1
  exact ⟨h.2.1.1, h.2.1.2, h.2.2.2.validateRecovery.trans h.1⟩

theorem observe_holds : (client env offered).toSurroundings.Holds (Acts env) (Vetted st envelope lease)
    (modify (·.observe lease.issuedAt)) (fun _ => Observed st envelope lease) E :=
  .modify closed_vetted.stable closed_observed.stable fun _ hw =>
    ⟨.settle (Runtime.observe_settles _),
      closed_vetted _ _ _ hw (Runtime.observe_settles _), le_max_right _ _⟩

theorem Runtime.Current.adopt {c : Runtime} (hc : c.Current) (b : Bool) :
    (c.adopt envelope lease b).Current := by
  have h : ∀ r, (c.adopt envelope lease b).recovery = some r → r.appliedSequence = c.persisted ∧
      r.PendingApplied := by
    intro r hr
    cases hr
    cases hr : c.recovery with
    | none => exact ⟨(hc.fresh hr).symm, (fun _ h => nomatch h), fun _ h => nomatch h⟩
    | some r => exact ⟨hc.saved r hr, (hc.pending r hr).lock, (hc.pending r hr).ack⟩
  exact ⟨(fun hn => nomatch hn), fun r hr => (h r hr).1, fun r hr => (h r hr).2⟩

/-- Taking the lease over, as every exchange does it. -/
theorem adopt_holds (hst : env.stationId = some st) (b : Runtime → Bool) :
    (client env offered).toSurroundings.Holds (Does env k) (Observed st envelope lease)
      (modify fun c => c.adopt envelope lease (b c)) (fun _ w => Current w ∧ Holding lease w) E := by
  refine .modify closed_observed.stable (closed_current.and closed_holding).stable fun w hw => ?_
  exact ⟨.adopt (b w.1) hst hw.1.fetched.verified hw.1.fetched.mem hw.1.valid hw.2,
    hw.1.current.adopt _, _, rfl, rfl⟩

/-! ### `Refresh` -/

theorem installPolicy_holds {signed : SignedStationPolicy} :
    (client env offered).toSurroundings.Holds (Acts env) Current (installPolicy st signed)
      (fun _ => Current) fun _ => Current := by
  refine .bind (Q := fun _ => Current) ?_ fun result => ?_
  · refine .stateful closed_current.stable (fun _ => closed_current.stable) fun w hw => ?_
    have h := w.1.applyPolicy_settles st signed
    exact ⟨.settle h, closed_current _ _ _ hw h⟩
  · exact (Surroundings.Holds.lift closed_current.stable).mono (fun _ => id) (fun _ _ h => h.2) fun _ _ h =>
      h.2

theorem applyLease_holds :
    (client env offered).toSurroundings.Holds (Acts env) Current (modify (·.applyLease lease))
      (fun _ => Current) E := holds_settle closed_current fun _ => Runtime.applyLease_settles

theorem validateUpdate_holds :
    (client env offered).toSurroundings.Holds (Acts env) (Observed st envelope lease)
      (lift (validateUpdate lease)) (fun _ => Observed st envelope lease) fun _ => Current :=
  (Surroundings.Holds.lift closed_observed.stable).mono (fun _ => id) (fun _ _ h => h.2)
    fun _ _ h => h.2.1.current

theorem exchange_holds (hst : env.stationId = some st) :
    (client env offered).toSurroundings.Holds (Does env k) Current (exchange env st)
      (fun _ => Current) fun _ => Current := by
  refine .bind (holds_act (holds_send closed_current fun a _ => by cases a <;> rfl)) fun signed =>
    .bind (holds_act installPolicy_holds) fun _ => .bind (holds_act settledLease_holds) fun p => ?_
  obtain ⟨envelope, lease⟩ := p
  refine .bind (holds_act (holds_get closed_fetched)) fun c => .bind (holds_act validate_holds) fun _ =>
    .bind (holds_act observe_holds) fun _ => .bind (holds_act (holds_get closed_observed)) fun c =>
    .bind (Q := fun _ => Observed st envelope lease)
      (holds_act ((failIf_holds closed_observed ?_).weaken fun _ h => h.1)) fun _ =>
    .bind (holds_act validateUpdate_holds) fun _ =>
      .bind ((adopt_holds hst _).mono (fun _ => id) (fun _ _ h => h.1) fun _ _ h => h) fun _ => ?_
  · exact fun _ h => h.1.current
  · exact .bind (holds_act (reconcileCommands_holds hst)) fun _ => .bind (holds_act applyLease_holds) fun _ =>
      .bind (holds_act ackPendingLock_holds) fun _ => holds_act holds_save

theorem tick_holds : (client env offered).toSurroundings.Holds (Acts env) Current (modify (·.tick env))
    (fun _ => Current) E := holds_settle closed_current fun _ => Runtime.tick_settles

theorem lockLocal_holds : (client env offered).toSurroundings.Holds (Acts env) Current (modify (·.lockLocal))
    (fun _ => Current) E := holds_settle closed_current fun _ => Runtime.lockLocal_settles

theorem failed_holds (e : Option String) : (client env offered).toSurroundings.Holds (Acts env) Current
    (modify fun c => { c with errorCode := e }.lockLocal) (fun _ => Current) E :=
  holds_settle closed_current fun _ => (Runtime.errorCode_settles e).trans Runtime.lockLocal_settles

theorem errorCode_holds (e : Option String) : (client env offered).toSurroundings.Holds (Acts env) Current
    (modify fun c => { c with errorCode := e }) (fun _ => Current) E :=
  holds_settle closed_current fun _ => Runtime.errorCode_settles e

theorem refreshFailed_holds (e : Exn) : (client env offered).toSurroundings.Holds (Acts env) Current
    (refreshFailed env e) (fun _ => Current) fun _ => Current := by
  unfold refreshFailed
  split
  · refine .bind (Q := fun _ => Current)
      (.ite (fun _ => .bind (Q := fun _ => Current) ?_ fun _ => lockLocal_holds) fun _ =>
      holds_pure closed_current fun _ => id) fun _ => .bind (errorCode_holds _) fun _ =>
        .bind tick_holds fun _ => holds_save
    exact holds_settle closed_current fun _ => .of_eq rfl rfl rfl id id rfl le_rfl
  · exact .bind (errorCode_holds _) fun _ => .bind tick_holds fun _ => holds_save
  · exact .bind (failed_holds _) fun _ => holds_save
  · exact .bind (failed_holds _) fun _ => holds_save
  all_goals first
    | exact .bind (failed_holds _) fun _ => holds_save
    | exact holds_throw closed_current fun _ => id

theorem reportError_holds : (client env offered).toSurroundings.Holds (Acts env) Current (reportError env)
    (fun _ => Current) fun _ => Current := by
  refine .bind (holds_get closed_current) fun c => .ite (fun _ => ?_) fun _ =>
    holds_pure closed_current fun _ h => h.1
  refine .tryCatch (E := fun _ => Current)
    ((sendHeartbeat_holds closed_current).weaken fun _ h => h.1) fun e => ?_
  split
  all_goals first
    | exact holds_pure closed_current fun _ => id
    | exact holds_throw closed_current fun _ => id

theorem refresh_holds : (client env offered).toSurroundings.Holds (Does env k) Current (refresh env)
    (fun _ => Current) fun _ => Current := by
  unfold refresh
  split
  · exact .bind (holds_act (errorCode_holds _)) fun _ => holds_act tick_holds
  · rename_i st hst
    refine .thenFinally (.tryCatch (E := fun _ => Current) ?_ fun e => holds_act (refreshFailed_holds e))
      (.thenFinally (holds_act reportError_holds) (holds_act tick_holds))
    refine .bind (holds_act tick_holds) fun _ => .bind (holds_act (ensureToken_holds closed_current)) fun _ =>
      .bind (holds_act (holds_get closed_current)) fun c =>
        .bind (Q := fun _ => Current) (.ite (fun _ => ?_) fun _ => ?_) fun _ =>
      .bind (Q := fun _ => Current)
        (holds_act (holds_settle closed_current fun _ => Runtime.reconciliationError_settles)) fun _ =>
      holds_act (sendHeartbeat_holds closed_current)
    · exact (exchange_holds hst).weaken fun _ h => h.1
    · exact .pure closed_current.stable fun _ h => h.1

/-! ### Local requests -/

namespace Runtime

variable (c : Runtime)

@[simp] theorem unlock_view : c.unlock.view = c.view := setSessionActive_view _

@[simp] theorem unlock_recovery : c.unlock.recovery = c.recovery := setSessionActive_recovery _

@[simp] theorem unlock_snapshots : c.unlock.snapshots = c.snapshots := setSessionActive_snapshots _

@[simp] theorem unlock_commandGap : c.unlock.commandGap = c.commandGap := setSessionActive_commandGap _

@[simp] theorem unlock_maintenance : c.unlock.maintenance = c.maintenance := setSessionActive_maintenance _

theorem unlock_trusted_le : c.trusted ≤ c.unlock.trusted := le_add_of_nonneg_right (Int.natCast_nonneg _)

/-- The outcomes of the last block of a login. -/
theorem enter_cases (result : CustomerSession) (lease : SessionLease) :
    c.Settles (c.enter result lease).2 ∨
      c.mayEnter result lease ∧ ¬ lease.mustLock c.unlock.trusted ∧
        (c.enter result lease).2 = (c.unlock.welcome result).saveRecovery := by
  unfold enter
  by_cases hm : c.mayEnter result lease
  · by_cases ht : lease.mustLock c.unlock.trusted
    · rw [if_neg (not_not.2 hm), if_pos ht]
      have h : c.unlock.Settles c.unlock.lockLocal := lockLocal_settles
      refine .inl ⟨fun ha => absurd ha lockLocal_view, ?_, h.snapshots.trans c.unlock_snapshots,
        c.unlock_trusted_le.trans h.trusted⟩
      have hr := h.recovery
      rwa [unlock_recovery, unlock_view] at hr
    · rw [if_neg (not_not.2 hm), if_neg ht]
      exact .inr ⟨hm, ht, rfl⟩
  · rw [if_pos hm]
    exact .inl .rfl

variable {c}

theorem Current.enter (hc : c.Current) (result : CustomerSession) : (c.enter result lease).2.Current := by
  rcases c.enter_cases result lease with h | ⟨-, -, h⟩
  · exact h.current hc
  · rw [h]
    have hpers : c.unlock.persisted = c.persisted := by rw [persisted, unlock_snapshots, persisted]
    have hu : c.unlock.Current :=
      ⟨fun hn => hpers.trans (hc.fresh (c.unlock_recovery ▸ hn)), fun r hr =>
        hpers ▸ hc.saved r (c.unlock_recovery ▸ hr), fun r hr => hc.pending r (c.unlock_recovery ▸ hr)⟩
    have hw :=
      hu.update (f := fun r => { r with locallyLocked := false }) (fun _ => rfl) (fun _ _ => id) fun _ _ => id
    exact saveRecovery_current (c := c.unlock.welcome result) hw.fresh hw.pending

end Runtime

/-- The login, which alone may enter. -/
theorem login_holds (hst : env.stationId = some st) (hk : k.IsLogin) (email password : String) :
    (client env offered).toSurroundings.Holds (Does env k) Current (login st email password)
      (fun _ => Current) fun _ => Current := by
  refine .bind (holds_act (holds_send closed_current fun a _ => by cases a <;> rfl)) fun result =>
    .bind (holds_act (holds_settle closed_current fun _ => Runtime.observe_settles _)) fun _ =>
    .bind (holds_act fetchLease_holds) fun p => ?_
  obtain ⟨envelope, lease⟩ := p
  refine .bind (holds_act (holds_get closed_fetched)) fun c => .bind (holds_act validate_holds) fun _ =>
    .bind (Q := fun _ => Vetted st envelope lease) (holds_act (failIf_holds closed_vetted ?_)) fun _ =>
    .bind (holds_act observe_holds) fun _ => .bind (adopt_holds hst _) fun _ =>
    .bind ((holds_act ((reconcileCommands_holds hst).frame closed_holding.stable fun _ _ =>
      Holding.acts)).mono (fun _ => id) (fun _ _ => id) fun _ _ h => h.1) fun _ =>
    .bind (Q := fun _ w => Current w ∧ Holding lease w) (holds_act
      (holds_settle (closed_current.and closed_holding) fun _ => Runtime.applyLease_settles)) fun _ => ?_
  · exact fun _ h => h.current
  · refine .stateful (closed_current.and closed_holding).stable
      (fun _ => closed_current.stable) fun w hw => ?_
    obtain ⟨hc, r, hr, rfl⟩ := hw
    exact ⟨.enter hk hr hc, hc.enter result⟩

theorem logout_holds (hst : env.stationId = some st) (s : UUID) :
    (client env offered).toSurroundings.Holds (Does env k) Current (logout env st s)
      (fun _ => Current) fun _ => Current := by
  refine .bind (holds_act lockLocal_holds) fun _ =>
    .bind (holds_act (holds_send closed_current fun a _ => by cases a <;> rfl)) fun _ =>
      .bind (holds_act fetchLease_holds) fun p => ?_
  obtain ⟨envelope, lease⟩ := p
  refine .bind (holds_act (holds_get closed_fetched)) fun c => .bind (holds_act validate_holds) fun _ =>
    .ite (fun _ => .pure closed_current.stable fun _ h => h.current) fun _ =>
      .bind (holds_act observe_holds) fun _ =>
    .bind ((adopt_holds hst _).mono (fun _ => id) (fun _ _ h => h.1) fun _ _ h => h) fun _ => ?_
  exact .bind (holds_act (reconcileCommands_holds hst)) fun _ => .bind (holds_act applyLease_holds) fun _ =>
    .bind (holds_act ackPendingLock_holds) fun _ => .bind (holds_act holds_save) fun _ =>
      .pure closed_current.stable fun _ => id

theorem handleFailed_holds (e : Exn) :
    (client env offered).toSurroundings.Holds (Acts env) Current (handleFailed env e)
      (fun _ => Current) fun _ => Current := by
  unfold handleFailed
  split
  all_goals first
    | exact .bind tick_holds fun _ => holds_pure closed_current fun _ => id
    | exact .bind lockLocal_holds fun _ => holds_pure closed_current fun _ => id
    | exact holds_throw closed_current fun _ => id

/-- A request other than a login enters nothing; a login with both credentials may. -/
theorem serve_holds (hst : env.stationId = some st) {request : LocalRequest} (administrator : Bool)
    (lo : Option UUID) : (client env offered).toSurroundings.Holds
      (Does env (.handle request administrator)) Current (serve env st request lo)
        (fun _ => Current) fun _ => Current := by
  refine .bind (holds_act (holds_get closed_current)) fun c => ?_
  split
  · refine .ite (fun _ => ?_) fun _ => .pure closed_current.stable fun _ h => h.1
    exact (login_holds hst ⟨_, _, _, rfl⟩ _ _).weaken fun _ h => h.1
  · refine .ite (fun _ => .pure closed_current.stable fun _ h => h.1) fun _ =>
      .ite (fun _ => .pure closed_current.stable fun _ h => h.1) fun _ =>
        .throw closed_current.stable fun _ h => h.1
  · exact (logout_holds hst _).weaken fun _ h => h.1
  · exact .pure closed_current.stable fun _ h => h.1

theorem handleRequest_holds (hst : env.stationId = some st) (request : LocalRequest) (administrator : Bool) :
    (client env offered).toSurroundings.Holds (Does env (.handle request administrator)) Current
      (handleRequest env st request) (fun _ => Current) fun _ => Current := by
  refine .bind (holds_act tick_holds) fun _ => .bind (holds_act (holds_get closed_current)) fun c =>
    .ite (fun _ => .pure closed_current.stable fun _ h => h.1) fun _ =>
    .bind (Q := fun _ => Current) (.ite (fun _ => ?_) fun _ => .pure closed_current.stable fun _ h => h.1)
      fun _ =>
    .bind (holds_act (ensureToken_holds closed_current)) fun _ => serve_holds hst administrator _
  exact .bind (holds_act (lockLocal_holds.weaken fun _ h => h.1)) fun _ => holds_act holds_save

theorem claimUpdate_holds : (client env offered).toSurroundings.Holds (Acts env) Current (claimUpdate env)
    (fun _ => Current) fun _ => Current := by
  refine .bind (holds_get closed_current) fun c =>
    .ite (fun _ => holds_pure closed_current fun _ h => h.1) fun _ =>
    .ite (fun _ => holds_pure closed_current fun _ h => h.1) fun _ => ?_
  split
  · exact holds_pure closed_current fun _ h => h.1
  · refine .tryCatch (E := fun _ => Current) ?_ fun e => ?_
    · refine .bind ((ensureToken_holds closed_current).weaken fun _ h => h.1) fun _ =>
        .bind (holds_get closed_current) fun c =>
        .bind ((holds_send closed_current fun a _ => by cases a <;> rfl).weaken fun _ h => h.1) fun _ => ?_
      exact holds_pure closed_current fun _ => id
    · split
      · exact holds_pure closed_current fun _ => id
      · exact holds_throw closed_current fun _ => id

theorem prepare_holds (forUpdate : Bool) : (client env offered).toSurroundings.Holds (Acts env) Current
    (prepare env forUpdate) (fun _ => Current) fun _ => Current := by
  have hlocked : Closed fun w => Current w ∧ w.1.view.mode ≠ .active :=
    closed_current.and fun _ _ _ h hs => hs.not_active h
  refine .bind (Q := fun _ => Current) (.ite (fun _ => claimUpdate_holds) fun _ =>
    holds_pure closed_current fun _ => id) fun admitted =>
    .ite (fun _ => ?_) fun _ => holds_pure closed_current fun _ => id
  refine .bind (holds_settle closed_current fun _ => Runtime.prepare_settles) fun _ =>
    .bind (Q := fun _ w => Current w ∧ w.1.view.mode ≠ .active) ?_ fun _ =>
    .bind (Q := fun _ => Current) (.ite (fun _ => ?_) fun _ => holds_pure closed_current fun _ h => h.1)
      fun _ =>
      holds_pure closed_current fun _ => id
  · exact .modify closed_current.stable hlocked.stable fun w hw =>
      ⟨.settle Runtime.lockLocal_settles, closed_current _ _ _ hw Runtime.lockLocal_settles,
        Runtime.lockLocal_view⟩
  · refine .bind (holds_get hlocked) fun c => ?_
    unfold ifPresent
    split
    · exact holds_pure closed_current fun _ h => h.1.1
    · rename_i s hs
      obtain ⟨r, hr, hs⟩ := Option.bind_eq_some_iff.1 hs
      refine .bind (Q := fun _ => Current) ?_ fun _ => .bind holds_save fun _ => errorCode_holds _
      refine .modify (hlocked.since c).stable closed_current.stable fun w hw => ?_
      obtain ⟨r', hr', hl⟩ := hw.2.2.exists_mem hr
      refine ⟨.block hr' (by rw [hl.lease]; exact hs) hw.1.2, ?_⟩
      exact hw.1.1.update (fun _ => rfl) (fun _ _ => id) fun _ _ => id

/-- Every job keeps to `Does`. -/
theorem process_does (k : Job) :
    (client env offered).toSurroundings.Holds (Does env k) Current (process env k)
      (fun _ => Current) fun _ => Current := by
  cases k with
  | refresh => exact .bind refresh_holds fun _ => .pure closed_current.stable fun _ => id
  | shutdown =>
    refine .bind (Q := fun _ => Current) (holds_act (holds_settle closed_current fun c => ?_)) fun _ =>
      .pure closed_current.stable fun _ => id
    split
    · exact .rfl
    · exact Runtime.lockLocal_settles
  | handle request administrator =>
    refine .ite (fun _ => holds_act (prepare_holds false)) fun _ =>
      .ite (fun _ => holds_act (prepare_holds true)) fun _ => ?_
    split
    · exact .pure closed_current.stable fun _ => id
    · rename_i st hst
      exact .tryCatch (E := fun _ => Current) (handleRequest_holds hst request administrator) fun e =>
        holds_act (handleFailed_holds e)

/-! ### The restart -/

/-- The recovery state of a new process and the snapshot that it comes from. -/
structure ClientRecoveryState.TakenUp (r r' : ClientRecoveryState) : Prop where
  envelope : r'.envelope = r.envelope
  appliedSequence : r'.appliedSequence = r.appliedSequence
  pendingLockSequence : r'.pendingLockSequence = r.pendingLockSequence
  pendingLockSessionId : r'.pendingLockSessionId = r.pendingLockSessionId
  blockedSessionId : r'.blockedSessionId = r.blockedSessionId
  pendingCommandAckSequence : r'.pendingCommandAckSequence = r.pendingCommandAckSequence

/-- What a new process has taken up: the snapshot saved last, with its lease verified anew, or nothing. -/
structure Runtime.Restarted (env : ClientEnvironment) (c c' : Runtime) : Prop where
  view : c'.view.mode ≠ .active
  snapshots : c'.snapshots = c.snapshots
  recovery : (∃ r r' st, c.snapshots.head? = some r ∧ c'.recovery = some r' ∧ r.TakenUp r' ∧
    env.stationId = some st ∧
      ∀ l, r.envelope.verify st = .ok l → r'.lease = l) ∨
    c'.recovery = none ∧ (c.snapshots = [] ∨ env.stationId = none)

namespace Runtime

variable {c c' c'' : Runtime}

theorem rejectRecovery_settles : c.Settles c.rejectRecovery := (errorCode_settles _).trans lockLocal_settles

theorem recoverPolicy_settles : c.Settles (c.recoverPolicy env st) := by
  unfold recoverPolicy
  split
  · exact lockLocal_settles.trans tick_settles
  · rename_i signed _
    have h := c.applyPolicy_settles st signed
    split
    all_goals
      rename_i hp
      rw [hp] at h
    · exact h.trans (lockLocal_settles.trans tick_settles)
    · exact h.trans rejectRecovery_settles

/-- Settling after the snapshot was loaded. -/
theorem Restarted.of_settles {r r' : ClientRecoveryState} (hr : c.snapshots.head? = some r)
    (hst : env.stationId = some st) (h : c'.Settles c'') (hv : c'.view = .locked)
    (hs : c'.snapshots = c.snapshots) (hr' : c'.recovery = some r') (ht : r.TakenUp r')
    (hl : ∀ l, r.envelope.verify st = .ok l → r'.lease = l) : c.Restarted env c'' := by
  have hn : c'.view.mode ≠ .active := by rw [hv]; exact ClientMode.noConfusion
  obtain ⟨r'', hr'', hlk⟩ := h.exists_mem hr'
  refine ⟨h.not_active hn, h.snapshots.trans hs,
    .inl ⟨r, r'', st, hr, hr'', ?_, hst, fun l he => hlk.lease.trans (hl l he)⟩⟩
  exact ⟨hlk.envelope.trans ht.envelope, hlk.appliedSequence.trans ht.appliedSequence,
    hlk.pendingLockSequence.trans ht.pendingLockSequence,
    hlk.pendingLockSessionId.trans ht.pendingLockSessionId, (hlk.blocked_of_ne hn).trans
      ht.blockedSessionId, hlk.pendingCommandAckSequence.trans ht.pendingCommandAckSequence⟩

theorem restart_restarted (c : Runtime) (utcNow : Instant) : c.Restarted env (c.restart env utcNow) := by
  unfold restart recover
  split
  · rename_i hst
    exact ⟨ClientMode.noConfusion, rfl, .inr ⟨rfl, .inr hst⟩⟩
  · rename_i st hst
    split
    · rename_i hn
      have h : (c.start utcNow).Settles ((c.start utcNow).recoverPolicy env st) := recoverPolicy_settles
      refine ⟨h.not_active ClientMode.noConfusion, h.snapshots, .inr ⟨?_, .inl (List.head?_eq_none_iff.1 hn)⟩⟩
      have hr := h.recovery
      generalize ((c.start utcNow).recoverPolicy env st).recovery = o at hr ⊢
      cases hr
      rfl
    · rename_i r hr
      split
      · rename_i e he
        refine .of_settles hr hst rejectRecovery_settles rfl rfl rfl
          ⟨rfl, rfl, rfl, rfl, rfl, rfl⟩ fun l hl => ?_
        rw [he] at hl
        cases hl
      · rename_i l he
        refine .of_settles hr hst recoverPolicy_settles rfl rfl rfl
          ⟨rfl, rfl, rfl, rfl, rfl, rfl⟩ fun l' hl => ?_
        rw [he] at hl
        cases hl
        rfl

end Runtime

end GManager.Client
